import SnippetLint.Text.Position

/-!
What can be wrong with a text before its grammar is looked at.
-/

namespace SnippetLint

inductive NumberBase where
  | decimal | hexadecimal | octal | binary
  deriving DecidableEq, Inhabited

namespace NumberBase

def text : NumberBase → String
  | decimal => "decimal"
  | hexadecimal => "hexadecimal"
  | octal => "octal"
  | binary => "binary"

end NumberBase

/-- What is wrong with the replacement fields of a formatted string. -/
inductive TemplateFault where
  | singleBrace
  | expectingBrace
  | emptyExpression
  | conversion (ch : Char)
  | missingConversion
  | tooDeep
  deriving DecidableEq, Inhabited

namespace TemplateFault

def message : TemplateFault → String
  | singleBrace => "f-string: single '\x7d' is not allowed"
  | expectingBrace => "f-string: expecting '\x7d'"
  | emptyExpression => "f-string: valid expression required before '\x7d'"
  | conversion ch =>
    "f-string: invalid conversion character '" ++ ch.toString ++ "': expected 's', 'r', or 'a'"
  | missingConversion => "f-string: missing conversion character"
  | tooDeep => "f-string: expressions nested too deeply"

end TemplateFault

inductive LexicalFault where
  | unterminatedString (detectedAt : Nat)
  | unterminatedTripleQuoted (detectedAt : Nat)
  | unclosedBracket (opening : Char)
  | unmatchedBracket (closing : Char)
  | mismatchedBracket (opening closing : Char)
  | invalidCharacter (ch : Char)
  | continuationCharacter
  | unexpectedEnd
  | invalidNumber (base : NumberBase)
  | leadingZeros
  | unindentMismatch
  | inconsistentTabs
  | tooManyIndents
  | tooManyBrackets
  | template (fault : TemplateFault)
  | nonAsciiBytes
  deriving DecidableEq, Inhabited

namespace LexicalFault

/-- A code point in upper-case hexadecimal, of at least four digits. -/
def codePoint (c : Char) : String :=
  let digits := (Nat.toDigits 16 c.toNat).map Char.toUpper
  String.ofList (List.replicate (4 - digits.length) '0' ++ digits)

def message : LexicalFault → String
  | unterminatedString line => s!"unterminated string literal (detected at line {line})"
  | unterminatedTripleQuoted line =>
    s!"unterminated triple-quoted string literal (detected at line {line})"
  | unclosedBracket opening => "'" ++ opening.toString ++ "' was never closed"
  | unmatchedBracket closing => "unmatched '" ++ closing.toString ++ "'"
  | mismatchedBracket opening closing =>
    "closing parenthesis '" ++ closing.toString ++ "' does not match opening parenthesis '" ++
      opening.toString ++ "'"
  | invalidCharacter ch =>
    "invalid character '" ++ ch.toString ++ "' (U+" ++ codePoint ch ++ ")"
  | continuationCharacter => "unexpected character after line continuation character"
  | unexpectedEnd => "unexpected EOF while parsing"
  | invalidNumber base => "invalid " ++ base.text ++ " literal"
  | leadingZeros =>
    "leading zeros in decimal integer literals are not permitted; " ++
      "use an 0o prefix for octal integers"
  | unindentMismatch => "unindent does not match any outer indentation level"
  | inconsistentTabs => "inconsistent use of tabs and spaces in indentation"
  | tooManyIndents => "too many levels of indentation"
  | tooManyBrackets => "too many nested parentheses"
  | template fault => fault.message
  | nonAsciiBytes => "bytes can only contain ASCII literal characters"

/-- Whether the structure of the lines is at fault rather than a single token. -/
def isIndentation : LexicalFault → Bool
  | unindentMismatch | inconsistentTabs | tooManyIndents => true
  | _ => false

end LexicalFault

/-- A fault and the place where it is reported. -/
structure LexicalError where
  fault : LexicalFault
  position : Position
  deriving DecidableEq, Inhabited

end SnippetLint
