import SnippetLint.Token.Fault
import SnippetLint.Token.Word

/-!
Numeric literals. A digit part has single underscores between its digits; an integer in another
base has a mark before its digits; a decimal one may have a point, an exponent and an imaginary
unit. What is taken is always the longest text that fits, and it must not run into a word other
than an operator keyword.
-/

namespace SnippetLint.Number

/-- The digits that continue a digit part, each with at most one underscore before it, and what
follows them. -/
def digitTail (isDigit : Char → Bool) : List Char → List Char × List Char
  | '_' :: c :: cs =>
    if isDigit c then
      let (taken, rest) := digitTail isDigit cs
      ('_' :: c :: taken, rest)
    else ([], '_' :: c :: cs)
  | c :: cs =>
    if isDigit c then
      let (taken, rest) := digitTail isDigit cs
      (c :: taken, rest)
    else ([], c :: cs)
  | [] => ([], [])

/-- The digit part at the front of a text, which is empty if no digit comes first. -/
def digitPart (isDigit : Char → Bool) : List Char → List Char × List Char
  | c :: cs =>
    if isDigit c then
      let (taken, rest) := digitTail isDigit cs
      (c :: taken, rest)
    else ([], c :: cs)
  | [] => ([], [])

/-- The next character, if it satisfies `p`. -/
def optional (p : Char → Bool) : List Char → List Char × List Char
  | c :: cs => if p c then ([c], cs) else ([], c :: cs)
  | [] => ([], [])

def isDecimal (c : Char) : Bool := c.isDigit

def isOctal (c : Char) : Bool := '0' ≤ c && c ≤ '7'

def isBinary (c : Char) : Bool := c == '0' || c == '1'

def isHexadecimal (c : Char) : Bool :=
  c.isDigit || ('a' ≤ c && c ≤ 'f') || ('A' ≤ c && c ≤ 'F')

/-- The base that the letter after a leading zero selects, with its digits. -/
def baseOf? (mark : Char) : Option (NumberBase × (Char → Bool)) :=
  match mark with
  | 'x' | 'X' => some (.hexadecimal, isHexadecimal)
  | 'o' | 'O' => some (.octal, isOctal)
  | 'b' | 'B' => some (.binary, isBinary)
  | _ => none

/-- Keywords that may follow a number directly. -/
def operatorWords : List (List Char) :=
  ["and", "else", "for", "if", "in", "is", "not", "or"].map String.toList

/-- Whether the text after a number continues it by a word that is no operator keyword. -/
def runsIntoWord (rest : List Char) : Bool :=
  let word := Word.munch rest
  !word.isEmpty && !operatorWords.contains word

def isExponentMark (c : Char) : Bool := c == 'e' || c == 'E'

def isSign (c : Char) : Bool := c == '+' || c == '-'

/-- The exponent at the front of a text: a mark, an optional sign and a digit part. Without a
digit there is no exponent. -/
def exponentPart (cs : List Char) : List Char × List Char :=
  let (mark, afterMark) := optional isExponentMark cs
  let (sign, afterSign) := optional isSign afterMark
  let (digits, rest) := digitPart isDecimal afterSign
  if mark.isEmpty || digits.isEmpty then ([], cs) else (mark ++ sign ++ digits, rest)

def isImaginaryUnit (c : Char) : Bool := c == 'j' || c == 'J'

/-- A leading zero is only allowed if every digit is zero. -/
def hasLeadingZeros (digits : List Char) : Bool :=
  digits.head? == some '0' && digits.any fun c => c.isDigit && c != '0'

/-- A decimal literal at the front of a text. -/
def decimal (cs : List Char) : Except LexicalFault (List Char) :=
  let (whole, afterWhole) := digitPart isDecimal cs
  let (point, afterPoint) := optional (· == '.') afterWhole
  let (fraction, afterFraction) :=
    if point.isEmpty then ([], afterPoint) else digitPart isDecimal afterPoint
  let (exponent, afterExponent) := exponentPart afterFraction
  let (unit, rest) := optional isImaginaryUnit afterExponent
  if runsIntoWord rest then .error (.invalidNumber .decimal)
  else if point.isEmpty && exponent.isEmpty && unit.isEmpty && hasLeadingZeros whole then
    .error .leadingZeros
  else .ok (whole ++ point ++ fraction ++ exponent ++ unit)

/-- The digits of a literal after its base mark, with at most one underscore in front. -/
def based (base : NumberBase) (isDigit : Char → Bool) (cs : List Char) :
    Except LexicalFault (List Char) :=
  let (gap, afterGap) := optional (· == '_') cs
  let (digits, rest) := digitPart isDigit afterGap
  if digits.isEmpty || runsIntoWord rest then .error (.invalidNumber base)
  else .ok (gap ++ digits)

/-- The numeric literal at the front of a text that starts with a digit, or with a point and a
digit. -/
def munch (cs : List Char) : Except LexicalFault (List Char) :=
  match cs with
  | '0' :: mark :: rest =>
    match baseOf? mark with
    | some (base, isDigit) => do
      let digits ← based base isDigit rest
      return '0' :: mark :: digits
    | none => decimal cs
  | _ => decimal cs

/-- Whether a text starts with a number. -/
def starts : List Char → Bool
  | c :: cs => isDecimal c || (c == '.' && cs.head?.any isDecimal)
  | [] => false

end SnippetLint.Number
