import SnippetLint.Text.Bytes
import SnippetLint.Token.Template
import SnippetLint.Token.Word

/-!
String literals: marks, an opening delimiter of one or three quotes, a body in which a backslash
protects the next character, and the same delimiter again.
-/

namespace SnippetLint.Quotation

def isQuote (c : Char) : Bool := c == '\x27' || c == '\x22'

/-- The body of a literal in single quotes together with its closing quote. An unprotected line
break leaves the literal open. -/
def untilQuote (quote : Char) : List Char → Option (List Char)
  | '\\' :: '\r' :: '\n' :: cs => (untilQuote quote cs).map (['\\', '\r', '\n'] ++ ·)
  | '\\' :: c :: cs => (untilQuote quote cs).map (['\\', c] ++ ·)
  | c :: cs =>
    if c = '\n' ∨ c = '\r' then none
    else if c = quote then some [c]
    else (untilQuote quote cs).map (c :: ·)
  | [] => none

/-- The body of a literal in triple quotes together with its closing quotes. -/
def untilTripleQuote (quote : Char) : List Char → Option (List Char)
  | '\\' :: c :: cs => (untilTripleQuote quote cs).map (['\\', c] ++ ·)
  | c :: cs =>
    if c = quote ∧ cs.take 2 = [quote, quote] then some [c, quote, quote]
    else (untilTripleQuote quote cs).map (c :: ·)
  | [] => none

/-- Why a literal has no end. -/
inductive Open where
  | single
  | triple
  deriving DecidableEq, Inhabited

/-- The literal at the front of a text that starts with a quote. -/
def munch : List Char → Except Open (List Char)
  | quote :: cs =>
    if cs.take 2 = [quote, quote] then
      match untilTripleQuote quote (cs.drop 2) with
      | some tail => .ok (quote :: quote :: quote :: tail)
      | none => .error .triple
    else
      match untilQuote quote cs with
      | some tail => .ok (quote :: tail)
      | none => .error .single
  | [] => .error .single

/-- The marks and the body of a finished literal. -/
structure Parts where
  marks : List Char
  body : List Char
  deriving DecidableEq, Inhabited

/-- Cuts a literal at its first quote. The delimiter is three bytes long if the quoted part has
room for two of them and starts with one; the body is what stands between the delimiters, if
that is a whole number of characters. -/
def Parts.ofLexeme? (lexeme : List Char) : Option Parts :=
  match lexeme.dropWhile (!isQuote ·) with
  | [] => none
  | quote :: cs =>
    let quoted := quote :: cs
    let size := Text.byteLength quoted
    let delimiter := if 6 ≤ size ∧ cs.take 2 = [quote, quote] then 3 else 1
    (Text.sliceBytes quoted delimiter (size - delimiter)).map fun body =>
      ⟨lexeme.takeWhile (!isQuote ·), body⟩

/-- Whether the marks hold a letter, in either case. -/
def Parts.hasMark (parts : Parts) (letter : Char) : Bool :=
  parts.marks.any fun c => c.toLower == letter

/-- Whether a literal is one of bytes. -/
def isBytes (lexeme : List Char) : Bool :=
  match Parts.ofLexeme? lexeme with
  | some parts => parts.hasMark 'b'
  | none => false

def isAscii (c : Char) : Bool := c.toNat < 128

/-- Bytes hold ASCII characters only, and formatted strings have well-formed fields. -/
def check (lexeme : List Char) : Except LexicalFault Unit :=
  match Parts.ofLexeme? lexeme with
  | none => .ok ()
  | some parts =>
    if parts.hasMark 'b' && !parts.body.all isAscii then .error .nonAsciiBytes
    else if parts.hasMark 'f' then
      (Template.check (parts.hasMark 'r') parts.body).mapError .template
    else .ok ()

end SnippetLint.Quotation
