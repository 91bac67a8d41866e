import SnippetLint.Text.Blank
import SnippetLint.Token.Fault

/-!
Formatted strings. Their body is text with doubled braces and replacement fields; a field holds
an expression, then optionally a conversion, then optionally a format specification, in which
fields may stand once more.
-/

namespace SnippetLint.Template

/-- Fields nest at most this deep. -/
def maxNesting : Nat := 2

def isQuote (c : Char) : Bool := c == '\x27' || c == '\x22'

def isOpening (c : Char) : Bool := c == '(' || c == '[' || c == '\x7b'

def isClosing (c : Char) : Bool := c == ')' || c == ']' || c == '\x7d'

/-- The expression of a field up to the character that ends it, which is a conversion mark, a
colon or a closing brace outside quotes and brackets. `quote` is the quote that is open, if any,
and `depth` counts the open brackets. The result holds the text outside quotes, the ending
character and what follows it. -/
def expression (quote : Option Char) (depth : Nat) :
    List Char → Except TemplateFault (List Char × Char × List Char)
  | [] => .error .expectingBrace
  | c :: cs =>
    match quote with
    | some q => expression (if c = q then none else some q) depth cs
    | none =>
      let keep (inner : Option Char) (depth : Nat) := do
        let (text, stop, rest) ← expression inner depth cs
        return (c :: text, stop, rest)
      if isQuote c then keep (some c) depth
      else if isOpening c then keep none (depth + 1)
      else if isClosing c && 0 < depth then keep none (depth - 1)
      else if depth = 0 && (c == ':' || c == '\x7d' || (c == '!' && cs.head? != some '=')) then
        .ok ([], c, cs)
      else keep none depth

/-- Whether nothing is left of an expression without blanks and one final equals sign. -/
def isBlankExpression (text : List Char) : Bool :=
  let trimmed := Text.trimEnd text
  let shown := if trimmed.getLast? = some '=' then trimmed.dropLast else trimmed
  shown.all Text.isBlank

/-- What follows the exclamation mark: the conversion letter and the character after it, which
is a colon or a closing brace. -/
def conversion : List Char → Except TemplateFault (Char × List Char)
  | [] => .error .missingConversion
  | c :: cs =>
    if c == 's' || c == 'r' || c == 'a' then
      match cs with
      | stop :: rest =>
        if stop == ':' || stop == '\x7d' then .ok (stop, rest) else .error .expectingBrace
      | [] => .error .expectingBrace
    else if c == ':' || c == '\x7d' then .error .missingConversion
    else .error (.conversion c)

/-- A format specification up to and including the brace that closes its field. `field` reads a
field whose brace has just been opened. -/
def specification (field : List Char → Except TemplateFault (List Char)) :
    Nat → List Char → Except TemplateFault (List Char)
  | fuel + 1, c :: cs =>
    if c == '\x7b' then do
      let rest ← field cs
      specification field fuel rest
    else if c == '\x7d' then .ok cs
    else specification field fuel cs
  | _, _ => .error .expectingBrace

/-- A replacement field after its opening brace, when fields may still nest `room` deep; the
result is what follows its closing brace. -/
def field : Nat → List Char → Except TemplateFault (List Char)
  | 0, _ => .error .tooDeep
  | room + 1, cs => do
    let (text, stop, rest) ← expression none 0 cs
    if isBlankExpression text then throw .emptyExpression
    let (stop, rest) ← if stop == '!' then conversion rest else pure (stop, rest)
    if stop == ':' then specification (field room) rest.length rest else return rest

/-- What follows the character after a backslash. A named character carries braces of its own,
and a brace after a backslash keeps its meaning. -/
def escape : List Char → List Char
  | 'N' :: '\x7b' :: cs => (cs.dropWhile (· != '\x7d')).drop 1
  | c :: cs => if c == '\x7b' || c == '\x7d' then c :: cs else cs
  | [] => []

/-- Checks the text of a formatted string. -/
def checkText (raw : Bool) : Nat → List Char → Except TemplateFault Unit
  | fuel + 1, c :: cs =>
    if c == '\\' && !raw then checkText raw fuel (escape cs)
    else if c == '\x7b' then
      if cs.head? = some c then checkText raw fuel (cs.drop 1)
      else do
        let rest ← field maxNesting cs
        checkText raw fuel rest
    else if c == '\x7d' then
      if cs.head? = some c then checkText raw fuel (cs.drop 1) else throw .singleBrace
    else checkText raw fuel cs
  | _, _ => .ok ()

/-- Checks the body of a formatted string; in a raw one a backslash is an ordinary character. -/
def check (raw : Bool) (body : List Char) : Except TemplateFault Unit :=
  checkText raw body.length body

end SnippetLint.Template
