import SnippetLint.Text.Cursor
import SnippetLint.Token.Basic
import SnippetLint.Token.Layout
import SnippetLint.Token.Number
import SnippetLint.Token.Quotation

/-!
The token stream of a snippet. A lexer holds what is still to be read, the open blocks and
brackets, and where it stands in its line; each step gives the next tokens, ends the stream or
fails. The stream holds the tokens before the first error, comments and line breaks included.
-/

namespace SnippetLint

structure TokenStream where
  tokens : List Token
  error : Option LexicalError
  deriving DecidableEq, Inhabited

/-- A token's kind and lexeme, before it has a place. -/
structure Lexeme where
  kind : TokenKind
  chars : List Char
  deriving DecidableEq, Inhabited

namespace Lexeme

/-- The operator at the front of a text. -/
def operator (cs : List Char) : Except LexicalFault Lexeme :=
  match Operator.table.find? fun (spelling, _) => spelling.toList.isPrefixOf cs with
  | some (spelling, sign) => .ok ⟨.op sign, spelling.toList⟩
  | none =>
    match cs with
    | c :: _ => .error (.invalidCharacter c)
    | [] => .error .unexpectedEnd

/-- The string literal whose marks have been read and whose opening quote comes next, when the
literal starts at `start`. One without an end names a line: in triple quotes the last one, where the
end was missed, and in single quotes the one on which it starts. -/
def quotation (start : Cursor) (marks cs : List Char) : Except LexicalFault Lexeme :=
  match Quotation.munch cs with
  | .error .single => .error (.unterminatedString start.position.line)
  | .error .triple => .error (.unterminatedTripleQuoted start.toEnd.position.line)
  | .ok quoted => do
    Quotation.check (marks ++ quoted)
    return ⟨.string, marks ++ quoted⟩

/-- The word at the cursor, or the string literal that it marks. -/
def word (start : Cursor) : Except LexicalFault Lexeme :=
  let word := Word.munch start.rest
  let rest := start.rest.drop word.length
  if Word.isStringMark word && rest.head?.any Quotation.isQuote then quotation start word rest
  else .ok ⟨Word.kind word, word⟩

/-- The lexeme at the cursor, where neither white space nor a comment, a line break or a
backslash comes next. -/
def munch (start : Cursor) : Except LexicalFault Lexeme :=
  if start.peek.any Quotation.isQuote then quotation start [] start.rest
  else if Number.starts start.rest then do
    let number ← Number.munch start.rest
    return ⟨.number, number⟩
  else if start.peek.any Word.isStart then word start
  else operator start.rest

end Lexeme

/-- An open bracket and its place. -/
structure Bracket where
  sign : Char
  position : Position
  deriving DecidableEq, Inhabited

namespace Bracket

/-- Brackets nest at most this deep. -/
def maxDepth : Nat := 200

def isOpening (c : Char) : Bool := c == '(' || c == '[' || c == '\x7b'

def isClosing (c : Char) : Bool := c == ')' || c == ']' || c == '\x7d'

def partner (opening : Char) : Char :=
  if opening = '(' then ')' else if opening = '[' then ']' else '\x7d'

/-- The open brackets, innermost first, after a lexeme that starts with `c` at `position`. -/
def update (c : Char) (position : Position) (brackets : List Bracket) :
    Except LexicalFault (List Bracket) :=
  if isOpening c then
    if maxDepth ≤ brackets.length then .error .tooManyBrackets
    else .ok (⟨c, position⟩ :: brackets)
  else if isClosing c then
    match brackets with
    | [] => .error (.unmatchedBracket c)
    | top :: outer =>
      if partner top.sign = c then .ok outer else .error (.mismatchedBracket top.sign c)
  else .ok brackets

end Bracket

structure Lexer where
  cursor : Cursor
  /-- The open blocks, innermost first. -/
  blocks : List Indentation
  /-- The open brackets, innermost first. -/
  brackets : List Bracket
  /-- Whether the indentation of the line is still to be measured. -/
  atLineStart : Bool
  /-- Whether the logical line has a token yet. -/
  lineHasContent : Bool
  deriving DecidableEq, Inhabited

namespace Lexer

def ofText (s : String) : Lexer := ⟨.ofText s, [], [], true, false⟩

/-- What one step gives. -/
inductive Step where
  | emit (tokens : List Token) (next : Lexer)
  | finish (tokens : List Token)
  | fail (error : LexicalError)
  deriving DecidableEq, Inhabited

/-- The token of `n` characters at the cursor. -/
def take (cursor : Cursor) (kind : TokenKind) (n : Nat) : Token :=
  ⟨kind, String.ofList (cursor.rest.take n), (cursor.skip n).spanFrom cursor.position⟩

/-- A token without text. -/
def mark (kind : TokenKind) (position : Position) : Token := ⟨kind, "", .point position⟩

/-- Measures the indentation of a line. Lines that are blank or hold a comment only do not
change the open blocks. -/
def indentStep (tabSize : Nat) (lexer : Lexer) : Step :=
  let start := lexer.cursor
  let gap := start.rest.takeWhile Indentation.isGap
  let here := start.skip gap.length
  let next := { lexer with cursor := here, atLineStart := false }
  match here.rest with
  | [] => .emit [] next
  | c :: _ =>
    if c = '#' ∨ c = '\n' ∨ c = '\r' then .emit [] next
    else
      let indentation := Indentation.measure tabSize gap
      match Indentation.compare indentation lexer.blocks with
      | .ok .same => .emit [] next
      | .ok .deeper =>
        .emit [take start .indent gap.length] { next with blocks := indentation :: lexer.blocks }
      | .ok (.shallower closed remaining) =>
        .emit (List.replicate closed (mark .dedent here.position)) { next with blocks := remaining }
      | .error .tabs => .fail ⟨.inconsistentTabs, here.position⟩
      | .error .tooDeep => .fail ⟨.tooManyIndents, here.position⟩
      | .error .mismatch => .fail ⟨.unindentMismatch, here.position⟩

/-- The end of the snippet ends the line and all blocks. -/
def endStep (lexer : Lexer) (position : Position) : Step :=
  match lexer.brackets with
  | bracket :: _ => .fail ⟨.unclosedBracket bracket.sign, bracket.position⟩
  | [] =>
    .finish <|
      (if lexer.lineHasContent then [mark .newline position] else []) ++
        List.replicate lexer.blocks.length (mark .dedent position) ++ [mark .endMarker position]

/-- A line break ends the logical line if it has a token and no bracket is open. -/
def breakStep (lexer : Lexer) (here : Cursor) : Step :=
  let n := (Cursor.lineBreak here.rest).length
  let ends := lexer.brackets.isEmpty && lexer.lineHasContent
  .emit [take here (if ends then .newline else .nl) n]
    { lexer with
      cursor := here.skip n
      atLineStart := lexer.brackets.isEmpty
      lineHasContent := lexer.lineHasContent && !ends }

/-- A backslash joins the line with the next one. -/
def joinStep (lexer : Lexer) (here : Cursor) : Step :=
  match here.next.eatLineBreak? with
  | some cursor => .emit [] { lexer with cursor }
  | none =>
    if here.next.atEnd then .fail ⟨.unexpectedEnd, here.next.position⟩
    else .fail ⟨.continuationCharacter, here.position⟩

def isLineBreak (c : Char) : Bool := c == '\n' || c == '\r'

def commentStep (lexer : Lexer) (here : Cursor) : Step :=
  let n := (here.rest.takeWhile (!isLineBreak ·)).length
  .emit [take here .comment n] { lexer with cursor := here.skip n }

/-- A token of the logical line. -/
def lexemeStep (lexer : Lexer) (here : Cursor) (c : Char) : Step :=
  match Lexeme.munch here with
  | .error fault => .fail ⟨fault, here.position⟩
  | .ok lexeme =>
    match Bracket.update c here.position lexer.brackets with
    | .error fault => .fail ⟨fault, here.position⟩
    | .ok brackets =>
      let n := lexeme.chars.length
      .emit [take here lexeme.kind n]
        { lexer with cursor := here.skip n, brackets, lineHasContent := true }

/-- What comes after the white space inside a line. -/
def contentStep (lexer : Lexer) : Step :=
  let here := lexer.cursor.eatWhile Indentation.isGap
  match here.rest with
  | [] => lexer.endStep here.position
  | c :: _ =>
    if c = '\\' then lexer.joinStep here
    else if isLineBreak c then lexer.breakStep here
    else if c = '#' then lexer.commentStep here
    else lexer.lexemeStep here c

def step (tabSize : Nat) (lexer : Lexer) : Step :=
  if lexer.atLineStart && lexer.brackets.isEmpty then lexer.indentStep tabSize
  else lexer.contentStep

/-- Runs at most `fuel` steps. -/
def run (tabSize : Nat) : Nat → Lexer → TokenStream
  | 0, _ => ⟨[], none⟩
  | fuel + 1, lexer =>
    match lexer.step tabSize with
    | .emit tokens next =>
      let stream := run tabSize fuel next
      ⟨tokens ++ stream.tokens, stream.error⟩
    | .finish tokens => ⟨tokens, none⟩
    | .fail error => ⟨[], some error⟩

/-- A step either reads a character or leaves the start of a line, so a lexer needs no more
steps than this. -/
def fuel (lexer : Lexer) : Nat :=
  2 * lexer.cursor.rest.length + (if lexer.atLineStart then 1 else 0) + 1

end Lexer

namespace TokenStream

/-- The distance of tab stops. -/
def tabSize : Nat := 8

/-- The tokens of a snippet when tab stops are `tabSize` columns apart. -/
def withTabs (tabSize : Nat) (s : String) : TokenStream :=
  (Lexer.ofText s).run tabSize (Lexer.ofText s).fuel

/-- The tokens of a snippet. -/
def ofText (s : String) : TokenStream := withTabs tabSize s

end TokenStream

end SnippetLint
