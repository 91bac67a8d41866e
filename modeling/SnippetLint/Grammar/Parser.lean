import SnippetLint.Grammar.Fault
import SnippetLint.Token.Stream
import SnippetLint.Tree.Basic

/-!
Parsers over tokens. A parser reads the tokens that are left and either gives a value or fails;
in both cases the state it stops in is kept. All parsers of a snippet share what stands at the
end of its tokens: the place, and the lexical fault if the text could not be read further. A
fault found there is the lexical one.

Loops run at most once per token that is left and once more.
-/

namespace SnippetLint

/-- What stands after the last token. -/
structure Ending where
  position : Position
  fault : Option LexicalFault
  deriving DecidableEq, Inhabited

structure ParserState where
  /-- The tokens that are left, without the end marker. -/
  rest : List Token
  /-- How many tokens are left. -/
  left : Nat
  /-- Where the token before them ends. -/
  lastStop : Position
  /-- How many expressions are open around the next token. -/
  depth : Nat
  /-- Whether an expression is read as a pattern. -/
  inPattern : Bool
  left_eq : left = rest.length
  deriving DecidableEq

/-- The state in which these tokens are left and nothing is open. -/
def ParserState.before (tokens : List Token) (lastStop : Position) : ParserState :=
  ⟨tokens, tokens.length, lastStop, 0, false, rfl⟩

instance : Inhabited ParserState := ⟨.before [] default⟩

inductive Outcome (α : Type) where
  | ok (value : α) (state : ParserState)
  | fail (error : ParseError) (state : ParserState)
  deriving Inhabited

def Parser (α : Type) : Type := Ending → ParserState → Outcome α

namespace Parser

instance : Monad Parser where
  pure a := fun _ state => .ok a state
  bind p f := fun ending state =>
    match p ending state with
    | .ok a next => f a ending next
    | .fail error next => .fail error next

instance : Inhabited (Parser α) := ⟨fun _ state => .fail default state⟩

/-! ## Looking at tokens -/

/-- The kind of the token `n` further. -/
def peekAt (n : Nat) : Parser TokenKind := fun _ state =>
  .ok ((state.rest[n]?.map Token.kind).getD .endMarker) state

def peek : Parser TokenKind := peekAt 0

def check (kind : TokenKind) : Parser Bool := do return (← peek) == kind

/-- Whether the next token is a name with this text. -/
def checkWord (word : String) : Parser Bool := fun _ state =>
  .ok (state.rest.head?.any fun token => token.kind == .name && token.lexeme == word) state

def atEnd : Parser Bool := fun _ state => .ok state.rest.isEmpty state

/-- Where the next token starts. -/
def here : Parser Position := fun ending state =>
  .ok (match state.rest with
    | token :: _ => token.span.start
    | [] => ending.position) state

/-- The text of the next token. -/
def lexeme : Parser String := fun _ state =>
  .ok ((state.rest.head?.map Token.lexeme).getD "") state

/-! ## Faults -/

/-- Fails at a place, or with the lexical fault if the tokens end in one and none is left. -/
def failAt (fault : GrammarFault) (position : Position) : Parser α := fun ending state =>
  match state.rest, ending.fault with
  | [], some lexical => .fail ⟨.lexical lexical, ending.position⟩ state
  | _, _ => .fail ⟨fault, position⟩ state

def failHere (fault : GrammarFault) : Parser α := do failAt fault (← here)

/-- The value, or the error as one of the parser. -/
def ofExcept : Except ParseError α → Parser α
  | .ok a => pure a
  | .error error => failAt error.fault error.position

/-! ## Taking tokens -/

/-- Takes the next token, if there is one. -/
def advance : Parser Unit := fun _ state =>
  match h : state.rest with
  | token :: rest =>
    .ok () { state with
      rest
      left := state.left - 1
      lastStop := token.span.stop
      left_eq := by simp [state.left_eq, h] }
  | [] => .ok () state

/-- Takes the next token if it is of this kind, and says whether it was. -/
def eat (kind : TokenKind) : Parser Bool := do
  if ← check kind then
    advance
    return true
  else return false

def expect (kind : TokenKind) : Parser Unit := do
  if !(← eat kind) then failHere (.expected kind.describe)

/-- Takes a token of this kind, without naming it in the fault. -/
def require (kind : TokenKind) : Parser Unit := do
  if !(← eat kind) then failHere .invalidSyntax

/-- Takes a token and gives its text. -/
def word : Parser String := do
  let text ← lexeme
  advance
  return text

def expectName : Parser String := do
  if ← check .name then word else failHere .invalidSyntax

/-! ## Trees -/

/-- A node from `start` to the end of the last token taken. -/
def node (kind : NodeKind) (start : Position) (children : List Tree) : Parser Tree :=
  fun _ state => .ok (.node kind ⟨start, state.lastStop⟩ children) state

/-- The span from `start` to the end of the last token taken. -/
def spanFrom (start : Position) : Parser Span := fun _ state => .ok ⟨start, state.lastStop⟩ state

/-! ## Control -/

/-- Expressions nest at most this deep. -/
def maxNesting : Nat := 200

/-- Runs a parser one level deeper. -/
def nested (p : Parser α) : Parser α := fun ending state =>
  if maxNesting ≤ state.depth then failHere .tooDeeplyNested ending state
  else
    match p ending { state with depth := state.depth + 1 } with
    | .ok a next => .ok a { next with depth := next.depth - 1 }
    | .fail error next => .fail error { next with depth := next.depth - 1 }

/-- Runs a parser with captures allowed. -/
def withinPattern (p : Parser α) : Parser α := fun ending state =>
  match p ending { state with inPattern := true } with
  | .ok a next => .ok a { next with inPattern := state.inPattern }
  | .fail error next => .fail error { next with inPattern := state.inPattern }

def inPattern : Parser Bool := fun _ state => .ok state.inPattern state

/-- Runs a parser and goes back to where it began if it fails or gives nothing. -/
def speculate (p : Parser (Option α)) : Parser (Option α) := fun ending state =>
  match p ending state with
  | .ok (some a) next => .ok (some a) next
  | _ => .ok none state

/-- The values of a parser run until it gives none, at most `fuel` times. -/
def manyWithin (item : Parser (Option α)) : Nat → Parser (List α)
  | 0 => pure []
  | fuel + 1 => do
    match ← item with
    | some a => return a :: (← manyWithin item fuel)
    | none => return []

/-- The values of a parser run until it gives none. -/
def many (item : Parser (Option α)) : Parser (List α) := fun ending state =>
  manyWithin item (state.left + 1) ending state

/-- Runs a step as long as it says so, at most `fuel` times, handing on a value. -/
def iterateWithin (step : σ → Parser (σ × Bool)) : Nat → σ → Parser σ
  | 0, s => pure s
  | fuel + 1, s => do
    let (s, again) ← step s
    if again then iterateWithin step fuel s else return s

/-- Runs a step as long as it says so, handing on a value. -/
def iterate (step : σ → Parser (σ × Bool)) (s : σ) : Parser σ := fun ending state =>
  iterateWithin step (state.left + 1) s ending state

/-- More items, each after a comma; a comma at which `stop` holds ends them. -/
def commaTail (stop : Parser Bool) (item : Parser α) : Parser (List α) :=
  many do
    if ← eat (.op .comma) then
      if ← stop then return none else return some (← item)
    else return none

/-- One item, or several after commas as a tuple. -/
def tupleOf (stop : Parser Bool) (item : Parser Tree) : Parser Tree := do
  let start ← here
  let first ← item
  if ← check (.op .comma) then
    let items ← commaTail stop item
    node (.tuple .load) start (first :: items)
  else return first

end Parser

end SnippetLint
