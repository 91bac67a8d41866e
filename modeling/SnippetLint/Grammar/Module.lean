import SnippetLint.Grammar.Compound
import SnippetLint.Tree.Arena

/-!
Whole snippets. Comments and line breaks that end no logical line are left out before parsing. A
lexical error ends the tokens, and it is reported only if the grammar gets that far.
-/

namespace SnippetLint.Module
open SnippetLint.Parser

/-- What stands after the tokens of a stream: its error, or its end marker. -/
def endingOf (stream : TokenStream) : Ending :=
  match stream.error with
  | some error => ⟨error.position, some error.fault⟩
  | none => ⟨(stream.tokens.getLast?.map (·.span.stop)).getD .start, none⟩

/-- The tokens of a stream that the grammar sees. -/
def significant (stream : TokenStream) : List Token :=
  stream.tokens.filter fun token => !token.kind.isTrivia && token.kind != .endMarker

/-- Statements up to the end of the tokens. Blocks nest no deeper than there are tokens. -/
def statements (room : Nat) : Parser (List Tree) := do
  let statements ← many do
    if ← atEnd then return none else return some (← Compound.statement room)
  return statements.flatten

/-- All statements as one tree; the text has to be readable to its end. -/
def module (room : Nat) : Parser Tree := fun ending state =>
  (do
    let start ← here
    let statements ← statements room
    if ending.fault.isSome then failHere .invalidSyntax
    else return .node .module ⟨start, ending.position⟩ statements : Parser Tree) ending state

/-- Where the tokens of a stream are read from. -/
def initial (stream : TokenStream) : ParserState :=
  let tokens := significant stream
  let lastStop := match tokens with
    | token :: _ => token.span.stop
    | [] => (endingOf stream).position
  .before tokens lastStop

/-- The tree of a token stream. -/
def ofStream (stream : TokenStream) : Except ParseError Tree :=
  let state := initial stream
  match module (state.left + 1) (endingOf stream) state with
  | .ok t _ => .ok t
  | .fail error _ => .error error

/-- The tree of a snippet. -/
def parse (source : String) : Except ParseError Tree := ofStream (.ofText source)

end SnippetLint.Module
