import SnippetLint.Token.Stream

/-!
Tokens on demand. A feed hands out the tokens of a snippet one at a time: what a step of the lexer
has given waits until it is asked for. Once the end mark or an error has been handed out there is
nothing more.
-/

namespace SnippetLint

structure Feed where
  lexer : Lexer
  /-- Tokens that have been read and not handed out yet. -/
  pending : List Token
  finished : Bool
  deriving DecidableEq, Inhabited

namespace Feed

/-- What a feed hands out: a token, an error, or nothing any more. -/
abbrev Item := Option (Except LexicalError Token)

def ofText (s : String) : Feed := ⟨.ofText s, [], false⟩

/-- Runs the lexer until there is something to hand out, for at most `fuel` steps. -/
def pull (tabSize : Nat) : Nat → Lexer → Item × Feed
  | 0, lexer => (none, ⟨lexer, [], true⟩)
  | fuel + 1, lexer =>
    match lexer.step tabSize with
    | .emit [] next => pull tabSize fuel next
    | .emit (token :: pending) next => (some (.ok token), ⟨next, pending, false⟩)
    | .finish [] => (none, ⟨lexer, [], true⟩)
    | .finish (token :: pending) => (some (.ok token), ⟨lexer, pending, true⟩)
    | .fail error => (some (.error error), ⟨lexer, [], true⟩)

/-- Asks a feed once. -/
def next (feed : Feed) : Item × Feed :=
  match feed.pending with
  | token :: pending => (some (.ok token), { feed with pending })
  | [] =>
    if feed.finished then (none, feed) else pull TokenStream.tabSize feed.lexer.fuel feed.lexer

/-- The answer to the question that comes after `n` others. -/
def answer : Nat → Feed → Item
  | 0, feed => feed.next.1
  | n + 1, feed => answer n feed.next.2

end Feed

end SnippetLint
