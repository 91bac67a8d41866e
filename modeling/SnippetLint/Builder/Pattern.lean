import SnippetLint.Builder.Basic
import SnippetLint.Builder.Check

/-!
Case patterns in an arena. A pattern is stored as an expression and then checked where it stands, by
a loop over a stack; the names that it captures are bound on the way.
-/

namespace SnippetLint.Builder
open SnippetLint.Parser (failAt)
open SnippetLint.Pattern (Slot)
open SnippetLint.PatternRounds (round)

/-- Runs a builder with captures allowed. -/
def withinPattern (p : Builder α) : Builder α := fun ending state arena =>
  match p ending { state with inPattern := true } arena with
  | .ok a next later => .ok a { next with inPattern := state.inPattern } later
  | .fail error next later => .fail error { next with inPattern := state.inPattern } later

/-- Checks what is on a stack, in at most `fuel` rounds. An error leaves the names that have been
bound before as they are then. -/
def checkWithin : Nat → Arena × List (Nat × Slot) → Except (ParseError × Arena) Arena
  | 0, state => .ok state.1
  | fuel + 1, state =>
    match round state with
    | .inl (.ok arena) => .ok arena
    | .inl (.error error) => .error (error, state.1)
    | .inr next => checkWithin fuel next

/-- Checks a stored pattern and binds its names. The nodes of a pattern are stored before its last
one, so that there are rounds enough for all of them and one for the stack that is left empty. -/
def bindPattern (id : Nat) : Builder Nat := fun ending state arena =>
  match checkWithin (id + 2) (arena, [(id, .pattern)]) with
  | .ok bound => .ok id state bound
  | .error (error, bound) => read (failAt error.fault error.position) ending state bound

end SnippetLint.Builder
