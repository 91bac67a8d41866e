import SnippetLint.Grammar.Parser
import SnippetLint.Grammar.Target
import SnippetLint.Tree.Arena

/-!
Builders read tokens as parsers do, and store each node in an arena as soon as its text has been
read. What they pass around are indices, and a node that turns out to be a target or a parameter of
another kind is changed where it stands. A builder that fails leaves behind what it has stored; an
attempt that is given up cuts the arena back to the size that it had before.
-/

namespace SnippetLint

/-! ## Changing stored nodes -/

/-- What marking a node as a target comes to. -/
inductive Marking where
  /-- It gets this kind. -/
  | single (kind : NodeKind)
  /-- It gets this kind, and its children are marked after it. -/
  | whole (kind : NodeKind)
  /-- It cannot be a target. -/
  | refused (what : String)
  deriving DecidableEq, Inhabited

def Target.marking (action : TargetAction) : NodeKind → Marking
  | .name id _ => .single (.name id (contextOf action))
  | .attribute attr _ => .single (.attribute attr (contextOf action))
  | .subscript _ => .single (.subscript (contextOf action))
  | .starred _ =>
    if action = .delete then .refused "starred" else .whole (.starred (contextOf action))
  | .tuple _ => .whole (.tuple (contextOf action))
  | .list _ => .whole (.list (contextOf action))
  | kind => .refused kind.describe

namespace Arena

/-- Replaces the kind of a node, if it is there. -/
def setKind (arena : Arena) (id : Nat) (kind : NodeKind) : Arena :=
  ⟨arena.nodes.modify id fun node => { node with kind }⟩

/-- Marks a node as a target, at most `fuel` levels down. An error leaves the nodes that have been
marked before as they are then. -/
def markWithin (action : TargetAction) : Nat → Nat → Arena → Except (ParseError × Arena) Arena
  | 0, _, arena => .ok arena
  | fuel + 1, id, arena =>
    match arena.get? id with
    | none => .ok arena
    | some node =>
      match Target.marking action node.kind with
      | .single kind => .ok (arena.setKind id kind)
      | .whole kind =>
        node.children.foldlM (fun arena child => markWithin action fuel child arena)
          (arena.setKind id kind)
      | .refused what => .error (⟨.invalidTarget action what, node.span.start⟩, arena)

/-- Makes a parameter one that can only be passed by position. -/
def positionalOnly (arena : Arena) (id : Nat) : Arena :=
  match arena.get? id with
  | some ⟨.parameter name _, _, _⟩ => arena.setKind id (.parameter name .positionalOnly)
  | _ => arena

end Arena

/-- How a builder ends; in both cases with the state and the arena that it stops in. -/
inductive Built (α : Type) where
  | ok (value : α) (state : ParserState) (arena : Arena)
  | fail (error : ParseError) (state : ParserState) (arena : Arena)
  deriving DecidableEq, Inhabited

def Built.arena : Built α → Arena
  | ok _ _ arena => arena
  | fail _ _ arena => arena

def Builder (α : Type) : Type := Ending → ParserState → Arena → Built α

namespace Builder
open SnippetLint.Parser (advance check eat failAt failHere here maxNesting)

instance : Monad Builder where
  pure a := fun _ state arena => .ok a state arena
  bind p f := fun ending state arena =>
    match p ending state arena with
    | .ok a next later => f a ending next later
    | .fail error next later => .fail error next later

instance : Inhabited (Builder α) := ⟨fun _ state arena => .fail default state arena⟩

/-- Reads without storing anything. -/
def read (p : Parser α) : Builder α := fun ending state arena =>
  match p ending state with
  | .ok a next => .ok a next arena
  | .fail error next => .fail error next arena

instance : MonadLift Parser Builder := ⟨read⟩

/-! ## Nodes -/

/-- Stores a node from `start` to the end of the last token taken. -/
def node (kind : NodeKind) (start : Position) (children : List Nat) : Builder Nat :=
  fun _ state arena => .ok arena.size state (arena.push ⟨kind, ⟨start, state.lastStop⟩, children⟩)

/-- Whether a stored node is a starred item. -/
def isStarred (id : Nat) : Builder Bool := fun _ state arena =>
  .ok ((arena.get? id).any (·.kind.isStarred)) state arena

/-- Marks a stored node as a target. Children are stored before their parents, so that as many
levels as there are nodes up to this one reach all that it holds. -/
def mark (action : TargetAction) (id : Nat) : Builder Nat := fun ending state arena =>
  match arena.markWithin action (id + 1) id with
  | .ok marked => .ok id state marked
  | .error (error, marked) => read (failAt error.fault error.position) ending state marked

/-- Makes stored parameters such that can only be passed by position. -/
def positionalOnly (ids : List Nat) : Builder Unit := fun _ state arena =>
  .ok () state (ids.foldl Arena.positionalOnly arena)

/-! ## Control -/

/-- Runs a builder one level deeper. -/
def nested (p : Builder α) : Builder α := fun ending state arena =>
  if maxNesting ≤ state.depth then read (failHere .tooDeeplyNested) ending state arena
  else
    match p ending { state with depth := state.depth + 1 } arena with
    | .ok a next later => .ok a { next with depth := next.depth - 1 } later
    | .fail error next later => .fail error { next with depth := next.depth - 1 } later

/-- Runs a builder and goes back to where it began if it fails or gives nothing: the state is the
one before, and the arena is cut back to the size before. -/
def speculate (p : Builder (Option α)) : Builder (Option α) := fun ending state arena =>
  match p ending state arena with
  | .ok (some a) next later => .ok (some a) next later
  | .ok none _ later | .fail _ _ later => .ok none state (later.truncate arena.size)

/-- The values of a builder run until it gives none, at most `fuel` times. -/
def manyWithin (item : Builder (Option α)) : Nat → Builder (List α)
  | 0 => pure []
  | fuel + 1 => do
    match ← item with
    | some a => return a :: (← manyWithin item fuel)
    | none => return []

/-- The values of a builder run until it gives none. -/
def many (item : Builder (Option α)) : Builder (List α) := fun ending state arena =>
  manyWithin item (state.left + 1) ending state arena

/-- Runs a step as long as it says so, at most `fuel` times, handing on a value. -/
def iterateWithin (step : σ → Builder (σ × Bool)) : Nat → σ → Builder σ
  | 0, s => pure s
  | fuel + 1, s => do
    let (s, again) ← step s
    if again then iterateWithin step fuel s else return s

/-- Runs a step as long as it says so, handing on a value. -/
def iterate (step : σ → Builder (σ × Bool)) (s : σ) : Builder σ := fun ending state arena =>
  iterateWithin step (state.left + 1) s ending state arena

/-- More items, each after a comma; a comma at which `stop` holds ends them. -/
def commaTail (stop : Parser Bool) (item : Builder α) : Builder (List α) :=
  many do
    if ← eat (.op .comma) then
      if ← stop then return none else return some (← item)
    else return none

/-- One item, or several after commas as a tuple. -/
def tupleOf (stop : Parser Bool) (item : Builder Nat) : Builder Nat := do
  let start ← here
  let first ← item
  if ← check (.op .comma) then
    let items ← commaTail stop item
    node (.tuple .load) start (first :: items)
  else return first

end Builder

end SnippetLint
