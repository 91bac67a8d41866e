import SnippetLint.Grammar.Pattern
import SnippetLint.Tree.Arena

/-!
The check of a stored pattern, round by round. A node is taken from a stack, which pairs nodes with
the slots that they are to fill; what it asks of its children is put there, and names that it
captures are bound where they stand.
-/

namespace SnippetLint

/-! ## Demands -/

namespace CasePatterns
open SnippetLint.Pattern (Slot)

/-- What a node that is checked asks for. -/
inductive Demand where
  /-- Nothing: it is only read. -/
  | read
  /-- It is a name that is captured. -/
  | capture
  /-- Its first child is a name that is captured. -/
  | captureFirst
  /-- All of its children have to fill this slot. -/
  | all (slot : Slot)
  | sequence
  | arguments
  | entries
  | refused (fault : GrammarFault)

def isAttribute : NodeKind → Bool
  | .attribute _ _ => true
  | _ => false

/-- What a node asks for where a pattern may stand, if it is neither a literal nor an attribute. -/
def openDemand (starredName : Bool) : NodeKind → Demand
  | .starred _ => if starredName then .captureFirst else .refused .invalidSyntax
  | .name _ _ => .capture
  | .binOp .bitOr => .all .pattern
  | .matchAs name => if name = "_" then .refused .wildcardTarget else .all .pattern
  | .tuple _ | .list _ => .sequence
  | .call => .arguments
  | .dict => .entries
  | _ => .refused .invalidSyntax

/-- What a node in this slot asks for. It may be a literal, or its first child may be a name. -/
def demand (slot : Slot) (literal startsName : Bool) (kind : NodeKind) : Demand :=
  if isAttribute kind then .all .dotted
  else if slot = .dotted then if kind.isName then .read else .refused .invalidSyntax
  else if literal then .read
  else if slot = .mappingKey then .refused .invalidSyntax
  else openDemand (slot = .sequenceItem && startsName) kind

end CasePatterns

namespace PatternRounds
open SnippetLint.CasePatterns
open SnippetLint.Pattern (Slot isImaginary invalid)

/-! ## Stored nodes -/

/-- The kind of a name as one that is bound. -/
def bound : NodeKind → NodeKind
  | .name id _ => .name id .store
  | kind => kind

/-- Binds a name where it stands. -/
def captureAt (arena : Arena) (id : Nat) : Arena :=
  ⟨arena.nodes.modify id fun node => { node with kind := bound node.kind }⟩

def captureAll (arena : Arena) (ids : List Nat) : Arena := ids.foldl captureAt arena

def numberOf : NodeKind → Option String
  | .constant (.number text) => some text
  | _ => none

def numberAt (arena : Arena) (id : Nat) : Option String :=
  (arena.get? id).bind fun node => numberOf node.kind

def signedNumberAt (arena : Arena) (id : Nat) : Option String :=
  match arena.get? id with
  | some ⟨.unaryOp .minus, _, [operand]⟩ => numberAt arena operand
  | _ => numberAt arena id

def isLiteralAt (arena : Arena) (id : Nat) : Bool :=
  match arena.get? id with
  | some ⟨.constant value, _, _⟩ => value != .ellipsis
  | some ⟨.unaryOp .minus, _, _⟩ => (signedNumberAt arena id).isSome
  | some ⟨.binOp .add, _, [real, imaginary]⟩ | some ⟨.binOp .sub, _, [real, imaginary]⟩ =>
    (signedNumberAt arena real).any (!isImaginary ·) && (numberAt arena imaginary).any isImaginary
  | _ => false

def isNameAt (arena : Arena) (id : Nat) : Bool := (arena.get? id).any (·.kind.isName)

def isStarredAt (arena : Arena) (id : Nat) : Bool := (arena.get? id).any (·.kind.isStarred)

def isUnpackAt (arena : Arena) (id : Nat) : Bool := (arena.get? id).any (·.kind == .dictUnpack)

def isWildcardAt (arena : Arena) (id : Nat) : Bool :=
  match arena.get? id with
  | some ⟨.name name _, _, _⟩ => name == "_"
  | _ => false

/-- A sequence has at most one starred item. -/
def checkItems (arena : Arena) (ids : List Nat) : Except ParseError Unit :=
  match ids.filter (isStarredAt arena) with
  | _ :: second :: _ => invalid (arena.span second).start
  | _ => .ok ()

/-! ## Rounds -/

/-- What an argument of a class pattern puts on the stack. -/
def argumentAt (id : Nat) (node : Node) : Except ParseError (List (Nat × Slot)) :=
  match node.kind with
  | .keyword (some _) => .ok (node.children.map (·, .pattern))
  | .keyword none | .starred _ | .generatorExp => invalid node.span.start
  | _ => .ok [(id, .pattern)]

def argumentsAt (arena : Arena) : List Nat → Except ParseError (List (Nat × Slot))
  | [] => .ok []
  | id :: ids =>
    match arena.get? id with
    | none => argumentsAt arena ids
    | some node => do
      let first ← argumentAt id node
      let pushed ← argumentsAt arena ids
      return first ++ pushed

def classAt (arena : Arena) : List Nat → Except ParseError (List (Nat × Slot))
  | [] => .ok []
  | callee :: ids => do
    let pushed ← argumentsAt arena ids
    return (callee, .dotted) :: pushed

/-- What the entries of a mapping put on the stack. A name that takes the rest is bound at once. -/
def entriesAt (arena : Arena) : List Nat → Except ParseError (Arena × List (Nat × Slot))
  | [] => .ok (arena, [])
  | [entry] =>
    if isUnpackAt arena entry then
      match (arena.get? entry).bind (·.children.head?) with
      | some target =>
        if isNameAt arena target && !isWildcardAt arena target then
          .ok (captureAt arena target, [])
        else invalid (arena.span entry).start
      | none => invalid (arena.span entry).start
    else .ok (arena, [(entry, .mappingKey)])
  | key :: value :: rest =>
    if isUnpackAt arena key then invalid (arena.span key).start
    else do
      let (after, pushed) ← entriesAt arena rest
      return (after, (key, .mappingKey) :: (value, .pattern) :: pushed)

/-- The arena after a demand of a node, and what the demand puts on the stack. -/
def answer (arena : Arena) (id : Nat) (node : Node) :
    Demand → Except ParseError (Arena × List (Nat × Slot))
  | .read => .ok (arena, [])
  | .capture => .ok (captureAt arena id, [])
  | .captureFirst => .ok (captureAll arena (node.children.take 1), [])
  | .all slot => .ok (arena, node.children.map (·, slot))
  | .sequence => do
    checkItems arena node.children
    return (arena, node.children.map (·, .sequenceItem))
  | .arguments => do
    let pushed ← classAt arena node.children
    return (arena, pushed)
  | .entries => entriesAt arena node.children
  | .refused fault => .error ⟨fault, node.span.start⟩

/-- Checks one node; one that is not there is passed over. -/
def step (arena : Arena) (id : Nat) (slot : Slot) :
    Except ParseError (Arena × List (Nat × Slot)) :=
  match arena.get? id with
  | none => .ok (arena, [])
  | some node =>
    answer arena id node
      (demand slot (isLiteralAt arena id) (node.children.head?.any (isNameAt arena)) node.kind)

/-- One round of the check, on an arena and a stack whose top is its end. -/
def round (state : Arena × List (Nat × Slot)) :
    Except ParseError Arena ⊕ Arena × List (Nat × Slot) :=
  match state.2.getLast? with
  | none => .inl (.ok state.1)
  | some (id, slot) =>
    match step state.1 id slot with
    | .error error => .inl (.error error)
    | .ok (after, pushed) => .inr (after, state.2.dropLast ++ pushed)

end PatternRounds

end SnippetLint
