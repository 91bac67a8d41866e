import SnippetLint.Tree.Arena

/-!
Walking an arena from its root in pre-order. Nodes too deep, and nodes that are not there, end
the walk; what was visited before stays visited. The walk keeps the nodes it still has to visit,
with their depth, on a stack.
-/

namespace SnippetLint

inductive WalkError where
  | depthExceeded (limit : Nat)
  | danglingNode (id : Nat)
  deriving DecidableEq, Inhabited

namespace WalkError

def message : WalkError → String
  | depthExceeded limit => s!"syntax tree nesting exceeds {limit} levels"
  | danglingNode id => "node " ++ Arena.idText id ++ " is not part of the tree"

end WalkError

/-- The nodes visited, in order, and the error that ended the walk, if any. -/
structure Walk where
  visited : List Node
  error : Option WalkError
  deriving DecidableEq, Inhabited

namespace Walk

/-- The walk that visits one node more, before the others. -/
def visit (node : Node) (walk : Walk) : Walk := { walk with visited := node :: walk.visited }

end Walk

namespace Arena

/-- The greatest number of children of a node. -/
def maxChildren (arena : Arena) : Nat :=
  arena.nodes.toList.foldr (fun node bound => max node.children.length bound) 0

/-- A bound on the visits at and below a node, when `levels` levels may be visited. -/
def visitBound (arena : Arena) : Nat → Nat
  | 0 => 1
  | levels + 1 => (arena.maxChildren + 2) * visitBound arena levels

/-- What a stack may still cost: a bound on the visits for each of its entries. -/
def weight (arena : Arena) (limit : Nat) : List (Nat × Nat) → Nat
  | [] => 0
  | (_, depth) :: stack => arena.visitBound (limit + 1 - depth) + weight arena limit stack

theorem visitBound_pos (arena : Arena) (levels : Nat) : 0 < arena.visitBound levels := by
  induction levels with
  | zero => exact Nat.one_pos
  | succ levels ih => exact Nat.mul_pos (Nat.succ_pos _) ih

theorem le_foldr_max {nodes : List Node} {node : Node} (h : node ∈ nodes) :
    node.children.length ≤ nodes.foldr (fun node bound => max node.children.length bound) 0 := by
  induction nodes with
  | nil => simp at h
  | cons first rest ih =>
    rcases List.mem_cons.1 h with rfl | h
    · exact Nat.le_max_left _ _
    · exact Nat.le_trans (ih h) (Nat.le_max_right _ _)

theorem length_le_maxChildren {arena : Arena} {id : Nat} {node : Node}
    (h : arena.get? id = some node) : node.children.length ≤ arena.maxChildren := by
  apply le_foldr_max
  have h : arena.nodes[id]? = some node := h
  exact Array.mem_toList_iff.2 (Array.mem_of_getElem? h)

theorem weight_append (arena : Arena) (limit : Nat) (s t : List (Nat × Nat)) :
    arena.weight limit (s ++ t) = arena.weight limit s + arena.weight limit t := by
  induction s with
  | nil => simp [weight]
  | cons entry s ih => simp [weight, ih, Nat.add_assoc]

theorem weight_children (arena : Arena) (limit depth : Nat) (ids : List Nat) :
    arena.weight limit (ids.map (·, depth)) =
      ids.length * arena.visitBound (limit + 1 - depth) := by
  induction ids with
  | nil => simp [weight]
  | cons id ids ih => simp [weight, ih, Nat.succ_mul, Nat.add_comm]

/-- A visit within the limit trades its entry for lighter ones. -/
theorem weight_visit_lt {arena : Arena} {limit id depth : Nat} {node : Node}
    {stack : List (Nat × Nat)} (hd : depth ≤ limit) (h : arena.get? id = some node) :
    arena.weight limit (node.children.map (·, depth + 1) ++ stack) <
      arena.weight limit ((id, depth) :: stack) := by
  have hn : limit + 1 - depth = (limit + 1 - (depth + 1)) + 1 := by omega
  have hc := length_le_maxChildren h
  rw [weight_append, weight_children, weight, hn, visitBound]
  apply Nat.add_lt_add_right
  apply Nat.mul_lt_mul_of_pos_right _ (visitBound_pos arena _)
  omega

/-- Visits what is on the stack. The root has depth one, and nodes deeper than `limit` are not
visited. -/
def walkStack (arena : Arena) (limit : Nat) (stack : List (Nat × Nat)) : Walk :=
  match stack with
  | [] => ⟨[], none⟩
  | (id, depth) :: rest =>
    if _inside : depth ≤ limit then
      match _found : arena.get? id with
      | none => ⟨[], some (.danglingNode id)⟩
      | some node => (walkStack arena limit (node.children.map (·, depth + 1) ++ rest)).visit node
    else ⟨[], some (.depthExceeded limit)⟩
termination_by arena.weight limit stack
decreasing_by exact weight_visit_lt _inside _found

end Arena

namespace RootedArena

/-- Nodes at most this deep are visited. -/
def maxDepth : Nat := 1000

def walkWithin (tree : RootedArena) (limit : Nat) : Walk :=
  tree.arena.walkStack limit [(tree.root, 1)]

def walk (tree : RootedArena) : Walk := tree.walkWithin maxDepth

end RootedArena

end SnippetLint
