import SnippetLint.Tree.Basic

/-!
Arenas. Nodes are stored in one array and name their children by index. A tree is stored with
its children before it, from left to right; an arena built by hand may also hold cycles or name
nodes that are not there.
-/

namespace SnippetLint

/-- A node of an arena; its children are indices. -/
structure Node where
  kind : NodeKind
  span : Span
  children : List Nat
  deriving DecidableEq, Inhabited

structure Arena where
  nodes : Array Node
  deriving DecidableEq, Inhabited

namespace Arena

def empty : Arena := ⟨#[]⟩

def size (arena : Arena) : Nat := arena.nodes.size

def isEmpty (arena : Arena) : Bool := arena.nodes.isEmpty

def get? (arena : Arena) (id : Nat) : Option Node := arena.nodes[id]?

/-- Adds a node, whose index is the size before. -/
def push (arena : Arena) (node : Node) : Arena := ⟨arena.nodes.push node⟩

/-- Keeps the first `n` nodes. -/
def truncate (arena : Arena) (n : Nat) : Arena := ⟨arena.nodes.take n⟩

/-- Replaces the children of a node, if it is there. -/
def setChildren? (arena : Arena) (id : Nat) (children : List Nat) : Option Arena :=
  (arena.get? id).map fun node => ⟨arena.nodes.setIfInBounds id { node with children }⟩

/-- The span of a node; an unknown one has the empty span. -/
def span (arena : Arena) (id : Nat) : Span :=
  match arena.get? id with
  | some node => node.span
  | none => .zero

/-- How an index is shown. -/
def idText (id : Nat) : String := s!"#{id}"

mutual

/-- Stores a tree after what is stored already and gives the index of its root. -/
def store (arena : Arena) : Tree → Arena × Nat
  | .node kind span children =>
    let (arena, ids) := storeAll arena children
    let id := arena.size
    (arena.push ⟨kind, span, ids⟩, id)

def storeAll (arena : Arena) : List Tree → Arena × List Nat
  | [] => (arena, [])
  | t :: ts =>
    let (arena, id) := store arena t
    let (arena, ids) := storeAll arena ts
    (arena, id :: ids)

end

end Arena

/-- An arena with one of its nodes as the root. -/
structure RootedArena where
  arena : Arena
  root : Nat
  deriving DecidableEq, Inhabited

namespace RootedArena

def ofTree (t : Tree) : RootedArena :=
  let (arena, root) := Arena.empty.store t
  ⟨arena, root⟩

end RootedArena

end SnippetLint
