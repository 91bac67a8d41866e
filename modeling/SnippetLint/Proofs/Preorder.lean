import SnippetLint.Tree.Walk

/-!
A walk over a stored tree meets its nodes in pre-order, up to the first that is too deep. Main
statement: `walk_ofTree`; the invariant of the walk is `Pending`, which reads the stack as a forest
that is still to be visited.
-/

namespace SnippetLint.Preorder

mutual

/-- The nodes of a tree in pre-order, with their depths, when the root has this depth. -/
def nodes (depth : Nat) : Tree → List (Nat × NodeKind)
  | .node kind _ children => (depth, kind) :: nodesAll (depth + 1) children

def nodesAll (depth : Nat) : List Tree → List (Nat × NodeKind)
  | [] => []
  | t :: ts => nodes depth t ++ nodesAll depth ts

end

/-! ## Stored trees -/

mutual

/-- An arena has a tree at this index. -/
def Holds (arena : Arena) : Tree → Nat → Prop
  | .node kind span children, id =>
    ∃ ids, arena.get? id = some ⟨kind, span, ids⟩ ∧ HoldsAll arena children ids

def HoldsAll (arena : Arena) : List Tree → List Nat → Prop
  | [], ids => ids = []
  | t :: ts, ids => ∃ id rest, ids = id :: rest ∧ Holds arena t id ∧ HoldsAll arena ts rest

end

/-- The nodes of one arena stand in another one at their indices. -/
def Keeps (small large : Arena) : Prop :=
  ∀ id node, small.get? id = some node → large.get? id = some node

theorem Keeps.trans {a b c : Arena} (hab : Keeps a b) (hbc : Keeps b c) : Keeps a c :=
  fun id node h => hbc id node (hab id node h)

theorem keeps_push (arena : Arena) (node : Node) : Keeps arena (arena.push node) := by
  intro id found h
  obtain ⟨hlt, hfound⟩ := Array.getElem?_eq_some_iff.1 h
  show (arena.nodes.push node)[id]? = some found
  rw [Array.getElem?_push_lt hlt, hfound]

theorem get?_push (arena : Arena) (node : Node) :
    (arena.push node).get? arena.size = some node :=
  Array.getElem?_push_size

mutual

theorem Holds.mono {small large : Arena} (h : Keeps small large) :
    ∀ {t : Tree} {id : Nat}, Holds small t id → Holds large t id
  | .node _ _ _, _, ⟨ids, hnode, hchildren⟩ => ⟨ids, h _ _ hnode, hchildren.mono h⟩

theorem HoldsAll.mono {small large : Arena} (h : Keeps small large) :
    ∀ {ts : List Tree} {ids : List Nat}, HoldsAll small ts ids → HoldsAll large ts ids
  | [], _, hids => hids
  | _ :: _, _, ⟨id, rest, hids, hfirst, hrest⟩ => ⟨id, rest, hids, hfirst.mono h, hrest.mono h⟩

end

mutual

/-- Storing a tree keeps what was stored before, and the arena then has the tree. -/
theorem store_holds (arena : Arena) : ∀ t : Tree,
    Keeps arena (arena.store t).1 ∧ Holds (arena.store t).1 t (arena.store t).2
  | .node kind span children => by
    obtain ⟨hkeeps, hchildren⟩ := storeAll_holds arena children
    have hpush := keeps_push (arena.storeAll children).1
      ⟨kind, span, (arena.storeAll children).2⟩
    refine ⟨hkeeps.trans hpush, (arena.storeAll children).2, ?_, hchildren.mono hpush⟩
    exact get?_push _ _

theorem storeAll_holds (arena : Arena) : ∀ ts : List Tree,
    Keeps arena (arena.storeAll ts).1 ∧ HoldsAll (arena.storeAll ts).1 ts (arena.storeAll ts).2
  | [] => ⟨fun _ _ h => h, rfl⟩
  | t :: ts => by
    obtain ⟨hfirst, ht⟩ := store_holds arena t
    obtain ⟨hrest, hts⟩ := storeAll_holds (arena.store t).1 ts
    exact ⟨hfirst.trans hrest, _, _, rfl, ht.mono hrest, hts⟩

end

/-! ## The stack of a walk -/

/-- A forest whose trees stand at the indices of a stack, with the depths of their roots. -/
inductive Pending (arena : Arena) : List (Nat × Nat) → List (Nat × Tree) → Prop
  | nil : Pending arena [] []
  | cons {id depth : Nat} {t : Tree} {stack : List (Nat × Nat)} {forest : List (Nat × Tree)}
      (first : Holds arena t id) (rest : Pending arena stack forest) :
      Pending arena ((id, depth) :: stack) ((depth, t) :: forest)

/-- The nodes of a forest, tree by tree. -/
def forestNodes (forest : List (Nat × Tree)) : List (Nat × NodeKind) :=
  forest.flatMap fun item => nodes item.1 item.2

theorem forestNodes_cons (depth : Nat) (t : Tree) (forest : List (Nat × Tree)) :
    forestNodes ((depth, t) :: forest) = nodes depth t ++ forestNodes forest := rfl

theorem Pending.append_children {arena : Arena} {stack : List (Nat × Nat)}
    {forest : List (Nat × Tree)} (h : Pending arena stack forest) (depth : Nat) {ts : List Tree}
    {ids : List Nat} (hchildren : HoldsAll arena ts ids) :
    Pending arena (ids.map (·, depth) ++ stack) (ts.map (depth, ·) ++ forest) := by
  induction ts generalizing ids with
  | nil =>
    cases hchildren
    exact h
  | cons t ts ih =>
    obtain ⟨id, rest, rfl, hfirst, hrest⟩ := hchildren
    exact .cons hfirst (ih hrest)

theorem forestNodes_children (depth : Nat) (ts : List Tree) (forest : List (Nat × Tree)) :
    forestNodes (ts.map (depth, ·) ++ forest) = nodesAll depth ts ++ forestNodes forest := by
  induction ts with
  | nil => rfl
  | cons t ts ih =>
    rw [nodesAll, List.append_assoc, ← ih]
    rfl

/-- The nodes that a walk may visit: those before the first that is too deep. -/
def within (limit : Nat) (nodes : List (Nat × NodeKind)) : List (Nat × NodeKind) :=
  nodes.takeWhile fun node => node.1 ≤ limit

theorem within_cons_of_le {limit depth : Nat} (h : depth ≤ limit) (kind : NodeKind)
    (rest : List (Nat × NodeKind)) :
    within limit ((depth, kind) :: rest) = (depth, kind) :: within limit rest :=
  List.takeWhile_cons_of_pos (by simpa using h)

theorem within_cons_of_not_le {limit depth : Nat} (h : ¬ depth ≤ limit) (kind : NodeKind)
    (rest : List (Nat × NodeKind)) : within limit ((depth, kind) :: rest) = [] :=
  List.takeWhile_cons_of_neg (by simpa using h)

theorem walkStack_visit {arena : Arena} {limit id depth : Nat} {node : Node}
    {rest : List (Nat × Nat)} (hdepth : depth ≤ limit) (h : arena.get? id = some node) :
    (arena.walkStack limit ((id, depth) :: rest)).visited =
      node :: (arena.walkStack limit (node.children.map (·, depth + 1) ++ rest)).visited := by
  rw [Arena.walkStack, dif_pos hdepth]
  split
  · next hmissing => rw [hmissing] at h; cases h
  · next found hfound =>
    rw [hfound] at h
    cases h
    rfl

/-- Whatever is on the stack, the walk visits the nodes of the pending forest in order. -/
theorem walkStack_visited {arena : Arena} {limit : Nat} {stack : List (Nat × Nat)}
    {forest : List (Nat × Tree)} (h : Pending arena stack forest) :
    (arena.walkStack limit stack).visited.map Node.kind =
      (within limit (forestNodes forest)).map Prod.snd := by
  induction stack using Arena.walkStack.induct arena limit generalizing forest with
  | case1 =>
    cases h
    rw [Arena.walkStack]
    rfl
  | case2 id depth rest hdepth hmissing =>
    cases h with
    | @cons _ _ t _ _ hfirst _ =>
      cases t with
      | node kind span children =>
        obtain ⟨ids, hnode, _⟩ := hfirst
        rw [hmissing] at hnode
        cases hnode
  | case3 id depth rest hdepth node hfound ih =>
    cases h with
    | @cons _ _ t _ forest hfirst hrest =>
      cases t with
      | node kind span children =>
        obtain ⟨ids, hnode, hchildren⟩ := hfirst
        rw [hfound] at hnode
        cases hnode
        have hvisit := ih (hrest.append_children (depth + 1) hchildren)
        rw [forestNodes_children] at hvisit
        rw [walkStack_visit hdepth hfound, forestNodes_cons, nodes, List.cons_append,
          within_cons_of_le hdepth, List.map_cons, List.map_cons, hvisit]
  | case4 id depth rest hdeep =>
    cases h with
    | @cons _ _ t _ forest hfirst hrest =>
      cases t with
      | node kind span children =>
        rw [forestNodes_cons, nodes, List.cons_append, within_cons_of_not_le hdeep,
          Arena.walkStack, dif_neg hdeep]
        rfl

/-- A walk over a stored tree visits its nodes in pre-order, up to the first that is too deep. -/
theorem walk_ofTree (t : Tree) :
    (RootedArena.ofTree t).walk.visited.map Node.kind =
      (within RootedArena.maxDepth (nodes 1 t)).map Prod.snd := by
  obtain ⟨_, hroot⟩ := store_holds Arena.empty t
  have hpending : Pending (Arena.empty.store t).1 [((Arena.empty.store t).2, 1)] [(1, t)] :=
    .cons hroot .nil
  have hnodes : forestNodes [(1, t)] = nodes 1 t := by
    rw [forestNodes, List.flatMap_singleton]
  rw [← hnodes]
  exact walkStack_visited hpending

/-! ## Where the walk ends -/

theorem within_eq_self {limit : Nat} {all : List (Nat × NodeKind)}
    (h : ∀ node ∈ all, node.1 ≤ limit) : within limit all = all := by
  induction all with
  | nil => rfl
  | cons node rest ih =>
    rw [within_cons_of_le (h node List.mem_cons_self) node.2 rest,
      ih fun other hother => h other (List.mem_cons_of_mem _ hother)]

/-- A node that is too deep ends what may be visited, whatever stands after it. -/
theorem within_append_deep {limit : Nat} {before after : List (Nat × NodeKind)}
    {deep : Nat × NodeKind} (hbefore : ∀ node ∈ before, node.1 ≤ limit) (hdeep : limit < deep.1) :
    within limit (before ++ deep :: after) = before := by
  have hstop : within limit (deep :: after) = [] :=
    within_cons_of_not_le (Nat.not_le.2 hdeep) deep.2 after
  have hall : ∀ node ∈ before, decide (node.1 ≤ limit) = true := by simpa using hbefore
  rw [within, List.takeWhile_append_of_pos hall]
  exact (congrArg (before ++ ·) hstop).trans (List.append_nil before)

end SnippetLint.Preorder
