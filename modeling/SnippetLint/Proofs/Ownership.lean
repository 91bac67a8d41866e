import Mathlib.Data.Set.Card
import SnippetLint.Tree.Walk

/-!
A stored tree fills its arena without garbage. While a tree is stored, every index that was handed
out is owned exactly once: by a node that is stored already, or by the forest whose parent is still
to come. `Owned` says so of the nodes that storing adds; for a whole tree this leaves the root as
the only index that no node owns. Main statement: `isTree_ofTree`; the lemmas on `IsTree` say what
follows from it.
-/

namespace SnippetLint

namespace Arena

/-- The indices in all lists of children. -/
def links (nodes : List Node) : List Nat := nodes.flatMap Node.children

/-- The index to which a path of child numbers leads. -/
def follow? (arena : Arena) (id : Nat) : List Nat → Option Nat
  | [] => some id
  | i :: path => do
    let node ← arena.get? id
    let child ← node.children[i]?
    arena.follow? child path

end Arena

namespace Ownership
open SnippetLint.Arena

/-! ## Storing -/

/-- Nodes added after `size` others: they name only what is stored before them, and each of their
indices is named once, by one of them or in `roots`. -/
structure Owned (size : Nat) (added : List Node) (roots : List Nat) : Prop where
  once : (links added ++ roots).Perm (List.range' size added.length)
  earlier : ∀ i node, added[i]? = some node → ∀ child ∈ node.children, child < size + i

theorem links_append (a b : List Node) : links (a ++ b) = links a ++ links b :=
  List.flatMap_append

theorem Owned.nil (size : Nat) : Owned size [] [] := ⟨.refl _, by simp⟩

theorem Owned.root_lt {size : Nat} {added : List Node} {roots : List Nat}
    (h : Owned size added roots) {id : Nat} (hid : id ∈ roots) : id < size + added.length := by
  have hmem := h.once.mem_iff.1 (List.mem_append_right _ hid)
  rw [List.mem_range'_1] at hmem
  exact hmem.2

/-- A node takes over the roots that its children had. -/
theorem Owned.push {size : Nat} {added : List Node} {node : Node}
    (h : Owned size added node.children) :
    Owned size (added ++ [node]) [size + added.length] := by
  constructor
  · rw [links_append, List.length_append, ← List.range'_append_1]
    have hlinks : links [node] = node.children := List.flatMap_singleton _ _
    rw [hlinks]
    exact h.once.append_right _
  · intro i found hfound child hchild
    rcases Nat.lt_trichotomy i added.length with hlt | rfl | hgt
    · rw [List.getElem?_append_left hlt] at hfound
      exact h.earlier i found hfound child hchild
    · rw [List.getElem?_concat_length] at hfound
      cases hfound
      exact h.root_lt hchild
    · rw [List.getElem?_eq_none (by simp; omega)] at hfound
      cases hfound

theorem Owned.append {size : Nat} {a b : List Node} {ids more : List Nat}
    (ha : Owned size a ids) (hb : Owned (size + a.length) b more) :
    Owned size (a ++ b) (ids ++ more) := by
  constructor
  · rw [links_append, List.length_append, ← List.range'_append_1]
    have hswap : (links a ++ links b ++ (ids ++ more)).Perm
        (links a ++ ids ++ (links b ++ more)) := by
      rw [List.append_assoc, List.append_assoc]
      refine List.Perm.append_left _ ?_
      rw [← List.append_assoc, ← List.append_assoc]
      exact List.perm_append_comm.append_right _
    exact hswap.trans (ha.once.append hb.once)
  · intro i node hnode child hchild
    by_cases hi : i < a.length
    · rw [List.getElem?_append_left hi] at hnode
      exact ha.earlier i node hnode child hchild
    · rw [List.getElem?_append_right (by omega)] at hnode
      have hlt := hb.earlier _ node hnode child hchild
      omega

mutual

/-- Storing a tree adds nodes that own each other, its root apart, which is the last of them. -/
theorem store_owned (arena : Arena) : ∀ t : Tree, ∃ added,
    (arena.store t).1.nodes.toList = arena.nodes.toList ++ added ∧
      Owned arena.size added [(arena.store t).2] ∧
      (arena.store t).2 + 1 = (arena.store t).1.size
  | .node kind span children => by
    obtain ⟨added, hnodes, howned⟩ := storeAll_owned arena children
    have hsize : (arena.storeAll children).1.size = arena.size + added.length := by
      rw [Arena.size, ← Array.length_toList, hnodes, List.length_append, Array.length_toList]
      rfl
    refine ⟨added ++ [⟨kind, span, (arena.storeAll children).2⟩], ?_, ?_, ?_⟩
    · show ((arena.storeAll children).1.nodes.push _).toList = _
      rw [Array.toList_push, hnodes, List.append_assoc]
    · show Owned arena.size _ [(arena.storeAll children).1.size]
      rw [hsize]
      exact howned.push
    · show _ = ((arena.storeAll children).1.nodes.push _).size
      rw [Array.size_push]
      rfl

theorem storeAll_owned (arena : Arena) : ∀ ts : List Tree, ∃ added,
    (arena.storeAll ts).1.nodes.toList = arena.nodes.toList ++ added ∧
      Owned arena.size added (arena.storeAll ts).2
  | [] => ⟨[], (List.append_nil _).symm, .nil _⟩
  | t :: ts => by
    obtain ⟨first, hfirst, hroot, _⟩ := store_owned arena t
    obtain ⟨rest, hrest, hroots⟩ := storeAll_owned (arena.store t).1 ts
    refine ⟨first ++ rest, ?_, ?_⟩
    · show (((arena.store t).1.storeAll ts).1.nodes.toList) = _
      rw [hrest, hfirst, List.append_assoc]
    · have hsize : (arena.store t).1.size = arena.size + first.length := by
        rw [Arena.size, ← Array.length_toList, hfirst, List.length_append, Array.length_toList]
        rfl
      rw [hsize] at hroots
      exact hroot.append hroots

end

/-! ## Whole trees -/

/-- What the arena of a whole tree satisfies. -/
structure IsTree (stored : RootedArena) : Prop where
  root_last : stored.root + 1 = stored.arena.size
  child_lt : ∀ {id node child}, stored.arena.get? id = some node → child ∈ node.children →
    child < id
  once : (links stored.arena.nodes.toList ++ [stored.root]).Perm (List.range stored.arena.size)

theorem isTree_ofTree (t : Tree) : IsTree (.ofTree t) := by
  obtain ⟨added, hnodes, howned, hlast⟩ := store_owned Arena.empty t
  have hadded : (Arena.empty.store t).1.nodes.toList = added := hnodes
  refine ⟨hlast, ?_, ?_⟩
  · intro id node child hnode hchild
    have hnode : (Arena.empty.store t).1.nodes[id]? = some node := hnode
    rw [← Array.getElem?_toList, hadded] at hnode
    have hlt := howned.earlier id node hnode child hchild
    rwa [show Arena.empty.size = 0 from rfl, Nat.zero_add] at hlt
  · have honce := howned.once
    rw [show Arena.empty.size = 0 from rfl, ← List.range_eq_range', ← hadded,
      Array.length_toList] at honce
    exact honce

variable {stored : RootedArena}

theorem get?_isSome_iff (arena : Arena) (id : Nat) :
    (arena.get? id).isSome = true ↔ id < arena.size := by
  simp [Arena.get?, Arena.size]

theorem lt_size_of_get? {arena : Arena} {id : Nat} {node : Node} (h : arena.get? id = some node) :
    id < arena.size :=
  (get?_isSome_iff arena id).1 (by rw [h]; rfl)

theorem mem_links_iff {arena : Arena} {child : Nat} :
    child ∈ links arena.nodes.toList ↔
      ∃ id node, arena.get? id = some node ∧ child ∈ node.children := by
  rw [links, List.mem_flatMap]
  constructor
  · rintro ⟨node, hnode, hchild⟩
    obtain ⟨id, hid⟩ := List.mem_iff_getElem?.1 hnode
    exact ⟨id, node, by rw [Arena.get?, ← Array.getElem?_toList, hid], hchild⟩
  · rintro ⟨id, node, hnode, hchild⟩
    refine ⟨node, ?_, hchild⟩
    rw [Arena.get?, ← Array.getElem?_toList] at hnode
    exact List.mem_of_getElem? hnode

theorem IsTree.nodup (h : IsTree stored) : (links stored.arena.nodes.toList).Nodup :=
  (List.nodup_append.1 (h.once.nodup_iff.2 List.nodup_range)).1

theorem IsTree.root_not_mem (h : IsTree stored) :
    stored.root ∉ links stored.arena.nodes.toList := by
  intro hmem
  obtain ⟨id, node, hnode, hchild⟩ := mem_links_iff.1 hmem
  have hlt := h.child_lt hnode hchild
  have hsize := lt_size_of_get? hnode
  have hlast := h.root_last
  omega

theorem IsTree.mem_links (h : IsTree stored) {id : Nat} (hid : id < stored.arena.size)
    (hroot : id ≠ stored.root) : id ∈ links stored.arena.nodes.toList := by
  have hmem := h.once.mem_iff.2 (List.mem_range.2 hid)
  rcases List.mem_append.1 hmem with hlink | heq
  · exact hlink
  · exact absurd (List.mem_singleton.1 heq) hroot

/-- No index stands at two places among the lists of children. -/
theorem unique_place {nodes : List Node} (hnodup : (links nodes).Nodup) {p q i j child : Nat}
    {a b : Node} (ha : nodes[p]? = some a) (hb : nodes[q]? = some b)
    (hi : a.children[i]? = some child) (hj : b.children[j]? = some child) : p = q ∧ i = j := by
  obtain ⟨hown, hothers⟩ := List.nodup_flatMap.1 hnodup
  obtain ⟨hp, rfl⟩ := List.getElem?_eq_some_iff.1 ha
  obtain ⟨hq, rfl⟩ := List.getElem?_eq_some_iff.1 hb
  have hsame : p = q := by
    rcases Nat.lt_trichotomy p q with hlt | heq | hgt
    · exact absurd (List.mem_of_getElem? hj)
        (List.disjoint_left.1 (List.pairwise_iff_getElem.1 hothers p q hp hq hlt)
          (List.mem_of_getElem? hi))
    · exact heq
    · exact absurd (List.mem_of_getElem? hi)
        (List.disjoint_left.1 (List.pairwise_iff_getElem.1 hothers q p hq hp hgt)
          (List.mem_of_getElem? hj))
  subst hsame
  refine ⟨rfl, ?_⟩
  obtain ⟨hi, hci⟩ := List.getElem?_eq_some_iff.1 hi
  obtain ⟨hj, hcj⟩ := List.getElem?_eq_some_iff.1 hj
  exact (List.Nodup.getElem_inj_iff (hown _ (List.getElem_mem hp))).1 (hci.trans hcj.symm)

/-! ## Paths -/

theorem follow?_concat {arena : Arena} {id i : Nat} {path : List Nat} {target : Nat} :
    arena.follow? id (path ++ [i]) = some target ↔
      ∃ parent node, arena.follow? id path = some parent ∧ arena.get? parent = some node ∧
        node.children[i]? = some target := by
  induction path generalizing id with
  | nil => simp [follow?, Option.bind_eq_some_iff]
  | cons j path ih =>
    simp only [List.cons_append, follow?, Option.bind_eq_bind, Option.bind_eq_some_iff, ih]
    grind

/-- From the root a path leads to every node. -/
theorem IsTree.exists_path (h : IsTree stored) {id : Nat} (hid : id < stored.arena.size) :
    ∃ path, stored.arena.follow? stored.root path = some id := by
  -- a parent has a greater index, so the distance to the end of the arena gets smaller
  induction hn : stored.arena.size - id using Nat.strong_induction_on generalizing id with
  | _ n ih =>
    by_cases hroot : id = stored.root
    · exact ⟨[], by rw [hroot]; rfl⟩
    · obtain ⟨parent, node, hnode, hchild⟩ := mem_links_iff.1 (h.mem_links hid hroot)
      have hlt := h.child_lt hnode hchild
      have hparent := lt_size_of_get? hnode
      obtain ⟨path, hpath⟩ := ih (stored.arena.size - parent) (by omega) hparent rfl
      obtain ⟨i, hi⟩ := List.mem_iff_getElem?.1 hchild
      exact ⟨path ++ [i], follow?_concat.2 ⟨parent, node, hpath, hnode, hi⟩⟩

theorem IsTree.path_unique (h : IsTree stored) {a b : List Nat} {id : Nat}
    (ha : stored.arena.follow? stored.root a = some id)
    (hb : stored.arena.follow? stored.root b = some id) : a = b := by
  -- no child is the root, so no path but the empty one leads there
  have hstep : ∀ {path : List Nat} {i : Nat},
      stored.arena.follow? stored.root (path ++ [i]) ≠ some stored.root := by
    intro path i hpath
    obtain ⟨parent, node, _, hnode, hi⟩ := follow?_concat.1 hpath
    exact h.root_not_mem (mem_links_iff.2 ⟨parent, node, hnode, List.mem_of_getElem? hi⟩)
  induction a using List.reverseRecOn generalizing b id with
  | nil =>
    cases ha
    induction b using List.reverseRecOn with
    | nil => rfl
    | append_singleton b j _ => exact absurd hb hstep
  | append_singleton a i ih =>
    induction b using List.reverseRecOn with
    | nil =>
      cases hb
      exact absurd ha hstep
    | append_singleton b j _ =>
      obtain ⟨p, m, hp, hm, hi⟩ := follow?_concat.1 ha
      obtain ⟨q, n, hq, hn, hj⟩ := follow?_concat.1 hb
      have hm' := hm
      have hn' := hn
      rw [Arena.get?, ← Array.getElem?_toList] at hm' hn'
      obtain ⟨rfl, rfl⟩ := unique_place h.nodup hm' hn' hi hj
      rw [ih hp hq]

theorem IsTree.lt_size_of_path (h : IsTree stored) {path : List Nat} {id : Nat}
    (hpath : stored.arena.follow? stored.root path = some id) : id < stored.arena.size := by
  induction path using List.reverseRecOn with
  | nil =>
    cases hpath
    have hlast := h.root_last
    omega
  | append_singleton path i _ =>
    obtain ⟨parent, node, _, hnode, hi⟩ := follow?_concat.1 hpath
    have hlt := h.child_lt hnode (List.mem_of_getElem? hi)
    have hsize := lt_size_of_get? hnode
    omega

/-! ## Walks -/

/-- As long as the stack names stored nodes, the walk meets no other ones. -/
theorem IsTree.walkStack_error (h : IsTree stored) {limit : Nat} {stack : List (Nat × Nat)}
    (hstack : ∀ entry ∈ stack, entry.1 < stored.arena.size) (id : Nat) :
    (stored.arena.walkStack limit stack).error ≠ some (.danglingNode id) := by
  induction stack using Arena.walkStack.induct stored.arena limit with
  | case1 => simp [Arena.walkStack]
  | case2 first depth rest _ hmissing =>
    have hlt := hstack (first, depth) List.mem_cons_self
    have hsome := (get?_isSome_iff stored.arena first).2 hlt
    rw [hmissing] at hsome
    cases hsome
  | case3 first depth rest hdepth node hfound ih =>
    rw [Arena.walkStack, dif_pos hdepth]
    split
    · next hmissing => rw [hfound] at hmissing; cases hmissing
    · next other hother =>
      rw [hfound] at hother
      cases hother
      refine ih fun entry hentry => ?_
      rcases List.mem_append.1 hentry with hchild | hrest
      · obtain ⟨child, hmem, rfl⟩ := List.mem_map.1 hchild
        exact Nat.lt_trans (h.child_lt hfound hmem) (lt_size_of_get? hfound)
      · exact hstack entry (List.mem_cons_of_mem _ hrest)
  | case4 first depth rest hdeep =>
    rw [Arena.walkStack, dif_neg hdeep]
    simp

theorem IsTree.walk_error (h : IsTree stored) (limit id : Nat) :
    (stored.walkWithin limit).error ≠ some (.danglingNode id) := by
  refine h.walkStack_error (fun entry hentry => ?_) id
  cases List.mem_singleton.1 hentry
  have hlast := h.root_last
  show stored.root < _
  omega

/-! ## Counts -/

theorem IsTree.count_eq_one (h : IsTree stored) {id : Nat} (hid : id < stored.arena.size)
    (hroot : id ≠ stored.root) : (links stored.arena.nodes.toList).count id = 1 :=
  List.count_eq_one_of_mem h.nodup (h.mem_links hid hroot)

theorem IsTree.existsUnique_path (h : IsTree stored) {id : Nat} (hid : id < stored.arena.size) :
    ∃! path, stored.arena.follow? stored.root path = some id := by
  obtain ⟨path, hpath⟩ := h.exists_path hid
  exact ⟨path, hpath, fun other hother => h.path_unique hother hpath⟩

/-- As many nodes are reached as there are. -/
theorem IsTree.ncard_reached (h : IsTree stored) :
    Set.ncard {id | ∃ path, stored.arena.follow? stored.root path = some id} =
      stored.arena.size := by
  have hreached : {id | ∃ path, stored.arena.follow? stored.root path = some id} =
      ↑(Finset.range stored.arena.size) := by
    ext id
    rw [Finset.coe_range, Set.mem_Iio]
    exact ⟨fun ⟨path, hpath⟩ => h.lt_size_of_path hpath, h.exists_path⟩
  rw [hreached, Set.ncard_coe_finset, Finset.card_range]

end Ownership

end SnippetLint
