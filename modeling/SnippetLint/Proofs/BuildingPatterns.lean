import SnippetLint.Builder.Pattern
import SnippetLint.Proofs.Building
import SnippetLint.Proofs.PatternRounds

/-!
A stored pattern is checked as the tree is. A round of the check takes one node from the stack and
puts parts of it there; so the loop needs no more rounds than the pattern has nodes, and binds only
names that are stored with it. Since every node of a stored tree has one address, binding the
captured names gives the arena that storing the bound pattern would have given. Main statement: the
instance for `bindPattern`.
-/

namespace SnippetLint

/-- A node whose children stand `n` further on. -/
def Node.shift (n : Nat) (node : Node) : Node := { node with children := node.children.map (n + ·) }

namespace Marking
open SnippetLint.Tree (sizeAll)
open SnippetLint.Contexts (at?)

/-! ## Addresses after other nodes -/

mutual

theorem listing_shift (n size : Nat) : ∀ t : Tree,
    listing (n + size) t = (listing size t).map (Node.shift n)
  | .node kind span children => by
    rw [listing, listing, List.map_append, listingAll_shift n size children,
      roots_shift n size children]
    rfl

theorem listingAll_shift (n size : Nat) : ∀ ts : List Tree,
    listingAll (n + size) ts = (listingAll size ts).map (Node.shift n)
  | [] => rfl
  | t :: ts => by
    rw [listingAll, listingAll, List.map_append, listing_shift n size t, Nat.add_assoc,
      listingAll_shift n (size + t.size) ts]

theorem roots_shift (n size : Nat) : ∀ ts : List Tree,
    roots (n + size) ts = (roots size ts).map (n + ·)
  | [] => rfl
  | t :: ts => by
    rw [roots, roots, List.map_cons, Nat.add_assoc, Nat.add_assoc,
      roots_shift n (size + t.size) ts]

end

theorem follow?_shift (before nodes : List Node) (id : Nat) (path : List Nat) :
    (arenaOf (before ++ nodes.map (Node.shift before.length))).follow? (before.length + id) path =
      ((arenaOf nodes).follow? id path).map (before.length + ·) := by
  induction path generalizing id with
  | nil => rfl
  | cons i path ih =>
    have hget : (arenaOf (before ++ nodes.map (Node.shift before.length))).get?
        (before.length + id) = ((arenaOf nodes).get? id).map (Node.shift before.length) := by
      simp only [arenaOf, Arena.get?, List.getElem?_toArray]
      rw [List.getElem?_append_right (Nat.le_add_right _ _), Nat.add_sub_cancel_left,
        List.getElem?_map]
    rw [Arena.follow?, Arena.follow?, hget]
    cases (arenaOf nodes).get? id with
    | none => rfl
    | some node =>
      have hchild : (node.shift before.length).children[i]? =
          node.children[i]?.map (before.length + ·) := List.getElem?_map ..
      simp only [Option.map_some, Option.bind_eq_bind, Option.bind_some, hchild]
      cases node.children[i]? with
      | none => rfl
      | some child => exact ih child

section Store

variable (base : Arena) (t : Tree)

/-- The ways through a tree that is stored after others are the ways through the tree stored
alone. -/
theorem follow?_store (path : List Nat) :
    (base.store t).1.follow? (base.store t).2 path =
      ((RootedArena.ofTree t).arena.follow? (RootedArena.ofTree t).root path).map
        (base.size + ·) := by
  have halone : RootedArena.ofTree t = ⟨arenaOf (listing 0 t), 0 + sizeAll t.children⟩ := by
    rw [RootedArena.ofTree, ← arenaOf_toList .empty, store_arenaOf]
    rfl
  obtain ⟨before, rfl⟩ : ∃ before, base = arenaOf before := ⟨_, (arenaOf_toList base).symm⟩
  rw [store_arenaOf, halone, size_arenaOf, ← follow?_shift, ← listing_shift]
  simp only [Nat.add_zero, Nat.zero_add]

variable {base t} {target : Nat} {path other : List Nat}

theorem size_le_of_follow?_store
    (h : (base.store t).1.follow? (base.store t).2 path = some target) : base.size ≤ target := by
  rw [follow?_store] at h
  obtain ⟨id, _, rfl⟩ := Option.map_eq_some_iff.1 h
  exact Nat.le_add_right _ _

/-- Every node of a stored tree has one address. -/
theorem follow?_store_inj (h : (base.store t).1.follow? (base.store t).2 path = some target)
    (hother : (base.store t).1.follow? (base.store t).2 other = some target) : path = other := by
  rw [follow?_store] at h hother
  obtain ⟨id, hid, rfl⟩ := Option.map_eq_some_iff.1 h
  obtain ⟨id', hid', heq⟩ := Option.map_eq_some_iff.1 hother
  obtain rfl := Nat.add_left_cancel heq
  exact (Ownership.isTree_ofTree t).path_unique hid hid'

theorem size_store : (base.store t).1.size = base.size + t.size := by
  obtain ⟨before, rfl⟩ : ∃ before, base = arenaOf before := ⟨_, (arenaOf_toList base).symm⟩
  rw [store_arenaOf, size_arenaOf, size_arenaOf, List.length_append, length_listing]

theorem exists_follow?_store (hbase : base.size ≤ target) (hsize : target < (base.store t).1.size) :
    ∃ path, (base.store t).1.follow? (base.store t).2 path = some target := by
  have hlt : target - base.size < (RootedArena.ofTree t).arena.size := by
    have halone : (RootedArena.ofTree t).arena.size = 0 + t.size := size_store
    rw [size_store] at hsize
    omega
  obtain ⟨path, hpath⟩ := (Ownership.isTree_ofTree t).exists_path hlt
  refine ⟨path, ?_⟩
  rw [follow?_store, hpath, Option.map_some, Nat.add_sub_cancel' hbase]

end Store

/-! ## Trees of the same shape -/

/-- Trees with as many children at each address are stored with the same children. -/
def SameShape (t u : Tree) : Prop :=
  u.size = t.size ∧ ∀ size,
    (listing size u).map Node.children = (listing size t).map Node.children

theorem children_listingAll {ts us : List Tree} (hlength : us.length = ts.length)
    (h : ∀ i : Nat, ∀ t u, ts[i]? = some t → us[i]? = some u → SameShape t u) (size : Nat) :
    sizeAll us = sizeAll ts ∧ roots size us = roots size ts ∧
      (listingAll size us).map Node.children = (listingAll size ts).map Node.children := by
  induction ts generalizing us size with
  | nil =>
    obtain rfl := List.length_eq_zero_iff.1 hlength
    exact ⟨rfl, rfl, rfl⟩
  | cons t ts ih =>
    cases us with
    | nil => cases hlength
    | cons u us =>
      obtain ⟨hsize, hfirst⟩ := h 0 t u rfl rfl
      obtain ⟨hall, hroots, hrest⟩ := ih (Nat.succ.inj hlength) (fun i => h (i + 1))
        (size + t.size)
      have hchildren : sizeAll u.children = sizeAll t.children := by
        rw [size_eq, size_eq] at hsize
        exact Nat.succ.inj hsize
      refine ⟨?_, ?_, ?_⟩
      · rw [sizeAll, sizeAll, hsize, hall]
      · rw [roots, roots, hchildren, hsize, hroots]
      · rw [listingAll, listingAll, List.map_append, List.map_append, hfirst, hsize, hrest]

theorem sameShape_of_at? {t u : Tree}
    (h : ∀ path, (at? u path).map (·.children.length) = (at? t path).map (·.children.length)) :
    SameShape t u := by
  induction t using Tree.forall_of_children generalizing u with
  | node kind span ts ih =>
    obtain ⟨kind', span', us⟩ := u
    have hlength : us.length = ts.length := Option.some.inj (h [])
    have hall := children_listingAll hlength fun i t u ht hu =>
      ih t (List.mem_of_getElem? ht) fun path => by
        have hpath := h (i :: path)
        simp only [at?, Tree.children, ht, hu, Option.bind_some] at hpath
        exact hpath
    refine ⟨congrArg (· + 1) (hall 0).1, fun size => ?_⟩
    obtain ⟨_, hroots, hnodes⟩ := hall size
    rw [listing, listing, List.map_append, List.map_append, hnodes]
    exact congrArg (_ ++ [·]) hroots

end Marking

namespace PatternRounds
open SnippetLint.CasePatterns SnippetLint.Marking SnippetLint.Preorder
open SnippetLint.Contexts (at?)
open SnippetLint.Pattern (Slot)
open SnippetLint.Tree (sizeAll)

/-! ## Captures of a stored tree -/

section Store

variable {base : Arena} {P : List Nat → Prop} {t u : Tree} {captured : List Nat}

theorem length_children_of_marks (marks : Marks P t u) (path : List Nat) :
    (at? u path).map (·.children.length) = (at? t path).map (·.children.length) := by
  have hlabel : ∀ tree : Option Tree,
      tree.map (·.children.length) = (tree.map label).map (·.2.2) := fun tree => by
    rw [Option.map_map]
    rfl
  rw [hlabel, hlabel]
  by_cases hpath : P path
  · obtain ⟨_, _, _, _, hbefore, hafter⟩ := marks.bound path hpath
    rw [hbefore, hafter]
    rfl
  · rw [marks.kept path hpath]

theorem children_store_of_marks (marks : Marks P t u) :
    (base.store u).1.nodes.toList.map Node.children =
      (base.store t).1.nodes.toList.map Node.children := by
  obtain ⟨before, rfl⟩ : ∃ before, base = arenaOf before := ⟨_, (arenaOf_toList base).symm⟩
  have hshape := (sameShape_of_at? (length_children_of_marks marks)).2 before.length
  rw [store_arenaOf, store_arenaOf, arenaOf, arenaOf, List.map_append, List.map_append, hshape]

theorem follow?_of_children {a b : Arena}
    (h : b.nodes.toList.map Node.children = a.nodes.toList.map Node.children) (id : Nat)
    (path : List Nat) : b.follow? id path = a.follow? id path := by
  have hget : ∀ id, (b.get? id).map Node.children = (a.get? id).map Node.children := by
    intro id
    have hid := congrArg (·[id]?) h
    simpa [Arena.get?] using hid
  induction path generalizing id with
  | nil => rfl
  | cons i path ih =>
    have hid := hget id
    rw [Arena.follow?, Arena.follow?]
    cases ha : a.get? id <;> cases hb : b.get? id <;> rw [ha, hb] at hid
    · rfl
    · cases hid
    · cases hid
    · rename_i node other
      have hchildren : other.children = node.children := Option.some.inj hid
      simp only [Option.bind_eq_bind, Option.bind_some, hchildren, ih]

theorem children_captureAll (arena : Arena) (captured : List Nat) (id : Nat) :
    ((captureAll arena captured).get? id).map Node.children =
      (arena.get? id).map Node.children := by
  rw [get?_captureAll, Option.map_map]
  refine congrArg (Option.map · _) (funext fun node => ?_)
  rw [Function.comp_apply]
  split <;> rfl

theorem root_store_of_marks (marks : Marks P t u) : (base.store u).2 = (base.store t).2 := by
  obtain ⟨before, rfl⟩ : ∃ before, base = arenaOf before := ⟨_, (arenaOf_toList base).symm⟩
  have hsize := (sameShape_of_at? (length_children_of_marks marks)).1
  rw [size_eq, size_eq] at hsize
  rw [store_arenaOf, store_arenaOf, Nat.succ.inj hsize]

/-- A node is known by what it shows and by its children. -/
theorem eq_of_label {a b : Option Node}
    (hlabel : a.map (fun node => (node.kind, node.span, node.children.length)) =
      b.map fun node => (node.kind, node.span, node.children.length))
    (hchildren : a.map Node.children = b.map Node.children) : a = b := by
  cases a with
  | none =>
    cases b with
    | none => rfl
    | some => cases hchildren
  | some node =>
    cases b with
    | none => cases hchildren
    | some other =>
      obtain ⟨kind, span, ids⟩ := node
      obtain ⟨hkind, hspan⟩ := Prod.mk.inj (Option.some.inj hlabel)
      cases hkind
      cases (Prod.mk.inj hspan).1
      cases Option.some.inj hchildren
      rfl

/-- With its captures bound, a stored tree is what storing the bound tree gives. -/
theorem captureAll_store (marks : Marks P t u)
    (hcaptured : ∀ id, id ∈ captured ↔ Reached (base.store t).1 (base.store t).2 P id) :
    base.store u = (captureAll (base.store t).1 captured, (base.store t).2) := by
  obtain ⟨hkeeps, hholds⟩ := store_holds base t
  obtain ⟨hkeeps', hholds'⟩ := store_holds base u
  have hstores := stores_of_marks hholds marks hcaptured
  have hbound := holds_of_marks hholds marks hstores fun _ _ _ => follow?_store_inj
  have hroot : (base.store u).2 = (base.store t).2 := root_store_of_marks marks
  have hchildren : (base.store u).1.nodes.toList.map Node.children =
      (base.store t).1.nodes.toList.map Node.children := children_store_of_marks marks
  have hget : ∀ id, (base.store u).1.get? id = (captureAll (base.store t).1 captured).get? id := by
    intro id
    rcases Nat.lt_or_ge id base.size with hlt | hge
    · -- what was stored before is not captured
      obtain ⟨node, hnode⟩ := Option.isSome_iff_exists.1 ((Ownership.get?_isSome_iff base id).2 hlt)
      have hnone : ¬ Reached (base.store t).1 (base.store t).2 P id := by
        rintro ⟨path, _, hpath⟩
        exact absurd (size_le_of_follow?_store hpath) (Nat.not_le.2 hlt)
      rw [hkeeps' id node hnode, hstores.kept id hnone, hkeeps id node hnode]
    · have hsame : ((base.store u).1.get? id).map Node.children =
          ((captureAll (base.store t).1 captured).get? id).map Node.children := by
        have hid := congrArg (·[id]?) hchildren
        rw [children_captureAll]
        simpa [Arena.get?] using hid
      rcases Nat.lt_or_ge id (base.store t).1.size with hsize | hsize
      · -- a node of the tree shows the same in both arenas, since it has the same address
        obtain ⟨path, hpath⟩ := exists_follow?_store hge hsize
        have hseen := holds_iff_seen.1 hbound path
        have hseen' := holds_iff_seen.1 hholds' path
        rw [seen, follow?_captureAll, hpath] at hseen
        rw [seen, hroot, follow?_of_children hchildren, hpath] at hseen'
        have hlabel := hseen'.trans hseen.symm
        rw [Option.bind_some, Option.bind_some] at hlabel
        exact eq_of_label hlabel hsame
      · have hnone : (captureAll (base.store t).1 captured).get? id = none := by
          rw [get?_captureAll, Arena.get?, Array.getElem?_eq_none hsize, Option.map_none]
        rw [hnone] at hsame ⊢
        exact Option.map_eq_none_iff.1 hsame
  have hnodes : (base.store u).1 = captureAll (base.store t).1 captured :=
    congrArg Arena.mk (Array.ext_getElem? hget)
  rw [← hnodes, ← hroot]

end Store

/-! ## Parts of a tree -/

/-- What is put on the stack in place of these nodes: trees that stand there, with so many nodes at
most, of which each is found below one of them, as is what is captured. -/
structure Parts (arena : Arena) (ids : List Nat) (most : Nat) (captured : List Nat)
    (pushed : List (Nat × Slot)) : Prop where
  stands : ∃ ts, StandsAll arena ts (pushed.map Prod.fst) ∧ sizeAll ts ≤ most
  below : ∀ target ∈ captured ++ pushed.map Prod.fst, ∃ id ∈ ids, ∃ path,
    arena.follow? id path = some target

section Parts

variable {arena : Arena} {t : Tree} {ts us : List Tree} {id : Nat}
  {ids others captured later : List Nat} {pushed more : List (Nat × Slot)} {slot : Slot}
  {most : Nat}

theorem sizeAll_append (ts us : List Tree) : sizeAll (ts ++ us) = sizeAll ts + sizeAll us := by
  induction ts with
  | nil => exact (Nat.zero_add _).symm
  | cons t ts ih => rw [List.cons_append, sizeAll, sizeAll, ih, Nat.add_assoc]

theorem StandsAll.append (h : StandsAll arena ts ids) (h' : StandsAll arena us others) :
    StandsAll arena (ts ++ us) (ids ++ others) := by
  induction ts generalizing ids with
  | nil =>
    obtain rfl : ids = [] := h
    exact h'
  | cons t ts ih =>
    obtain ⟨id, rest, rfl, hfirst, hrest⟩ := h
    exact ⟨id, rest ++ others, rfl, hfirst, ih hrest⟩

theorem standsAll_append (h : StandsAll arena ts (ids ++ others)) :
    ∃ first rest, ts = first ++ rest ∧ StandsAll arena first ids ∧ StandsAll arena rest others := by
  induction ids generalizing ts with
  | nil => exact ⟨[], ts, rfl, rfl, h⟩
  | cons id ids ih =>
    cases ts with
    | nil => cases h
    | cons t ts =>
      obtain ⟨_, _, heq, hfirst, hrest⟩ := h
      obtain ⟨rfl, rfl⟩ := List.cons.inj heq
      obtain ⟨first, rest, rfl, hids, hothers⟩ := ih hrest
      exact ⟨t :: first, rest, rfl, ⟨id, ids, rfl, hfirst, hids⟩, hothers⟩

theorem follow?_append {before path : List Nat} {mid target : Nat}
    (hbefore : arena.follow? id before = some mid) (h : arena.follow? mid path = some target) :
    arena.follow? id (before ++ path) = some target := by
  induction before generalizing id with
  | nil =>
    cases hbefore
    exact h
  | cons i before ih =>
    simp only [List.cons_append, Arena.follow?, Option.bind_eq_bind,
      Option.bind_eq_some_iff] at hbefore ⊢
    obtain ⟨node, hnode, child, hchild, hmid⟩ := hbefore
    exact ⟨node, hnode, child, hchild, ih hmid⟩

theorem Parts.nil : Parts arena ids most [] [] := ⟨⟨[], rfl, Nat.zero_le _⟩, nofun⟩

/-- The nodes themselves, each in a slot. -/
theorem Parts.self (h : StandsAll arena ts ids) (slot : Slot) :
    Parts arena ids (sizeAll ts) [] (ids.map (·, slot)) := by
  have hids : (ids.map (·, slot)).map Prod.fst = ids :=
    (List.map_map ..).trans (List.map_id ids)
  refine ⟨⟨ts, hids.symm ▸ h, Nat.le_refl _⟩, fun target htarget => ⟨target, ?_, [], rfl⟩⟩
  rw [List.nil_append, hids] at htarget
  exact htarget

theorem Parts.one (h : Stands arena t id) (slot : Slot) :
    Parts arena [id] t.size [] [(id, slot)] :=
  have hall : StandsAll arena [t] [id] := ⟨id, [], rfl, h, rfl⟩
  .self hall slot

theorem Parts.mono (h : Parts arena ids most captured pushed) {n : Nat} (hn : most ≤ n)
    (hids : ∀ id ∈ ids, ∃ other ∈ others, ∃ path, arena.follow? other path = some id) :
    Parts arena others n captured pushed := by
  obtain ⟨⟨ts, hts, hsize⟩, hbelow⟩ := h
  refine ⟨⟨ts, hts, hsize.trans hn⟩, fun target htarget => ?_⟩
  obtain ⟨id, hid, path, hpath⟩ := hbelow target htarget
  obtain ⟨other, hother, before, hbefore⟩ := hids id hid
  exact ⟨other, hother, before ++ path, follow?_append hbefore hpath⟩

theorem Parts.append {n : Nat} (h : Parts arena ids most captured pushed)
    (h' : Parts arena others n later more) :
    Parts arena (ids ++ others) (most + n) (captured ++ later) (pushed ++ more) := by
  obtain ⟨⟨ts, hts, hsize⟩, hbelow⟩ := h
  obtain ⟨⟨us, hus, hsize'⟩, hbelow'⟩ := h'
  refine ⟨⟨ts ++ us, ?_, ?_⟩, fun target htarget => ?_⟩
  · rw [List.map_append]
    exact hts.append hus
  · rw [sizeAll_append]
    exact Nat.add_le_add hsize hsize'
  · simp only [List.map_append, List.mem_append] at htarget hbelow hbelow' ⊢
    grind

/-- The children of a node, each in a slot. -/
theorem Parts.children {node : Node} (hnode : arena.get? id = some node)
    (h : StandsAll arena ts node.children) (slot : Slot) :
    Parts arena [id] (sizeAll ts) [] (node.children.map (·, slot)) := by
  refine (Parts.self h slot).mono (Nat.le_refl _) fun child hchild => ?_
  obtain ⟨i, hi⟩ := List.mem_iff_getElem?.1 hchild
  exact ⟨id, List.mem_singleton_self id, [i], (follow?_cons hnode i []).2 ⟨child, hi, rfl⟩⟩

theorem parts_argumentsAt (h : StandsAll arena ts ids)
    (hpushed : argumentsAt arena ids = .ok pushed) : Parts arena ids (sizeAll ts) [] pushed := by
  induction ts generalizing ids pushed with
  | nil =>
    obtain rfl : ids = [] := h
    cases hpushed
    exact .nil
  | cons t ts ih =>
    obtain ⟨id, rest, rfl, hfirst, hrest⟩ := h
    obtain ⟨node, hnode, _, hchildren, heq⟩ := argumentsAt_cons hfirst rest
    rw [heq] at hpushed
    split at hpushed
    · cases hpushed
    · obtain ⟨more, hmore, hpushed⟩ := Derivation.except_bind_eq_ok hpushed
      cases hpushed
      split
      · have hchild : Parts arena [id] t.size [] (node.children.map (·, .pattern)) := by
          refine (Parts.children hnode hchildren .pattern).mono ?_ fun id hid => ⟨id, hid, [], rfl⟩
          rw [size_eq]
          exact Nat.le_succ _
        exact hchild.append (ih hrest hmore)
      · exact (Parts.one hfirst .pattern).append (ih hrest hmore)

theorem parts_classAt (h : StandsAll arena ts ids) (hpushed : classAt arena ids = .ok pushed) :
    Parts arena ids (sizeAll ts) [] pushed := by
  cases ts with
  | nil =>
    obtain rfl : ids = [] := h
    cases hpushed
    exact .nil
  | cons callee ts =>
    obtain ⟨id, rest, rfl, hfirst, hrest⟩ := h
    obtain ⟨more, hmore, hpushed⟩ := Derivation.except_bind_eq_ok hpushed
    cases hpushed
    exact (Parts.one hfirst .dotted).append (parts_argumentsAt hrest hmore)

theorem parts_entriesAt {after : Arena} : ∀ {ts : List Tree} {ids : List Nat}
    {pushed : List (Nat × Slot)}, StandsAll arena ts ids →
    entriesAt arena ids = .ok (after, pushed) →
    ∃ captured, after = captureAll arena captured ∧ Parts arena ids (sizeAll ts) captured pushed
  | [], _, _, rfl, hpushed => by
    cases hpushed
    exact ⟨[], rfl, .nil⟩
  | [entry], _, pushed, ⟨id, _, rfl, hentry, rfl⟩, hpushed => by
    obtain ⟨kind, span, children⟩ := entry
    by_cases hkind : (Tree.node kind span children).kind = .dictUnpack
    · cases hkind
      obtain ⟨node, hnode, hchildren, heq⟩ := entriesAt_unpack hentry
      rw [heq] at hpushed
      split at hpushed
      · cases hpushed
        refine ⟨_, rfl, ⟨⟨[], rfl, Nat.zero_le _⟩, fun target htarget => ?_⟩⟩
        rw [List.map_nil, List.append_nil] at htarget
        exact (Parts.children hnode hchildren .pattern).below target
          (by simpa using List.mem_of_mem_take htarget)
      · cases hpushed
    · rw [entriesAt_key hentry hkind] at hpushed
      cases hpushed
      exact ⟨[], rfl, .one hentry .mappingKey⟩
  | key :: value :: rest, _, pushed, ⟨id, _, rfl, hkey, other, ids, rfl, hvalue, hrest⟩,
      hpushed => by
    rw [entriesAt_pair hkey] at hpushed
    split at hpushed
    · cases hpushed
    · obtain ⟨⟨after, more⟩, hmore, hpushed⟩ := Derivation.except_bind_eq_ok hpushed
      cases hpushed
      obtain ⟨captured, hafter, hparts⟩ := parts_entriesAt hrest hmore
      exact ⟨captured, hafter,
        (Parts.one hkey .mappingKey).append ((Parts.one hvalue .pattern).append hparts)⟩

/-- **A round goes down.** It takes a node from the stack and puts parts of it there. -/
theorem parts_step (h : Stands arena t id) {after : Arena}
    (hstep : step arena id slot = .ok (after, pushed)) :
    ∃ captured, after = captureAll arena captured ∧
      Parts arena [id] (sizeAll t.children) captured pushed := by
  obtain ⟨kind, span, children⟩ := t
  obtain ⟨node, hnode, _, hchildren, heq⟩ := step_eq h slot
  rw [heq] at hstep
  generalize demandOf slot kind span children = asked at hstep
  have hall : ∀ slot, Parts arena [id] (sizeAll children) [] (node.children.map (·, slot)) :=
    Parts.children hnode hchildren
  have hinside : ∀ {captured pushed},
      Parts arena node.children (sizeAll children) captured pushed →
      Parts arena [id] (sizeAll children) captured pushed := fun hparts =>
    hparts.mono (Nat.le_refl _) fun child hchild => (hall .pattern).below child (by simpa)
  cases asked with
  | read =>
    cases hstep
    exact ⟨[], rfl, .nil⟩
  | capture =>
    cases hstep
    refine ⟨[id], rfl, ⟨[], rfl, Nat.zero_le _⟩, fun target htarget => ?_⟩
    exact ⟨target, by simpa using htarget, [], rfl⟩
  | captureFirst =>
    cases hstep
    refine ⟨_, rfl, ⟨[], rfl, Nat.zero_le _⟩, fun target htarget => ?_⟩
    rw [List.map_nil, List.append_nil] at htarget
    exact (hall .pattern).below target (by simpa using List.mem_of_mem_take htarget)
  | all slot =>
    cases hstep
    exact ⟨[], rfl, hall slot⟩
  | sequence =>
    obtain ⟨_, _, hstep⟩ := Derivation.except_bind_eq_ok hstep
    cases hstep
    exact ⟨[], rfl, hall .sequenceItem⟩
  | arguments =>
    obtain ⟨more, hmore, hstep⟩ := Derivation.except_bind_eq_ok hstep
    cases hstep
    exact ⟨[], rfl, hinside (parts_classAt hchildren hmore)⟩
  | entries =>
    obtain ⟨captured, hafter, hparts⟩ := parts_entriesAt hchildren hstep
    exact ⟨captured, hafter, hinside hparts⟩
  | refused fault => cases hstep

end Parts

/-! ## The loop -/

section Loop

variable {state next : Arena × List (Nat × Slot)} {least most fuel : Nat}

/-- The stack names trees with so many nodes at most, all of them stored from `least` on. -/
structure Loaded (least most : Nat) (state : Arena × List (Nat × Slot)) : Prop where
  stands : ∃ ts, StandsAll state.1 ts (state.2.map Prod.fst) ∧ sizeAll ts ≤ most
  least_le : ∀ id ∈ state.2.map Prod.fst, ∀ path target,
    state.1.follow? id path = some target → least ≤ target

theorem arena_of_round {arena : Arena} (h : round state = .inl (.ok arena)) : arena = state.1 := by
  unfold round at h
  split at h
  · cases h
    rfl
  · split at h <;> cases h

/-- Each round leaves fewer nodes to be checked, and binds names from `least` on. -/
theorem Loaded.round (h : Loaded least most state) (hround : round state = .inr next) :
    ∃ captured, next.1 = captureAll state.1 captured ∧ (∀ id ∈ captured, least ≤ id) ∧
      ∃ fewer < most, Loaded least fewer next := by
  obtain ⟨arena, stack⟩ := state
  obtain ⟨⟨ts, hts, hmost⟩, hleast⟩ := h
  rcases List.eq_nil_or_concat stack with rfl | ⟨stack, ⟨id, slot⟩, rfl⟩
  · cases hround
  rw [List.concat_eq_append] at hts hleast hround
  rw [List.map_append] at hts hleast
  obtain ⟨below, top, rfl, hbelow, htop⟩ := standsAll_append hts
  obtain ⟨t, rfl, htree⟩ : ∃ t, top = [t] ∧ Stands arena t id := by
    match top, htop with
    | [t], ⟨_, _, rfl, htree, _⟩ => exact ⟨t, rfl, htree⟩
  cases hstep : step arena id slot with
  | error error => cases hround.symm.trans (round_error hstep stack)
  | ok result =>
    obtain ⟨after, pushed⟩ := result
    cases hround.symm.trans (round_ok hstep stack)
    obtain ⟨captured, rfl, ⟨us, hus, hsize⟩, hparts⟩ := parts_step htree hstep
    have hids : ∀ target ∈ captured ++ pushed.map Prod.fst, ∀ path other,
        arena.follow? target path = some other → least ≤ other := by
      intro target htarget path other hpath
      obtain ⟨_, hid, before, hbefore⟩ := hparts target htarget
      obtain rfl := List.mem_singleton.1 hid
      exact hleast _ (List.mem_append_right _ hid) _ _ (follow?_append hbefore hpath)
    refine ⟨captured, rfl, fun id hid => hids id (List.mem_append_left _ hid) [] id rfl,
      sizeAll (below ++ us), ?_, ⟨below ++ us, ?_, Nat.le_refl _⟩,
      fun id hid path target hpath => ?_⟩
    · have htsize := size_eq t
      simp only [sizeAll_append, sizeAll] at hmost ⊢
      omega
    · rw [List.map_append]
      exact (hbelow.append hus).captureAll captured
    · rw [follow?_captureAll] at hpath
      rw [List.map_append, List.mem_append] at hid
      rcases hid with hid | hid
      · exact hleast id (List.mem_append_left _ hid) path target hpath
      · exact hids id (List.mem_append_right _ hid) path target hpath

/-- With more rounds than there are nodes to be checked, the loop comes to its end. -/
theorem ends_checkWithin (h : Loaded least most state) (hfuel : most < fuel) :
    ∃ captured, (∀ id ∈ captured, least ≤ id) ∧
      ((Builder.checkWithin fuel state = .ok (captureAll state.1 captured) ∧
          Ends round state (.ok (captureAll state.1 captured))) ∨
        ∃ error, Builder.checkWithin fuel state = .error (error, captureAll state.1 captured) ∧
          Ends round state (.error error)) := by
  induction fuel generalizing state most with
  | zero => exact absurd hfuel (Nat.not_lt_zero _)
  | succ fuel ih =>
    unfold Builder.checkWithin
    cases hround : PatternRounds.round state with
    | inl result =>
      cases result with
      | ok arena =>
        obtain rfl := arena_of_round hround
        exact ⟨[], nofun, .inl ⟨rfl, .last hround⟩⟩
      | error error => exact ⟨[], nofun, .inr ⟨error, rfl, .last hround⟩⟩
    | inr next =>
      obtain ⟨captured, harena, hcaptured, fewer, hfewer, hnext⟩ := h.round hround
      obtain ⟨others, hothers, hresult⟩ := ih hnext (by omega)
      rw [harena, ← captureAll_append] at hresult
      refine ⟨captured ++ others, fun id hid => ?_, ?_⟩
      · exact (List.mem_append.1 hid).elim (hcaptured id) (hothers id)
      · rcases hresult with ⟨hrun, hends⟩ | ⟨error, hrun, hends⟩
        · exact .inl ⟨hrun, .again hround hends⟩
        · exact .inr ⟨error, hrun, .again hround hends⟩

/-- What stands before the captures is kept. -/
theorem grows_captureAll {base arena : Arena} {captured : List Nat}
    (hcaptured : ∀ id ∈ captured, base.size ≤ id) (h : Arena.Grows base arena) :
    Arena.Grows base (captureAll arena captured) := by
  refine ⟨List.prefix_iff_getElem?.2 fun i hi => ?_⟩
  have hold := List.prefix_iff_getElem?.1 h.keeps i hi
  have hnew := get?_captureAll arena captured i
  have hlt : i < base.size := by
    rw [Array.length_toList] at hi
    exact hi
  have hnone : i ∉ captured := fun hmem => absurd (hcaptured i hmem) (Nat.not_le.2 hlt)
  rw [Arena.get?, Arena.get?, ← Array.getElem?_toList, ← Array.getElem?_toList, hold] at hnew
  rw [hnew, Option.map_some, if_neg hnone]

/-- **Patterns are checked in place as in trees.** The loop finds the same error; if there is none,
it leaves what storing the bound pattern gives. What was stored before is kept in both cases. -/
theorem checkWithin_store (base : Arena) (t : Tree) :
    match Pattern.bind .pattern t with
    | .ok u =>
      (base.store u).2 = (base.store t).2 ∧
        Builder.checkWithin ((base.store t).2 + 2)
          ((base.store t).1, [((base.store t).2, .pattern)]) = .ok (base.store u).1
    | .error error => ∃ later, base.nodes.toList <+: later.nodes.toList ∧
        Builder.checkWithin ((base.store t).2 + 2)
          ((base.store t).1, [((base.store t).2, .pattern)]) = .error (error, later) := by
  have hstands := stands_of_holds (store_holds base t).2
  have hloaded : Loaded base.size t.size
      ((base.store t).1, [((base.store t).2, .pattern)]) := by
    refine ⟨⟨[t], ⟨_, [], rfl, hstands, rfl⟩, Nat.le_refl _⟩, fun id hid path target hpath => ?_⟩
    obtain rfl := List.mem_singleton.1 hid
    exact size_le_of_follow?_store hpath
  have hfuel : t.size < (base.store t).2 + 2 := by
    obtain ⟨_, _, _, hlast⟩ := Ownership.store_owned base t
    rw [size_store] at hlast
    omega
  obtain ⟨captured, hcaptured, hresult⟩ := ends_checkWithin hloaded hfuel
  have hcomes := @comes_bind t _ _ .pattern hstands
  cases hbind : Pattern.bind .pattern t with
  | error error =>
    rw [hbind] at hcomes
    obtain ⟨hends⟩ | _ := hcomes
    rcases hresult with ⟨_, hother⟩ | ⟨_, hrun, hother⟩
    · cases (hends []).unique hother
    · cases (hends []).unique hother
      exact ⟨_, (grows_captureAll hcaptured (Arena.grows_store base t)).keeps, hrun⟩
  | ok u =>
    rw [hbind] at hcomes
    obtain _ | ⟨names, hnames, hends⟩ := hcomes
    have hends := hends [] (.ok (captureAll _ names)) (.last rfl)
    show (base.store u).2 = _ ∧ _ = Except.ok (base.store u).1
    rw [captureAll_store (marks_of_bind hbind) hnames]
    rcases hresult with ⟨hrun, hother⟩ | ⟨_, _, hother⟩
    · exact ⟨rfl, hrun.trans (congrArg Except.ok (Except.ok.inj (hends.unique hother)))⟩
    · cases hends.unique hother

end Loop

end PatternRounds

namespace Building

instance (base : Arena) (t : Tree) :
    Rule base (put base t).1 (Builder.bindPattern (put base t).2)
      (Parser.ofExcept (Pattern.bind .pattern t)) :=
  ⟨⟨fun _ state => matches_change (PatternRounds.checkWithin_store base t) state⟩⟩

theorem agrees_withinPattern [Storable β α] {now : Arena} {p : Builder α} {q : Parser β}
    (h : Agrees now now p q) :
    Agrees now now (Builder.withinPattern p) (Parser.withinPattern q) := by
  constructor
  intro ending state
  unfold Builder.withinPattern Parser.withinPattern
  have hmatch := h.run ending { state with inPattern := true }
  generalize p ending { state with inPattern := true } now = built at hmatch
  generalize q ending { state with inPattern := true } = outcome at hmatch
  cases hmatch with
  | ok b next => exact .ok b _
  | fail error next h => exact .fail error _ h

instance [Storable β α] (now : Arena) (p : Builder α) (q : Parser β) [h : Agrees now now p q] :
    Rule now now (Builder.withinPattern p) (Parser.withinPattern q) := ⟨agrees_withinPattern h⟩

end Building

end SnippetLint
