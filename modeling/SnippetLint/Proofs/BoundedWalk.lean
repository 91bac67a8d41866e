import Mathlib.Data.List.Chain
import Mathlib.Logic.Relation
import SnippetLint.Proofs.Rounds
import SnippetLint.Tree.Walk

/-!
A walk with a stack is a bounded recursion in pre-order, in any arena: nodes may share children, lie
on a cycle or name nodes that are not there. `visit` is the recursion, and the stack is what it has
still to visit (`walkStack_eq`); the paths of indices from the root tell whether it meets an error
(`visit_error_eq_none_iff`). Main statement: `walks_are_bounded_preorder`.
-/

namespace SnippetLint.BoundedWalk

/-! ## Visits -/

/-- A walk that has nothing to visit. -/
def done : Walk := ⟨[], none⟩

/-- A walk that fails at once. -/
def stopped (error : WalkError) : Walk := ⟨[], some error⟩

/-- One walk after another, if the first one does not fail. -/
def andThen (first second : Walk) : Walk :=
  match first.error with
  | none => ⟨first.visited ++ second.visited, second.error⟩
  | some _ => first

/-- Visits a node at this depth and what is below it. -/
def visit (arena : Arena) (limit depth id : Nat) : Walk :=
  if depth ≤ limit then
    match arena.get? id with
    | none => stopped (.danglingNode id)
    | some node =>
      ((node.children.map fun child => visit arena limit (depth + 1) child).foldr andThen
        done).visit node
  else stopped (.depthExceeded limit)
termination_by limit + 1 - depth

/-- Visits one node after another, each at its own depth. -/
def visitAll (arena : Arena) (limit : Nat) (stack : List (Nat × Nat)) : Walk :=
  (stack.map fun entry => visit arena limit entry.2 entry.1).foldr andThen done

variable {arena : Arena} {limit larger depth id : Nat}

theorem andThen_assoc (a b c : Walk) : andThen (andThen a b) c = andThen a (andThen b c) := by
  obtain ⟨visited, _ | error⟩ := a
  · obtain ⟨visited', _ | error⟩ := b
    · simp [andThen]
    · rfl
  · rfl

theorem visit_andThen (node : Node) (a b : Walk) :
    andThen (a.visit node) b = (andThen a b).visit node := by
  obtain ⟨visited, _ | error⟩ := a <;> rfl

theorem visitAll_append (stack rest : List (Nat × Nat)) :
    visitAll arena limit (stack ++ rest) =
      andThen (visitAll arena limit stack) (visitAll arena limit rest) := by
  induction stack with
  | nil => rfl
  | cons entry stack ih =>
    unfold visitAll at ih ⊢
    rw [List.cons_append, List.map_cons, List.map_cons, List.foldr_cons, List.foldr_cons, ih,
      andThen_assoc]

theorem visit_of_deep (h : ¬ depth ≤ limit) :
    visit arena limit depth id = stopped (.depthExceeded limit) := by
  rw [visit, if_neg h]

theorem visit_of_missing (hdepth : depth ≤ limit) (h : arena.get? id = none) :
    visit arena limit depth id = stopped (.danglingNode id) := by
  rw [visit, if_pos hdepth, h]

theorem visit_of_found (hdepth : depth ≤ limit) {node : Node} (h : arena.get? id = some node) :
    visit arena limit depth id =
      (visitAll arena limit (node.children.map (·, depth + 1))).visit node := by
  rw [visit, if_pos hdepth, h, visitAll, List.map_map]
  rfl

variable {rest : List (Nat × Nat)}

theorem visitAll_of_deep (h : ¬ depth ≤ limit) :
    visitAll arena limit ((id, depth) :: rest) = stopped (.depthExceeded limit) := by
  rw [visitAll, List.map_cons, List.foldr_cons, visit_of_deep h]
  rfl

theorem visitAll_of_missing (hdepth : depth ≤ limit) (h : arena.get? id = none) :
    visitAll arena limit ((id, depth) :: rest) = stopped (.danglingNode id) := by
  rw [visitAll, List.map_cons, List.foldr_cons, visit_of_missing hdepth h]
  rfl

/-- After a node its children come first. -/
theorem visitAll_of_found (hdepth : depth ≤ limit) {node : Node} (h : arena.get? id = some node) :
    visitAll arena limit ((id, depth) :: rest) =
      (visitAll arena limit (node.children.map (·, depth + 1) ++ rest)).visit node := by
  rw [visitAll_append, ← visit_andThen, ← visit_of_found hdepth h]
  rfl

/-- The stack of a walk holds what is still to be visited. -/
theorem walkStack_eq (stack : List (Nat × Nat)) :
    arena.walkStack limit stack = visitAll arena limit stack := by
  induction stack using Arena.walkStack.induct arena limit with
  | case1 =>
    rw [Arena.walkStack]
    rfl
  | case2 id depth rest hdepth hmissing =>
    rw [Arena.walkStack, dif_pos hdepth, visitAll_of_missing hdepth hmissing]
    split
    · rfl
    · next found => cases hmissing.symm.trans found
  | case3 id depth rest hdepth node hfound ih =>
    rw [Arena.walkStack, dif_pos hdepth, visitAll_of_found hdepth hfound, ← ih]
    split
    · next missing => cases hfound.symm.trans missing
    · next other found =>
      cases hfound.symm.trans found
      rfl
  | case4 id depth rest hdeep =>
    rw [Arena.walkStack, dif_neg hdeep, visitAll_of_deep hdeep, stopped]

/-! ## Rounds of the walk -/

/-- One round of the walk, on a stack whose top is its end: the children of the node that is taken
from it are put there in reverse order. -/
def round (arena : Arena) (limit : Nat) (state : List (Nat × Nat) × List Node) :
    Walk ⊕ List (Nat × Nat) × List Node :=
  match state.1.getLast? with
  | none => .inl ⟨state.2, none⟩
  | some (id, depth) =>
    if depth ≤ limit then
      match arena.get? id with
      | none => .inl ⟨state.2, some (.danglingNode id)⟩
      | some node =>
        .inr (state.1.dropLast ++ node.children.reverse.map (·, depth + 1), state.2 ++ [node])
    else .inl ⟨state.2, some (.depthExceeded limit)⟩

/-- The rounds come to an end, with what the visits of the stack add to what has been visited
already. -/
theorem ends_round (stack : List (Nat × Nat)) (visited : List Node) :
    Ends (round arena limit) (stack.reverse, visited)
      ⟨visited ++ (visitAll arena limit stack).visited, (visitAll arena limit stack).error⟩ := by
  -- neither the nodes nor the stack get fewer, so the rounds are counted as the walk counts its own
  induction stack using Arena.walkStack.induct arena limit generalizing visited with
  | case1 =>
    refine .last ?_
    rw [visitAll, List.map_nil, List.foldr_nil, done, List.append_nil]
    rfl
  | case2 id depth rest hdepth hmissing =>
    rw [visitAll_of_missing hdepth hmissing, stopped, List.append_nil]
    refine .last ?_
    simp only [round, List.reverse_cons, List.getLast?_concat, if_pos hdepth, hmissing]
  | case3 id depth rest hdepth node hfound ih =>
    have hnext := ih (visited ++ [node])
    rw [List.reverse_append, ← List.map_reverse, List.append_assoc] at hnext
    rw [visitAll_of_found hdepth hfound]
    refine .again ?_ hnext
    simp only [round, List.reverse_cons, List.getLast?_concat, if_pos hdepth, hfound,
      List.dropLast_concat]
  | case4 id depth rest hdeep =>
    rw [visitAll_of_deep hdeep, stopped, List.append_nil]
    refine .last ?_
    simp only [round, List.reverse_cons, List.getLast?_concat, if_neg hdeep]

/-! ## Paths -/

/-- Whether a node of the arena names another one as its child. -/
def IsChild (arena : Arena) (parent child : Nat) : Prop :=
  ∃ node, arena.get? parent = some node ∧ child ∈ node.children

theorem andThen_error_eq_none_iff (a b : Walk) :
    (andThen a b).error = none ↔ a.error = none ∧ b.error = none := by
  obtain ⟨visited, _ | error⟩ := a <;> simp [andThen]

theorem visitAll_error_eq_none_iff (stack : List (Nat × Nat)) :
    (visitAll arena limit stack).error = none ↔
      ∀ entry ∈ stack, (visit arena limit entry.2 entry.1).error = none := by
  unfold visitAll
  induction stack with
  | nil => simp [done]
  | cons entry stack ih =>
    rw [List.map_cons, List.foldr_cons, andThen_error_eq_none_iff, ih, List.forall_mem_cons]

/-- A visit meets no error if no path from its node is too long or leads to a node that is not
there. -/
theorem visit_error_eq_none_iff :
    (visit arena limit depth id).error = none ↔
      ∀ path, (id :: path).IsChain (IsChild arena) →
        depth + path.length ≤ limit ∧ ∀ i ∈ id :: path, (arena.get? i).isSome := by
  induction depth, id using visit.induct arena limit with
  | case1 depth id hdepth hmissing =>
    rw [visit_of_missing hdepth hmissing]
    refine ⟨fun h => absurd h (Option.some_ne_none _), fun h => ?_⟩
    have hknown := (h [] (.singleton id)).2 id List.mem_cons_self
    rw [hmissing] at hknown
    cases hknown
  | case2 depth id hdepth node hfound ih =>
    have hvisit : (visit arena limit depth id).error = none ↔
        ∀ child ∈ node.children, (visit arena limit (depth + 1) child).error = none := by
      rw [visit_of_found hdepth hfound, Walk.visit, visitAll_error_eq_none_iff, List.forall_mem_map]
    rw [hvisit]
    constructor
    · intro hall path hpath
      cases path with
      | nil =>
        refine ⟨by simpa using hdepth, List.forall_mem_singleton.2 ?_⟩
        rw [hfound, Option.isSome_some]
      | cons child path =>
        obtain ⟨⟨parent, hparent, hchild⟩, hrest⟩ := List.isChain_cons_cons.1 hpath
        cases hfound.symm.trans hparent
        obtain ⟨hlength, hknown⟩ := (ih child).1 (hall child hchild) path hrest
        refine ⟨by rw [List.length_cons]; omega, List.forall_mem_cons.2 ⟨?_, hknown⟩⟩
        rw [hfound, Option.isSome_some]
    · intro hall child hchild
      refine (ih child).2 fun path hpath => ?_
      obtain ⟨hlength, hknown⟩ :=
        hall (child :: path) (.cons_cons ⟨node, hfound, hchild⟩ hpath)
      rw [List.length_cons] at hlength
      exact ⟨by omega, (List.forall_mem_cons.1 hknown).2⟩
  | case3 depth id hdeep =>
    rw [visit_of_deep hdeep]
    refine ⟨fun h => absurd h (Option.some_ne_none _), fun h => ?_⟩
    exact absurd (h [] (.singleton id)).1 hdeep

/-- A path may be reached from before it. -/
theorem exists_longer_path {a b : Nat} (h : Relation.ReflTransGen (IsChild arena) a b)
    {path : List Nat} (hpath : (b :: path).IsChain (IsChild arena)) :
    ∃ longer, (a :: longer).IsChain (IsChild arena) ∧ path.length ≤ longer.length := by
  induction h using Relation.ReflTransGen.head_induction_on with
  | refl => exact ⟨path, hpath, Nat.le_refl _⟩
  | @head a c hchild _ ih =>
    obtain ⟨longer, hlonger, hlength⟩ := ih
    exact ⟨c :: longer, .cons_cons hchild hlonger, Nat.le_succ_of_le hlength⟩

/-- Round a cycle there are paths of any length. -/
theorem exists_path_of_cycle {a : Nat} (h : Relation.TransGen (IsChild arena) a a) (n : Nat) :
    ∃ path, (a :: path).IsChain (IsChild arena) ∧ n ≤ path.length := by
  induction n with
  | zero => exact ⟨[], .singleton a, Nat.zero_le _⟩
  | succ n ih =>
    obtain ⟨path, hpath, hlength⟩ := ih
    obtain ⟨c, hchild, hback⟩ := Relation.TransGen.head'_iff.1 h
    obtain ⟨longer, hlonger, hle⟩ := exists_longer_path hback hpath
    exact ⟨c :: longer, .cons_cons hchild hlonger, Nat.succ_le_succ (Nat.le_trans hlength hle)⟩

/-- No visit gets round a cycle. -/
theorem visit_error_of_cycle {a : Nat} (hreach : Relation.ReflTransGen (IsChild arena) id a)
    (hcycle : Relation.TransGen (IsChild arena) a a) :
    (visit arena limit depth id).error ≠ none := by
  intro hnone
  obtain ⟨path, hpath, hlength⟩ := exists_path_of_cycle hcycle (limit + 1)
  obtain ⟨longer, hlonger, hle⟩ := exists_longer_path hreach hpath
  have hlimit := (visit_error_eq_none_iff.1 hnone longer hlonger).1
  omega

/-! ## Limits -/

/-- A walk visits what another one begins with, and the same if it does not fail. -/
structure Begins (small large : Walk) : Prop where
  front : small.visited <+: large.visited
  whole : small.error = none → large = small

theorem begins_stopped (error : WalkError) (walk : Walk) : Begins (stopped error) walk :=
  ⟨List.nil_prefix, fun h => by cases h⟩

theorem Begins.andThen {a b a' b' : Walk} (ha : Begins a a') (hb : Begins b b') :
    Begins (andThen a b) (andThen a' b') := by
  obtain ⟨visited, _ | error⟩ := a
  · rw [ha.whole rfl]
    refine ⟨(List.prefix_append_right_inj visited).2 hb.front, fun hnone => ?_⟩
    rw [hb.whole hnone]
  · obtain ⟨visited', _ | error'⟩ := a'
    · exact ⟨ha.front.trans (List.prefix_append _ _), fun h => by cases h⟩
    · exact ⟨ha.front, fun h => by cases h⟩

theorem Begins.visit {small large : Walk} (node : Node) (h : Begins small large) :
    Begins (small.visit node) (large.visit node) :=
  ⟨List.cons_prefix_cons.2 ⟨rfl, h.front⟩, fun hnone => by rw [h.whole hnone]⟩

/-- A smaller limit cuts a visit short. -/
theorem begins_visit (h : limit ≤ larger) :
    Begins (visit arena limit depth id) (visit arena larger depth id) := by
  induction depth, id using visit.induct arena limit with
  | case1 depth id hdepth hmissing =>
    rw [visit_of_missing hdepth hmissing]
    exact begins_stopped _ _
  | case2 depth id hdepth node hfound ih =>
    rw [visit_of_found hdepth hfound, visit_of_found (Nat.le_trans hdepth h) hfound]
    refine Begins.visit node ?_
    unfold visitAll
    induction node.children with
    | nil => exact ⟨List.prefix_rfl, fun _ => rfl⟩
    | cons child children ihchildren =>
      rw [List.map_cons, List.map_cons, List.map_cons, List.foldr_cons, List.foldr_cons]
      exact (ih child).andThen ihchildren
  | case3 depth id hdeep =>
    rw [visit_of_deep hdeep]
    exact begins_stopped _ _

theorem walkWithin_eq (tree : RootedArena) (limit : Nat) :
    tree.walkWithin limit = visit tree.arena limit 1 tree.root := by
  rw [RootedArena.walkWithin, walkStack_eq, visitAll, List.map_singleton, List.foldr_cons,
    List.foldr_nil]
  obtain ⟨visited, _ | error⟩ := visit tree.arena limit 1 tree.root
  · simp [andThen, done]
  · rfl

/-- **A walk is a bounded recursion in pre-order.** Whatever the arena is like, the rounds of a walk
come to an end, and visit the nodes and give the error that the recursion does. There is none just
if every path of indices from the root has at most as many nodes as the limit says, all of them in
the arena; so there is one if a cycle can be reached. A smaller limit only makes a walk visit less
of the same nodes in the same order. -/
theorem walks_are_bounded_preorder (tree : RootedArena) (limit : Nat) :
    (∀ walk, Ends (round tree.arena limit) ([(tree.root, 1)], []) walk ↔
      walk = tree.walkWithin limit) ∧
    tree.walkWithin limit = visit tree.arena limit 1 tree.root ∧
    ((tree.walkWithin limit).error = none ↔
      ∀ path, (tree.root :: path).IsChain (IsChild tree.arena) →
        (tree.root :: path).length ≤ limit ∧
          ∀ id ∈ tree.root :: path, (tree.arena.get? id).isSome) ∧
    (∀ id, Relation.ReflTransGen (IsChild tree.arena) tree.root id →
      Relation.TransGen (IsChild tree.arena) id id → (tree.walkWithin limit).error ≠ none) ∧
    ∀ larger, limit ≤ larger →
      (tree.walkWithin limit).visited <+: (tree.walkWithin larger).visited := by
  have hvisit := walkWithin_eq tree
  refine ⟨fun walk => ?_, hvisit limit, ?_, ?_, ?_⟩
  · rw [RootedArena.walkWithin, walkStack_eq]
    exact (ends_round [(tree.root, 1)] []).iff_eq
  · rw [hvisit, visit_error_eq_none_iff]
    simp only [List.length_cons, Nat.add_comm 1]
  · intro id hreach hcycle
    rw [hvisit]
    exact visit_error_of_cycle hreach hcycle
  · intro larger hle
    rw [hvisit, hvisit]
    exact (begins_visit hle).front

/-- A node that is its own child, after another one: five levels show more of the cycle than three,
and no walk comes to the end of it. -/
theorem walks_end_on_cycle :
    ∃ tree : RootedArena, tree = ⟨⟨#[⟨.passStmt, .zero, []⟩, ⟨.module, .zero, [0, 1]⟩]⟩, 1⟩ ∧
      3 ≤ 5 ∧ (tree.walkWithin 3).visited <+: (tree.walkWithin 5).visited ∧
      IsChild tree.arena 1 1 ∧ (tree.walkWithin 3).error ≠ none := by
  obtain ⟨tree, htree⟩ : ∃ tree : RootedArena,
    tree = ⟨⟨#[⟨.passStmt, .zero, []⟩, ⟨.module, .zero, [0, 1]⟩]⟩, 1⟩ := ⟨_, rfl⟩
  have hchild : IsChild tree.arena 1 1 := by
    rw [htree]
    exact ⟨⟨.module, .zero, [0, 1]⟩, rfl, by decide⟩
  have hroot : tree.root = 1 := by rw [htree]
  obtain ⟨_, _, _, hcycle, hlarger⟩ := walks_are_bounded_preorder tree 3
  rw [hroot] at hcycle
  exact ⟨tree, htree, by decide, hlarger 5 (by decide), hchild, hcycle 1 .refl (.single hchild)⟩

end SnippetLint.BoundedWalk
