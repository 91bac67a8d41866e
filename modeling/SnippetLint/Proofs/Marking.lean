import SnippetLint.Builder.Basic
import SnippetLint.Grammar.Expression

/-!
Stored trees changed where they stand. Storing a tree adds a list of nodes that depends only on the
tree and on how many nodes are stored before it, and a tree that gets other kinds keeps its place.
So marking a stored tree as a target gives what storing the marked tree would have given, with
anything stored before and after it; a refusal halfway leaves changes among the nodes of the tree
only. Main statements: `markWithin_store` and `positionalOnly_storeAll`.
-/

namespace SnippetLint.Marking
open SnippetLint.Tree (sizeAll)

/-! ## What storing adds -/

/-- The indices at which trees are stored after `size` other nodes. -/
def roots (size : Nat) : List Tree → List Nat
  | [] => []
  | t :: ts => (size + sizeAll t.children) :: roots (size + t.size) ts

mutual

/-- The nodes that storing a tree adds to `size` others. -/
def listing (size : Nat) : Tree → List Node
  | .node kind span children => listingAll size children ++ [⟨kind, span, roots size children⟩]

def listingAll (size : Nat) : List Tree → List Node
  | [] => []
  | t :: ts => listing size t ++ listingAll (size + t.size) ts

end

mutual

theorem length_listing (size : Nat) : ∀ t : Tree, (listing size t).length = t.size
  | .node kind span children => by
    rw [listing, List.length_append, length_listingAll, Tree.size]
    rfl

theorem length_listingAll (size : Nat) : ∀ ts : List Tree, (listingAll size ts).length = sizeAll ts
  | [] => rfl
  | t :: ts => by
    rw [listingAll, List.length_append, length_listing, length_listingAll, sizeAll]

end

/-- The arena of these nodes. -/
def arenaOf (nodes : List Node) : Arena := ⟨nodes.toArray⟩

theorem arenaOf_toList (arena : Arena) : arenaOf arena.nodes.toList = arena := rfl

theorem size_arenaOf (nodes : List Node) : (arenaOf nodes).size = nodes.length :=
  List.size_toArray

theorem push_arenaOf (nodes : List Node) (node : Node) :
    (arenaOf nodes).push node = arenaOf (nodes ++ [node]) := by
  rw [arenaOf, Arena.push, List.push_toArray]
  rfl

mutual

theorem store_arenaOf (nodes : List Node) : ∀ t : Tree, (arenaOf nodes).store t =
    (arenaOf (nodes ++ listing nodes.length t), nodes.length + sizeAll t.children)
  | .node kind span children => by
    rw [Arena.store, storeAll_arenaOf nodes children]
    dsimp only
    rw [push_arenaOf, size_arenaOf, List.length_append, length_listingAll, listing,
      List.append_assoc]
    rfl

theorem storeAll_arenaOf (nodes : List Node) : ∀ ts : List Tree, (arenaOf nodes).storeAll ts =
    (arenaOf (nodes ++ listingAll nodes.length ts), roots nodes.length ts)
  | [] => by rw [Arena.storeAll, listingAll, roots, List.append_nil]
  | t :: ts => by
    rw [Arena.storeAll, store_arenaOf nodes t]
    dsimp only
    rw [storeAll_arenaOf _ ts, List.length_append, length_listing, listingAll, roots,
      List.append_assoc]

end

/-! ## Changing a stored node -/

section Change

variable (before after : List Node) (kind : NodeKind) (span : Span) (children : List Tree)

theorem get?_listing :
    (arenaOf (before ++ listing before.length (.node kind span children) ++ after)).get?
      (before.length + sizeAll children) = some ⟨kind, span, roots before.length children⟩ := by
  have hlength := length_listingAll before.length children
  rw [listing, arenaOf, Arena.get?, List.getElem?_toArray, ← hlength, ← List.length_append]
  simp

theorem setKind_listing (other : NodeKind) :
    (arenaOf (before ++ listing before.length (.node kind span children) ++ after)).setKind
      (before.length + sizeAll children) other =
      arenaOf (before ++ listing before.length (.node other span children) ++ after) := by
  have hlength := length_listingAll before.length children
  have hmodify : ∀ (front : List Node) (node : Node) (f : Node → Node),
      (front ++ node :: after).modify front.length f = front ++ f node :: after := by
    intro front node f
    induction front with
    | nil => rfl
    | cons first front ih => exact congrArg (first :: ·) ih
  rw [listing, listing, arenaOf, arenaOf, Arena.setKind, List.modify_toArray, ← hlength,
    ← List.length_append]
  simp only [List.append_assoc, List.cons_append, List.nil_append]
  rw [← List.append_assoc, hmodify, List.append_assoc]

end Change

/-! ## Targets -/

theorem mark_node (action : TargetAction) (kind : NodeKind) (span : Span) (children : List Tree) :
    Target.mark action (.node kind span children) =
      match Target.marking action kind with
      | .single kind => .ok (.node kind span children)
      | .whole kind => (Target.markAll action children).map (.node kind span)
      | .refused what => .error ⟨.invalidTarget action what, span.start⟩ := by
  cases kind with
  | starred context => cases action <;> rfl
  | _ => rfl

theorem markAll_cons (action : TargetAction) (t : Tree) (ts : List Tree) :
    Target.markAll action (t :: ts) =
      match Target.mark action t with
      | .ok marked => (Target.markAll action ts).map (marked :: ·)
      | .error error => .error error := by
  rw [Target.markAll]
  cases Target.mark action t with
  | error error => rfl
  | ok marked => cases Target.markAll action ts <;> rfl

theorem size_eq (t : Tree) : t.size = sizeAll t.children + 1 := by
  cases t
  rw [Tree.size]
  rfl

mutual

/-- Marking keeps the number of nodes. -/
theorem size_of_mark {action : TargetAction} : ∀ {t marked : Tree},
    Target.mark action t = .ok marked → sizeAll marked.children = sizeAll t.children
  | .node kind span children, marked, h => by
    rw [mark_node] at h
    split at h
    · cases h
      rfl
    · cases hall : Target.markAll action children with
      | error error =>
        rw [hall] at h
        cases h
      | ok ts =>
        rw [hall] at h
        cases h
        exact (size_of_markAll hall 0).1
    · cases h

theorem size_of_markAll {action : TargetAction} : ∀ {ts marked : List Tree},
    Target.markAll action ts = .ok marked → ∀ size,
      sizeAll marked = sizeAll ts ∧ roots size marked = roots size ts
  | [], marked, h => by
    cases h
    exact fun _ => ⟨rfl, rfl⟩
  | t :: ts, marked, h => by
    intro size
    rw [markAll_cons] at h
    cases ht : Target.mark action t with
    | error error =>
      rw [ht] at h
      cases h
    | ok first =>
      cases hts : Target.markAll action ts with
      | error error =>
        rw [ht, hts] at h
        cases h
      | ok rest =>
        rw [ht, hts] at h
        cases h
        have hfirst := size_of_mark ht
        have hsize : first.size = t.size := by rw [size_eq, size_eq, hfirst]
        obtain ⟨hrest, hroots⟩ := size_of_markAll hts (size + t.size)
        rw [sizeAll, sizeAll, roots, roots, hfirst, hsize, hrest, hroots]
        exact ⟨rfl, rfl⟩

end

/-- Between the same nodes before and after, an arena holds the nodes that were expected, or, after
the error that was expected, any others. -/
inductive Marked (before after : List Node) :
    Except (ParseError × Arena) Arena → Except ParseError (List Node) → Prop
  | ok {all nodes : List Node} (h : all = before ++ nodes ++ after) :
    Marked before after (.ok (arenaOf all)) (.ok nodes)
  | error (error : ParseError) {all nodes : List Node} (h : all = before ++ nodes ++ after) :
    Marked before after (.error (error, arenaOf all)) (.error error)

mutual

theorem marked_listing (action : TargetAction) : ∀ (t : Tree) (fuel : Nat)
    (before after : List Node), before.length + sizeAll t.children < fuel →
    Marked before after
      ((arenaOf (before ++ listing before.length t ++ after)).markWithin action fuel
        (before.length + sizeAll t.children))
      ((Target.mark action t).map (listing before.length))
  | .node kind span children, fuel + 1, before, after, hfuel => by
    unfold Arena.markWithin
    rw [mark_node]
    simp only [Tree.children, get?_listing, setKind_listing]
    cases Target.marking action kind with
    | single other => exact .ok rfl
    | refused what => exact .error _ rfl
    | whole other =>
      -- the children are marked between what stands before them and their parent
      have hall := marked_listingAll action children fuel before
        (⟨other, span, roots before.length children⟩ :: after) (Nat.le_of_lt_succ hfuel)
      dsimp only
      rw [listing, List.append_assoc, List.append_assoc, List.singleton_append, ← List.append_assoc]
      generalize List.foldlM (m := Except (ParseError × Arena)) _ _ _ = result at hall ⊢
      cases hmarked : Target.markAll action children with
      | error error =>
        rw [hmarked] at hall
        obtain _ | ⟨_, hnodes⟩ := hall
        exact .error error (hnodes.trans (by rw [List.append_cons, List.append_assoc before]))
      | ok ts =>
        rw [hmarked] at hall
        obtain ⟨hnodes⟩ := hall
        refine .ok (hnodes.trans ?_)
        rw [listing, (size_of_markAll hmarked before.length).2]
        simp only [List.append_assoc, List.singleton_append]

theorem marked_listingAll (action : TargetAction) : ∀ (ts : List Tree) (fuel : Nat)
    (before after : List Node), before.length + sizeAll ts ≤ fuel →
    Marked before after
      ((roots before.length ts).foldlM (fun arena id => arena.markWithin action fuel id)
        (arenaOf (before ++ listingAll before.length ts ++ after)))
      ((Target.markAll action ts).map (listingAll before.length))
  | [], fuel, before, after, _ => .ok rfl
  | t :: ts, fuel, before, after, hfuel => by
    have htree := size_eq t
    rw [sizeAll] at hfuel
    have hfirst := marked_listing action t fuel before
      (listingAll (before.length + t.size) ts ++ after) (by omega)
    rw [roots, List.foldlM_cons, listingAll, markAll_cons, ← List.append_assoc,
      List.append_assoc _ _ after]
    generalize Arena.markWithin action fuel _ _ = result at hfirst ⊢
    cases ht : Target.mark action t with
    | error error =>
      rw [ht] at hfirst
      obtain _ | ⟨_, hnodes⟩ := hfirst
      exact .error error (hnodes.trans (by rw [← List.append_assoc, ← List.append_assoc]))
    | ok first =>
      rw [ht] at hfirst
      obtain ⟨rfl⟩ := hfirst
      have hsize : first.size = t.size := by rw [size_eq, size_eq, size_of_mark ht]
      have hlength : (before ++ listing before.length first).length = before.length + t.size := by
        rw [List.length_append, length_listing, hsize]
      have hrest := marked_listingAll action ts fuel (before ++ listing before.length first) after
        (by omega)
      rw [hlength, List.append_assoc _ _ after] at hrest
      show Marked before after (List.foldlM _ _ _) _
      generalize List.foldlM (m := Except (ParseError × Arena)) _ _ _ = result at hrest ⊢
      cases hts : Target.markAll action ts with
      | error error =>
        rw [hts] at hrest
        obtain _ | ⟨_, hnodes⟩ := hrest
        exact .error error (hnodes.trans (by rw [List.append_assoc before]))
      | ok rest =>
        rw [hts] at hrest
        obtain ⟨hnodes⟩ := hrest
        refine .ok (hnodes.trans ?_)
        rw [listingAll, hsize, List.append_assoc before]

end

/-- Marking a stored tree gives the arena that storing the marked tree gives; if it is refused,
what was stored before the tree is still there. -/
theorem markWithin_store (action : TargetAction) (base : Arena) (t : Tree) :
    match Target.mark action t with
    | .ok marked =>
      (base.store marked).2 = (base.store t).2 ∧
        (base.store t).1.markWithin action ((base.store t).2 + 1) (base.store t).2 =
          .ok (base.store marked).1
    | .error error => ∃ later, base.nodes.toList <+: later.nodes.toList ∧
        (base.store t).1.markWithin action ((base.store t).2 + 1) (base.store t).2 =
          .error (error, later) := by
  rw [← arenaOf_toList base]
  generalize base.nodes.toList = before
  have hmarked := marked_listing action t _ before [] (Nat.lt_succ_self _)
  simp only [store_arenaOf, List.append_nil] at hmarked ⊢
  generalize Arena.markWithin action _ _ _ = result at hmarked ⊢
  cases ht : Target.mark action t with
  | ok marked =>
    rw [ht] at hmarked
    obtain ⟨rfl⟩ := hmarked
    rw [List.append_nil]
    exact ⟨by rw [size_of_mark ht], rfl⟩
  | error error =>
    rw [ht] at hmarked
    obtain _ | ⟨_, rfl⟩ := hmarked
    refine ⟨_, ?_, rfl⟩
    simp only [List.append_assoc]
    exact List.prefix_append _ _

/-! ## Parameters -/

theorem positionalOnly_listing (before after : List Node) (t : Tree) :
    (arenaOf (before ++ listing before.length t ++ after)).positionalOnly
      (before.length + sizeAll t.children) =
      arenaOf (before ++ listing before.length (Expression.positionalOnly t) ++ after) := by
  obtain ⟨kind, span, children⟩ := t
  unfold Arena.positionalOnly
  simp only [Tree.children, get?_listing]
  cases kind with
  | parameter name passed =>
    simp only [setKind_listing]
    rfl
  | _ => rfl

theorem children_positionalOnly (t : Tree) :
    (Expression.positionalOnly t).children = t.children := by
  obtain ⟨kind, span, children⟩ := t
  cases kind <;> rfl

theorem size_positionalOnly (t : Tree) : (Expression.positionalOnly t).size = t.size := by
  rw [size_eq, size_eq, children_positionalOnly]

theorem roots_positionalOnly (size : Nat) (ts : List Tree) :
    roots size (ts.map Expression.positionalOnly) = roots size ts := by
  induction ts generalizing size with
  | nil => rfl
  | cons t ts ih =>
    rw [List.map_cons, roots, roots, size_positionalOnly, children_positionalOnly, ih]

theorem foldl_positionalOnly (ts : List Tree) (before after : List Node) :
    (roots before.length ts).foldl Arena.positionalOnly
      (arenaOf (before ++ listingAll before.length ts ++ after)) =
      arenaOf (before ++ listingAll before.length (ts.map Expression.positionalOnly) ++ after) := by
  induction ts generalizing before with
  | nil => rfl
  | cons t ts ih =>
    have hsize := size_positionalOnly t
    have hlength : (before ++ listing before.length (Expression.positionalOnly t)).length =
        before.length + t.size := by
      rw [List.length_append, length_listing, hsize]
    have hfirst := positionalOnly_listing before (listingAll (before.length + t.size) ts ++ after) t
    have hrest := ih (before ++ listing before.length (Expression.positionalOnly t))
    rw [hlength] at hrest
    rw [roots, List.foldl_cons, List.map_cons, listingAll, listingAll, hsize]
    simp only [List.append_assoc] at hfirst hrest ⊢
    rw [hfirst, hrest]

/-- Changing stored parameters gives the arena that storing the changed ones gives. -/
theorem positionalOnly_storeAll (base : Arena) (ts : List Tree) :
    ((base.storeAll ts).2.foldl Arena.positionalOnly (base.storeAll ts).1, (base.storeAll ts).2) =
      base.storeAll (ts.map Expression.positionalOnly) := by
  rw [← arenaOf_toList base]
  generalize base.nodes.toList = before
  have hfold := foldl_positionalOnly ts before []
  simp only [List.append_nil] at hfold
  rw [storeAll_arenaOf, storeAll_arenaOf, hfold, roots_positionalOnly]

end SnippetLint.Marking
