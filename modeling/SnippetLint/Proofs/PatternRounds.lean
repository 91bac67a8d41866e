import SnippetLint.Builder.Check
import SnippetLint.Proofs.Captures
import SnippetLint.Proofs.Ownership
import SnippetLint.Proofs.Preorder
import SnippetLint.Proofs.Rounds

/-!
The rounds of the check of a pattern, compared with the check of its tree. The names of a tree may
be bound while the rest of it is still to be checked, and may be shared; so a tree `Stands` in an
arena up to the contexts of its names, which no test looks at. Main statement:
`patterns_are_recognised`.
-/

namespace SnippetLint.PatternRounds
open SnippetLint.CasePatterns SnippetLint.Preorder SnippetLint.Shapes
open SnippetLint.Pattern (Slot isImaginary invalid)
open SnippetLint.Contexts (at?)

/-! ## Where trees stand -/

mutual

/-- An arena has a tree at this index, some of whose names may have been bound. -/
def Stands (arena : Arena) : Tree → Nat → Prop
  | .node kind span children, id => ∃ known ids, arena.get? id = some ⟨known, span, ids⟩ ∧
      (known = kind ∨ known = bound kind) ∧ StandsAll arena children ids

def StandsAll (arena : Arena) : List Tree → List Nat → Prop
  | [], ids => ids = []
  | t :: ts, ids => ∃ id rest, ids = id :: rest ∧ Stands arena t id ∧ StandsAll arena ts rest

end

section Stands

variable {arena : Arena} {t : Tree} {ts : List Tree} {id target : Nat} {ids : List Nat}

theorem bound_bound (kind : NodeKind) : bound (bound kind) = bound kind := by
  cases kind <;> rfl

theorem get?_captureAt (arena : Arena) (target id : Nat) :
    (captureAt arena target).get? id =
      (arena.get? id).map fun node =>
        if target = id then { node with kind := bound node.kind } else node := by
  rw [captureAt, Arena.get?, Array.getElem?_modify]
  split
  · rfl
  · exact Option.map_id'.symm

mutual

theorem stands_of_holds : ∀ {t : Tree} {id : Nat}, Holds arena t id → Stands arena t id
  | .node _ _ _, _, ⟨ids, hnode, hchildren⟩ =>
    ⟨_, ids, hnode, .inl rfl, standsAll_of_holdsAll hchildren⟩

theorem standsAll_of_holdsAll : ∀ {ts : List Tree} {ids : List Nat}, HoldsAll arena ts ids →
    StandsAll arena ts ids
  | [], _, h => h
  | _ :: _, _, ⟨id, rest, hids, hfirst, hrest⟩ =>
    ⟨id, rest, hids, stands_of_holds hfirst, standsAll_of_holdsAll hrest⟩

end

mutual

/-- A tree stands where it stood after a name has been bound. -/
theorem Stands.captureAt (target : Nat) : ∀ {t : Tree} {id : Nat}, Stands arena t id →
    Stands (captureAt arena target) t id
  | .node kind span _, id, ⟨known, ids, hnode, hknown, hchildren⟩ => by
    have hchildren := hchildren.captureAt target
    by_cases htarget : target = id
    · refine ⟨bound known, ids, by rw [get?_captureAt, hnode, Option.map_some, if_pos htarget], ?_,
        hchildren⟩
      rcases hknown with rfl | rfl
      · exact .inr rfl
      · exact .inr (bound_bound kind)
    · exact ⟨known, ids, by rw [get?_captureAt, hnode, Option.map_some, if_neg htarget], hknown,
        hchildren⟩

theorem StandsAll.captureAt (target : Nat) : ∀ {ts : List Tree} {ids : List Nat},
    StandsAll arena ts ids → StandsAll (captureAt arena target) ts ids
  | [], _, h => h
  | _ :: _, _, ⟨id, rest, hids, hfirst, hrest⟩ =>
    ⟨id, rest, hids, hfirst.captureAt target, hrest.captureAt target⟩

end

theorem Stands.captureAll (h : Stands arena t id) (targets : List Nat) :
    Stands (captureAll arena targets) t id := by
  induction targets generalizing arena with
  | nil => exact h
  | cons target targets ih => exact ih (h.captureAt target)

theorem StandsAll.captureAll (h : StandsAll arena ts ids) (targets : List Nat) :
    StandsAll (captureAll arena targets) ts ids := by
  induction targets generalizing arena with
  | nil => exact h
  | cons target targets ih => exact ih (h.captureAt target)

/-! ## Tests -/

/-- What does not depend on whether a name is bound is seen where the tree stands. -/
theorem Stands.kind_eq {α : Type} (h : Stands arena t id) (f : NodeKind → α)
    (hf : ∀ kind, f (bound kind) = f kind) :
    ∃ node, arena.get? id = some node ∧ f node.kind = f t.kind ∧ node.span = t.span ∧
      StandsAll arena t.children node.children := by
  obtain ⟨kind, span, children⟩ := t
  obtain ⟨known, ids, hnode, rfl | rfl, hchildren⟩ := h
  · exact ⟨_, hnode, rfl, rfl, hchildren⟩
  · exact ⟨_, hnode, hf kind, rfl, hchildren⟩

theorem isNameAt_eq (h : Stands arena t id) : isNameAt arena id = t.kind.isName := by
  obtain ⟨node, hnode, hkind, _⟩ := h.kind_eq NodeKind.isName fun kind => by cases kind <;> rfl
  rw [isNameAt, hnode, Option.any_some, hkind]

theorem isStarredAt_eq (h : Stands arena t id) : isStarredAt arena id = t.kind.isStarred := by
  obtain ⟨node, hnode, hkind, _⟩ := h.kind_eq NodeKind.isStarred fun kind => by cases kind <;> rfl
  rw [isStarredAt, hnode, Option.any_some, hkind]

theorem isUnpackAt_eq (h : Stands arena t id) : isUnpackAt arena id = (t.kind == .dictUnpack) := by
  obtain ⟨node, hnode, hkind, _⟩ := h.kind_eq (· == .dictUnpack) fun kind => by cases kind <;> rfl
  rw [isUnpackAt, hnode, Option.any_some, hkind]

theorem numberAt_eq (h : Stands arena t id) : numberAt arena id = Pattern.number? t := by
  obtain ⟨node, hnode, hkind, _⟩ := h.kind_eq numberOf fun kind => by cases kind <;> rfl
  rw [numberAt, hnode, Option.bind_some, hkind]
  rfl

theorem signedNumberAt_eq (h : Stands arena t id) :
    signedNumberAt arena id = Pattern.signedNumber? t := by
  have hnumber := numberAt_eq h
  obtain ⟨kind, span, children⟩ := t
  obtain ⟨known, ids, hnode, hknown, hchildren⟩ := h
  unfold signedNumberAt Pattern.signedNumber?
  rw [hnode]
  cases kind with
  | unaryOp op =>
    obtain rfl : known = .unaryOp op := or_self_iff.1 hknown
    cases op with
    | minus =>
      match children, hchildren with
      | [], rfl => exact hnumber
      | [operand], ⟨_, _, rfl, hoperand, rfl⟩ => exact numberAt_eq hoperand
      | _ :: _ :: _, ⟨_, _, rfl, _, _, _, rfl, _⟩ => exact hnumber
    | _ => exact hnumber
  | _ => rcases hknown with rfl | rfl <;> exact hnumber

theorem isLiteralAt_eq (h : Stands arena t id) : isLiteralAt arena id = Pattern.isLiteral t := by
  have hsigned := signedNumberAt_eq h
  obtain ⟨kind, span, children⟩ := t
  obtain ⟨known, ids, hnode, hknown, hchildren⟩ := h
  unfold isLiteralAt Pattern.isLiteral
  rw [hnode]
  cases kind with
  | unaryOp op =>
    obtain rfl : known = .unaryOp op := or_self_iff.1 hknown
    cases op with
    | minus => exact congrArg Option.isSome hsigned
    | _ => rfl
  | binOp op =>
    obtain rfl : known = .binOp op := or_self_iff.1 hknown
    cases op with
    | add | sub =>
      match children, hchildren with
      | [], rfl => rfl
      | [_], ⟨_, _, rfl, _, rfl⟩ => rfl
      | [_, _], ⟨_, _, rfl, hreal, _, _, rfl, himaginary, rfl⟩ =>
        dsimp only
        rw [signedNumberAt_eq hreal, numberAt_eq himaginary]
        rfl
      | _ :: _ :: _ :: _, ⟨_, _, rfl, _, _, _, rfl, _, _, _, rfl, _⟩ => rfl
    | _ => rfl
  | _ => rcases hknown with rfl | rfl <;> rfl

theorem isWildcardAt_eq (h : Stands arena t id) :
    isWildcardAt arena id = Pattern.isWildcard t := by
  obtain ⟨kind, span, children⟩ := t
  obtain ⟨known, ids, hnode, hknown, hchildren⟩ := h
  unfold isWildcardAt Pattern.isWildcard
  rw [hnode]
  cases kind <;> rcases hknown with rfl | rfl <;> rfl

theorem span_eq (h : Stands arena t id) : arena.span id = t.span := by
  obtain ⟨kind, span, children⟩ := t
  obtain ⟨known, ids, hnode, _⟩ := h
  rw [Arena.span, hnode]
  rfl

theorem standsAll_filter (h : StandsAll arena ts ids) :
    StandsAll arena (ts.filter (·.kind.isStarred)) (ids.filter (isStarredAt arena)) := by
  induction ts generalizing ids with
  | nil =>
    cases h
    rfl
  | cons t ts ih =>
    obtain ⟨id, rest, rfl, hfirst, hrest⟩ := h
    rw [List.filter_cons, List.filter_cons, isStarredAt_eq hfirst]
    split
    · exact ⟨id, _, rfl, hfirst, ih hrest⟩
    · exact ih hrest

theorem checkItems_eq (h : StandsAll arena ts ids) :
    checkItems arena ids = Pattern.checkSequence ts := by
  have hstars := standsAll_filter h
  unfold checkItems Pattern.checkSequence
  generalize ids.filter (isStarredAt arena) = stars at hstars ⊢
  generalize ts.filter (·.kind.isStarred) = items at hstars ⊢
  match items, hstars with
  | [], rfl => rfl
  | [_], ⟨_, _, rfl, _, rfl⟩ => rfl
  | _ :: _ :: _, ⟨_, _, rfl, _, _, _, rfl, hsecond, _⟩ =>
    dsimp only
    rw [span_eq hsecond]
    rfl

end Stands

/-! ## What is reached -/

/-- The indices to which these addresses lead from a node. -/
def Reached (arena : Arena) (id : Nat) (P : List Nat → Prop) (target : Nat) : Prop :=
  ∃ path, P path ∧ arena.follow? id path = some target

/-- The indices to which they lead if they begin with a place in a list. -/
def ReachedAll (arena : Arena) (ids : List Nat) (P : List Nat → Prop) (target : Nat) : Prop :=
  ∃ i path id, P (i :: path) ∧ ids[i]? = some id ∧ arena.follow? id path = some target

section Reached

variable {arena : Arena} {P Q : List Nat → Prop} {node : Node} {id target : Nat} {ids : List Nat}

theorem Reached.congr (h : ∀ path, P path ↔ Q path) :
    Reached arena id P target ↔ Reached arena id Q target :=
  exists_congr fun path => and_congr_left' (h path)

theorem ReachedAll.congr (h : ∀ path, P path ↔ Q path) :
    ReachedAll arena ids P target ↔ ReachedAll arena ids Q target :=
  exists_congr fun _ => exists_congr fun _ => exists_congr fun _ => and_congr_left' (h _)

theorem reached_none (h : ∀ path, ¬ P path) : ¬ Reached arena id P target :=
  fun ⟨path, hpath, _⟩ => h path hpath

theorem reachedAll_none (h : ∀ path, ¬ P path) : ¬ ReachedAll arena ids P target :=
  fun ⟨_, _, _, hpath, _⟩ => h _ hpath

theorem follow?_cons (hnode : arena.get? id = some node) (i : Nat) (path : List Nat) :
    arena.follow? id (i :: path) = some target ↔
      ∃ child, node.children[i]? = some child ∧ arena.follow? child path = some target := by
  have hcons : arena.follow? id (i :: path) =
      node.children[i]?.bind fun child => arena.follow? child path := by
    rw [Arena.follow?, hnode]
    rfl
  rw [hcons, Option.bind_eq_some_iff]

theorem reached_node (hnode : arena.get? id = some node) (htop : ¬ P []) :
    Reached arena id P target ↔ ReachedAll arena node.children P target := by
  constructor
  · rintro ⟨path, hpath, htarget⟩
    cases path with
    | nil => exact absurd hpath htop
    | cons i path =>
      obtain ⟨child, hchild, htarget⟩ := (follow?_cons hnode i path).1 htarget
      exact ⟨i, path, child, hpath, hchild, htarget⟩
  · rintro ⟨i, path, child, hpath, hchild, htarget⟩
    exact ⟨i :: path, hpath, (follow?_cons hnode i path).2 ⟨child, hchild, htarget⟩⟩

theorem reachedAll_cons : ReachedAll arena (id :: ids) P target ↔
    Reached arena id (fun path => P (0 :: path)) target ∨
      ReachedAll arena ids (later P) target := by
  constructor
  · rintro ⟨i, path, child, hpath, hchild, htarget⟩
    cases i with
    | zero =>
      cases hchild
      exact .inl ⟨path, hpath, htarget⟩
    | succ i => exact .inr ⟨i, path, child, hpath, hchild, htarget⟩
  · rintro (⟨path, hpath, htarget⟩ | ⟨i, path, child, hpath, hchild, htarget⟩)
    · exact ⟨0, path, id, hpath, rfl, htarget⟩
    · exact ⟨i + 1, path, child, hpath, hchild, htarget⟩

/-- Binding a name changes no way. -/
theorem follow?_captureAt (other : Nat) (path : List Nat) :
    (captureAt arena other).follow? id path = arena.follow? id path := by
  induction path generalizing id with
  | nil => rfl
  | cons i path ih =>
    rw [Arena.follow?, Arena.follow?, get?_captureAt]
    cases arena.get? id with
    | none => rfl
    | some node =>
      have hchildren : (if other = id then { node with kind := bound node.kind }
          else node).children = node.children := by
        split <;> rfl
      simp only [Option.map_some, Option.bind_eq_bind, Option.bind_some, hchildren, ih]

theorem follow?_captureAll (others : List Nat) (path : List Nat) :
    (captureAll arena others).follow? id path = arena.follow? id path := by
  induction others generalizing arena with
  | nil => rfl
  | cons other others ih => exact ih.trans (follow?_captureAt other path)

theorem reached_captureAll (others : List Nat) :
    Reached (captureAll arena others) id P target ↔ Reached arena id P target := by
  simp only [Reached, follow?_captureAll]

theorem reachedAll_captureAll (others : List Nat) :
    ReachedAll (captureAll arena others) ids P target ↔ ReachedAll arena ids P target := by
  simp only [ReachedAll, follow?_captureAll]

end Reached

/-! ## Outcomes -/

/-- What comes of the nodes on top of a stack, where the check has this outcome: its error, or the
same arena but for the names of these indices, which are bound. -/
inductive Comes {α : Type} (arena : Arena) (pushed : List (Nat × Slot)) (P : Nat → Prop) :
    Except ParseError α → Prop
  | error {error : ParseError}
      (h : ∀ stack, Ends round (arena, stack ++ pushed) (.error error)) :
      Comes arena pushed P (.error error)
  | ok {a : α} (captured : List Nat) (hcaptured : ∀ id, id ∈ captured ↔ P id)
      (h : ∀ stack result, Ends round (captureAll arena captured, stack) result →
        Ends round (arena, stack ++ pushed) result) : Comes arena pushed P (.ok a)

section Comes

variable {α β : Type} {arena : Arena} {pushed first second : List (Nat × Slot)}
  {P Q : Nat → Prop} {x : Except ParseError α} {id : Nat} {slot : Slot}

theorem captureAll_append (arena : Arena) (ids others : List Nat) :
    captureAll arena (ids ++ others) = captureAll (captureAll arena ids) others :=
  List.foldl_append

theorem Comes.congr (h : Comes arena pushed P x) (hiff : ∀ id, Q id ↔ P id) :
    Comes arena pushed Q x :=
  (funext fun id => propext (hiff id) : Q = P) ▸ h

theorem comes_nil {a : α} (h : ∀ id, ¬ P id) : Comes arena [] P (.ok a) := by
  refine .ok [] (fun id => iff_of_false List.not_mem_nil (h id)) fun stack result hresult => ?_
  rw [List.append_nil]
  exact hresult

/-- What is on top of the stack comes first. -/
theorem Comes.andThen {f : α → Except ParseError β} (hfirst : Comes arena second P x)
    (hsecond : ∀ captured a, Comes (captureAll arena captured) first Q (f a)) :
    Comes arena (first ++ second) (fun id => Q id ∨ P id) (x >>= f) := by
  cases hfirst with
  | error h =>
    refine .error fun stack => ?_
    rw [← List.append_assoc]
    exact h _
  | @ok a captured hcaptured h =>
    show Comes _ _ _ (f a)
    have hsecond := hsecond captured a
    generalize f a = outcome at hsecond ⊢
    cases hsecond with
    | error h' =>
      refine .error fun stack => ?_
      rw [← List.append_assoc]
      exact h _ _ (h' stack)
    | ok others hothers h' =>
      refine .ok (captured ++ others) (fun id => ?_) fun stack result hresult => ?_
      · rw [List.mem_append, hcaptured, hothers, or_comm]
      · rw [← List.append_assoc]
        rw [captureAll_append] at hresult
        exact h _ _ (h' _ _ hresult)

theorem Comes.map (h : Comes arena pushed P x) (f : α → β) :
    Comes arena pushed P (do let a ← x; return f a) := by
  cases h with
  | error h => exact .error h
  | ok captured hcaptured h => exact .ok captured hcaptured h

theorem round_error {error : ParseError} (h : step arena id slot = .error error)
    (stack : List (Nat × Slot)) :
    round (arena, stack ++ [(id, slot)]) = .inl (.error error) := by
  simp only [round, List.getLast?_concat, h]

theorem round_ok {after : Arena} (h : step arena id slot = .ok (after, pushed))
    (stack : List (Nat × Slot)) :
    round (arena, stack ++ [(id, slot)]) = .inr (after, stack ++ pushed) := by
  simp only [round, List.getLast?_concat, List.dropLast_concat, h]

theorem comes_of_error {error : ParseError} (h : step arena id slot = .error error) :
    Comes arena [(id, slot)] P (.error error : Except ParseError α) :=
  .error fun stack => .last (round_error h stack)

/-- After a round comes what it has put on the stack. -/
theorem Comes.of_step (captured : List Nat)
    (hstep : step arena id slot = .ok (captureAll arena captured, pushed))
    (h : Comes (captureAll arena captured) pushed P x)
    (hiff : ∀ id, Q id ↔ id ∈ captured ∨ P id) : Comes arena [(id, slot)] Q x := by
  have hround := round_ok hstep
  cases h with
  | error h => exact .error fun stack => .again (hround stack) (h stack)
  | ok others hothers h =>
    refine .ok (captured ++ others) (fun id => ?_) fun stack result hresult => ?_
    · rw [List.mem_append, hothers, hiff]
    · rw [captureAll_append] at hresult
      exact .again (hround stack) (h _ _ hresult)

end Comes

/-! ## Nodes -/

section Nodes

variable {arena : Arena} {node : Node} {kind : NodeKind} {span : Span} {t key value : Tree}
  {ts children : List Tree} {id entry : Nat} {ids rest : List Nat} {slot : Slot}

theorem demand_bound (slot : Slot) (literal startsName : Bool) (kind : NodeKind) :
    demand slot literal startsName (bound kind) = demand slot literal startsName kind := by
  cases kind <;> rfl

theorem startsWithName_eq (h : StandsAll arena ts ids) :
    ids.head?.any (isNameAt arena) = Pattern.startsWithName ts := by
  cases ts with
  | nil =>
    cases h
    rfl
  | cons t ts =>
    obtain ⟨id, rest, rfl, hfirst, _⟩ := h
    exact isNameAt_eq hfirst

/-- In the arena a node asks for what it asks for in the tree. -/
theorem step_eq (h : Stands arena (.node kind span children) id) (slot : Slot) :
    ∃ node, arena.get? id = some node ∧ node.span = span ∧ StandsAll arena children node.children ∧
      step arena id slot = answer arena id node (demandOf slot kind span children) := by
  have hliteral := isLiteralAt_eq h
  obtain ⟨known, ids, hnode, hknown, hchildren⟩ := h
  refine ⟨_, hnode, rfl, hchildren, ?_⟩
  rw [step, hnode]
  dsimp only
  rw [hliteral, startsWithName_eq hchildren, demandOf]
  rcases hknown with rfl | rfl
  · rfl
  · rw [demand_bound]

theorem argumentsAt_cons (h : Stands arena t id) (rest : List Nat) :
    ∃ node, arena.get? id = some node ∧ node.span = t.span ∧
      StandsAll arena t.children node.children ∧
      argumentsAt arena (id :: rest) =
        if isSpread t.kind = true then invalid t.start
        else do
          let pushed ← argumentsAt arena rest
          return (match t.kind with
            | .keyword _ => node.children.map (·, .pattern)
            | _ => [(id, .pattern)]) ++ pushed := by
  obtain ⟨kind, span, children⟩ := t
  obtain ⟨known, ids, hnode, hknown, hchildren⟩ := h
  refine ⟨_, hnode, rfl, hchildren, ?_⟩
  rw [argumentsAt, hnode]
  unfold argumentAt
  cases kind with
  | keyword arg => rcases hknown with rfl | rfl <;> cases arg <;> rfl
  | _ => rcases hknown with rfl | rfl <;> rfl

theorem argumentsAt_error {error : ParseError} (h : StandsAll arena ts ids)
    (herror : Pattern.checkArguments ts = .error error) :
    argumentsAt arena ids = .error error := by
  induction ts generalizing ids with
  | nil => cases herror
  | cons t ts ih =>
    obtain ⟨id, rest, rfl, hfirst, hrest⟩ := h
    obtain ⟨_, _, _, _, heq⟩ := argumentsAt_cons hfirst rest
    rw [checkArguments_eq] at herror
    rw [heq]
    split
    · next hspread =>
      rw [if_pos hspread] at herror
      cases herror
      rfl
    · next hspread =>
      rw [if_neg hspread] at herror
      rw [ih hrest herror]
      rfl

theorem classAt_error {error : ParseError} (h : StandsAll arena ts ids)
    (herror : Pattern.checkArguments (ts.drop 1) = .error error) :
    classAt arena ids = .error error := by
  cases ts with
  | nil => cases herror
  | cons callee arguments =>
    obtain ⟨id, rest, rfl, _, hrest⟩ := h
    rw [classAt, argumentsAt_error hrest herror]
    rfl

theorem entriesAt_unpack (h : Stands arena (.node .dictUnpack span children) id) :
    ∃ node, arena.get? id = some node ∧ StandsAll arena children node.children ∧
      entriesAt arena [id] =
        if (Pattern.startsWithName children && !children.head?.any Pattern.isWildcard) = true then
          .ok (captureAll arena (node.children.take 1), [])
        else invalid span.start := by
  have hunpack : isUnpackAt arena id = true := isUnpackAt_eq h
  have hspan : arena.span id = span := span_eq h
  obtain ⟨known, ids, hnode, _, hchildren⟩ := h
  refine ⟨_, hnode, hchildren, ?_⟩
  rw [entriesAt, hunpack, hspan, hnode, if_pos rfl]
  cases children with
  | nil =>
    cases hchildren
    rfl
  | cons target others =>
    obtain ⟨child, rest, rfl, htarget, _⟩ := hchildren
    have hname := isNameAt_eq htarget
    have hwildcard := isWildcardAt_eq htarget
    simp only [Option.bind_some, List.head?_cons, hname, hwildcard]
    rfl

theorem entriesAt_key (h : Stands arena key id) (hkind : key.kind ≠ .dictUnpack) :
    entriesAt arena [id] = .ok (arena, [(id, .mappingKey)]) := by
  rw [entriesAt, isUnpackAt_eq h, if_neg (by simpa using hkind)]

theorem entriesAt_pair (h : Stands arena key id) (other : Nat) (rest : List Nat) :
    entriesAt arena (id :: other :: rest) =
      if key.kind = .dictUnpack then invalid key.start
      else do
        let (after, pushed) ← entriesAt arena rest
        return (after, (id, .mappingKey) :: (other, .pattern) :: pushed) := by
  rw [entriesAt, isUnpackAt_eq h, span_eq h]
  simp only [beq_iff_eq]
  rfl

theorem entriesAt_error {error : ParseError} : ∀ {ts : List Tree} {ids : List Nat},
    StandsAll arena ts ids → Pattern.checkEntries ts = .error error →
    entriesAt arena ids = .error error
  | [], _, _, herror => by cases herror
  | [.node kind span children], _, ⟨id, _, rfl, hentry, rfl⟩, herror => by
    by_cases hkind : (Tree.node kind span children).kind = .dictUnpack
    · cases hkind
      obtain ⟨_, _, _, heq⟩ := entriesAt_unpack hentry
      rw [Pattern.checkEntries, List.isEmpty_nil, Bool.true_and] at herror
      rw [heq]
      split
      · next hname =>
        rw [if_pos hname] at herror
        cases herror
      · next hname =>
        rw [if_neg hname] at herror
        cases herror
        rfl
    · rw [checkEntries_key hkind] at herror
      cases herror
  | key :: value :: rest, _, ⟨id, _, rfl, hkey, other, ids, rfl, _, hrest⟩, herror => by
    rw [entriesAt_pair hkey]
    split
    · next hkind =>
      obtain ⟨kind, span, children⟩ := key
      cases hkind
      cases herror
      rfl
    · next hkind =>
      rw [checkEntries_pair hkind] at herror
      rw [entriesAt_error hrest herror]
      rfl

end Nodes

/-! ## The whole check -/

section Check

variable {α : Type} {arena : Arena} {node : Node} {P : List Nat → Prop} {ts children : List Tree}
  {id target : Nat} {ids : List Nat} {slot : Slot} {pushed : List (Nat × Slot)}
  {x : Except ParseError α}

theorem reached_self : Reached arena id (· = []) target ↔ target = id := by
  constructor
  · rintro ⟨_, rfl, h⟩
    exact (Option.some.inj h).symm
  · rintro rfl
    exact ⟨[], rfl, rfl⟩

theorem reached_first (hnode : arena.get? id = some node)
    (h : StandsAll arena children node.children) :
    Reached arena id (fun path => children ≠ [] ∧ path = [0]) target ↔
      target ∈ node.children.take 1 := by
  have hfirst : arena.follow? id [0] = some target ↔ node.children[0]? = some target := by
    rw [follow?_cons hnode]
    exact ⟨fun ⟨_, hchild, htarget⟩ => hchild.trans htarget, fun hchild => ⟨_, hchild, rfl⟩⟩
  cases children with
  | nil =>
    refine iff_of_false (fun ⟨_, ⟨hne, _⟩, _⟩ => hne rfl) ?_
    rw [show node.children = [] from h]
    exact List.not_mem_nil
  | cons t ts =>
    obtain ⟨child, rest, hids, _⟩ := h
    rw [hids] at hfirst ⊢
    constructor
    · rintro ⟨_, ⟨_, rfl⟩, htarget⟩
      cases hfirst.1 htarget
      exact List.mem_singleton_self _
    · intro hmem
      obtain rfl := List.mem_singleton.1 hmem
      exact ⟨[0], ⟨List.cons_ne_nil _ _, rfl⟩, hfirst.2 rfl⟩

/-- A node that only puts its children on the stack captures what they do. -/
theorem Comes.of_children (hnode : arena.get? id = some node)
    (hstep : step arena id slot = .ok (arena, pushed)) (htop : ¬ P [])
    (h : Comes arena pushed (ReachedAll arena node.children P) x) :
    Comes arena [(id, slot)] (Reached arena id P) x :=
  .of_step [] hstep h fun target => by
    rw [reached_node hnode htop, List.mem_nil_iff, false_or]

/-- What the first tree captures and what the others do is what all of them capture. -/
theorem reachedAll_along {Q : Tree → List Nat → Prop} {t : Tree} :
    ReachedAll arena (id :: ids) (Along Q (t :: ts)) target ↔
      Reached arena id (Q t) target ∨ ReachedAll arena ids (Along Q ts) target := by
  rw [reachedAll_cons]
  exact or_congr (Reached.congr (along_zero t ts))
    (ReachedAll.congr fun path => (along_later t ts path).symm)

mutual

/-- From a tree on top of the stack comes what is known of the tree alone. -/
theorem comes_bind : ∀ {t : Tree} {arena : Arena} {id : Nat} {slot : Slot}, Stands arena t id →
    Comes arena [(id, slot)] (Reached arena id (CapturedIn slot t)) (Pattern.bind slot t)
  | .node kind span children, arena, id, slot, h => by
    obtain ⟨node, hnode, hspan, hchildren, hstep⟩ := step_eq h slot
    rw [bind_node]
    by_cases hrefused : ∃ fault, demandOf slot kind span children = .refused fault
    · obtain ⟨fault, hfault⟩ := hrefused
      rw [hfault, answer, hspan] at hstep
      rw [hfault]
      exact comes_of_error hstep
    refine Comes.congr ?_ fun target => Reached.congr fun path =>
      capturedIn_node fun fault hfault => hrefused ⟨fault, hfault⟩
    generalize demandOf slot kind span children = asked at hrefused hstep ⊢
    cases asked with
    | refused fault => exact absurd ⟨fault, rfl⟩ hrefused
    | read =>
      refine .of_step [] hstep (comes_nil fun _ => False.elim) fun target => ?_
      exact iff_of_false (reached_none fun _ => False.elim) (by simp)
    | capture =>
      refine .of_step [id] hstep (comes_nil fun _ => False.elim) fun target => ?_
      rw [List.mem_singleton, or_false]
      exact reached_self
    | captureFirst =>
      refine .of_step _ hstep (comes_nil fun _ => False.elim) fun target => ?_
      rw [or_false]
      exact reached_first hnode hchildren
    | all slot => exact .of_children hnode hstep False.elim ((comes_bindAll hchildren).map _)
    | sequence =>
      rw [answer, checkItems_eq hchildren] at hstep
      rw [meet]
      cases hcheck : Pattern.checkSequence children with
      | error error =>
        rw [hcheck] at hstep
        exact comes_of_error hstep
      | ok =>
        rw [hcheck] at hstep
        exact .of_children hnode hstep False.elim ((comes_bindAll hchildren).map _)
    | arguments =>
      rw [answer] at hstep
      rw [meet]
      cases hcheck : Pattern.checkArguments (children.drop 1) with
      | error error =>
        rw [classAt_error hchildren hcheck] at hstep
        exact comes_of_error hstep
      | ok =>
        obtain ⟨pushed, hpushed, hcomes⟩ := comes_bindClass hchildren hcheck
        rw [hpushed] at hstep
        exact .of_children hnode hstep nofun (hcomes.map _)
    | entries =>
      rw [answer] at hstep
      rw [meet]
      cases hcheck : Pattern.checkEntries children with
      | error error =>
        rw [entriesAt_error hchildren hcheck] at hstep
        exact comes_of_error hstep
      | ok =>
        obtain ⟨captured, pushed, Q, hpushed, hcomes, hiff⟩ := comes_bindEntries hchildren hcheck
        rw [hpushed] at hstep
        refine .of_step captured hstep (hcomes.map _) fun target => ?_
        exact (reached_node hnode nofun).trans (hiff target)
termination_by structural t => t

theorem comes_bindAll : ∀ {ts : List Tree} {arena : Arena} {ids : List Nat} {slot : Slot},
    StandsAll arena ts ids →
    Comes arena (ids.map (·, slot)) (ReachedAll arena ids (Along (CapturedIn slot) ts))
      (Pattern.bindAll slot ts)
  | [], arena, _, slot, rfl => comes_nil fun _ => reachedAll_none not_along_nil
  | t :: ts, arena, _, slot, ⟨id, rest, rfl, hfirst, hrest⟩ => by
    unfold Pattern.bindAll
    refine Comes.congr ((comes_bindAll hrest).andThen fun captured more =>
      ((comes_bind (hfirst.captureAll captured)).map _).congr fun _ =>
        (reached_captureAll captured).symm) fun target => reachedAll_along
termination_by structural ts => ts

theorem comes_bindClass : ∀ {ts : List Tree} {arena : Arena} {ids : List Nat},
    StandsAll arena ts ids → Pattern.checkArguments (ts.drop 1) = .ok () →
    ∃ pushed, classAt arena ids = .ok pushed ∧
      Comes arena pushed (ReachedAll arena ids (CapturedBy .arguments ts)) (Pattern.bindClass ts)
  | [], arena, _, rfl, _ =>
    ⟨[], rfl, comes_nil fun _ => reachedAll_none fun _ ⟨_, _, _, hnone⟩ => not_along_nil _ hnone⟩
  | callee :: arguments, arena, _, ⟨id, rest, rfl, hcallee, harguments⟩, hcheck => by
    obtain ⟨pushed, hpushed, hcomes⟩ := comes_bindArguments harguments hcheck
    refine ⟨(id, .dotted) :: pushed, by rw [classAt, hpushed]; rfl, ?_⟩
    unfold Pattern.bindClass
    refine Comes.congr (hcomes.andThen fun captured more =>
      ((comes_bind (hcallee.captureAll captured)).map _).congr fun _ =>
        (reached_captureAll captured).symm) fun target => ?_
    rw [reachedAll_cons]
    exact or_congr (Reached.congr fun path => iff_of_false nofun False.elim)
      (ReachedAll.congr fun path => capturedBy_arguments.symm)
termination_by structural ts => ts

theorem comes_bindArguments : ∀ {ts : List Tree} {arena : Arena} {ids : List Nat},
    StandsAll arena ts ids → Pattern.checkArguments ts = .ok () →
    ∃ pushed, argumentsAt arena ids = .ok pushed ∧
      Comes arena pushed (ReachedAll arena ids (Along ArgumentCaptures ts))
        (Pattern.bindArguments ts)
  | [], arena, _, rfl, _ => ⟨[], rfl, comes_nil fun _ => reachedAll_none not_along_nil⟩
  | .node kind span children :: ts, arena, _, ⟨id, rest, rfl, hfirst, hrest⟩, hcheck => by
    obtain ⟨hspread, hcheck⟩ := checkArguments_ok_iff.1 hcheck
    obtain ⟨pushed, hpushed, hcomes⟩ := comes_bindArguments hrest hcheck
    obtain ⟨node, hnode, _, hchildren, heq⟩ := argumentsAt_cons hfirst rest
    rw [hspread, if_neg Bool.false_ne_true, hpushed] at heq
    refine ⟨_, heq, ?_⟩
    split
    · next hkeyword =>
      cases hkeyword
      rw [Pattern.bindArguments]
      refine Comes.congr (hcomes.andThen fun captured more =>
        ((comes_bindAll (hchildren.captureAll captured)).map _).congr fun _ =>
          (reachedAll_captureAll captured).symm) fun target => ?_
      rw [reachedAll_along, Reached.congr argumentCaptures_keyword, reached_node hnode False.elim]
      rfl
    · next hkind =>
      rw [bindArguments_positional hkind]
      refine Comes.congr (hcomes.andThen fun captured more =>
        ((comes_bind (hfirst.captureAll captured)).map _).congr fun _ =>
          (reached_captureAll captured).symm) fun target => ?_
      rw [reachedAll_along, Reached.congr (argumentCaptures_positional hkind)]
      rfl
termination_by structural ts => ts

theorem comes_bindEntries : ∀ {ts : List Tree} {arena : Arena} {ids : List Nat},
    StandsAll arena ts ids → Pattern.checkEntries ts = .ok () →
    ∃ captured pushed Q, entriesAt arena ids = .ok (captureAll arena captured, pushed) ∧
      Comes (captureAll arena captured) pushed Q (Pattern.bindEntries ts) ∧
      ∀ target, ReachedAll arena ids (EntryCaptures ts) target ↔ target ∈ captured ∨ Q target
  | [], arena, _, rfl, _ =>
    ⟨[], [], fun _ => False, rfl, comes_nil fun _ => False.elim, fun _ =>
      iff_of_false (reachedAll_none nofun) (by simp)⟩
  | [.node kind span children], arena, _, ⟨id, _, rfl, hentry, rfl⟩, hcheck => by
    by_cases hkind : (Tree.node kind span children).kind = .dictUnpack
    · cases hkind
      obtain ⟨node, hnode, hchildren, heq⟩ := entriesAt_unpack hentry
      rw [if_pos (checkEntries_unpack_iff.1 hcheck)] at heq
      refine ⟨_, [], fun _ => False, heq, comes_nil fun _ => False.elim, fun target => ?_⟩
      rw [reachedAll_cons, ← reached_first hnode hchildren]
      refine or_congr (Reached.congr fun path => ?_)
        (iff_of_false (fun ⟨_, _, _, _, hnone, _⟩ => ?_) False.elim)
      · simp [entryCaptures_unpack]
      · cases hnone
    · rw [bindEntries_key hkind]
      refine ⟨[], _, _, entriesAt_key hentry hkind, (comes_bind hentry).map _, fun target => ?_⟩
      exact iff_of_false (reachedAll_none (not_entryCaptures_single hkind))
        (not_or.2 ⟨List.not_mem_nil, reached_none fun _ => False.elim⟩)
  | key :: value :: rest, arena, _, ⟨id, _, rfl, hkey, other, ids, rfl, hvalue, hrest⟩, hcheck => by
    obtain ⟨_, hnone, hsecond, hlater⟩ := @entryCaptures_pair key value rest
    by_cases hkind : key.kind = .dictUnpack
    · obtain ⟨kind, span, children⟩ := key
      cases hkind
      cases hcheck
    rw [checkEntries_pair hkind] at hcheck
    obtain ⟨captured, pushed, Q, hpushed, hcomes, hiff⟩ := comes_bindEntries hrest hcheck
    have heq : entriesAt arena (id :: other :: ids) =
        .ok (captureAll arena captured, [(id, .mappingKey), (other, .pattern)] ++ pushed) := by
      rw [entriesAt_pair hkey, if_neg hkind, hpushed]
      rfl
    refine ⟨captured, _, fun target => Reached arena other (Captures value) target ∨ Q target, heq,
      ?_, fun target => ?_⟩
    · rw [bindEntries_pair hkind]
      refine hcomes.andThen fun others more => ?_
      have hkey := (hkey.captureAll captured).captureAll others
      have hvalue := (hvalue.captureAll captured).captureAll others
      have hpair := (@comes_bind value _ other .pattern hvalue).andThen fun names second =>
        ((@comes_bind key _ id .mappingKey (hkey.captureAll names)).map
          (· :: second :: more)).congr fun _ => (reached_captureAll names).symm
      refine Comes.congr hpair fun target => ?_
      have hcaptures : Reached (captureAll (captureAll arena captured) others) other
          (CapturedIn .pattern value) target ↔ Reached arena other (Captures value) target :=
        (reached_captureAll others).trans (reached_captureAll captured)
      rw [hcaptures]
      exact (or_iff_right (reached_none fun _ => False.elim)).symm
    · have hothers := (ReachedAll.congr fun path => (hlater path).symm).trans (hiff target)
      rw [reachedAll_cons, or_iff_right (reached_none hnone), reachedAll_cons, hothers,
        or_left_comm]
      exact or_congr_right (or_congr_left (Reached.congr hsecond))
termination_by structural ts => ts

end

end Check

/-! ## What is stored after the check -/

/-- The names at these indices are bound in the second arena, which is the first one but for
that. -/
structure Stores (P : Nat → Prop) (arena after : Arena) : Prop where
  bound : ∀ id, P id → ∃ name context span ids,
    arena.get? id = some ⟨.name name context, span, ids⟩ ∧
      after.get? id = some ⟨.name name .store, span, ids⟩
  kept : ∀ id, ¬ P id → after.get? id = arena.get? id

/-- What an arena shows at an address. -/
def seen (arena : Arena) (id : Nat) (path : List Nat) : Option (NodeKind × Span × Nat) :=
  (arena.follow? id path).bind fun target =>
    (arena.get? target).map fun node => (node.kind, node.span, node.children.length)

section Stored

variable {arena : Arena} {P : List Nat → Prop} {t u : Tree} {id root target : Nat}
  {ids captured path : List Nat} {ts : List Tree}

theorem holdsAll_iff : HoldsAll arena ts ids ↔ ids.length = ts.length ∧
    ∀ i : Nat, ∀ t id, ts[i]? = some t → ids[i]? = some id → Holds arena t id := by
  induction ts generalizing ids with
  | nil => simp [HoldsAll]
  | cons t ts ih =>
    constructor
    · rintro ⟨id, rest, rfl, hfirst, hrest⟩
      obtain ⟨hlength, hholds⟩ := ih.1 hrest
      refine ⟨congrArg (· + 1) hlength, fun i found other ht hid => ?_⟩
      cases i with
      | zero =>
        cases ht
        cases hid
        exact hfirst
      | succ i => exact hholds i found other ht hid
    · rintro ⟨hlength, hholds⟩
      cases ids with
      | nil => cases hlength
      | cons id rest =>
        exact ⟨id, rest, rfl, hholds 0 t id rfl rfl,
          ih.2 ⟨Nat.succ.inj hlength, fun i => hholds (i + 1)⟩⟩

theorem seen_nil : seen arena id [] =
    (arena.get? id).map fun node => (node.kind, node.span, node.children.length) := rfl

theorem seen_cons {node : Node} (hnode : arena.get? id = some node) (i : Nat) (path : List Nat) :
    seen arena id (i :: path) = node.children[i]?.bind fun child => seen arena child path := by
  simp only [seen, Arena.follow?, hnode, Option.bind_eq_bind, Option.bind_some, Option.bind_assoc]

/-- An arena has a tree where it shows the same at all addresses. -/
theorem holds_iff_seen :
    Holds arena t id ↔ ∀ path, seen arena id path = (at? t path).map label := by
  induction t using Tree.forall_of_children generalizing id with
  | node kind span children ih =>
  constructor
  · rintro ⟨ids, hnode, hchildren⟩ path
    obtain ⟨hlength, hholds⟩ := holdsAll_iff.1 hchildren
    cases path with
    | nil =>
      rw [seen_nil, hnode, Option.map_some, hlength]
      rfl
    | cons i path =>
      rw [seen_cons hnode]
      show ids[i]?.bind _ = (children[i]?.bind (at? · path)).map label
      by_cases hi : i < children.length
      · have hchild := List.getElem?_eq_getElem hi
        have hid := List.getElem?_eq_getElem (hlength ▸ hi : i < ids.length)
        rw [hchild, hid]
        exact (ih _ (List.getElem_mem hi)).1 (hholds i _ _ hchild hid) path
      · rw [List.getElem?_eq_none (by omega), List.getElem?_eq_none (by omega)]
        rfl
  · intro h
    have htop := h []
    rw [seen_nil] at htop
    obtain ⟨node, hnode, hlabel⟩ := Option.map_eq_some_iff.1 htop
    obtain ⟨rfl, htop⟩ := Prod.mk.inj hlabel
    obtain ⟨rfl, hlength⟩ := Prod.mk.inj htop
    refine ⟨node.children, hnode, holdsAll_iff.2 ⟨hlength, fun i child other hchild hother => ?_⟩⟩
    refine (ih child (List.mem_of_getElem? hchild)).2 fun path => ?_
    have hpath := h (i :: path)
    rw [seen_cons hnode, hother] at hpath
    refine hpath.trans ?_
    show (children[i]?.bind (at? · path)).map label = _
    rw [hchild]
    rfl

theorem get?_captureAll (arena : Arena) (captured : List Nat) (id : Nat) :
    (captureAll arena captured).get? id = (arena.get? id).map fun node =>
      if id ∈ captured then { node with kind := bound node.kind } else node := by
  induction captured generalizing arena with
  | nil => simp [captureAll]
  | cons other captured ih =>
    rw [captureAll, List.foldl_cons, ← captureAll, ih, get?_captureAt, Option.map_map]
    refine congrArg (Option.map · _) (funext fun node => ?_)
    by_cases hother : other = id
    · by_cases hmem : id ∈ captured <;> simp [hother, hmem, bound_bound]
    · simp [hother, Ne.symm hother]

theorem stores_of_marks (holds : Holds arena t root) (marks : Marks P t u)
    (hcaptured : ∀ id, id ∈ captured ↔ Reached arena root P id) :
    Stores (Reached arena root P) arena (captureAll arena captured) := by
  constructor
  · rintro id ⟨path, hpath, hid⟩
    obtain ⟨name, context, span, n, hbefore, _⟩ := marks.bound path hpath
    have hseen := (holds_iff_seen.1 holds path).trans hbefore
    rw [seen, hid, Option.bind_some] at hseen
    obtain ⟨node, hnode, hlabel⟩ := Option.map_eq_some_iff.1 hseen
    obtain ⟨kind, within, ids⟩ := node
    obtain ⟨rfl, _⟩ := Prod.mk.inj hlabel
    refine ⟨name, context, within, ids, hnode, ?_⟩
    rw [get?_captureAll, hnode, Option.map_some, if_pos ((hcaptured id).2 ⟨path, hpath, hid⟩)]
    rfl
  · intro id hid
    rw [get?_captureAll]
    simp only [hcaptured, hid, if_false, Option.map_id']

/-- A tree with names bound stands where the tree stood, if no name has a second address. -/
theorem holds_of_marks (holds : Holds arena t root) (marks : Marks P t u)
    (stores : Stores (Reached arena root P) arena (captureAll arena captured))
    (once : ∀ target a b, arena.follow? root a = some target → arena.follow? root b = some target →
      a = b) : Holds (captureAll arena captured) u root := by
  refine holds_iff_seen.2 fun path => ?_
  have hseen := holds_iff_seen.1 holds path
  rw [seen, follow?_captureAll]
  by_cases hpath : P path
  · obtain ⟨name, context, span, n, hbefore, hafter⟩ := marks.bound path hpath
    rw [hbefore, seen] at hseen
    obtain ⟨target, htarget, hnode⟩ := Option.bind_eq_some_iff.1 hseen
    obtain ⟨_, _, _, _, hold, hnew⟩ := stores.bound target ⟨path, hpath, htarget⟩
    rw [hold] at hnode
    cases hnode
    rw [htarget, Option.bind_some, hnew, hafter]
    rfl
  · rw [marks.kept path hpath, ← hseen, seen]
    cases htarget : arena.follow? root path with
    | none => rfl
    | some target =>
      have hkept : ¬ Reached arena root P target := by
        rintro ⟨other, hother, hfollow⟩
        exact hpath (once target other path hfollow htarget ▸ hother)
      rw [Option.bind_some, Option.bind_some, stores.kept target hkept]

end Stored

/-- **Patterns are recognised.** The check of a tree whose nodes have as many children as their
kinds ask for ends with one result. It succeeds just if the tree is a pattern; then the captured
names are bound, and nothing else has changed. -/
theorem patterns_are_recognised {arena : Arena} {t : Tree} {root : Nat}
    (holds : Holds arena t root) (counted : Counted t) :
    ((∃ u, Pattern.bind .pattern t = .ok u) ↔ IsPattern t) ∧
    (∀ u, Pattern.bind .pattern t = .ok u → Marks (Captures t) t u) ∧
    ∃ result, (∀ other, Ends round (arena, [(root, .pattern)]) other ↔ other = result) ∧
      ((∃ after, result = .ok after) ↔ IsPattern t) ∧
      (∀ error, result = .error error ↔ Pattern.bind .pattern t = .error error) ∧
      ∀ after, result = .ok after → Stores (Reached arena root (Captures t)) arena after ∧
        ∀ u, Pattern.bind .pattern t = .ok u →
          (∀ target a b, arena.follow? root a = some target →
            arena.follow? root b = some target → a = b) → Holds after u root := by
  have hpattern : (∃ u, Pattern.bind .pattern t = .ok u) ↔ IsPattern t :=
    bind_ok_iff t .pattern counted
  have hmarks : ∀ u, Pattern.bind .pattern t = .ok u → Marks (Captures t) t u :=
    fun u => marks_of_bind
  refine ⟨hpattern, hmarks, ?_⟩
  have hcomes : Comes arena [(root, .pattern)] (Reached arena root (Captures t))
      (Pattern.bind .pattern t) := comes_bind (stands_of_holds holds)
  rw [← hpattern]
  generalize Pattern.bind .pattern t = outcome at hmarks hcomes ⊢
  cases hcomes with
  | @error error h =>
    exact ⟨.error error, fun _ => (h []).iff_eq, by simp, by simp, nofun⟩
  | @ok u captured hcaptured h =>
    have hends := h [] (.ok (captureAll arena captured)) (.last rfl)
    have hstores := stores_of_marks holds (hmarks u rfl) hcaptured
    refine ⟨_, fun _ => hends.iff_eq, by simp, by simp, ?_⟩
    rintro after ⟨⟩
    refine ⟨hstores, ?_⟩
    rintro _ ⟨⟩ once
    exact holds_of_marks holds (hmarks u rfl) hstores once

/-- A list of a name and a starred one. -/
def starredList (context : Context) : Tree :=
  .node (.list .load) .zero [.node (.name "first" context) .zero [],
    .node (.starred .load) .zero [.node (.name "rest" context) .zero []]]

/-- Both names are bound; the star is as it was. -/
theorem starred_list_is_recognised :
    ∃ stored after, stored = RootedArena.ofTree (starredList .load) ∧
      Ends round (stored.arena, [(stored.root, .pattern)]) (.ok after) ∧
      Holds after (starredList .store) stored.root := by
  obtain ⟨stored, hstored⟩ : ∃ stored, stored = RootedArena.ofTree (starredList .load) := ⟨_, rfl⟩
  have htree : Ownership.IsTree stored := hstored ▸ Ownership.isTree_ofTree _
  have hholds : Holds stored.arena (starredList .load) stored.root :=
    hstored ▸ (store_holds .empty (starredList .load)).2
  have hname : ∀ id, Shaped true .value (.node (.name id .load) .zero []) :=
    fun id => shaped_iff.2 (fits_one.2 rfl)
  have hstar : Shaped true .item
      (.node (.starred .load) .zero [.node (.name "rest" .load) .zero []]) :=
    shaped_iff.2 (fits_child.2 ⟨_, rfl, hname _⟩)
  have hlist : Shaped true .item (starredList .load) :=
    shaped_iff.2 (fits_star_child.2 (by simpa using ⟨(hname _).item, hstar⟩))
  have hbind : Pattern.bind .pattern (starredList .load) = .ok (starredList .store) := rfl
  obtain ⟨hpattern, _, result, hends, hok, _, hafter⟩ :=
    patterns_are_recognised hholds (counted_of_shaped hlist)
  obtain ⟨after, rfl⟩ := hok.2 (hpattern.1 ⟨_, hbind⟩)
  exact ⟨stored, after, hstored, (hends _).2 rfl,
    (hafter after rfl).2 _ hbind fun _ _ _ => htree.path_unique⟩

end SnippetLint.PatternRounds
