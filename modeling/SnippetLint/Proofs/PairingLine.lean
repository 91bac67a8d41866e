import SnippetLint.Proofs.Pairing

/-!
Rules that stay on a logical line go the same way in two runs: first targets and patterns, then
one instance for each rule of expressions and of simple statements. None of them looks past the end
of the line.
-/

namespace SnippetLint.Pairing
open SnippetLint.Parser SnippetLint.Likeness SnippetLint.Progress SnippetLint.Derivation

/-- A parser that goes the same way in both runs, within a line. -/
abbrev Shared (w : Window) (known : List TokenKind) [Compared α] (p : Parser α) : Prop :=
  Pairs w known true true p p

/-! ## Targets and patterns -/

section Results

variable {like : Likeness} (t u : Tree) [h : Alike like t u]

instance (action : TargetAction) :
    ResultAlike like (Target.mark action t) (Target.mark action u) := ⟨mark_like action h.rel⟩

instance (action : TargetAction) (ts us : List Tree) [h : Alike like ts us] :
    ResultAlike like (Target.markAll action ts) (Target.markAll action us) :=
  ⟨markAll_like action h.rel⟩

instance : ResultAlike like (Target.markAugmented t) (Target.markAugmented u) :=
  ⟨markAugmented_like h.rel⟩

instance : ResultAlike like (Target.markAnnotated t) (Target.markAnnotated u) :=
  ⟨markAnnotated_like h.rel⟩

instance (slot : Pattern.Slot) : ResultAlike like (Pattern.bind slot t) (Pattern.bind slot u) :=
  ⟨bind_like slot h.rel⟩

end Results

/-! ## Expressions -/

/-- A level whose parsers go the same way in both runs. -/
class OfLevel (w : Window) (inner : Level) : Prop where
  expression : Shared w [] inner.expression
  operand : ∀ least, Shared w [] (inner.operand least)
  primary : Shared w [] inner.primary

section Expression

variable {w : Window} {known : List TokenKind} {inner : Level} [hinner : OfLevel w inner]
  [hmoves : moves.OfLevel inner]

instance : Shared w known inner.expression := hinner.expression.weaken

instance (least : Nat) : Shared w known (inner.operand least) := (hinner.operand least).weaken

instance : Shared w known inner.primary := hinner.primary.weaken

/-! ### Names, stars and commas -/

instance : Shared w known (Expression.disjunction inner) := by
  unfold Expression.disjunction
  infer_instance

instance : Shared w known (Expression.bitwiseOr inner) := by
  unfold Expression.bitwiseOr
  infer_instance

instance : Views w true Expression.startsNone Expression.startsNone := by
  unfold Expression.startsNone
  infer_instance

instance : Shared w (.op .star :: known) (Expression.starred inner) := by
  unfold Expression.starred
  infer_instance

instance : Shared w known (Expression.star inner) := by
  unfold Expression.star
  infer_instance

instance : Shared w known (Expression.starList inner) := by
  unfold Expression.starList
  infer_instance

instance : Shared w (.keyword .yieldKw :: known) (Expression.yield inner) := by
  unfold Expression.yield
  infer_instance

instance : Shared w known (Expression.assigned inner) := by
  unfold Expression.assigned
  infer_instance

/-! ### Parameters -/

instance (list list' : List Tree) [h : Alike w.like list list'] (a b c d e : Bool) :
    Alike w.like (⟨list, a, b, c, d, e⟩ : Expression.Parameters) ⟨list', a, b, c, d, e⟩ :=
  ⟨h.rel, rfl⟩

instance : Alike w.like Expression.Parameters.none .none := ⟨.nil, rfl⟩

/-- What has been read of two lists of parameters differs in the trees only. -/
theorem exists_parameters (x y : Expression.Parameters) [h : Alike w.like x y] :
    ∃ (list : Couple w.like (List Tree)) (a b c d e : Bool),
      x = ⟨list.first, a, b, c, d, e⟩ ∧ y = ⟨list.second, a, b, c, d, e⟩ := by
  obtain ⟨list, a, b, c, d, e⟩ := x
  obtain ⟨list', _, _, _, _, _⟩ := y
  obtain ⟨hlist, heq⟩ := h.rel
  cases heq
  exact ⟨⟨list, list', hlist⟩, a, b, c, d, e, rfl, rfl⟩

instance (ts us : List Tree) [h : Alike w.like ts us] :
    Alike w.like (ts.map Expression.positionalOnly) (us.map Expression.positionalOnly) :=
  ⟨List.rel_map (fun _ _ h => positionalOnly_like h) h.rel⟩

variable (annotated : Bool)

instance : Shared w known (Expression.annotation inner annotated) := by
  unfold Expression.annotation
  infer_instance

section Parameter

variable (x y : Expression.Parameters) [Alike w.like x y]

instance : Pairs w (.op .slash :: known) true true (Expression.slashParameter x)
    (Expression.slashParameter y) := by
  obtain ⟨list, a, b, c, d, e, rfl, rfl⟩ := exists_parameters (w := w) x y
  unfold Expression.slashParameter
  dsimp only
  infer_instance

instance : Pairs w (.op .star :: known) true true (Expression.starParameter inner annotated x)
    (Expression.starParameter inner annotated y) := by
  obtain ⟨list, a, b, c, d, e, rfl, rfl⟩ := exists_parameters (w := w) x y
  unfold Expression.starParameter Expression.Parameters.push
  dsimp only
  infer_instance

instance : Pairs w (.op .doubleStar :: known) true true
    (Expression.doubleStarParameter inner annotated x)
    (Expression.doubleStarParameter inner annotated y) := by
  obtain ⟨list, a, b, c, d, e, rfl, rfl⟩ := exists_parameters (w := w) x y
  unfold Expression.doubleStarParameter Expression.Parameters.push
  dsimp only
  infer_instance

instance : Pairs w known true true (Expression.plainParameter inner annotated x)
    (Expression.plainParameter inner annotated y) := by
  obtain ⟨list, a, b, c, d, e, rfl, rfl⟩ := exists_parameters (w := w) x y
  unfold Expression.plainParameter Expression.Parameters.push
  dsimp only
  infer_instance

instance : Pairs w known true true (Expression.parameter inner annotated x)
    (Expression.parameter inner annotated y) := by
  have hseen : x.seenVarKeyword = y.seenVarKeyword := by
    obtain ⟨list, a, b, c, d, e, rfl, rfl⟩ := exists_parameters (w := w) x y
    rfl
  unfold Expression.parameter
  rw [hseen]
  split
  · infer_instance
  · refine pairs_bind_peek fun kind => ?_
    split <;> infer_instance

end Parameter

instance (sign : Operator) : Shared w known (Expression.parameters inner (.op sign) annotated) := by
  unfold Expression.parameters
  refine pairs_bind_within inferInstance fun x => ?_
  obtain ⟨list, a, b, c, d, e, hfirst, hsecond⟩ := exists_parameters (w := w) x.first x.second
  rw [hfirst, hsecond]
  infer_instance

instance : Shared w (.keyword .lambdaKw :: known) (Expression.lambda inner) := by
  unfold Expression.lambda
  infer_instance

instance : Shared w known (Expression.conditional inner) := by
  unfold Expression.conditional
  infer_instance

/-! ### Named expressions and targets -/

instance : Shared w known (Expression.named inner) := by
  unfold Expression.named
  refine pairs_bind_views inferInstance fun start => pairs_bind_check ?_ ?_
  · refine pairs_bind_second fun second => ?_
    split
    · next h =>
      rw [eq_of_beq (Bool.and_eq_true_iff.1 h).2]
      infer_instance
    · infer_instance
  · refine pairs_bind_unseen fun _ _ => ?_
    rw [Bool.false_and, Bool.false_and, if_neg Bool.false_ne_true, if_neg Bool.false_ne_true]
    infer_instance

instance : Shared w known (Expression.starNamed inner) := by
  unfold Expression.starNamed
  infer_instance

instance : Shared w known (Expression.targetItem inner) := by
  unfold Expression.targetItem
  infer_instance

instance : Shared w known (Expression.starNamedList inner) := by
  unfold Expression.starNamedList
  infer_instance

instance : Shared w known (Expression.targetList inner) := by
  unfold Expression.targetList
  infer_instance

/-! ### Comprehensions -/

/-- Where a comprehension starts its keyword is known, which may have another one before it. -/
theorem pairs_bind_starts [Compared β] {within : Bool} {f g : Bool → Parser β}
    (hfor : Pairs w [.keyword .forKw] true within (f true) (g true))
    (hasync : Pairs w [.keyword .asyncKw, .keyword .forKw] true within (f true) (g true))
    (hfalse : ∀ known, Pairs w known true within (f false) (g false)) :
    Pairs w known true within (Expression.startsComprehension >>= f)
      (Expression.startsComprehension >>= g) := by
  unfold Expression.startsComprehension
  rw [bind_assoc_eq, bind_assoc_eq]
  refine pairs_bind_check hfor ?_
  rw [if_neg Bool.false_ne_true, bind_assoc_eq, bind_assoc_eq]
  refine pairs_bind_check ?_ ?_
  · rw [bind_assoc_eq, bind_assoc_eq]
    refine pairs_bind_second fun second => ?_
    cases h : second == .keyword .forKw with
    | true =>
      rw [eq_of_beq h]
      exact hasync
    | false => exact hfalse _
  · rw [bind_assoc_eq, bind_assoc_eq]
    exact pairs_bind_unseen fun _ _ => hfalse _

theorem pairs_comprehensionClause (h : known = [.keyword .forKw] ∨
    known = [.keyword .asyncKw, .keyword .forKw]) :
    Shared w known (Expression.comprehensionClause inner) := by
  unfold Expression.comprehensionClause
  refine pairs_bind_views inferInstance fun start => ?_
  rcases h with rfl | rfl
  · exact pairs_bind_eat_known nofun fun _ => inferInstance
  · exact pairs_bind_eat_known (fun _ => inferInstance) fun h => absurd rfl h

instance : Shared w known (Expression.comprehensionClauses inner) := by
  have hclause : ∀ known, known = [.keyword .forKw] ∨
      known = [.keyword .asyncKw, .keyword .forKw] →
      Shared w known (do return some (← Expression.comprehensionClause inner)) := by
    intro known hknown
    have : Shared w known (Expression.comprehensionClause inner) :=
      pairs_comprehensionClause hknown
    infer_instance
  have hitem : Shared w [] (do
      if ← Expression.startsComprehension then
        return some (← Expression.comprehensionClause inner)
      else return none) :=
    pairs_bind_starts (hclause _ (.inl rfl)) (hclause _ (.inr rfl)) fun _ =>
      (inferInstance : Shared w _ (pure (none : Option Tree)))
  unfold Expression.comprehensionClauses
  infer_instance

/-- Both runs see whether a comprehension starts. -/
instance : Views w true Expression.startsComprehension Expression.startsComprehension := by
  constructor
  intro s s' hsees hinside
  have hstarts : ∀ (ending : Ending) (state : ParserState),
      Expression.startsComprehension ending state =
        .ok ((state.rest[0]?.map Token.kind).getD .endMarker == .keyword .forKw ||
          (state.rest[0]?.map Token.kind).getD .endMarker == .keyword .asyncKw &&
            (state.rest[1]?.map Token.kind).getD .endMarker == .keyword .forKw) state := by
    intro ending state
    unfold Expression.startsComprehension
    rw [ParserLaw.bind_eq]
    show (if ((state.rest[0]?.map Token.kind).getD .endMarker == _) = true then
      (pure true : Parser Bool) else _) ending state = _
    split
    · next h => rw [h]; rfl
    · next h => rw [Bool.eq_false_iff.2 h]; rfl
  refine ⟨_, _, hstarts _ _, hstarts _ _, ?_⟩
  show _ = _
  rw [← hsees.kind_eq (hinside rfl)]
  congr 1
  cases h : (s.rest[0]?.map Token.kind).getD .endMarker == .keyword .asyncKw with
  | false => rfl
  | true =>
    have hknown : Knows [.keyword .asyncKw] s.rest := ⟨eq_of_beq h, trivial⟩
    obtain ⟨token, rest, hrest, hkind, _⟩ := exists_token hknown nofun
    rw [hsees.second_eq hrest (hkind ▸ rfl)]

/-! ### Displays -/

variable (t u : Tree) [Alike w.like t u] (a b : Position) [Alike w.like a b]

instance : Pairs w known true true (Expression.captured t a) (Expression.captured u b) := by
  unfold Expression.captured
  infer_instance

instance : Shared w known (Expression.displayItem inner) := by
  unfold Expression.displayItem
  infer_instance

instance : Shared w known (Expression.capturedExpression inner) := by
  unfold Expression.capturedExpression
  infer_instance

instance (sign : Operator) : Pairs w known true true (Expression.displayRest inner t (.op sign))
    (Expression.displayRest inner u (.op sign)) := by
  unfold Expression.displayRest
  infer_instance

instance (kind : NodeKind) [Provenance.IsTrue (isPlain kind)] (ts us : List Tree)
    [Alike w.like ts us] (sign : Operator) :
    Pairs w known true true (Expression.comprehension inner kind a ts (.op sign))
      (Expression.comprehension inner kind b us (.op sign)) := by
  unfold Expression.comprehension
  infer_instance

instance : Shared w (.op .leftParen :: known) (Expression.parenthesized inner) := by
  unfold Expression.parenthesized
  infer_instance

instance : Shared w (.op .leftBracket :: known) (Expression.listDisplay inner) := by
  unfold Expression.listDisplay
  infer_instance

instance : Shared w known (Expression.dictEntry inner) := by
  unfold Expression.dictEntry
  infer_instance

instance (ts us : List Tree) [Alike w.like ts us] :
    Pairs w known true true (Expression.dictRest inner a ts) (Expression.dictRest inner b us) := by
  unfold Expression.dictRest
  infer_instance

instance : Shared w (.op .leftBrace :: known) (Expression.braceDisplay inner) := by
  unfold Expression.braceDisplay
  refine pairs_bind_views inferInstance fun start => pairs_bind_advance ?_
  refine pairs_eat inferInstance (pairs_check inferInstance ?_)
  infer_instance

/-! ### Arguments and subscripts -/

instance (list list' : List Tree) [h : Alike w.like list list'] (a b : Bool) :
    Alike w.like (⟨list, a, b⟩ : Expression.Arguments) ⟨list', a, b⟩ := ⟨h.rel, rfl⟩

instance : Alike w.like Expression.Arguments.none .none := ⟨.nil, rfl⟩

/-- What has been read of two lists of arguments differs in the trees only. -/
theorem exists_arguments (x y : Expression.Arguments) [h : Alike w.like x y] :
    ∃ (list : Couple w.like (List Tree)) (a b : Bool),
      x = ⟨list.first, a, b⟩ ∧ y = ⟨list.second, a, b⟩ := by
  obtain ⟨list, a, b⟩ := x
  obtain ⟨list', _, _⟩ := y
  obtain ⟨hlist, heq⟩ := h.rel
  cases heq
  exact ⟨⟨list, list', hlist⟩, a, b, rfl, rfl⟩

section Argument

variable (x y : Expression.Arguments) [Alike w.like x y] (allowGenerator : Bool)

instance : Pairs w (.op .star :: known) true true (Expression.starArgument inner x)
    (Expression.starArgument inner y) := by
  obtain ⟨list, a, b, rfl, rfl⟩ := exists_arguments (w := w) x y
  unfold Expression.starArgument Expression.Arguments.push
  dsimp only
  infer_instance

instance : Pairs w (.op .doubleStar :: known) true true (Expression.doubleStarArgument inner x)
    (Expression.doubleStarArgument inner y) := by
  obtain ⟨list, a, b, rfl, rfl⟩ := exists_arguments (w := w) x y
  unfold Expression.doubleStarArgument Expression.Arguments.push
  dsimp only
  infer_instance

instance : Pairs w (.name :: .op .equal :: known) true true (Expression.keywordArgument inner x)
    (Expression.keywordArgument inner y) := by
  obtain ⟨list, a, b, rfl, rfl⟩ := exists_arguments (w := w) x y
  unfold Expression.keywordArgument Expression.Arguments.push
  dsimp only
  infer_instance

instance : Pairs w known true true (Expression.positionalArgument inner allowGenerator x)
    (Expression.positionalArgument inner allowGenerator y) := by
  obtain ⟨list, a, b, rfl, rfl⟩ := exists_arguments (w := w) x y
  unfold Expression.positionalArgument Expression.Arguments.push
  dsimp only
  refine pairs_bind_views inferInstance fun start => ?_
  refine pairs_bind_within inferInstance fun value => pairs_test inferInstance ?_ inferInstance
  exact pairs_bind_within inferInstance fun clauses => inferInstance

instance : Pairs w known true true (Expression.argument inner allowGenerator x)
    (Expression.argument inner allowGenerator y) := by
  unfold Expression.argument
  refine pairs_bind_peek fun kind => ?_
  split
  · infer_instance
  · infer_instance
  · refine pairs_bind_second fun second => ?_
    split
    · next h =>
      rw [eq_of_beq h]
      infer_instance
    · infer_instance
  · infer_instance

end Argument

instance (allowGenerator : Bool) : Shared w known (Expression.arguments inner allowGenerator) := by
  unfold Expression.arguments
  refine pairs_bind_within inferInstance fun x => ?_
  obtain ⟨list, a, b, hfirst, hsecond⟩ := exists_arguments (w := w) x.first x.second
  rw [hfirst, hsecond]
  infer_instance

instance : Views w true Expression.atSliceBoundary Expression.atSliceBoundary := by
  unfold Expression.atSliceBoundary
  infer_instance

instance : Shared w known (Expression.sliceBound inner) := by
  unfold Expression.sliceBound
  infer_instance

instance (ts us : List Tree) [Alike w.like ts us] :
    Pairs w (.op .colon :: known) true true (Expression.sliceRest inner a ts)
      (Expression.sliceRest inner b us) := by
  unfold Expression.sliceRest
  infer_instance

instance : Shared w known (Expression.slice inner) := by
  unfold Expression.slice
  infer_instance

instance : Shared w known (Expression.slices inner) := by
  unfold Expression.slices
  infer_instance

/-! ### Atoms and what follows them -/

instance (kind : TokenKind) [Content kind] (value : Constant)
    [Provenance.IsTrue (isPlain (.constant value))] :
    Shared w (kind :: known) (Expression.constant value) := by
  unfold Expression.constant
  infer_instance

theorem pairs_number :
    Shared w (.number :: known) (do Expression.constant (.number (← lexeme))) := by
  refine pairs_bind_lexeme fun text _ h => ?_
  obtain rfl := h
  infer_instance

/-- The texts of literals are compared as such, not as names. -/
theorem pairs_strings : Shared w (.string :: known) Expression.strings := by
  let literals : Compared String := ⟨Likeness.literal⟩
  unfold Expression.strings
  refine pairs_bind_views inferInstance fun start => pairs_bind_word fun first first' hfirst => ?_
  have hitem : ∀ isBytes, Pairs w [] true true (do
      if ← check .string then
        if Quotation.isBytes (← lexeme).toList != isBytes then
          failAt .mixedBytesLiterals start.first
        else return some (← word)
      else return none) (do
      if ← check .string then
        if Quotation.isBytes (← lexeme).toList != isBytes then
          failAt .mixedBytesLiterals start.second
        else return some (← word)
      else return none) := by
    intro isBytes
    refine pairs_bind_check (pairs_bind_lexeme fun text text' htext => ?_) ?_
    · rw [w.like.literal_isBytes htext]
      split
      · infer_instance
      · exact pairs_bind_word fun a b h => pairs_of_views ⟨fun _ _ => ⟨_, _, rfl, rfl, .some h⟩⟩ id
    · exact (inferInstance : Shared w [] (pure (none : Option String)))
  rw [w.like.literal_isBytes hfirst]
  have := hitem (Quotation.isBytes first'.toList)
  refine pairs_bind_within inferInstance fun more => ?_
  have hjoined := w.like.text_joined (.cons hfirst more.rel)
  have : Alike w.like (NodeKind.constant (.str _)) _ := ⟨.string hjoined⟩
  infer_instance

instance : Shared w known (Expression.atom inner) := by
  unfold Expression.atom
  refine pairs_bind_peek fun kind => ?_
  split
  · infer_instance
  · exact pairs_number
  · exact pairs_strings
  all_goals infer_instance

instance : Pairs w known true true (Expression.trailer inner a t)
    (Expression.trailer inner b u) := by
  unfold Expression.trailer
  refine pairs_bind_peek fun kind => ?_
  split <;> infer_instance

instance : Shared w known (Expression.primary inner) := by
  unfold Expression.primary
  infer_instance

/-! ### Operators -/

/-- The tokens of an operator stand inside a line. -/
theorem content_of_unaryOp {kind : TokenKind} {op : UnaryOp × Nat}
    (h : Power.unaryOp? kind = some op) : Content kind := by
  unfold Power.unaryOp? at h
  split at h
  all_goals first | infer_instance | cases h

theorem content_of_compareOp {first second : TokenKind} {op : CompareOp} {n : Nat}
    (h : Power.compareOp? first second = some (op, n)) :
    Content first ∧ (n = 2 → Content second) := by
  unfold Power.compareOp? at h
  split at h
  all_goals cases h
  all_goals exact ⟨inferInstance, fun _ => by first | infer_instance | contradiction⟩

instance (least : Nat) : Shared w known (Expression.unary inner least) := by
  unfold Expression.unary
  refine pairs_bind_views inferInstance fun start => pairs_bind_peek fun kind => ?_
  split
  · next h =>
    rw [eq_of_beq h]
    infer_instance
  · split
    · next hop =>
      have := content_of_unaryOp hop
      infer_instance
    · infer_instance

/-- A mark of the layout is no operator. -/
theorem content_or_no_operator (kind : TokenKind) : Content kind ∨
    Power.boolOp? kind = none ∧ Power.binaryOp? kind = none ∧
      ∀ second, Power.compareOp? kind second = none := by
  refine (content_or_mark kind).imp_right ?_
  rintro (rfl | rfl | rfl | rfl) <;> exact ⟨rfl, rfl, fun _ => rfl⟩

instance : Shared w known Expression.eatCompare := by
  unfold Expression.eatCompare
  refine pairs_bind_peek fun first => ?_
  rcases content_or_no_operator first with _ | ⟨_, _, hnone⟩
  · refine pairs_bind_second fun second => ?_
    split
    · next op n hop =>
      obtain ⟨_, hsecond⟩ := content_of_compareOp hop
      refine pairs_bind_advance ?_
      dsimp only
      split
      · next hn =>
        have := hsecond hn
        infer_instance
      · infer_instance
    · infer_instance
  · refine pairs_bind_unseen fun second second' => ?_
    rw [hnone second, hnone second']
    exact (inferInstance : Shared w [first] (pure (none : Option CompareOp)))

instance (op : BoolOp) (kind : TokenKind) [Content kind] [Real kind] :
    Pairs w (kind :: known) true true (Expression.boolChain inner op a t)
      (Expression.boolChain inner op b u) := by
  unfold Expression.boolChain
  exact pairs_bind_peek_known inferInstance

/-- The comparisons of a chain are the same, and its operands alike. -/
theorem links_like {like : Likeness} {links links' : List (CompareOp × Tree)}
    (h : rel like links links') : links.map (·.1) = links'.map (·.1) ∧
      List.Forall₂ (TreeLike like) (links.map (·.2)) (links'.map (·.2)) := by
  have hall : List.Forall₂ (rel like) links links' := h
  induction hall with
  | nil => exact ⟨rfl, .nil⟩
  | cons hfirst hrest ih =>
    obtain ⟨hops, hoperands⟩ := ih hrest
    exact ⟨congrArg₂ List.cons hfirst.1 hops, .cons hfirst.2 hoperands⟩

instance : Pairs w known true true (Expression.compareChain inner a t)
    (Expression.compareChain inner b u) := by
  have hlink : Shared w [] (do
      match ← Expression.eatCompare with
      | some op => return some (op, ← inner.operand Power.ofCompare.2)
      | none => return none) := by
    refine pairs_bind_within inferInstance fun found => ?_
    obtain ⟨op, op', hop⟩ := found
    cases hop with
    | @some op op' hop =>
      obtain rfl : op = op' := hop
      exact (inferInstance : Shared w [] (do
        return some (op, ← inner.operand Power.ofCompare.2)))
    | none => exact (inferInstance : Shared w [] (pure (none : Option (CompareOp × Tree))))
  unfold Expression.compareChain
  refine pairs_bind_within inferInstance fun links => ?_
  obtain ⟨hops, hoperands⟩ := links_like links.rel
  rw [hops]
  have : Alike w.like (links.first.map (·.2)) (links.second.map (·.2)) := ⟨hoperands⟩
  infer_instance

instance (op : BinaryOp) (kind : TokenKind) [Content kind] :
    Pairs w (kind :: known) true true (Expression.binary inner op a t)
      (Expression.binary inner op b u) := by
  unfold Expression.binary
  infer_instance

instance (least : Nat) : Pairs w known true true (Expression.extend inner least a t)
    (Expression.extend inner least b u) := by
  unfold Expression.extend
  refine pairs_bind_peek fun kind => ?_
  rcases content_or_no_operator kind with _ | ⟨hbool, hbinary, hcompare⟩
  · refine pairs_bind_second fun second => ?_
    split
    · next op hop =>
      have := real_of_boolOp hop
      infer_instance
    · infer_instance
    · next op _ _ hop =>
      infer_instance
    · infer_instance
  · refine pairs_bind_unseen fun second second' => ?_
    rw [hbool, hbinary, hcompare second, hcompare second']
    exact (inferInstance : Pairs w [kind] true true (pure (t, false)) (pure (u, false)))

instance (least : Nat) : Shared w known (Expression.operation inner least) := by
  unfold Expression.operation
  infer_instance

/-! ### Levels -/

theorem ofLevel_around : OfLevel w (Level.around inner) := by
  constructor
  · show Shared w [] (nested (Expression.conditional inner))
    infer_instance
  · intro least
    show Shared w [] (nested (Expression.operation inner least))
    infer_instance
  · show Shared w [] (nested (Expression.primary inner))
    infer_instance

end Expression

instance ofLevel_within (w : Window) (room : Nat) : OfLevel w (.within room) := by
  induction room with
  | zero =>
    have hfail : Shared w [] (failHere .tooDeeplyNested : Parser Tree) := inferInstance
    exact ⟨hfail, fun _ => hfail, hfail⟩
  | succ room ih => exact ofLevel_around

instance (w : Window) : OfLevel w .top := ofLevel_within w maxNesting

/-! ## Simple statements -/

section Simple

variable {w : Window} {known : List TokenKind}

instance : Shared w known Simple.asName := by
  unfold Simple.asName
  infer_instance

instance : Shared w known Simple.dottedName := by
  unfold Simple.dottedName
  infer_instance

instance (name : Parser String) [Shared w [] name] : Shared w known (Simple.importAlias name) := by
  unfold Simple.importAlias
  infer_instance

instance : Shared w (.keyword .importKw :: known) Simple.importStmt := by
  unfold Simple.importStmt
  infer_instance

instance : Shared w known Simple.importLevel := by
  unfold Simple.importLevel
  refine pairs_bind_within inferInstance fun ⟨dots, dots', h⟩ => ?_
  obtain rfl : dots = dots' := List.forall₂_eq_eq_eq ▸ h
  infer_instance

instance : Shared w known Simple.importedNames := by
  unfold Simple.importedNames
  infer_instance

instance : Shared w (.keyword .fromKw :: known) Simple.importFrom := by
  unfold Simple.importFrom
  refine pairs_bind_views inferInstance fun start => pairs_bind_advance ?_
  exact pairs_bind_same inferInstance fun level => inferInstance

variable (t u : Tree) [Alike w.like t u] (a b : Position) [Alike w.like a b]

instance : Pairs w known true true (Simple.assignment a t) (Simple.assignment b u) := by
  unfold Simple.assignment
  dsimp only
  infer_instance

instance (op : BinaryOp) (sign : Operator) :
    Pairs w (.op sign :: known) true true (Simple.augmented a t op) (Simple.augmented b u op) := by
  unfold Simple.augmented
  infer_instance

instance : Pairs w (.op .colon :: known) true true (Simple.annotated a t)
    (Simple.annotated b u) := by
  unfold Simple.annotated
  infer_instance

instance : Alike w.like (Simple.isPrint t) (Simple.isPrint u) := by
  constructor
  obtain ⟨h⟩ := ‹Alike w.like t u›
  have hkind := TreeLike.kind h
  unfold Simple.isPrint
  generalize t.kind = kind at hkind
  generalize u.kind = kind' at hkind
  cases hkind with
  | name hname _ =>
    exact Bool.eq_iff_iff.2 (by simpa using w.like.name_fixed hname "print" (by simp))
  | _ => rfl

instance : Shared w known Simple.expressionStmt := by
  unfold Simple.expressionStmt
  refine pairs_bind_views inferInstance fun start => ?_
  refine pairs_bind_within inferInstance fun first => pairs_bind_peek fun kind => ?_
  split
  · infer_instance
  · split
    · next hop =>
      obtain ⟨sign, rfl⟩ := exists_sign_of_augmentedOp hop
      infer_instance
    · split
      · next h =>
        rw [eq_of_beq h]
        infer_instance
      · infer_instance

/-! ### Statements that start with a keyword -/

instance (kind : NodeKind) [Provenance.IsTrue (isPlain kind)] (word : Keyword) :
    Shared w (.keyword word :: known) (Simple.keywordOnly kind) := by
  unfold Simple.keywordOnly
  infer_instance

instance : Shared w (.keyword .returnKw :: known) Simple.returnStmt := by
  unfold Simple.returnStmt
  infer_instance

instance : Shared w (.keyword .raiseKw :: known) Simple.raiseStmt := by
  unfold Simple.raiseStmt
  infer_instance

instance : Shared w (.keyword .globalKw :: known) (Simple.scopeStmt .globalStmt) := by
  unfold Simple.scopeStmt
  infer_instance

instance : Shared w (.keyword .nonlocalKw :: known) (Simple.scopeStmt .nonlocalStmt) := by
  unfold Simple.scopeStmt
  infer_instance

instance : Shared w (.keyword .delKw :: known) Simple.deleteStmt := by
  unfold Simple.deleteStmt
  infer_instance

instance : Shared w (.keyword .assertKw :: known) Simple.assertStmt := by
  unfold Simple.assertStmt
  infer_instance

instance : Shared w known Simple.statement := by
  unfold Simple.statement
  refine pairs_bind_peek fun kind => ?_
  split <;> infer_instance

/-- The mark at the end of a line may be the last token. -/
instance : Pairs w known true false (require .newline) (require .newline) :=
  pairs_require_mark

instance : Pairs w known true false Simple.line Simple.line := by
  unfold Simple.line
  infer_instance

end Simple

end SnippetLint.Pairing
