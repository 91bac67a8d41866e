import SnippetLint.Proofs.Derivation

/-!
The rules of expressions give what they have read: first for a level whose parsers do, then by
induction for all levels. Main statement: `sound_within`.
-/

namespace SnippetLint.Derivation
open SnippetLint.Parser

/-- A level whose parsers give what they have read. -/
class SoundLevel (inner : Level) : Prop where
  expression : Yields inner.expression (one .value)
  operand : ∀ least, Yields (inner.operand least) (one .value)
  primary : Yields inner.primary (one .value)
  follows : moves.OfLevel inner

attribute [instance] SoundLevel.follows

section Rules

variable (inner : Level) [hinner : SoundLevel inner]

/-! ## Expressions with and without names, stars and commas -/

theorem yields_disjunction : Yields (Expression.disjunction inner) (one .value) :=
  hinner.operand 0

theorem yields_bitwiseOr : Yields (Expression.bitwiseOr inner) (one .value) :=
  hinner.operand Power.bitwiseOr

theorem yields_named : Yields (Expression.named inner) (one .value) := by
  intro ending before t after h
  obtain ⟨start, trail, h⟩ := Trail.begin h
  obtain ⟨isName, _, hname, trail, h⟩ := trail.skip h
  obtain ⟨second, _, hsecond, trail, h⟩ := trail.skip h
  split at h
  · next hbound =>
    rw [(Bool.and_eq_true_iff.1 hbound).1] at hname
    have hrest := rest_ne_nil_of_check hname nofun
    obtain rfl := eq_of_check hname
    obtain rfl := eq_of_peekAt hsecond
    obtain ⟨id, _, hword, trail, h⟩ := trail.skip h
    obtain ⟨target, _, htarget, h⟩ := ParserLaw.bind_eq_ok h
    have hleaf := trail.leaf (left_lt_of_word hword hrest) htarget (.boundName id) rfl
    have trail : Trail start _ (one .binding target) _ := ⟨trail.start_eq, hleaf⟩
    obtain ⟨_, _, _, trail, h⟩ := trail.skip h
    obtain ⟨value, _, trail, h⟩ := trail.read hinner.expression h
    exact trail.node h .namedExpr rfl (List.cons_ne_nil _ _)
  · obtain ⟨value, _, trail, h⟩ := trail.read hinner.expression h
    obtain ⟨colon, _, _, trail, h⟩ := trail.skip h
    split at h
    · exact absurd h failHere_ne_ok
    · cases h
      exact trail.reads

theorem yields_starred : Yields (Expression.starred inner) (one .item) := by
  intro ending before t after h
  obtain ⟨start, trail, h⟩ := Trail.begin h
  obtain ⟨_, _, _, trail, h⟩ := trail.skip h
  obtain ⟨value, _, trail, h⟩ := trail.read (yields_bitwiseOr inner) h
  exact trail.node h .starred rfl (List.cons_ne_nil _ _)

/-- A starred item, or else what a parser reads. -/
theorem yields_starredOr {p : Parser Tree} (hp : Yields p (one .value)) :
    Yields (do if ← check (.op .star) then Expression.starred inner else p) (one .item) := by
  intro ending before t after h
  obtain ⟨star, _, hstar, h⟩ := ParserLaw.bind_eq_ok h
  obtain rfl := eq_of_check hstar
  split at h
  · exact yields_starred inner h
  · exact hp.widen .item h

theorem yields_star : Yields (Expression.star inner) (one .item) :=
  yields_starredOr inner hinner.expression

theorem yields_starNamed : Yields (Expression.starNamed inner) (one .item) :=
  yields_starredOr inner (yields_named inner)

theorem yields_targetItem : Yields (Expression.targetItem inner) (one .item) :=
  yields_starredOr inner (yields_bitwiseOr inner)

theorem yields_itemTuple {stop : Parser Bool} [moves.Follows stop] {item : Parser Tree}
    (hitem : Yields item (one .item)) : Yields (tupleOf stop item) (one .item) :=
  yields_tupleOf hitem (fun _ => .tuple) (.widen .item)

theorem yields_starList : Yields (Expression.starList inner) (one .item) :=
  yields_itemTuple (yields_star inner)

theorem yields_starNamedList : Yields (Expression.starNamedList inner) (one .item) :=
  yields_itemTuple (yields_starNamed inner)

theorem yields_targetList : Yields (Expression.targetList inner) (one .item) :=
  yields_itemTuple (yields_targetItem inner)

/-- A yield stands at its keyword. -/
theorem reads_yield {ending : Ending} {before after : ParserState} {t : Tree}
    (hrest : before.rest ≠ []) (h : Expression.yield inner ending before = .ok t after) :
    Reads before (one .value t) after := by
  obtain ⟨start, trail, h⟩ := Trail.begin h
  obtain ⟨_, _, hadvance, trail, h⟩ := trail.skip h
  obtain ⟨isFrom, _, hfrom, trail, h⟩ := trail.skip h
  split at h
  · obtain ⟨value, _, trail, h⟩ := trail.read hinner.expression h
    exact trail.node h .yieldFrom rfl (List.cons_ne_nil _ _)
  · obtain ⟨bare, _, hbare, trail, h⟩ := trail.skip h
    split at h
    · have hlt := left_lt_of_advance hadvance hrest
      have hle := left_le_of hfrom
      have hle' := left_le_of hbare
      exact trail.leaf (by omega) h .yieldNothing rfl
    · obtain ⟨value, _, trail, h⟩ := trail.read (yields_starList inner) h
      exact trail.node h .yieldValue rfl (List.cons_ne_nil _ _)

theorem yields_assigned : Yields (Expression.assigned inner) (one .item) := by
  intro ending before t after h
  obtain ⟨isYield, _, hyield, h⟩ := ParserLaw.bind_eq_ok h
  obtain rfl := eq_of_check hyield
  split at h
  · next hfound =>
    rw [hfound] at hyield
    exact .widen .item (reads_yield inner (rest_ne_nil_of_check hyield nofun) h)
  · exact yields_starList inner h

/-! ## Parameters -/

variable (annotated : Bool)

theorem optional_annotated : YieldsOptional (Expression.annotation inner annotated) .item := by
  intro ending before ts after h
  obtain ⟨start, trail⟩ := Trail.exists_start before
  unfold Expression.annotation at h
  split at h
  · obtain ⟨colon, _, _, trail, h⟩ := trail.skip h
    split at h
    · obtain ⟨t, _, trail, h⟩ := trail.read (yields_star inner) h
      cases h
      exact ⟨trail.reads, Nat.le_refl 1⟩
    · cases h
      exact ⟨trail.reads, Nat.zero_le 1⟩
  · cases h
    exact ⟨trail.reads, Nat.zero_le 1⟩

/-- A parameter with a name, read since it began. -/
theorem Trail.parameter {start : Position} {first state after : ParserState} {ending : Ending}
    {annotations default : List Tree} {t : Tree} {name : String} {kind : ParameterKind}
    (trail : Trail start first (all .item annotations ++ all .value default) state)
    (hannotations : annotations.length ≤ 1) (hdefault : default.length ≤ 1)
    (progress : state.left < first.left)
    (h : Parser.node (.parameter name kind) start (annotations ++ default) ending state =
      .ok t after) : Reads first (one .parameter t) after := by
  refine trail.leaf progress h ?_ (by simp)
  rw [List.map_append, map_fst_all, map_fst_all]
  exact .parameter name kind hannotations hdefault

/-- A parameter without a default, read since it began. -/
theorem Trail.required {start : Position} {first state after : ParserState} {ending : Ending}
    {annotations : List Tree} {t : Tree} {name : String} {kind : ParameterKind}
    (trail : Trail start first (all .item annotations) state)
    (hannotations : annotations.length ≤ 1) (progress : state.left < first.left)
    (h : Parser.node (.parameter name kind) start annotations ending state = .ok t after) :
    Reads first (one .parameter t) after := by
  have htrail : Trail start first (all .item annotations ++ all .value []) state := by
    rwa [all_nil, List.append_nil]
  rw [← List.append_nil annotations] at h
  exact htrail.parameter hannotations (Nat.zero_le 1) progress h

variable {start : Position} (parameters : Expression.Parameters)

theorem continues_slashParameter :
    Continues start (all .parameter parameters.list) (Expression.slashParameter parameters)
      fun next => all .parameter next.list := by
  intro ending first state next after trail h
  unfold Expression.slashParameter at h
  split at h
  · exact absurd h failHere_ne_ok
  · obtain ⟨_, _, _, trail, h⟩ := trail.skip h
    cases h
    exact trail.reads.positional

/-- A parameter after those read so far. -/
theorem Trail.push {first state after : ParserState} {t : Tree}
    (trail : Trail start first (all .parameter parameters.list) state)
    (h : Reads state (one .parameter t) after) :
    Reads first (all .parameter (parameters.push t).list) after := by
  rw [Expression.Parameters.push, all_append]
  exact trail.reads.append h

theorem continues_starParameter :
    Continues start (all .parameter parameters.list)
      (Expression.starParameter inner annotated parameters)
      fun next => all .parameter next.list := by
  intro ending first state next after outer h
  obtain ⟨start, trail, h⟩ := Trail.begin h
  split at h
  · exact absurd h failHere_ne_ok
  · obtain ⟨_, _, hstar, trail, h⟩ := trail.skip h
    obtain ⟨isName, _, hname, trail, h⟩ := trail.skip h
    have hle := left_le_of hstar
    obtain rfl := eq_of_check hname
    split at h
    · next hfound =>
      rw [hfound] at hname
      obtain ⟨name, _, hword, trail, h⟩ := trail.skip h
      have hlt := left_lt_of_word hword (rest_ne_nil_of_check hname nofun)
      obtain ⟨annotations, _, hlength, hle', trail, h⟩ :=
        trail.optional (optional_annotated inner annotated) h
      obtain ⟨t, _, hnode, h⟩ := ParserLaw.bind_eq_ok h
      cases h
      exact outer.push parameters (trail.required hlength (by omega) hnode)
    · obtain ⟨isComma, _, hcomma, trail, h⟩ := trail.skip h
      split at h
      · cases h
        have hreads := outer.reads.append trail.reads
        rwa [List.append_nil] at hreads
      · exact absurd h failHere_ne_ok

theorem continues_doubleStarParameter :
    Continues start (all .parameter parameters.list)
      (Expression.doubleStarParameter inner annotated parameters)
      fun next => all .parameter next.list := by
  intro ending first state next after outer h
  obtain ⟨start, trail, h⟩ := Trail.begin h
  split at h
  · exact absurd h failAt_ne_ok
  · obtain ⟨_, _, hstar, trail, h⟩ := trail.skip h
    obtain ⟨name, _, hname, trail, h⟩ := trail.skip h
    have hle := left_le_of hstar
    have hlt := left_lt_of_expectName hname
    obtain ⟨annotations, _, hlength, hle', trail, h⟩ :=
      trail.optional (optional_annotated inner annotated) h
    obtain ⟨t, _, hnode, h⟩ := ParserLaw.bind_eq_ok h
    cases h
    exact outer.push parameters (trail.required hlength (by omega) hnode)

theorem continues_plainParameter :
    Continues start (all .parameter parameters.list)
      (Expression.plainParameter inner annotated parameters)
      fun next => all .parameter next.list := by
  intro ending first state next after outer h
  obtain ⟨start, trail, h⟩ := Trail.begin h
  obtain ⟨name, _, hname, trail, h⟩ := trail.skip h
  have hlt := left_lt_of_expectName hname
  obtain ⟨annotations, _, hlength, hle, trail, h⟩ :=
    trail.optional (optional_annotated inner annotated) h
  obtain ⟨isDefault, _, hequal, trail, h⟩ := trail.skip h
  have hle' := left_le_of hequal
  split at h
  · obtain ⟨value, _, trail, h⟩ := trail.read hinner.expression h
    obtain ⟨t, _, hnode, h⟩ := ParserLaw.bind_eq_ok h
    cases h
    have hlt := trail.reads.left_lt (by simp [one])
    have trail : Trail start _ (all .item annotations ++ all .value [value]) _ := trail
    exact outer.push parameters (trail.parameter hlength (Nat.le_refl 1) hlt hnode)
  · split at h
    · exact absurd h failAt_ne_ok
    · obtain ⟨t, _, hnode, h⟩ := ParserLaw.bind_eq_ok h
      cases h
      exact outer.push parameters (trail.required hlength (by omega) hnode)

theorem continues_parameter :
    Continues start (all .parameter parameters.list)
      (Expression.parameter inner annotated parameters)
      fun next => all .parameter next.list := by
  intro ending first state next after trail h
  unfold Expression.parameter at h
  split at h
  · exact absurd h failHere_ne_ok
  · obtain ⟨kind, _, _, trail, h⟩ := trail.skip h
    split at h
    · exact continues_slashParameter parameters trail h
    · exact continues_starParameter inner annotated parameters trail h
    · exact continues_doubleStarParameter inner annotated parameters trail h
    · exact continues_plainParameter inner annotated parameters trail h

theorem yields_parameters (closer : TokenKind) :
    Yields (Expression.parameters inner closer annotated) (all .parameter) := by
  intro ending before ts after h
  obtain ⟨start, trail⟩ := Trail.exists_start before
  obtain ⟨parameters, next, hiterate, h⟩ := ParserLaw.bind_eq_ok h
  have hreads : Reads before (all .parameter parameters.list) next := by
    refine continues_iterate (fun parameters => all .parameter parameters.list)
      (fun parameters => ?_) Expression.Parameters.none trail hiterate
    intro ending first state next after trail h
    obtain ⟨closed, _, _, trail, h⟩ := trail.skip h
    split at h
    · cases h
      exact trail.reads
    · obtain ⟨parameters, _, trail, h⟩ :=
        trail.continue (continues_parameter inner annotated parameters) h
      obtain ⟨comma, _, _, trail, h⟩ := trail.skip h
      cases h
      exact trail.reads
  split at h
  · exact absurd h failHere_ne_ok
  · cases h
    exact hreads

/-! ## Lambdas, conditions and comprehensions -/

theorem yields_lambda : Yields (Expression.lambda inner) (one .value) := by
  intro ending before t after h
  obtain ⟨start, trail, h⟩ := Trail.begin h
  obtain ⟨_, _, _, trail, h⟩ := trail.skip h
  obtain ⟨parameters, _, trail, h⟩ := trail.read (yields_parameters inner false _) h
  obtain ⟨_, _, _, trail, h⟩ := trail.skip h
  obtain ⟨body, _, trail, h⟩ := trail.read hinner.expression h
  refine trail.node h ?_ (by simp [one]) (by simp [one])
  rw [List.nil_append, List.map_append, map_fst_all]
  exact .lambda parameters.length

theorem yields_conditional : Yields (Expression.conditional inner) (one .value) := by
  intro ending before t after h
  obtain ⟨isLambda, _, hlambda, h⟩ := ParserLaw.bind_eq_ok h
  obtain rfl := eq_of_check hlambda
  split at h
  · exact yields_lambda inner h
  · obtain ⟨start, trail, h⟩ := Trail.begin h
    obtain ⟨body, _, trail, h⟩ := trail.read (yields_disjunction inner) h
    obtain ⟨isIf, _, _, trail, h⟩ := trail.skip h
    split at h
    · obtain ⟨test, _, trail, h⟩ := trail.read (yields_disjunction inner) h
      obtain ⟨isElse, _, _, trail, h⟩ := trail.skip h
      split at h
      · obtain ⟨orElse, _, trail, h⟩ := trail.read hinner.expression h
        exact trail.node h .ifExp rfl (List.cons_ne_nil _ _)
      · exact absurd h failHere_ne_ok
    · cases h
      exact trail.reads

theorem yields_comprehensionClause :
    Yields (Expression.comprehensionClause inner) (one .clause) := by
  intro ending before t after h
  obtain ⟨start, trail, h⟩ := Trail.begin h
  obtain ⟨isAsync, _, _, trail, h⟩ := trail.skip h
  obtain ⟨_, _, _, trail, h⟩ := trail.skip h
  obtain ⟨item, _, trail, h⟩ := trail.read (yields_targetList inner) h
  obtain ⟨target, trail, h⟩ := trail.mark (fun _ => id) h
  obtain ⟨_, _, _, trail, h⟩ := trail.skip h
  obtain ⟨source, _, trail, h⟩ := trail.read (yields_disjunction inner) h
  obtain ⟨conditions, _, trail, h⟩ :=
    trail.read (yields_manyTrees (yields_after (yields_disjunction inner))) h
  refine trail.node h ?_ (by simp [one]) (by simp [one])
  rw [List.map_append, map_fst_all]
  exact .comprehension isAsync conditions.length

theorem yields_comprehensionClauses :
    Yields (Expression.comprehensionClauses inner) (all .clause) :=
  yields_manyTrees (yields_after (yields_comprehensionClause inner))

theorem eq_of_startsComprehension {ending : Ending} {state next : ParserState} {starts : Bool}
    (h : Expression.startsComprehension ending state = .ok starts next) : state = next := by
  obtain ⟨isFor, _, hfor, h⟩ := ParserLaw.bind_eq_ok h
  obtain rfl := eq_of_check hfor
  split at h
  · cases h
    rfl
  · obtain ⟨isAsync, _, hasync, h⟩ := ParserLaw.bind_eq_ok h
    obtain rfl := eq_of_check hasync
    obtain ⟨second, _, hsecond, h⟩ := ParserLaw.bind_eq_ok h
    obtain rfl := eq_of_peekAt hsecond
    cases h
    rfl

omit hinner in
/-- Where a comprehension starts there is one clause at least. -/
theorem exists_clauses {ending : Ending} {state next after : ParserState} {clauses : List Tree}
    (hstarts : Expression.startsComprehension ending state = .ok true next)
    (h : Expression.comprehensionClauses inner ending state = .ok clauses after) :
    ∃ n, clauses.length = n + 1 := by
  refine Nat.exists_eq_succ_of_ne_zero fun hnone => ?_
  refine many_ne_nil (fun _ => after_ne_none fun _ hfalse => ?_) h (List.length_eq_zero_iff.1 hnone)
  rw [hstarts] at hfalse
  cases hfalse

/-! ## Displays -/

section Displays

variable {t : Tree}

/-- Inside a pattern an item may get a name, and is then a value. -/
theorem continues_captured {phrase : Phrase}
    (hitem : ∀ {a b : ParserState} {t : Tree}, Reads a [(phrase, t)] b → Reads a [(.item, t)] b)
    (hvalue : ∀ {a b : ParserState} {t : Tree}, Reads a [(.value, t)] b → Reads a [(phrase, t)] b) :
    Continues start (one phrase t) (Expression.captured t start) (one phrase) := by
  intro ending first state u after trail h
  obtain ⟨inPattern, _, hpattern, h⟩ := ParserLaw.bind_eq_ok h
  cases hpattern
  split at h
  · next hcaptures =>
    have hfirst : first.inPattern = true := by rw [← trail.reads.moves.inPattern, hcaptures]
    obtain ⟨isAs, _, _, trail, h⟩ := trail.skip h
    split at h
    · obtain ⟨name, _, _, trail, h⟩ := trail.skip h
      have trail : Trail start first (one .item t) _ := ⟨trail.start_eq, hitem trail.reads⟩
      exact hvalue (trail.node h (.matchAs hfirst name) rfl (List.cons_ne_nil _ _))
    · cases h
      exact trail.reads
  · cases h
    exact trail.reads

theorem continues_capturedItem :
    Continues start (one .item t) (Expression.captured t start) (one .item) :=
  continues_captured id (.widen .item)

theorem continues_capturedValue :
    Continues start (one .value t) (Expression.captured t start) (one .value) :=
  continues_captured (.widen .item) id

theorem yields_displayItem : Yields (Expression.displayItem inner) (one .item) := by
  intro ending before t after h
  obtain ⟨start, trail, h⟩ := Trail.begin h
  obtain ⟨item, _, trail, h⟩ := trail.read (yields_starNamed inner) h
  exact continues_capturedItem trail h

theorem yields_capturedExpression : Yields (Expression.capturedExpression inner) (one .value) := by
  intro ending before t after h
  obtain ⟨start, trail, h⟩ := Trail.begin h
  obtain ⟨value, _, trail, h⟩ := trail.read hinner.expression h
  exact continues_capturedValue trail h

theorem continues_displayRest (closer : TokenKind) :
    Continues start (one .item t) (Expression.displayRest inner t closer) (all .item) := by
  intro ending first state ts after trail h
  obtain ⟨items, _, trail, h⟩ := trail.read (yields_commaTrees (yields_displayItem inner)) h
  obtain ⟨_, _, _, trail, h⟩ := trail.skip h
  cases h
  exact trail.reads

/-- A display that holds one item at least. -/
theorem continues_display {kind : NodeKind} (closer : TokenKind)
    (production : ∀ captures n, Production captures .value kind (.replicate (n + 1) .item)) :
    Continues start (one .item t)
      (do node kind start (← Expression.displayRest inner t closer)) (one .value) := by
  intro ending first state u after trail h
  obtain ⟨items, _, hrest, h⟩ := ParserLaw.bind_eq_ok h
  have trail : Trail start first _ _ :=
    ⟨trail.start_eq, continues_displayRest inner closer trail hrest⟩
  obtain ⟨more, rfl⟩ : ∃ more, items = t :: more := by
    obtain ⟨more, _, _, hrest⟩ := ParserLaw.bind_eq_ok hrest
    obtain ⟨_, _, _, hrest⟩ := ParserLaw.bind_eq_ok hrest
    cases hrest
    exact ⟨more, rfl⟩
  refine trail.node h ?_ (map_snd_all _ _) (List.cons_ne_nil _ _)
  rw [map_fst_all]
  exact production _ more.length

theorem reads_comprehension {ending : Ending} {first state next after : ParserState}
    {xs : List (Phrase × Tree)} {kind : NodeKind} {elements : List Tree} {closer : TokenKind}
    {t : Tree} (trail : Trail start first xs state)
    (hstarts : Expression.startsComprehension ending state = .ok true next)
    (h : Expression.comprehension inner kind start elements closer ending next = .ok t after)
    (production : ∀ captures n,
      Production captures .value kind (xs.map Prod.fst ++ .replicate (n + 1) .clause))
    (hxs : xs ≠ []) (helements : xs.map Prod.snd = elements) :
    Reads first (one .value t) after := by
  obtain rfl := eq_of_startsComprehension hstarts
  obtain ⟨clauses, _, hclauses, h⟩ := ParserLaw.bind_eq_ok h
  obtain ⟨n, hn⟩ := exists_clauses inner hstarts hclauses
  have trail := trail.append (yields_comprehensionClauses inner hclauses)
  obtain ⟨_, _, _, trail, h⟩ := trail.skip h
  refine trail.node h ?_ (by simp [helements]) (by simp [hxs])
  rw [List.map_append, map_fst_all, hn]
  exact production _ n

theorem yields_parenthesized : Yields (Expression.parenthesized inner) (one .value) := by
  intro ending before t after h
  obtain ⟨start, trail, h⟩ := Trail.begin h
  obtain ⟨_, _, hopen, trail, h⟩ := trail.skip h
  obtain ⟨closed, _, hclosed, trail, h⟩ := trail.skip h
  split at h
  · next hfound =>
    rw [hfound] at hclosed
    have hle := left_le_of hopen
    have hlt := left_lt_of_eat hclosed nofun
    exact trail.leaf (by omega) h (.tuple 0) rfl
  · obtain ⟨isYield, _, hyield, trail, h⟩ := trail.skip h
    split at h
    · next hfound =>
      rw [hfound] at hyield
      have hrest := rest_ne_nil_of_check hyield nofun
      obtain rfl := eq_of_check hyield
      obtain ⟨value, _, hvalue, h⟩ := ParserLaw.bind_eq_ok h
      have trail := trail.append (reads_yield inner hrest hvalue)
      obtain ⟨_, _, _, trail, h⟩ := trail.skip h
      cases h
      exact trail.reads
    · obtain ⟨item, _, trail, h⟩ := trail.read (yields_displayItem inner) h
      obtain ⟨isComprehension, _, hstarts, h⟩ := ParserLaw.bind_eq_ok h
      split at h
      · next hfound =>
        rw [hfound] at hstarts
        exact reads_comprehension inner trail hstarts h (fun _ => .generatorExp)
          (List.cons_ne_nil _ _) rfl
      · obtain rfl := eq_of_startsComprehension hstarts
        obtain ⟨isTuple, _, _, trail, h⟩ := trail.skip h
        split at h
        · exact continues_display inner _ (fun _ n => .tuple (n + 1)) trail h
        · split at h
          · exact absurd h failAt_ne_ok
          · next hstar =>
            obtain ⟨_, _, _, trail, h⟩ := trail.skip h
            cases h
            exact trail.reads.value_of_item rfl (Bool.eq_false_iff.2 hstar)

theorem yields_listDisplay : Yields (Expression.listDisplay inner) (one .value) := by
  intro ending before t after h
  obtain ⟨start, trail, h⟩ := Trail.begin h
  obtain ⟨_, _, hopen, trail, h⟩ := trail.skip h
  obtain ⟨closed, _, hclosed, trail, h⟩ := trail.skip h
  split at h
  · next hfound =>
    rw [hfound] at hclosed
    have hle := left_le_of hopen
    have hlt := left_lt_of_eat hclosed nofun
    exact trail.leaf (by omega) h (.list 0) rfl
  · obtain ⟨item, _, trail, h⟩ := trail.read (yields_displayItem inner) h
    obtain ⟨isComprehension, _, hstarts, h⟩ := ParserLaw.bind_eq_ok h
    split at h
    · next hfound =>
      rw [hfound] at hstarts
      exact reads_comprehension inner trail hstarts h (fun _ => .listComp)
        (List.cons_ne_nil _ _) rfl
    · obtain rfl := eq_of_startsComprehension hstarts
      exact continues_display inner _ (fun _ n => .list (n + 1)) trail h

/-- The phrases of an entry: a key and its value, or else a mapping that is spread. -/
def entry : List Tree → List (Phrase × Tree)
  | [key, value] => [(.value, key), (.value, value)]
  | ts => all .spread ts

theorem map_snd_entry (ts : List Tree) : (entry ts).map Prod.snd = ts := by
  unfold entry
  split
  · rfl
  · exact map_snd_all _ _

theorem entries_append {xs ys : List Phrase} (hxs : Entries xs) (hys : Entries ys) :
    Entries (xs ++ ys) := by
  induction hxs with
  | nil => exact hys
  | pair _ ih => exact .pair ih
  | spread _ ih => exact .spread ih

theorem entries_entry (ts : List Tree) : Entries ((entry ts).map Prod.fst) := by
  unfold entry
  split
  · exact .pair .nil
  · rw [map_fst_all]
    induction ts.length with
    | zero => exact .nil
    | succ n ih => exact .spread ih

theorem entries_flatMap (entries : List (List Tree)) :
    Entries ((entries.flatMap entry).map Prod.fst) := by
  induction entries with
  | nil => exact .nil
  | cons ts entries ih =>
    rw [List.flatMap_cons, List.map_append]
    exact entries_append (entries_entry ts) ih

theorem map_snd_flatMap_entry (entries : List (List Tree)) :
    (entries.flatMap entry).map Prod.snd = entries.flatten := by
  induction entries with
  | nil => rfl
  | cons ts entries ih =>
    rw [List.flatMap_cons, List.map_append, map_snd_entry, ih, List.flatten_cons]

theorem yields_dictEntry : Yields (Expression.dictEntry inner) entry := by
  intro ending before ts after h
  obtain ⟨start, trail, h⟩ := Trail.begin h
  obtain ⟨isSpread, _, _, trail, h⟩ := trail.skip h
  split at h
  · obtain ⟨mapping, _, trail, h⟩ := trail.read (yields_bitwiseOr inner) h
    obtain ⟨t, _, hnode, h⟩ := ParserLaw.bind_eq_ok h
    cases h
    exact trail.node hnode .dictUnpack rfl (List.cons_ne_nil _ _)
  · obtain ⟨key, _, trail, h⟩ := trail.read hinner.expression h
    obtain ⟨_, _, _, trail, h⟩ := trail.skip h
    obtain ⟨value, _, trail, h⟩ := trail.read (yields_capturedExpression inner) h
    cases h
    exact trail.reads

theorem continues_dictRest {xs : List (Phrase × Tree)} {ts : List Tree}
    (production : ∀ captures entries, Entries entries →
      Production captures .value .dict (xs.map Prod.fst ++ entries))
    (hts : xs.map Prod.snd = ts) :
    Continues start xs (Expression.dictRest inner start ts) (one .value) := by
  intro ending first state t after trail h
  obtain ⟨entries, _, trail, h⟩ := trail.read (yields_commaTail (yields_dictEntry inner)) h
  have hle := trail.reads.moves.left_le
  obtain ⟨_, _, hclose, trail, h⟩ := trail.skip h
  have hlt := left_lt_of_require hclose nofun
  refine trail.leaf (by omega) h ?_ ?_
  · rw [List.map_append]
    exact production _ _ (entries_flatMap entries)
  · rw [List.map_append, hts, map_snd_flatMap_entry]

theorem yields_braceDisplay : Yields (Expression.braceDisplay inner) (one .value) := by
  intro ending before t after h
  obtain ⟨start, trail, h⟩ := Trail.begin h
  obtain ⟨_, _, hopen, trail, h⟩ := trail.skip h
  obtain ⟨closed, _, hclosed, trail, h⟩ := trail.skip h
  split at h
  · next hfound =>
    rw [hfound] at hclosed
    have hle := left_le_of hopen
    have hlt := left_lt_of_eat hclosed nofun
    exact trail.leaf (by omega) h (.dict .nil) rfl
  · obtain ⟨isSpread, _, hspread, trail, h⟩ := trail.skip h
    split at h
    · obtain ⟨ts, _, trail, h⟩ := trail.read (yields_dictEntry inner) h
      exact continues_dictRest inner
        (fun _ _ hentries => .dict (entries_append (entries_entry ts) hentries)) (map_snd_entry ts)
        trail h
    · obtain ⟨item, _, trail, h⟩ := trail.read (yields_displayItem inner) h
      obtain ⟨isDict, _, _, trail, h⟩ := trail.skip h
      split at h
      · obtain ⟨value, _, trail, h⟩ := trail.read (yields_capturedExpression inner) h
        obtain ⟨isComprehension, _, hstarts, h⟩ := ParserLaw.bind_eq_ok h
        split at h
        · next hfound =>
          rw [hfound] at hstarts
          exact reads_comprehension inner trail hstarts h (fun _ => .dictComp)
            (List.cons_ne_nil _ _) rfl
        · obtain rfl := eq_of_startsComprehension hstarts
          exact continues_dictRest inner (fun _ _ => .dictFrom) rfl trail h
      · obtain ⟨isComprehension, _, hstarts, h⟩ := ParserLaw.bind_eq_ok h
        split at h
        · next hfound =>
          rw [hfound] at hstarts
          exact reads_comprehension inner trail hstarts h (fun _ => .setComp)
            (List.cons_ne_nil _ _) rfl
        · obtain rfl := eq_of_startsComprehension hstarts
          exact continues_display inner _ (fun _ => .set) trail h

end Displays

/-! ## Arguments and subscripts -/

section Arguments

variable (arguments : Expression.Arguments)

/-- An argument after those read so far. -/
theorem Trail.pass {first state after : ParserState} {t : Tree}
    (trail : Trail start first (all .argument arguments.list) state)
    (h : Reads state (one .argument t) after) :
    Reads first (all .argument (arguments.push t).list) after := by
  rw [Expression.Arguments.push, all_append]
  exact trail.reads.append h

theorem continues_starArgument :
    Continues start (all .argument arguments.list) (Expression.starArgument inner arguments)
      fun next => all .argument next.list := by
  intro ending first state next after outer h
  obtain ⟨start, trail, h⟩ := Trail.begin h
  split at h
  · exact absurd h failHere_ne_ok
  · obtain ⟨_, _, _, trail, h⟩ := trail.skip h
    obtain ⟨value, _, trail, h⟩ := trail.read hinner.expression h
    obtain ⟨t, _, hnode, h⟩ := ParserLaw.bind_eq_ok h
    cases h
    have hstarred := trail.node hnode .starred rfl (List.cons_ne_nil _ _)
    exact outer.pass arguments (.widen .argument hstarred)

theorem continues_doubleStarArgument :
    Continues start (all .argument arguments.list)
      (Expression.doubleStarArgument inner arguments) fun next => all .argument next.list := by
  intro ending first state next after outer h
  obtain ⟨start, trail, h⟩ := Trail.begin h
  obtain ⟨_, _, _, trail, h⟩ := trail.skip h
  obtain ⟨value, _, trail, h⟩ := trail.read hinner.expression h
  obtain ⟨t, _, hnode, h⟩ := ParserLaw.bind_eq_ok h
  cases h
  exact outer.pass arguments (trail.node hnode (.keyword none) rfl (List.cons_ne_nil _ _))

theorem continues_keywordArgument :
    Continues start (all .argument arguments.list) (Expression.keywordArgument inner arguments)
      fun next => all .argument next.list := by
  intro ending first state next after outer h
  obtain ⟨start, trail, h⟩ := Trail.begin h
  obtain ⟨name, _, _, trail, h⟩ := trail.skip h
  obtain ⟨_, _, _, trail, h⟩ := trail.skip h
  obtain ⟨value, _, trail, h⟩ := trail.read (yields_capturedExpression inner) h
  obtain ⟨t, _, hnode, h⟩ := ParserLaw.bind_eq_ok h
  cases h
  exact outer.pass arguments (trail.node hnode (.keyword (some name)) rfl (List.cons_ne_nil _ _))

variable (allowGenerator : Bool)

theorem continues_positionalArgument :
    Continues start (all .argument arguments.list)
      (Expression.positionalArgument inner allowGenerator arguments)
      fun next => all .argument next.list := by
  intro ending first state next after outer h
  obtain ⟨start, trail, h⟩ := Trail.begin h
  obtain ⟨value, _, trail, h⟩ := trail.read ((yields_named inner).widen .item) h
  obtain ⟨isGenerator, _, hstarts, h⟩ := ParserLaw.bind_eq_ok h
  obtain rfl := eq_of_startsComprehension hstarts
  split at h
  · next hfound =>
    rw [hfound] at hstarts
    obtain ⟨clauses, _, hclauses, h⟩ := ParserLaw.bind_eq_ok h
    obtain ⟨n, hn⟩ := exists_clauses inner hstarts hclauses
    have trail := trail.append (yields_comprehensionClauses inner hclauses)
    split at h
    · exact absurd h failAt_ne_ok
    · obtain ⟨closed, _, _, trail, h⟩ := trail.skip h
      split at h
      · exact absurd h failAt_ne_ok
      · obtain ⟨t, _, hnode, h⟩ := ParserLaw.bind_eq_ok h
        cases h
        refine outer.pass arguments (.widen .argument (.widen .item (trail.node hnode ?_ ?_ ?_)))
        · rw [List.map_append, map_fst_all, hn]
          exact .generatorExp n
        · simp [one]
        · simp [one]
  · obtain ⟨isKeyword, _, _, trail, h⟩ := trail.skip h
    split at h
    · exact absurd h failAt_ne_ok
    · split at h
      · exact absurd h failAt_ne_ok
      · obtain ⟨t, _, hcaptured, h⟩ := ParserLaw.bind_eq_ok h
        cases h
        exact outer.pass arguments (.widen .argument (continues_capturedItem trail hcaptured))

theorem continues_argument :
    Continues start (all .argument arguments.list)
      (Expression.argument inner allowGenerator arguments)
      fun next => all .argument next.list := by
  intro ending first state next after trail h
  obtain ⟨kind, _, _, trail, h⟩ := trail.skip h
  split at h
  · exact continues_starArgument inner arguments trail h
  · exact continues_doubleStarArgument inner arguments trail h
  · obtain ⟨second, _, _, trail, h⟩ := trail.skip h
    split at h
    · exact continues_keywordArgument inner arguments trail h
    · exact continues_positionalArgument inner arguments allowGenerator trail h
  · exact continues_positionalArgument inner arguments allowGenerator trail h

theorem yields_arguments :
    Yields (Expression.arguments inner allowGenerator) (all .argument) := by
  intro ending before ts after h
  obtain ⟨start, trail⟩ := Trail.exists_start before
  obtain ⟨arguments, next, hiterate, h⟩ := ParserLaw.bind_eq_ok h
  cases h
  refine continues_iterate (fun arguments => all .argument arguments.list)
    (fun arguments => ?_) Expression.Arguments.none trail hiterate
  intro ending first state next after trail h
  obtain ⟨closed, _, _, trail, h⟩ := trail.skip h
  split at h
  · cases h
    exact trail.reads
  · obtain ⟨arguments, _, trail, h⟩ :=
      trail.continue (continues_argument inner arguments allowGenerator) h
    obtain ⟨comma, _, _, trail, h⟩ := trail.skip h
    cases h
    exact trail.reads

end Arguments

theorem optional_sliceBound : YieldsOptional (Expression.sliceBound inner) .value := by
  intro ending before ts after h
  obtain ⟨start, trail⟩ := Trail.exists_start before
  obtain ⟨missing, _, _, trail, h⟩ := trail.skip h
  split at h
  · cases h
    exact ⟨trail.reads, Nat.zero_le 1⟩
  · obtain ⟨t, _, trail, h⟩ := trail.read hinner.expression h
    cases h
    exact ⟨trail.reads, Nat.le_refl 1⟩

/-- A slice after its lower bound, at the colon. -/
theorem reads_sliceRest {ending : Ending} {first state after : ParserState} {lower : List Tree}
    {t : Tree} (h : Expression.sliceRest inner start lower ending state = .ok t after)
    (trail : Trail start first (all .item lower) state) (hlower : lower.length ≤ 1)
    (hrest : state.rest ≠ []) :
    Reads first (one .index t) after := by
  have hbefore := trail.reads.moves.left_le
  obtain ⟨_, _, hadvance, trail, h⟩ := trail.skip h
  have hcolon := left_lt_of_advance hadvance hrest
  obtain ⟨upper, _, hupper, hbound, trail, h⟩ := trail.optional (optional_sliceBound inner) h
  obtain ⟨isStep, _, hstep, trail, h⟩ := trail.skip h
  have hle := left_le_of hstep
  split at h
  · obtain ⟨step, _, hstep, hlast, trail, h⟩ := trail.optional (optional_sliceBound inner) h
    refine trail.leaf (by omega) h ?_ (by simp)
    rw [List.map_append, List.map_append, map_fst_all, map_fst_all, map_fst_all]
    exact .slice hlower hupper hstep
  · refine trail.leaf (by omega) h ?_ (by simp)
    rw [List.map_append, map_fst_all, map_fst_all, ← List.append_nil (_ ++ _)]
    exact .slice hlower hupper (Nat.zero_le 1)

theorem yields_slice : Yields (Expression.slice inner) (one .index) := by
  intro ending before t after h
  obtain ⟨start, trail, h⟩ := Trail.begin h
  obtain ⟨isSlice, _, hcolon, trail, h⟩ := trail.skip h
  split at h
  · next hfound =>
    rw [hfound] at hcolon
    have hrest := rest_ne_nil_of_check hcolon nofun
    obtain rfl := eq_of_check hcolon
    exact reads_sliceRest inner h trail (Nat.zero_le 1) hrest
  · obtain ⟨item, _, trail, h⟩ := trail.read (yields_starNamed inner) h
    obtain ⟨isSlice, _, hcolon, trail, h⟩ := trail.skip h
    split at h
    · next hfound =>
      rw [hfound] at hcolon
      have hrest := rest_ne_nil_of_check hcolon nofun
      obtain rfl := eq_of_check hcolon
      exact reads_sliceRest inner h trail (Nat.le_refl 1) hrest
    · cases h
      exact .widen .index trail.reads

theorem yields_slices : Yields (Expression.slices inner) (one .index) :=
  yields_tupleOf (yields_slice inner) (fun _ => .indexTuple) id

/-! ## Atoms and what follows them -/

theorem reads_constant {ending : Ending} {before after : ParserState} {t : Tree}
    (hrest : before.rest ≠ []) (value : Constant)
    (h : Expression.constant value ending before = .ok t after) :
    Reads before (one .value t) after := by
  obtain ⟨start, trail, h⟩ := Trail.begin h
  obtain ⟨_, _, hadvance, trail, h⟩ := trail.skip h
  exact trail.leaf (left_lt_of_advance hadvance hrest) h (.constant value) rfl

theorem reads_strings {ending : Ending} {before after : ParserState} {t : Tree}
    (hrest : before.rest ≠ []) (h : Expression.strings ending before = .ok t after) :
    Reads before (one .value t) after := by
  obtain ⟨start, trail, h⟩ := Trail.begin h
  obtain ⟨text, _, hword, trail, h⟩ := trail.skip h
  have hlt := left_lt_of_word hword hrest
  obtain ⟨more, _, hmore, trail, h⟩ := trail.skip h
  have hle := left_le_of hmore
  exact trail.leaf (by omega) h (.constant _) rfl

theorem yields_atom : Yields (Expression.atom inner) (one .value) := by
  intro ending before t after h
  obtain ⟨kind, _, hpeek, h⟩ := ParserLaw.bind_eq_ok h
  obtain rfl := eq_of_peek hpeek
  have hrest := rest_ne_nil_of_peek hpeek
  split at h
  · obtain ⟨start, trail, h⟩ := Trail.begin h
    obtain ⟨id, _, hword, trail, h⟩ := trail.skip h
    exact trail.leaf (left_lt_of_word hword (hrest (by decide))) h (.name id) rfl
  · obtain ⟨text, _, htext, h⟩ := ParserLaw.bind_eq_ok h
    cases htext
    exact reads_constant (hrest (by decide)) _ h
  · exact reads_strings (hrest (by decide)) h
  · exact reads_constant (hrest (by decide)) _ h
  · exact reads_constant (hrest (by decide)) _ h
  · exact reads_constant (hrest (by decide)) _ h
  · exact reads_constant (hrest (by decide)) _ h
  · exact yields_parenthesized inner h
  · exact yields_listDisplay inner h
  · exact yields_braceDisplay inner h
  · exact absurd h failHere_ne_ok

theorem continues_trailer (t : Tree) :
    Continues start (one .value t) (Expression.trailer inner start t)
      fun result => one .value result.1 := by
  intro ending first state result after trail h
  obtain ⟨kind, _, _, trail, h⟩ := trail.skip h
  split at h
  · obtain ⟨_, _, _, trail, h⟩ := trail.skip h
    obtain ⟨attr, _, _, trail, h⟩ := trail.skip h
    obtain ⟨u, _, hnode, h⟩ := ParserLaw.bind_eq_ok h
    cases h
    exact trail.node hnode (.attribute attr) rfl (List.cons_ne_nil _ _)
  · obtain ⟨_, _, _, trail, h⟩ := trail.skip h
    obtain ⟨arguments, _, trail, h⟩ := trail.read (yields_arguments inner true) h
    obtain ⟨_, _, _, trail, h⟩ := trail.skip h
    obtain ⟨u, _, hnode, h⟩ := ParserLaw.bind_eq_ok h
    cases h
    refine trail.node hnode ?_ (by simp [one]) (by simp [one])
    rw [List.map_append, map_fst_all]
    exact .call arguments.length
  · obtain ⟨_, _, _, trail, h⟩ := trail.skip h
    obtain ⟨index, _, trail, h⟩ := trail.read (yields_slices inner) h
    obtain ⟨_, _, _, trail, h⟩ := trail.skip h
    obtain ⟨u, _, hnode, h⟩ := ParserLaw.bind_eq_ok h
    cases h
    exact trail.node hnode .subscript rfl (List.cons_ne_nil _ _)
  · cases h
    exact trail.reads

theorem yields_primary : Yields (Expression.primary inner) (one .value) := by
  intro ending before t after h
  obtain ⟨start, trail, h⟩ := Trail.begin h
  obtain ⟨t, _, trail, h⟩ := trail.read (yields_atom inner) h
  exact continues_iterate (one .value) (continues_trailer inner) t trail h

/-! ## Operators -/

theorem yields_unary (least : Nat) : Yields (Expression.unary inner least) (one .value) := by
  intro ending before t after h
  obtain ⟨start, trail, h⟩ := Trail.begin h
  obtain ⟨kind, _, hpeek, trail, h⟩ := trail.skip h
  obtain rfl := eq_of_peek hpeek
  split at h
  · obtain ⟨_, _, _, trail, h⟩ := trail.skip h
    obtain ⟨operand, _, trail, h⟩ := trail.read hinner.primary h
    exact trail.node h .awaitExpr rfl (List.cons_ne_nil _ _)
  · cases hop : Power.unaryOp? kind with
    | none =>
      rw [hop] at h
      exact yields_primary inner h
    | some found =>
      rw [hop] at h
      dsimp only at h
      split at h
      · exact absurd h failHere_ne_ok
      · obtain ⟨_, _, _, trail, h⟩ := trail.skip h
        obtain ⟨operand, _, trail, h⟩ := trail.read (hinner.operand _) h
        exact trail.node h (.unaryOp found.1) rfl (List.cons_ne_nil _ _)

theorem continues_boolChain (op : BoolOp) (t : Tree) :
    Continues start (one .value t) (Expression.boolChain inner op start t) (one .value) := by
  intro ending first state u after trail h
  obtain ⟨kind, _, hkind, h⟩ := ParserLaw.bind_eq_ok h
  obtain rfl := eq_of_peek hkind
  obtain ⟨operands, _, hoperands, h⟩ := ParserLaw.bind_eq_ok h
  -- the sign has been seen, so the first round of the chain eats it
  obtain ⟨n, hn⟩ : ∃ n, operands.length = n + 1 := by
    refine Nat.exists_eq_succ_of_ne_zero fun hnone => ?_
    exact many_ne_nil (fun _ => after_ne_none fun _ => eat_ne_false hkind) hoperands
      (List.length_eq_zero_iff.1 hnone)
  have trail := trail.append (yields_manyTrees (yields_after (hinner.operand _)) hoperands)
  refine trail.node h ?_ (by simp [one]) (by simp [one])
  rw [List.map_append, map_fst_all, hn]
  exact .boolOp op n

theorem eatCompare_ne_none {ending : Ending} {state next : ParserState} {first second : TokenKind}
    {op : CompareOp × Nat} (hfirst : peek ending state = .ok first state)
    (hsecond : peekAt 1 ending state = .ok second state)
    (hop : Power.compareOp? first second = some op) :
    Expression.eatCompare ending state ≠ .ok none next := by
  intro h
  obtain ⟨first', _, hfirst', h⟩ := ParserLaw.bind_eq_ok h
  rw [hfirst] at hfirst'
  cases hfirst'
  obtain ⟨second', _, hsecond', h⟩ := ParserLaw.bind_eq_ok h
  rw [hsecond] at hsecond'
  cases hsecond'
  rw [hop] at h
  obtain ⟨_, _, _, h⟩ := ParserLaw.bind_eq_ok h
  dsimp only at h
  split at h
  · obtain ⟨_, _, _, h⟩ := ParserLaw.bind_eq_ok h
    cases h
  · cases h

/-- A chain of comparisons, where the next tokens are a sign of one. -/
theorem reads_compareChain {ending : Ending} {first state after : ParserState} {t u : Tree}
    (trail : Trail start first (one .value t) state)
    (hsign : ∀ next, Expression.eatCompare ending state ≠ .ok none next)
    (h : Expression.compareChain inner start t ending state = .ok u after) :
    Reads first (one .value u) after := by
  obtain ⟨links, next, hlinks, h⟩ := ParserLaw.bind_eq_ok h
  have hops : links.map (·.1) ≠ [] := by
    refine fun hnil => many_ne_nil (fun next hnone => ?_) hlinks (List.map_eq_nil_iff.1 hnil)
    obtain ⟨op?, _, heat, hnone⟩ := ParserLaw.bind_eq_ok hnone
    cases op? with
    | none => exact hsign _ heat
    | some op =>
      obtain ⟨_, _, _, hnone⟩ := ParserLaw.bind_eq_ok hnone
      cases hnone
  have hreads : Reads state (links.flatMap fun link => one .value link.2) next := by
    refine yields_many (fun ending before found after h => ?_) hlinks
    obtain ⟨start, trail⟩ := Trail.exists_start before
    obtain ⟨op, _, _, trail, h⟩ := trail.skip h
    split at h
    · obtain ⟨operand, _, trail, h⟩ := trail.read (hinner.operand _) h
      cases h
      exact trail.reads
    · cases h
      exact trail.reads
  have hlinks : (links.flatMap fun link => one .value link.2) = all .value (links.map (·.2)) := by
    rw [← flatMap_one, List.flatMap_map]
  rw [hlinks] at hreads
  refine (trail.append hreads).node h ?_ (by simp [one]) (by simp [one])
  have hproduction : Production first.inPattern .value _ _ := .compare hops
  rw [List.length_map] at hproduction
  rw [List.map_append, map_fst_all, List.length_map]
  exact hproduction

theorem continues_binary (op : BinaryOp) (t : Tree) :
    Continues start (one .value t) (Expression.binary inner op start t) (one .value) := by
  intro ending first state u after trail h
  obtain ⟨_, _, _, trail, h⟩ := trail.skip h
  obtain ⟨second, _, trail, h⟩ := trail.read (hinner.operand _) h
  exact trail.node h (.binOp op) rfl (List.cons_ne_nil _ _)

theorem continues_extend (least : Nat) (t : Tree) :
    Continues start (one .value t) (Expression.extend inner least start t)
      fun result => one .value result.1 := by
  intro ending first state result after trail h
  obtain ⟨kind, _, hkind, h⟩ := ParserLaw.bind_eq_ok h
  obtain rfl := eq_of_peek hkind
  obtain ⟨second, _, hsecond, h⟩ := ParserLaw.bind_eq_ok h
  obtain rfl := eq_of_peekAt hsecond
  cases hbool : Power.boolOp? kind with
  | some op =>
    rw [hbool] at h
    dsimp only at h
    split at h
    · obtain ⟨u, _, trail, h⟩ := trail.continue (continues_boolChain inner op t) h
      cases h
      exact trail.reads
    · cases h
      exact trail.reads
  | none =>
    rw [hbool] at h
    cases hcompare : Power.compareOp? kind second with
    | some found =>
      rw [hcompare] at h
      dsimp only at h
      split at h
      · obtain ⟨u, _, hchain, h⟩ := ParserLaw.bind_eq_ok h
        cases h
        exact reads_compareChain inner trail
          (fun _ => eatCompare_ne_none hkind hsecond hcompare) hchain
      · cases h
        exact trail.reads
    | none =>
      rw [hcompare] at h
      cases hbinary : Power.binaryOp? kind with
      | some op =>
        rw [hbinary] at h
        dsimp only at h
        split at h
        · obtain ⟨u, _, trail, h⟩ := trail.continue (continues_binary inner op t) h
          cases h
          exact trail.reads
        · cases h
          exact trail.reads
      | none =>
        rw [hbinary] at h
        cases h
        exact trail.reads

theorem yields_operation (least : Nat) :
    Yields (Expression.operation inner least) (one .value) := by
  intro ending before t after h
  obtain ⟨start, trail, h⟩ := Trail.begin h
  obtain ⟨t, _, trail, h⟩ := trail.read (yields_unary inner least) h
  exact continues_iterate (one .value) (continues_extend inner least) t trail h

end Rules

/-! ## Levels -/

instance (inner : Level) [SoundLevel inner] : SoundLevel (.around inner) where
  expression := yields_nested (yields_conditional inner)
  operand least := yields_nested (yields_operation inner least)
  primary := yields_nested (yields_primary inner)
  follows := inferInstance

/-- However many levels may open, their parsers give what they have read. -/
instance sound_within (room : Nat) : SoundLevel (.within room) := by
  induction room with
  | zero =>
    have hfail : Yields (failHere .tooDeeplyNested) (one .value) :=
      fun _ _ _ _ h => absurd h failHere_ne_ok
    exact ⟨hfail, fun _ => hfail, hfail, inferInstance⟩
  | succ room ih =>
    unfold Level.within
    infer_instance

instance : SoundLevel .top := sound_within maxNesting

end SnippetLint.Derivation
