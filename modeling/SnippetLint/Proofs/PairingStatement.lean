import SnippetLint.Proofs.PairingLine

/-!
Statements with blocks go the same way in two runs, as far as the tokens of the first run go: where
they end, only a keyword that goes on with the statement is looked for, and none comes next in the
second run. Whole snippets with alike tokens have alike trees. Main statements: `pairs_statement`
and `ofStream_like`.
-/

namespace SnippetLint.Pairing
open SnippetLint.Parser SnippetLint.Likeness SnippetLint.Progress SnippetLint.Derivation

/-! ## Lines -/

/-- A line of the first run and one of the second that count as the same. -/
structure Lines (like : Likeness) where
  first : Nat
  second : Nat
  rel : like.line first second

instance (like : Likeness) (m : Lines like) : LineAlike like m.first m.second := ⟨m.rel⟩

section Compound

variable {w : Window} {known : List TokenKind} {before within : Bool}

theorem pairs_bind_lineHere [Compared β] {f g : Nat → Parser β}
    (hf : ∀ m : Lines w.like, Pairs w known before within (f m.first) (g m.second)) :
    Pairs w known before within (Compound.lineHere >>= f) (Compound.lineHere >>= g) := by
  unfold Compound.lineHere
  rw [bind_assoc_eq, bind_assoc_eq]
  exact pairs_bind_views inferInstance fun place => hf ⟨_, _, w.like.line_of_place place.rel⟩

instance (priority := high) [Compared β] (f g : Nat → Parser β)
    [hf : ∀ m : Lines w.like, Pairs w known before within (f m.first) (g m.second)] :
    Pairs w known before within (Compound.lineHere >>= f) (Compound.lineHere >>= g) :=
  pairs_bind_lineHere hf

/-- Blocks that go the same way in both runs. -/
class OfBlock (w : Window) (block block' : Compound.BlockParser) : Prop where
  pairs : ∀ construct {m n : Nat}, w.like.line m n →
    Pairs w [] true false (block construct m) (block' construct n)

variable {block block' : Compound.BlockParser} [hblock : OfBlock w block block']
  [hmoves : ∀ construct line, moves.Follows (block construct line)]

instance (construct : Construct) (m n : Nat) [h : LineAlike w.like m n] :
    Pairs w known true false (block construct m) (block' construct n) :=
  (hblock.pairs construct h.rel).weaken

/-! ## Conditions and loops -/

instance (keyword : Keyword) [ClauseWord (.keyword keyword)] (construct : Construct) :
    Pairs w known false false (Compound.clause block keyword construct)
      (Compound.clause block' keyword construct) := by
  unfold Compound.clause
  infer_instance

instance : Pairs w known false false (Compound.elseClause block) (Compound.elseClause block') := by
  unfold Compound.elseClause
  infer_instance

instance (construct : Construct) (m n : Nat) [LineAlike w.like m n] :
    Pairs w known true false (Compound.guarded block construct m)
      (Compound.guarded block' construct n) := by
  unfold Compound.guarded
  infer_instance

instance : Pairs w (.keyword .ifKw :: known) true false (Compound.ifStmt block)
    (Compound.ifStmt block') := by
  unfold Compound.ifStmt
  refine pairs_bind_views inferInstance fun start => pairs_bind_advance ?_
  infer_instance

instance : Pairs w (.keyword .whileKw :: known) true false (Compound.whileStmt block)
    (Compound.whileStmt block') := by
  unfold Compound.whileStmt
  infer_instance

variable (a b : Position) [Alike w.like a b]

instance (isAsync : Bool) : Pairs w (.keyword .forKw :: known) true false
    (Compound.forStmt block a isAsync) (Compound.forStmt block' b isAsync) := by
  unfold Compound.forStmt
  refine pairs_bind_lineHere fun line => pairs_bind_advance ?_
  infer_instance

/-! ## Try -/

instance (isStar : Bool) : Shared w known (Compound.caught isStar) := by
  unfold Compound.caught
  infer_instance

instance (list list' : List Tree) [h : Alike w.like list list'] (isStar : Option Bool) :
    Alike w.like (⟨list, isStar⟩ : Compound.Handlers) ⟨list', isStar⟩ := ⟨h.rel, rfl⟩

/-- The handlers that have been read differ in the trees only. -/
theorem exists_handlers (x y : Compound.Handlers) [h : Alike w.like x y] :
    ∃ (list : Couple w.like (List Tree)) (isStar : Option Bool),
      x = ⟨list.first, isStar⟩ ∧ y = ⟨list.second, isStar⟩ := by
  obtain ⟨list, isStar⟩ := x
  obtain ⟨list', _⟩ := y
  obtain ⟨hlist, heq⟩ := h.rel
  cases heq
  exact ⟨⟨list, list', hlist⟩, isStar, rfl, rfl⟩

instance (x y : Compound.Handlers) [Alike w.like x y] :
    Pairs w (.keyword .exceptKw :: known) true false (Compound.handler block x)
      (Compound.handler block' y) := by
  obtain ⟨list, isStar, rfl, rfl⟩ := exists_handlers (w := w) x y
  unfold Compound.handler
  refine pairs_bind_views inferInstance fun start => pairs_bind_advance ?_
  refine pairs_bind_same inferInstance fun star => ?_
  split
  · infer_instance
  · refine pairs_bind_within inferInstance fun ⟨(error, name), (error', name'), herror, hname⟩ => ?_
    have : Alike w.like error error' := ⟨herror⟩
    have : Alike w.like name name' := ⟨hname⟩
    dsimp only
    infer_instance

instance : Pairs w known false false (Compound.handlers block) (Compound.handlers block') := by
  unfold Compound.handlers
  infer_instance

instance (x y : Compound.Handlers) [h : Alike w.like x y] : Alike w.like x.list y.list :=
  ⟨h.rel.1⟩

instance (x y : Compound.Handlers) [Alike w.like x y] :
    Alike w.like x.isStar.isSome y.isStar.isSome := by
  obtain ⟨_, _, rfl, rfl⟩ := exists_handlers (w := w) x y
  exact ⟨rfl⟩

instance (x y : Compound.Handlers) [Alike w.like x y] :
    Alike w.like (NodeKind.tryStmt (x.isStar.getD false)) (.tryStmt (y.isStar.getD false)) := by
  obtain ⟨_, _, rfl, rfl⟩ := exists_handlers (w := w) x y
  exact ⟨.plain rfl⟩

instance : Pairs w (.keyword .tryKw :: known) true false (Compound.tryStmt block)
    (Compound.tryStmt block') := by
  unfold Compound.tryStmt
  refine pairs_bind_views inferInstance fun start => pairs_bind_advance ?_
  refine pairs_bind_same inferInstance fun _ => pairs_bind_past inferInstance fun body => ?_
  refine pairs_bind_glance inferInstance fun hasHandler => ?_
  refine pairs_bind_glance inferInstance fun hasFinal => ?_
  split
  · infer_instance
  · refine pairs_bind_past inferInstance fun handlers => ?_
    infer_instance

/-! ## With -/

instance : Shared w known Compound.withItem := by
  unfold Compound.withItem
  infer_instance

instance : Shared w known Compound.withItems := by
  unfold Compound.withItems
  infer_instance

instance : Shared w (.op .leftParen :: known) Compound.bracketedItems := by
  unfold Compound.bracketedItems
  infer_instance

instance (isAsync : Bool) : Pairs w (.keyword .withKw :: known) true false
    (Compound.withStmt block a isAsync) (Compound.withStmt block' b isAsync) := by
  have hrest : ∀ (line : Lines w.like) (bracketed : Couple w.like (Option (List Tree))),
      Pairs w [] true false (do
        let items ← match bracketed.first with
          | some items => pure items
          | none => Compound.withItems
        expect (.op .colon)
        let body ← block .withStmt line.first
        node (.withStmt isAsync) a (items ++ [body])) (do
        let items ← match bracketed.second with
          | some items => pure items
          | none => Compound.withItems
        expect (.op .colon)
        let body ← block' .withStmt line.second
        node (.withStmt isAsync) b (items ++ [body])) := by
    intro line ⟨_, _, h⟩
    cases h with
    | @some items items' h =>
      have : Alike w.like items items' := ⟨h⟩
      dsimp only
      infer_instance
    | none =>
      dsimp only
      infer_instance
  unfold Compound.withStmt
  refine pairs_bind_lineHere fun line => pairs_bind_advance (pairs_bind_check ?_ ?_)
  · exact pairs_bind_within inferInstance fun bracketed => hrest line bracketed
  · exact (hrest line ⟨none, none, .none⟩).weaken

/-! ## Definitions -/

instance : Shared w known Compound.typeParam := by
  have hnamed : ∀ start : Couple w.like Position, Pairs w [] true true (do
      let name ← expectName
      let bound ← do if ← eat (.op .colon) then pure [← Level.top.expression] else pure []
      let default ← do if ← eat (.op .equal) then pure [← Level.top.expression] else pure []
      node (.typeParam name) start.first (bound ++ default)) (do
      let name ← expectName
      let bound ← do if ← eat (.op .colon) then pure [← Level.top.expression] else pure []
      let default ← do if ← eat (.op .equal) then pure [← Level.top.expression] else pure []
      node (.typeParam name) start.second (bound ++ default)) := by
    intro start
    dsimp only
    refine pairs_bind_within inferInstance fun name => pairs_bind_same inferInstance fun found => ?_
    split <;> infer_instance
  unfold Compound.typeParam
  refine pairs_bind_views inferInstance fun start => pairs_bind_same inferInstance fun found => ?_
  split
  · exact pairs_bind_same inferInstance fun _ => hnamed start
  · exact hnamed start

instance : Shared w known Compound.typeParams := by
  unfold Compound.typeParams
  infer_instance

variable (ts us : List Tree) [Alike w.like ts us]

instance (isAsync : Bool) : Pairs w (.keyword .defKw :: known) true false
    (Compound.functionDef block ts a isAsync) (Compound.functionDef block' us b isAsync) := by
  unfold Compound.functionDef
  refine pairs_bind_lineHere fun line => pairs_bind_advance ?_
  refine pairs_bind_within inferInstance fun name => ?_
  refine pairs_bind_within inferInstance fun types => pairs_bind_same inferInstance fun _ => ?_
  refine pairs_bind_within inferInstance fun parameters => pairs_bind_same inferInstance fun _ => ?_
  refine pairs_bind_same inferInstance fun hasResult => ?_
  split <;> infer_instance

instance : Shared w known Compound.classArguments := by
  unfold Compound.classArguments
  infer_instance

instance : Pairs w (.keyword .classKw :: known) true false (Compound.classDef block ts a)
    (Compound.classDef block' us b) := by
  unfold Compound.classDef
  refine pairs_bind_lineHere fun line => pairs_bind_advance ?_
  infer_instance

instance : Pairs w (.op .atSign :: known) true false Compound.decorator Compound.decorator := by
  unfold Compound.decorator
  infer_instance

/-- After the decorators the tokens of the first run must not have ended. -/
instance : Pairs w (.op .atSign :: known) true false (Compound.decorated block)
    (Compound.decorated block') := by
  unfold Compound.decorated
  refine pairs_bind_views inferInstance fun start => Pairs.inside ?_
  refine pairs_many_bind inferInstance inferInstance (fun decorators => inferInstance)
    fun decorators => pairs_of_starves (pairs_bind_peek fun first => ?_)
  rcases content_or_mark first with _ | rfl | rfl | rfl | rfl
  · refine pairs_bind_second fun second => ?_
    split <;> infer_instance
  all_goals exact pairs_bind_unseen fun _ _ => inferInstance

instance : Pairs w (.keyword .asyncKw :: known) true false (Compound.asyncStmt block a)
    (Compound.asyncStmt block' b) := by
  unfold Compound.asyncStmt
  refine pairs_bind_advance (pairs_bind_peek fun kind => ?_)
  split <;> infer_instance

/-! ## Match -/

instance : Shared w known Compound.asPattern := by
  unfold Compound.asPattern
  infer_instance

instance : Views w true Compound.endsPattern Compound.endsPattern := by
  unfold Compound.endsPattern
  infer_instance

instance : Shared w known Compound.patterns := by
  unfold Compound.patterns
  infer_instance

instance : Pairs w (.name :: known) true false (Compound.caseClause block)
    (Compound.caseClause block') := by
  unfold Compound.caseClause
  refine pairs_bind_views inferInstance fun start => pairs_bind_advance ?_
  refine pairs_bind_within inferInstance fun pattern => ?_
  refine pairs_bind_same inferInstance fun guarded => ?_
  split <;> infer_instance

/-- The end of a block may be the last token. -/
theorem pairs_dedent {p q : Parser Tree} (h : Pairs w [] false false p q) :
    Pairs w known false false (require .dedent >>= fun _ => p)
      (require .dedent >>= fun _ => q) := by
  exact pairs_of_starves (pairs_bind pairs_require_mark id fun _ _ _ => h)

instance (t u : Tree) [Alike w.like t u] : Pairs w (.op .colon :: .newline :: known) true false
    (Compound.matchRest block a t) (Compound.matchRest block' b u) := by
  unfold Compound.matchRest Compound.cases
  refine pairs_bind_advance (pairs_bind_advance_mark ?_)
  refine pairs_of_starves (pairs_bind_eat_mark ?_ ?_)
  · rw [Bool.not_true, if_neg Bool.false_ne_true, if_neg Bool.false_ne_true]
    exact pairs_many_bind inferInstance inferInstance (fun _ => inferInstance) fun cases =>
      pairs_dedent inferInstance
  · rw [Bool.not_false, if_pos rfl, if_pos rfl]
    infer_instance

/-- What is known where a match statement has its subject. -/
theorem knows_of_matchSubject {ending : Ending} {before after : ParserState} {subject : Tree}
    (h : Compound.matchSubject ending before = .ok (some subject) after) :
    Knows [.op .colon, .newline] after.rest := by
  obtain ⟨_, mid, hadvance, h⟩ := ParserLaw.bind_eq_ok h
  obtain ⟨found, next, hsubject, h⟩ := ParserLaw.bind_eq_ok h
  obtain ⟨isColon, _, hcolon, h⟩ := ParserLaw.bind_eq_ok h
  cases hcolon
  obtain ⟨second, _, hsecond, h⟩ := ParserLaw.bind_eq_ok h
  cases hsecond
  split at h
  · next hboth =>
    cases h
    obtain ⟨hfirst, hnext⟩ := Bool.and_eq_true_iff.1 hboth
    refine ⟨eq_of_beq hfirst, ?_, trivial⟩
    rw [List.getElem?_tail]
    exact eq_of_beq hnext
  · cases h

instance : Shared w (.name :: known) Compound.matchSubject := by
  unfold Compound.matchSubject
  refine pairs_bind_advance (pairs_bind_within inferInstance fun subject => ?_)
  refine pairs_bind_check (pairs_bind_second fun second => ?_) (pairs_bind_unseen fun _ _ => ?_)
  · infer_instance
  · rw [Bool.false_and, Bool.false_and, if_neg Bool.false_ne_true, if_neg Bool.false_ne_true]
    infer_instance

/-- A match statement, or the word as a name. -/
instance pairsMatchLine : Pairs w (.name :: known) true false (do
    match ← Compound.matchStmt block with
    | some t => return [t]
    | none => Simple.line) (do
    match ← Compound.matchStmt block' with
    | some t => return [t]
    | none => Simple.line) := by
  unfold Compound.matchStmt
  rw [bind_assoc_eq, bind_assoc_eq]
  refine pairs_bind_views inferInstance fun start => ?_
  rw [bind_assoc_eq, bind_assoc_eq]
  refine pairs_bind_speculate inferInstance knows_of_matchSubject (fun subject => ?_) ?_
  · dsimp only
    rw [bind_assoc_eq, bind_assoc_eq]
    exact (inferInstance : Pairs w [.op .colon, .newline] true false (do
      return [← Compound.matchRest block start.first subject.first]) (do
      return [← Compound.matchRest block' start.second subject.second]))
  · exact (inferInstance : Pairs w (.name :: known) true false Simple.line Simple.line)

/-! ## Statements -/

instance : Pairs w known true false (Compound.statementWith block)
    (Compound.statementWith block') := by
  unfold Compound.statementWith
  refine pairs_bind_views inferInstance fun start => pairs_bind_peek fun kind => ?_
  split <;> infer_instance

end Compound

instance (w : Window) (room room' : Nat) [Pairs w [] true false (Compound.statement room)
    (Compound.statement room')] :
    OfBlock w (Compound.blockOf (Compound.statement room))
      (Compound.blockOf (Compound.statement room')) := by
  constructor
  intro construct m n h
  have : LineAlike w.like m n := ⟨h⟩
  unfold Compound.blockOf
  refine pairs_bind_views inferInstance fun start => pairs_eat_mark ?_ inferInstance
  refine pairs_of_starves (pairs_eat_mark ?_ inferInstance)
  exact pairs_many_bind inferInstance inferInstance (fun _ => inferInstance) fun lists =>
    pairs_dedent inferInstance

/-- Statements go the same way, also if the second run has more room for blocks. -/
theorem pairs_statement {w : Window} {room room' : Nat} (hle : room ≤ room')
    (hstrict : w.strict = true → room = room') :
    Pairs w [] true false (Compound.statement room) (Compound.statement room') := by
  induction room generalizing room' with
  | zero =>
    cases h : w.strict with
    | true =>
      obtain rfl := hstrict h
      exact (inferInstance : Pairs w [] true false
        (failHere .invalidSyntax : Parser (List Tree)) (failHere .invalidSyntax))
    | false =>
      constructor
      intro s s' _ _ _
      obtain ⟨error, hfail⟩ := exists_failAt (α := List Tree) .invalidSyntax _ w.ending s
      have hzero : Compound.statement 0 w.ending s = .fail error s := hfail
      rw [hzero]
      exact .lost rfl h
  | succ room ih =>
    obtain ⟨room', rfl⟩ := Nat.exists_eq_add_of_le' (Nat.le_of_add_left_le hle)
    have := ih (Nat.le_of_succ_le_succ hle) fun h => Nat.succ.inj (hstrict h)
    exact (inferInstance : Pairs w [] true false
      (Compound.statementWith (Compound.blockOf (Compound.statement room)))
      (Compound.statementWith (Compound.blockOf (Compound.statement room'))))

/-! ## Whole snippets -/

section Whole

variable {w : Window} {known : List TokenKind} {α : Type} [Compared α]

/-- Where nothing comes after the tokens of the first run, a rule may be run anywhere. -/
theorem Pairs.whole {p q : Parser α} (hwhole : w.IsWhole) (h : Pairs w [] true false p q) :
    Pairs w known false false p q :=
  ⟨fun hsees _ _ => h.run hsees trivial fun _ => .inl hwhole⟩

theorem pairs_statements {room room' : Nat} (hwhole : w.IsWhole) (hle : room ≤ room')
    (hstrict : w.strict = true → room = room') :
    Pairs w known false false (Module.statements room) (Module.statements room') := by
  have := pairs_statement hle hstrict
  have hitem : Pairs w [] true false
      (do if ← atEnd then return none else return some (← Compound.statement room))
      (do if ← atEnd then return none else return some (← Compound.statement room')) :=
    inferInstance
  have : Pairs w [] false false _ _ := hitem.whole hwhole
  unfold Module.statements
  infer_instance

omit [Compared α] in
theorem isSome_eq {R : α → α → Prop} {x y : Option α} (h : Option.Rel R x y) :
    x.isSome = y.isSome := by
  cases h with
  | none => rfl
  | some => rfl

theorem pairs_module (hwhole : w.IsWhole) (room : Nat) :
    Pairs w known false false (Module.module room) (Module.module room) := by
  have hmodule : Pairs w known false false
      (do
        let start ← here
        let statements ← Module.statements room
        if w.ending.fault.isSome then failHere .invalidSyntax
        else return .node .module ⟨start, w.ending.position⟩ statements : Parser Tree)
      (do
        let start ← here
        let statements ← Module.statements room
        if w.ending'.fault.isSome then failHere .invalidSyntax
        else return .node .module ⟨start, w.ending'.position⟩ statements : Parser Tree) := by
    refine pairs_bind_views inferInstance fun start =>
      pairs_bind (pairs_statements hwhole (Nat.le_refl _) fun _ => rfl) id fun ts us hall => ?_
    have hfault := isSome_eq hwhole.2.fault
    have : Alike w.like (Tree.node .module ⟨start.first, w.ending.position⟩ ts)
        (.node .module ⟨start.second, w.ending'.position⟩ us) :=
      ⟨.node (.plain rfl) ⟨start.rel, hwhole.2.position⟩ hall⟩
    rw [hfault]
    infer_instance
  exact ⟨hmodule.run⟩

end Whole

/-- Two streams of which the grammar sees the same. -/
structure StreamLike (like : Likeness) (a b : TokenStream) : Prop where
  tokens : List.Forall₂ (TokenLike like) (Module.significant a) (Module.significant b)
  ending : EndingLike like (Module.endingOf a) (Module.endingOf b)

/-- The grammar sees the same of streams whose tokens and errors are alike. -/
theorem streamLike_of_tokens {like : Likeness} {a b : TokenStream}
    (hstart : like.place .start .start) (htokens : List.Forall₂ (TokenLike like) a.tokens b.tokens)
    (herror : Option.Rel (fun e e' => EndingLike like ⟨e.position, some e.fault⟩
      ⟨e'.position, some e'.fault⟩) a.error b.error) : StreamLike like a b := by
  constructor
  · refine List.rel_filter ?_ htokens
    intro token token' h
    dsimp only
    rw [h.kind]
  · have hlast := getLast?_rel htokens
    unfold Module.endingOf
    generalize a.error = e at herror ⊢
    generalize b.error = e' at herror ⊢
    cases herror with
    | some herror => exact herror
    | none =>
      generalize a.tokens.getLast? = last at hlast ⊢
      generalize b.tokens.getLast? = last' at hlast ⊢
      cases hlast with
      | none => exact ⟨hstart, .none⟩
      | some hlast => exact ⟨hlast.stop, .none⟩

/-- The states before alike streams. -/
theorem sees_initial {w : Window} {a b : TokenStream} (h : StreamLike w.like a b)
    (hwhole : w.IsWhole) : Sees w (Module.initial a) (Module.initial b) := by
  refine ⟨⟨Module.significant b, ?_, h.tokens⟩, .inl hwhole, rfl, rfl, ?_⟩
  · rw [hwhole.1, List.append_nil]
    rfl
  · have htokens := h.tokens
    have hending := h.ending.position
    unfold Module.initial ParserState.before
    dsimp only
    generalize Module.significant a = tokens at htokens ⊢
    generalize Module.significant b = tokens' at htokens ⊢
    cases htokens with
    | nil => exact hending
    | cons htoken _ => exact htoken.stop

/-- Alike streams have alike trees, or neither has one, for alike reasons. -/
theorem ofStream_like {like : Likeness} {a b : TokenStream} (h : StreamLike like a b) :
    ResultLike like (TreeLike like) (Module.ofStream a) (Module.ofStream b) := by
  let w : Window :=
    ⟨like, [], Module.endingOf a, Module.endingOf b, true, .inl ⟨rfl, h.ending⟩⟩
  have hwhole : w.IsWhole := ⟨rfl, h.ending⟩
  have hsees : Sees w (Module.initial a) (Module.initial b) := sees_initial h hwhole
  have hleft : (Module.initial b).left = (Module.initial a).left := by
    rw [hsees.left_eq]
    rfl
  have hpairs : Pairs w [] false false _ _ := pairs_module hwhole ((Module.initial a).left + 1)
  have hmeets := hpairs.run hsees trivial nofun
  unfold Module.ofStream
  dsimp only
  rw [hleft]
  change Meets w false (Module.module ((Module.initial a).left + 1) (Module.endingOf a) _)
    (Module.module ((Module.initial a).left + 1) (Module.endingOf b) _) at hmeets
  generalize Module.module _ (Module.endingOf a) (Module.initial a) = first at hmeets ⊢
  generalize Module.module _ (Module.endingOf b) (Module.initial b) = second at hmeets ⊢
  cases hmeets with
  | ok h _ _ => exact .ok h
  | fail h => exact .error (h rfl)
  | lost _ hstrict => cases hstrict

end SnippetLint.Pairing
