import SnippetLint.Proofs.Ledger

/-!
Every rule of the grammar settles its accounts: first targets and patterns, which keep all entries
of the trees that they are made of, then one instance for each rule. Expressions do so even if marks
of the layout count, so that they take none. Main statement: `settles_statements`.
-/

namespace SnippetLint.Ledger
open SnippetLint.Parser SnippetLint.Derivation SnippetLint.Progress

/-! ## Targets and patterns -/

/-- A result that, if there is one, is worth what is owed. -/
class Clears (owed : Multiset Entry) [Worth α] (result : Except ParseError α) : Prop where
  eq : ∀ {a}, result = .ok a → worth a = owed

/-- As `Clears`, with what is owed read off the result. -/
class Cleared [Worth α] (result : Except ParseError α) (owed : outParam (Multiset Entry)) :
    Prop where
  clears : Clears owed result

section Results

variable {owed left x : Multiset Entry} {α β : Type} [Worth α] [Worth β]

theorem clears_bind {result : Except ParseError α} {f : α → Except ParseError β}
    (hresult : Clears x result) (hpays : Pays owed x left)
    (hf : ∀ a, Clears (left + worth a) (f a)) : Clears owed (result >>= f) := by
  constructor
  intro b hok
  obtain ⟨a, hfirst, hsecond⟩ := except_bind_eq_ok hok
  rw [(hf a).eq hsecond, hresult.eq hfirst, hpays.eq, add_comm]

instance (result : Except ParseError α) [Worthy α] (f : α → Except ParseError β)
    [hresult : Cleared result x] [hpays : Pays owed x left]
    [hf : ∀ a, Clears (left + worth a) (f a)] : Clears owed (result >>= f) :=
  clears_bind hresult.clears hpays hf

instance (result : Except ParseError γ) [Worthless γ] (f : γ → Except ParseError β)
    [hf : ∀ c, Clears owed (f c)] : Clears owed (result >>= f) := by
  constructor
  intro b hok
  obtain ⟨c, _, hsecond⟩ := except_bind_eq_ok hok
  exact (hf c).eq hsecond

instance (a : α) [ha : Total a x] [hpays : Pays owed x 0] : Clears owed (.ok a) := by
  constructor
  intro b hok
  cases hok
  rw [ha.eq, hpays.eq, add_zero]

instance (a : α) [ha : Total a x] [hpays : Pays owed x 0] :
    Clears owed (pure a : Except ParseError α) := inferInstanceAs (Clears owed (.ok a))

instance (result : Except ParseError α) [h : Cleared result x] [hpays : Pays owed x 0] :
    Clears owed result := by
  rw [hpays.eq, add_zero]
  exact h.clears

instance (error : ParseError) : Clears owed (.error error : Except ParseError α) := ⟨nofun⟩

instance (position : Position) : Clears owed (Pattern.invalid position : Except ParseError α) :=
  ⟨nofun⟩

instance (c : Prop) [Decidable c] (p q : Except ParseError α) [hp : Clears owed p]
    [hq : Clears owed q] : Clears owed (if c then p else q) := by
  split
  · exact hp
  · exact hq

instance (result : Except ParseError α) [h : Cleared result x] :
    Makes (Parser.ofExcept result) x := by
  constructor
  intro ending before a after hok
  obtain ⟨hresult, rfl⟩ := ofExcept_eq_ok hok
  exact ⟨rfl, h.clears.eq hresult⟩

end Results

theorem worth_node (kind : NodeKind) (span : Span) (children : List Tree) :
    worth (Tree.node kind span children) = ↑(entriesOf kind) + worth children :=
  Total.eq

theorem Cleared.node {result : Except ParseError Tree} {kind : NodeKind} {span : Span}
    {children : List Tree} (h : Cleared result (worth (Tree.node kind span children))) :
    Cleared result (↑(entriesOf kind) + worth children) := by
  rwa [worth_node] at h

theorem entriesOf_inContext (context : Context) (kind : NodeKind) :
    entriesOf (inContext context kind) = entriesOf kind := by
  cases kind <;> rfl

mutual

theorem clears_mark (action : TargetAction) : ∀ t : Tree, Clears (worth t) (Target.mark action t)
  | .node kind span children => by
    constructor
    intro u hok
    obtain ⟨_, _, _, marked, heq, rfl, hcases⟩ := mark_cases hok
    cases heq
    rw [worth_node, worth_node, entriesOf_inContext]
    rcases hcases with ⟨_, rfl⟩ | ⟨_, _, hall⟩
    · rfl
    · rw [(clears_markAll action children).eq hall]

theorem clears_markAll (action : TargetAction) :
    ∀ ts : List Tree, Clears (worth ts) (Target.markAll action ts)
  | [] => ⟨fun hok => Except.ok.inj hok ▸ rfl⟩
  | t :: ts => by
    constructor
    intro us hok
    obtain ⟨u, rest, hfirst, hrest, rfl⟩ := markAll_cons hok
    rw [Total.eq (a := u :: rest), Total.eq (a := t :: ts), (clears_mark action t).eq hfirst,
      (clears_markAll action ts).eq hrest]

end

instance (action : TargetAction) (t : Tree) : Cleared (Target.mark action t) (worth t) :=
  ⟨clears_mark action t⟩

instance (action : TargetAction) (ts : List Tree) : Cleared (Target.markAll action ts) (worth ts) :=
  ⟨clears_markAll action ts⟩

instance (t : Tree) : Cleared (Target.markAugmented t) (worth t) := by
  constructor
  unfold Target.markAugmented
  infer_instance

instance (t : Tree) : Cleared (Target.markAnnotated t) (worth t) := by
  constructor
  unfold Target.markAnnotated
  infer_instance

theorem worth_positionalOnly (ts : List Tree) :
    worth (ts.map Expression.positionalOnly) = worth ts := by
  induction ts with
  | nil => rfl
  | cons t ts ih =>
    have hfirst : worth (Expression.positionalOnly t) = worth t := by
      unfold Expression.positionalOnly
      split <;> rfl
    rw [List.map_cons, Total.eq (a := _ :: ts.map _), Total.eq (a := t :: ts), hfirst, ih]

instance (ts : List Tree) : Total (ts.map Expression.positionalOnly) (worth ts) :=
  ⟨worth_positionalOnly ts⟩

theorem worth_capture (t : Tree) : worth (Pattern.capture t) = worth t := by
  unfold Pattern.capture
  split <;> rfl

instance (t : Tree) (x : Multiset Entry) [h : Total t x] : Total (Pattern.capture t) x :=
  ⟨(worth_capture t).trans h.eq⟩

theorem worth_captureFirst (ts : List Tree) : worth (Pattern.captureFirst ts) = worth ts := by
  cases ts with
  | nil => rfl
  | cons t ts => exact congrArg (· + worth ts) (worth_capture t)

instance (ts : List Tree) (x : Multiset Entry) [h : Total ts x] :
    Total (Pattern.captureFirst ts) x := ⟨(worth_captureFirst ts).trans h.eq⟩

mutual

theorem clears_pattern (slot : Pattern.Slot) : ∀ t : Tree, Cleared (Pattern.bind slot t) (worth t)
  | .node kind span children => by
    have hall := fun slot => clears_patterns slot children
    have hclass := clears_class children
    have hentries := clears_entries children
    constructor
    rw [worth_node]
    unfold Pattern.bind
    split
    · infer_instance
    rw [if_neg Bool.false_ne_true]
    split
    · infer_instance
    split
    · infer_instance
    split
    · infer_instance
    split <;> infer_instance

theorem clears_patterns (slot : Pattern.Slot) :
    ∀ ts : List Tree, Cleared (Pattern.bindAll slot ts) (worth ts)
  | [] => ⟨⟨fun hok => Except.ok.inj hok ▸ rfl⟩⟩
  | t :: ts => by
    have := clears_pattern slot t
    have := clears_patterns slot ts
    unfold Pattern.bindAll
    exact ⟨inferInstanceAs (Clears (worth t + worth ts) _)⟩

theorem clears_class : ∀ ts : List Tree, Cleared (Pattern.bindClass ts) (worth ts)
  | [] => ⟨⟨fun hok => Except.ok.inj hok ▸ rfl⟩⟩
  | t :: ts => by
    have := clears_pattern .dotted t
    have := clears_arguments ts
    unfold Pattern.bindClass
    exact ⟨inferInstanceAs (Clears (worth t + worth ts) _)⟩

theorem clears_arguments : ∀ ts : List Tree, Cleared (Pattern.bindArguments ts) (worth ts)
  | [] => ⟨⟨fun hok => Except.ok.inj hok ▸ rfl⟩⟩
  | .node kind span children :: ts => by
    have := (clears_pattern .pattern (.node kind span children)).node
    have := clears_patterns .pattern children
    have := clears_arguments ts
    constructor
    rw [Total.eq (a := Tree.node kind span children :: ts)]
    unfold Pattern.bindArguments
    split <;> next heq => cases heq <;> infer_instance

theorem clears_entries : ∀ ts : List Tree, Cleared (Pattern.bindEntries ts) (worth ts)
  | [] => ⟨⟨fun hok => Except.ok.inj hok ▸ rfl⟩⟩
  | [.node kind span children] => by
    have : Cleared (Pattern.bindEntries []) 0 := clears_entries []
    have := (clears_pattern .mappingKey (.node kind span children)).node
    constructor
    rw [Total.eq (a := [Tree.node kind span children]), add_zero]
    unfold Pattern.bindEntries
    split <;> next heq => cases heq <;> infer_instance
  | .node kind span children :: value :: rest => by
    have := clears_entries rest
    have : Cleared (Pattern.bindEntries (value :: rest)) (worth value + worth rest) :=
      clears_entries (value :: rest)
    have := clears_pattern .pattern value
    have := (clears_pattern .mappingKey (.node kind span children)).node
    constructor
    rw [Total.eq (a := Tree.node kind span children :: value :: rest), ← add_assoc]
    unfold Pattern.bindEntries
    split <;> next heq => cases heq <;> infer_instance

end

instance (slot : Pattern.Slot) (t : Tree) : Cleared (Pattern.bind slot t) (worth t) :=
  clears_pattern slot t

/-! ## Expressions -/

/-- A level whose parsers settle their accounts. -/
class OfLevel (marks : Bool) (inner : Level) : Prop where
  expression : Settles marks [] 0 inner.expression
  operand : ∀ least, Settles marks [] 0 (inner.operand least)
  primary : Settles marks [] 0 inner.primary

section Expression

variable {marks : Bool} {known : List TokenKind} {inner : Level} [hinner : OfLevel marks inner]

instance : Rule marks known inner.expression 0 := ⟨hinner.expression.weaken⟩

instance (least : Nat) : Rule marks known (inner.operand least) 0 := ⟨(hinner.operand least).weaken⟩

instance : Rule marks known inner.primary 0 := ⟨hinner.primary.weaken⟩

/-! ### Names, stars and commas -/

instance : Rule marks known (Expression.disjunction inner) 0 := by
  unfold Expression.disjunction
  infer_instance

instance : Rule marks known (Expression.bitwiseOr inner) 0 := by
  unfold Expression.bitwiseOr
  infer_instance

instance : Looks Expression.startsNone := by
  unfold Expression.startsNone
  infer_instance

instance : Rule marks (.op .star :: known) (Expression.starred inner) 0 := by
  unfold Expression.starred
  infer_instance

instance : Rule marks known (Expression.star inner) 0 := by
  unfold Expression.star
  infer_instance

instance : Rule marks known (Expression.starList inner) 0 := by
  unfold Expression.starList
  infer_instance

instance : Rule marks (.keyword .yieldKw :: known) (Expression.yield inner) 0 := by
  unfold Expression.yield
  infer_instance

instance : Rule marks known (Expression.assigned inner) 0 := by
  unfold Expression.assigned
  infer_instance

/-! ### Parameters -/

instance (list : List Tree) (a b c d e : Bool) (x : Multiset Entry) [h : Total list x] :
    Total (⟨list, a, b, c, d, e⟩ : Expression.Parameters) x := ⟨h.eq⟩

instance : Total Expression.Parameters.none 0 := ⟨rfl⟩

instance (parameters : Expression.Parameters) (t : Tree) (x y : Multiset Entry)
    [h : Total parameters x] [ht : Total t y] : Total (parameters.push t) (x + y) := by
  constructor
  rw [← h.eq, ← ht.eq]
  exact (worth_append parameters.list [t]).trans (congrArg (_ + ·) (add_zero _))

instance (parameters : Expression.Parameters) (x : Multiset Entry) [h : Total parameters x] :
    Total parameters.list x := ⟨h.eq⟩

variable (annotated : Bool) (parameters : Expression.Parameters)

instance : Rule marks known (Expression.annotation inner annotated) 0 := by
  unfold Expression.annotation
  infer_instance

instance : Rule marks (.op .slash :: known) (Expression.slashParameter parameters)
    (worth parameters) := by
  constructor
  unfold Expression.slashParameter
  infer_instance

instance : Rule marks (.op .star :: known) (Expression.starParameter inner annotated parameters)
    (worth parameters) := by
  constructor
  unfold Expression.starParameter
  dsimp only
  infer_instance

instance : Rule marks (.op .doubleStar :: known)
    (Expression.doubleStarParameter inner annotated parameters) (worth parameters) := by
  constructor
  unfold Expression.doubleStarParameter
  dsimp only
  infer_instance

instance : Rule marks known (Expression.plainParameter inner annotated parameters)
    (worth parameters) := by
  constructor
  unfold Expression.plainParameter
  dsimp only
  infer_instance

instance : Rule marks known (Expression.parameter inner annotated parameters)
    (worth parameters) := by
  constructor
  unfold Expression.parameter
  split
  · infer_instance
  · refine settles_bind_peek fun kind => ?_
    split <;> infer_instance

instance (closer : TokenKind) :
    Rule marks known (Expression.parameters inner closer annotated) 0 := by
  unfold Expression.parameters
  infer_instance

instance : Rule marks (.keyword .lambdaKw :: known) (Expression.lambda inner) 0 := by
  unfold Expression.lambda
  infer_instance

instance : Rule marks known (Expression.conditional inner) 0 := by
  unfold Expression.conditional
  infer_instance

/-! ### Named expressions and targets -/

instance : Rule marks known (Expression.named inner) 0 := by
  constructor
  unfold Expression.named
  refine settles_bind_looks inferInstance fun start => settles_bind_check ?_ ?_
  · refine settles_bind_second fun second => ?_
    split
    · next h =>
      rw [eq_of_beq (Bool.and_eq_true_iff.1 h).2]
      infer_instance
    · infer_instance
  · refine settles_bind_looks inferInstance fun second => ?_
    rw [Bool.false_and, if_neg Bool.false_ne_true]
    infer_instance

instance : Rule marks known (Expression.starNamed inner) 0 := by
  unfold Expression.starNamed
  infer_instance

instance : Rule marks known (Expression.starNamedList inner) 0 := by
  unfold Expression.starNamedList
  infer_instance

instance : Rule marks known (Expression.targetItem inner) 0 := by
  unfold Expression.targetItem
  infer_instance

instance : Rule marks known (Expression.targetList inner) 0 := by
  unfold Expression.targetList
  infer_instance

/-! ### Comprehensions -/

instance : Looks Expression.startsComprehension := by
  unfold Expression.startsComprehension
  infer_instance

/-- A clause starts at its keyword, which may have another one before it. -/
theorem settles_comprehensionClause (h : known = [.keyword .forKw] ∨
    known = [.keyword .asyncKw, .keyword .forKw]) :
    Settles marks known 0 (Expression.comprehensionClause inner) := by
  unfold Expression.comprehensionClause
  refine settles_bind_looks inferInstance fun start => ?_
  rcases h with rfl | rfl
  · exact settles_bind_eat nofun fun _ => inferInstance
  · exact settles_bind_eat (fun _ => inferInstance) fun h => absurd rfl h

theorem knows_of_startsComprehension {ending : Ending} {before after : ParserState}
    (h : Expression.startsComprehension ending before = .ok true after) :
    Knows [.keyword .forKw] before.rest ∨
      Knows [.keyword .asyncKw, .keyword .forKw] before.rest := by
  obtain ⟨isFor, _, hfor, h⟩ := ParserLaw.bind_eq_ok h
  cases hfor
  split at h
  · next hfound => exact .inl ⟨eq_of_beq hfound, trivial⟩
  · obtain ⟨isAsync, _, hasync, h⟩ := ParserLaw.bind_eq_ok h
    cases hasync
    obtain ⟨second, _, hsecond, h⟩ := ParserLaw.bind_eq_ok h
    cases hsecond
    have hboth := Bool.and_eq_true_iff.1 (Outcome.ok.inj h).1
    refine .inr ⟨eq_of_beq hboth.1, ?_, trivial⟩
    rw [List.getElem?_tail]
    exact eq_of_beq hboth.2

instance : Rule marks known (Expression.comprehensionClauses inner) 0 := by
  have hitem : Settles marks [] 0 (do
      if ← Expression.startsComprehension then
        return some (← Expression.comprehensionClause inner)
      else return none) := by
    constructor
    intro ending before found after hnames _ hok
    obtain ⟨starts, mid, hstarts, hok⟩ := ParserLaw.bind_eq_ok hok
    obtain rfl := Looks.eq hstarts
    cases starts with
    | false =>
      have hnone : Settles marks [] 0 (pure none : Parser (Option Tree)) := inferInstance
      exact hnone.run hnames trivial hok
    | true =>
      have hclause : ∀ known, known = [.keyword .forKw] ∨
          known = [.keyword .asyncKw, .keyword .forKw] →
          Settles marks known 0 (do return some (← Expression.comprehensionClause inner)) := by
        intro known hknown
        have : Settles marks known 0 (Expression.comprehensionClause inner) :=
          settles_comprehensionClause hknown
        infer_instance
      rcases knows_of_startsComprehension hstarts with hknows | hknows
      · exact (hclause _ (.inl rfl)).run hnames hknows hok
      · exact (hclause _ (.inr rfl)).run hnames hknows hok
  unfold Expression.comprehensionClauses
  infer_instance

/-! ### Displays -/

variable (t : Tree) (start : Position)

instance : Rule marks known (Expression.captured t start) (worth t) := by
  constructor
  unfold Expression.captured
  infer_instance

instance : Rule marks known (Expression.displayItem inner) 0 := by
  unfold Expression.displayItem
  infer_instance

instance : Rule marks known (Expression.capturedExpression inner) 0 := by
  unfold Expression.capturedExpression
  infer_instance

instance (sign : Operator) :
    Rule marks known (Expression.displayRest inner t (.op sign)) (worth t) := by
  constructor
  unfold Expression.displayRest
  infer_instance

instance (kind : NodeKind) (elements : List Tree) (sign : Operator) (x y : Multiset Entry)
    [Stores kind x] [Total elements y] :
    Rule marks known (Expression.comprehension inner kind start elements (.op sign)) (x + y) := by
  constructor
  unfold Expression.comprehension
  infer_instance

instance : Rule marks (.op .leftParen :: known) (Expression.parenthesized inner) 0 := by
  constructor
  unfold Expression.parenthesized
  refine settles_bind_looks inferInstance fun start => settles_bind_advance ?_
  infer_instance

instance : Rule marks (.op .leftBracket :: known) (Expression.listDisplay inner) 0 := by
  unfold Expression.listDisplay
  infer_instance

instance : Rule marks known (Expression.dictEntry inner) 0 := by
  unfold Expression.dictEntry
  infer_instance

instance (first : List Tree) (x : Multiset Entry) [Total first x] :
    Rule marks known (Expression.dictRest inner start first) x := by
  constructor
  unfold Expression.dictRest
  infer_instance

instance : Rule marks (.op .leftBrace :: known) (Expression.braceDisplay inner) 0 := by
  constructor
  unfold Expression.braceDisplay
  refine settles_bind_looks inferInstance fun start => settles_bind_advance ?_
  refine settles_bind_worthless Rule.settles fun closed => ?_
  split
  · infer_instance
  refine settles_bind_looks inferInstance fun spreads => ?_
  split <;> infer_instance

/-! ### Arguments and subscripts -/

instance (list : List Tree) (a b : Bool) (x : Multiset Entry) [h : Total list x] :
    Total (⟨list, a, b⟩ : Expression.Arguments) x := ⟨h.eq⟩

instance : Total Expression.Arguments.none 0 := ⟨rfl⟩

instance (arguments : Expression.Arguments) (t : Tree) (x y : Multiset Entry)
    [h : Total arguments x] [ht : Total t y] : Total (arguments.push t) (x + y) := by
  constructor
  rw [← h.eq, ← ht.eq]
  exact (worth_append arguments.list [t]).trans (congrArg (_ + ·) (add_zero _))

instance (arguments : Expression.Arguments) (x : Multiset Entry) [h : Total arguments x] :
    Total arguments.list x := ⟨h.eq⟩

variable (arguments : Expression.Arguments) (allowGenerator : Bool)

instance : Rule marks (.op .star :: known) (Expression.starArgument inner arguments)
    (worth arguments) := by
  constructor
  unfold Expression.starArgument
  infer_instance

instance : Rule marks (.op .doubleStar :: known) (Expression.doubleStarArgument inner arguments)
    (worth arguments) := by
  constructor
  unfold Expression.doubleStarArgument
  dsimp only
  infer_instance

instance : Rule marks (.name :: .op .equal :: known) (Expression.keywordArgument inner arguments)
    (worth arguments) := by
  constructor
  unfold Expression.keywordArgument
  dsimp only
  infer_instance

instance : Rule marks known (Expression.positionalArgument inner allowGenerator arguments)
    (worth arguments) := by
  constructor
  unfold Expression.positionalArgument
  infer_instance

instance : Rule marks known (Expression.argument inner allowGenerator arguments)
    (worth arguments) := by
  constructor
  unfold Expression.argument
  refine settles_bind_peek fun kind => ?_
  split
  · infer_instance
  · infer_instance
  · refine settles_bind_second fun second => ?_
    split
    · next h =>
      rw [eq_of_beq h]
      infer_instance
    · infer_instance
  · infer_instance

instance : Rule marks known (Expression.arguments inner allowGenerator) 0 := by
  unfold Expression.arguments
  infer_instance

instance : Looks Expression.atSliceBoundary := by
  unfold Expression.atSliceBoundary
  infer_instance

instance : Rule marks known (Expression.sliceBound inner) 0 := by
  unfold Expression.sliceBound
  infer_instance

instance (lower : List Tree) (x : Multiset Entry) [Total lower x] :
    Rule marks (.op .colon :: known) (Expression.sliceRest inner start lower) x := by
  constructor
  unfold Expression.sliceRest
  infer_instance

instance : Rule marks known (Expression.slice inner) 0 := by
  unfold Expression.slice
  infer_instance

instance : Rule marks known (Expression.slices inner) 0 := by
  unfold Expression.slices
  infer_instance

/-! ### Atoms and what follows them -/

instance (kind : TokenKind) [Silent marks kind] (value : Constant) [Stores (.constant value) 0] :
    Rule marks (kind :: known) (Expression.constant value) 0 := by
  unfold Expression.constant
  infer_instance

/-- One more literal of a run. -/
def nextString (isBytes : Bool) (start : Position) : Parser (Option String) := do
  if ← check .string then
    if Quotation.isBytes (← lexeme).toList != isBytes then failAt .mixedBytesLiterals start
    else return some (← word)
  else return none

/-- A run is read up to its end. -/
theorem run_of_strings {isBytes : Bool} {start : Position} {fuel : Nat} {ending : Ending}
    {before after : ParserState} {more : List String} (hfuel : before.left < fuel)
    (h : manyWithin (nextString isBytes start) fuel ending before = .ok more after) :
    ∃ run, before.rest = run ++ after.rest ∧ (∀ token ∈ run, token.kind = .string) ∧
      more = run.map Token.lexeme ∧ ∀ token ∈ after.rest.head?, token.kind ≠ .string := by
  induction fuel generalizing before more with
  | zero => exact absurd hfuel (Nat.not_lt_zero _)
  | succ fuel ih =>
    obtain ⟨found, next, hfirst, h⟩ := ParserLaw.bind_eq_ok h
    obtain ⟨isString, _, hcheck, hfirst⟩ := ParserLaw.bind_eq_ok hfirst
    cases hcheck
    split at hfirst
    · next hstring =>
      have hknown : Knows [.string] before.rest := ⟨eq_of_beq hstring, trivial⟩
      obtain ⟨token, rest, hrest, htoken, _⟩ := exists_token hknown (by decide)
      obtain ⟨_, _, hlexeme, hfirst⟩ := ParserLaw.bind_eq_ok hfirst
      cases hlexeme
      split at hfirst
      · exact absurd hfirst failAt_ne_ok
      · obtain ⟨text, _, hword, hfirst⟩ := ParserLaw.bind_eq_ok hfirst
        cases hfirst
        obtain ⟨rfl, hnext⟩ := word_eq_ok hrest hword
        obtain ⟨more, last, hmore, h⟩ := ParserLaw.bind_eq_ok h
        cases h
        have hless : next.left < fuel := by
          rw [before.left_eq, hrest, List.length_cons] at hfuel
          rw [next.left_eq, hnext]
          omega
        obtain ⟨run, hrun, hall, rfl, hend⟩ := ih hless hmore
        refine ⟨token :: run, ?_, List.forall_mem_cons.2 ⟨htoken, hall⟩, rfl, hend⟩
        rw [hrest, ← hnext, hrun, List.cons_append]
    · next hother =>
      cases hfirst
      cases h
      refine ⟨[], rfl, List.forall_mem_nil _, rfl, fun token htoken hkind => hother ?_⟩
      obtain ⟨rest, hrest⟩ := List.head?_eq_some_iff.1 htoken
      rw [hrest]
      exact beq_iff_eq.2 hkind

theorem settles_strings : Settles marks (.string :: known) 0 Expression.strings := by
  constructor
  intro ending before t after hnames hknown hok
  obtain ⟨token, rest, hrest, htoken, _⟩ := exists_token hknown (by decide)
  obtain ⟨start, _, hstart, hok⟩ := ParserLaw.bind_eq_ok hok
  cases hstart
  obtain ⟨text, next, hword, hok⟩ := ParserLaw.bind_eq_ok hok
  obtain ⟨rfl, hnext⟩ := word_eq_ok hrest hword
  obtain ⟨more, last, hmore, hok⟩ := ParserLaw.bind_eq_ok hok
  cases hok
  obtain ⟨run, hrun, hall, rfl, hend⟩ := run_of_strings (Nat.lt_succ_self next.left) hmore
  have hpasses : Passes marks _ _ after.rest := .strings (List.cons_ne_nil token run)
    (List.forall_mem_cons.2 ⟨htoken, hall⟩) hend (.refl after.rest)
  rw [List.cons_append, ← hrun, hnext, ← hrest] at hpasses
  exact ⟨_, hpasses, by rw [worth_node]; simp; rfl⟩

theorem settles_number :
    Settles marks (.number :: known) 0 (do Expression.constant (.number (← lexeme))) := by
  constructor
  intro ending before t after hnames hknown hok
  obtain ⟨token, rest, hrest, htoken, _⟩ := exists_token hknown (by decide)
  obtain ⟨text, _, hlexeme, hok⟩ := ParserLaw.bind_eq_ok hok
  cases hlexeme
  obtain ⟨start, _, hstart, hok⟩ := ParserLaw.bind_eq_ok hok
  cases hstart
  obtain ⟨_, next, hadvance, hok⟩ := ParserLaw.bind_eq_ok hok
  cases hok
  have hsingle : token.kind ≠ .string := by simp [htoken]
  have hpasses := passes_one marks hsingle rest
  rw [← hrest, ← rest_of_advance hrest hadvance] at hpasses
  refine ⟨_, hpasses, ?_⟩
  rw [worth_node, hrest]
  simp [tally, htoken]
  rfl

instance : Rule marks known (Expression.atom inner) 0 := by
  constructor
  unfold Expression.atom
  refine settles_bind_peek fun kind => ?_
  split
  · infer_instance
  · exact settles_number
  · exact settles_strings
  all_goals infer_instance

instance : Rule marks known (Expression.trailer inner start t) (worth t) := by
  constructor
  unfold Expression.trailer
  refine settles_bind_peek fun kind => ?_
  split <;> infer_instance

instance : Rule marks known (Expression.primary inner) 0 := by
  unfold Expression.primary
  infer_instance

/-! ### Operators -/

/-- The tokens of a unary operator hold no entry. -/
theorem silent_of_unaryOp {kind : TokenKind} {op : UnaryOp × Nat}
    (h : Power.unaryOp? kind = some op) : Silent marks kind := by
  unfold Power.unaryOp? at h
  split at h
  all_goals first | infer_instance | cases h

theorem silent_of_boolOp {kind : TokenKind} {op : BoolOp} (h : Power.boolOp? kind = some op) :
    Silent marks kind := by
  unfold Power.boolOp? at h
  split at h
  all_goals first | infer_instance | cases h

theorem silent_of_binaryOp {kind : TokenKind} {op : BinaryOp}
    (h : Power.binaryOp? kind = some op) : Silent marks kind := by
  unfold Power.binaryOp? at h
  split at h
  all_goals first | infer_instance | cases h

instance (least : Nat) : Rule marks known (Expression.unary inner least) 0 := by
  constructor
  unfold Expression.unary
  refine settles_bind_looks inferInstance fun start => settles_bind_peek fun kind => ?_
  split
  · next h =>
    rw [eq_of_beq h]
    infer_instance
  · split
    · next hop =>
      have : Silent marks _ := silent_of_unaryOp hop
      infer_instance
    · infer_instance

theorem silent_of_compareOp {first second : TokenKind} {op : CompareOp} {n : Nat}
    (h : Power.compareOp? first second = some (op, n)) :
    Silent marks first ∧ (n = 2 → Silent marks second) := by
  unfold Power.compareOp? at h
  split at h
  all_goals cases h
  all_goals exact ⟨inferInstance, fun _ => by first | infer_instance | contradiction⟩

instance : Rule marks known Expression.eatCompare 0 := by
  constructor
  unfold Expression.eatCompare
  refine settles_bind_peek fun first => settles_bind_second fun second => ?_
  split
  · next op n hop =>
    obtain ⟨_, hsecond⟩ : Silent marks _ ∧ (_ → Silent marks _) := silent_of_compareOp hop
    refine settles_bind_advance ?_
    dsimp only
    split
    · next hn =>
      have := hsecond hn
      infer_instance
    · infer_instance
  · infer_instance

instance (op : BoolOp) (kind : TokenKind) [Silent marks kind] :
    Rule marks (kind :: known) (Expression.boolChain inner op start t) (worth t) := by
  constructor
  unfold Expression.boolChain
  exact settles_bind_peek_known inferInstance

theorem worth_operands (links : List (CompareOp × Tree)) :
    worth (links.map (·.2)) = worth links := by
  induction links with
  | nil => rfl
  | cons link links ih =>
    have hlink : worth link = worth link.2 := zero_add _
    rw [List.map_cons, Total.eq (a := link.2 :: _), Total.eq (a := link :: links), ih, hlink]

instance (links : List (CompareOp × Tree)) : Total (links.map (·.2)) (worth links) :=
  ⟨worth_operands links⟩

instance : Rule marks known (Expression.compareChain inner start t) (worth t) := by
  have hlink : Settles marks [] 0 (do
      match ← Expression.eatCompare with
      | some op => return some (op, ← inner.operand Power.ofCompare.2)
      | none => return none) := by
    refine settles_bind Rule.settles (Pays.self 0) fun found => ?_
    cases found with
    | some op =>
      exact inferInstanceAs (Settles marks [] 0 (do
        return some (op, ← inner.operand Power.ofCompare.2)))
    | none => exact inferInstanceAs (Settles marks [] 0 (pure (none : Option (CompareOp × Tree))))
  constructor
  unfold Expression.compareChain
  infer_instance

instance (op : BinaryOp) (kind : TokenKind) [Silent marks kind] :
    Rule marks (kind :: known) (Expression.binary inner op start t) (worth t) := by
  constructor
  unfold Expression.binary
  infer_instance

instance (least : Nat) : Rule marks known (Expression.extend inner least start t) (worth t) := by
  constructor
  unfold Expression.extend
  refine settles_bind_peek fun kind => settles_bind_second fun second => ?_
  split
  · next op hop =>
    have : Silent marks _ := silent_of_boolOp hop
    infer_instance
  · infer_instance
  · next op _ _ hop =>
    have : Silent marks _ := silent_of_binaryOp hop
    infer_instance
  · infer_instance

instance (least : Nat) : Rule marks known (Expression.operation inner least) 0 := by
  unfold Expression.operation
  infer_instance

/-! ### Levels -/

theorem ofLevel_around : OfLevel marks (Level.around inner) := by
  constructor
  · show Settles marks [] 0 (nested (Expression.conditional inner))
    infer_instance
  · intro least
    show Settles marks [] 0 (nested (Expression.operation inner least))
    infer_instance
  · show Settles marks [] 0 (nested (Expression.primary inner))
    infer_instance

end Expression

instance ofLevel_within (marks : Bool) (room : Nat) : OfLevel marks (.within room) := by
  induction room with
  | zero =>
    have hfail : Settles marks [] 0 (failHere .tooDeeplyNested : Parser Tree) := inferInstance
    exact ⟨hfail, fun _ => hfail, hfail⟩
  | succ room ih => exact ofLevel_around

instance (marks : Bool) : OfLevel marks .top := ofLevel_within marks maxNesting

/-! ## Imports -/

section Simple

variable {marks : Bool} {known : List TokenKind} (start : Position) (first : Tree)

theorem segments_intercalate {names : List String} (hne : names ≠ [])
    (hsingle : ∀ name ∈ names, IsSingle name) : segments (".".intercalate names) = names := by
  have hsplit : ((".".intercalate names).toList.splitOn '.') = names.map String.toList := by
    rw [String.toList_intercalate]
    refine List.splitOn_intercalate '.' ?_ (by simpa using hne)
    intro l hl
    obtain ⟨name, hname, rfl⟩ := List.mem_map.1 hl
    exact (hsingle name hname).1
  have hmap : (names.map String.toList).map String.ofList = names := by
    simp [Function.comp_def]
  have hstar : ".".intercalate names ≠ "*" := by
    intro hstar
    rw [hstar] at hsplit
    -- a star has no dot in it, so it would have to be the only name
    have honly : names = ["*"] := by
      rw [← hmap, ← hsplit]
      rfl
    exact (hsingle "*" (by simp [honly])).2 rfl
  rw [segments, if_neg hstar, hsplit, hmap]

theorem worth_names (names : List String) : worth names = ↑(names.map Entry.name) := by
  induction names with
  | nil => rfl
  | cons name names ih => exact congrArg ({Entry.name name} + ·) ih

/-- What the names in an imported name are worth. -/
def dotted (name : String) : Multiset Entry := ↑((segments name).map Entry.name)

/-- A parser whose text is worth the names between its dots. -/
class Names (marks : Bool) (p : Parser String) : Prop where
  run : ∀ {ending before text after}, SingleNames before.rest → p ending before = .ok text after →
    Passes marks before.rest (dotted text) after.rest

theorem dotted_single {name : String} (h : IsSingle name) : dotted name = worth name := by
  have hsegments : segments (".".intercalate [name]) = [name] :=
    segments_intercalate (List.cons_ne_nil _ _) (by simpa using h)
  rw [String.intercalate_singleton] at hsegments
  rw [dotted, hsegments]
  rfl

theorem expectName_eq_ok {ending : Ending} {before after : ParserState} {name : String}
    (hnames : SingleNames before.rest) (h : expectName ending before = .ok name after) :
    IsSingle name ∧ Passes marks before.rest (worth name) after.rest := by
  obtain ⟨isName, _, hcheck, h⟩ := ParserLaw.bind_eq_ok h
  cases hcheck
  split at h
  · next hfound =>
    have hknown : Knows [.name] before.rest := ⟨eq_of_beq hfound, trivial⟩
    obtain ⟨token, rest, hrest, htoken, _⟩ := exists_token hknown (by decide)
    obtain ⟨rfl, hafter⟩ := word_eq_ok hrest h
    have hsingle : token.kind ≠ .string := by simp [htoken]
    have hpasses := passes_one marks hsingle rest
    rw [hrest] at hnames
    refine ⟨hnames token List.mem_cons_self htoken, ?_⟩
    rw [hrest, hafter]
    simpa [tally, htoken, worth] using hpasses
  · exact absurd h failHere_ne_ok

instance : Names marks expectName := by
  constructor
  intro ending before text after hnames hok
  obtain ⟨hsingle, hpasses⟩ := expectName_eq_ok hnames hok
  rwa [dotted_single hsingle]

/-- A name after a dot. -/
def nextSegment : Parser (Option String) := do
  if ← eat (.op .dot) then return some (← expectName) else return none

theorem segments_of_many {fuel : Nat} {ending : Ending} {before after : ParserState}
    {more : List String} (hnames : SingleNames before.rest)
    (h : manyWithin nextSegment fuel ending before = .ok more after) :
    (∀ name ∈ more, IsSingle name) ∧ Passes marks before.rest (worth more) after.rest := by
  induction fuel generalizing before more with
  | zero =>
    cases h
    exact ⟨List.forall_mem_nil _, .refl _⟩
  | succ fuel ih =>
    obtain ⟨found, next, hfirst, h⟩ := ParserLaw.bind_eq_ok h
    obtain ⟨isDot, mid, heat, hfirst⟩ := ParserLaw.bind_eq_ok hfirst
    have hsilent : Settles marks [] 0 (eat (.op .dot)) := inferInstance
    obtain ⟨entries, hdot, hzero⟩ := hsilent.run hnames trivial heat
    have hentries : entries = 0 := (zero_add entries).symm.trans hzero.symm
    rw [hentries] at hdot
    split at hfirst
    · obtain ⟨name, last, hname, hfirst⟩ := ParserLaw.bind_eq_ok hfirst
      cases hfirst
      obtain ⟨hsingle, hword⟩ := expectName_eq_ok (hnames.mono hdot.suffix) hname
      have hsofar := hdot.trans hword
      obtain ⟨more, last, hmore, h⟩ := ParserLaw.bind_eq_ok h
      cases h
      obtain ⟨hall, hrest⟩ := ih (hnames.mono hsofar.suffix) hmore
      refine ⟨List.forall_mem_cons.2 ⟨hsingle, hall⟩, ?_⟩
      have hboth := hsofar.trans hrest
      rwa [zero_add] at hboth
    · cases hfirst
      cases h
      exact ⟨List.forall_mem_nil _, hdot⟩

instance : Names marks Simple.dottedName := by
  constructor
  intro ending before text after hnames hok
  obtain ⟨first, mid, hfirst, hok⟩ := ParserLaw.bind_eq_ok hok
  obtain ⟨hsingle, hname⟩ := expectName_eq_ok hnames hfirst
  obtain ⟨more, last, hmore, hok⟩ := ParserLaw.bind_eq_ok hok
  cases hok
  obtain ⟨hall, hrest⟩ := segments_of_many (hnames.mono hname.suffix) hmore
  have hsegments := segments_intercalate (List.cons_ne_nil first more)
    (List.forall_mem_cons.2 ⟨hsingle, hall⟩)
  rw [dotted, hsegments, ← worth_names]
  exact hname.trans hrest

instance : Settles marks known 0 Simple.asName := by
  unfold Simple.asName
  infer_instance

/-- An imported name goes into what its entry is worth. -/
theorem settles_bind_names {name : Parser String} [hname : Names marks name] {f : String → Parser β}
    [Worth β] {owed : Multiset Entry}
    (hf : ∀ text, Settles marks [] (owed + dotted text) (f text)) :
    Settles marks known owed (name >>= f) := by
  constructor
  intro ending before b after hnames _ hok
  obtain ⟨text, mid, hfirst, hsecond⟩ := ParserLaw.bind_eq_ok hok
  have hpasses := hname.run hnames hfirst
  obtain ⟨entries, hmore, htotal⟩ := (hf text).run (hnames.mono hpasses.suffix) trivial hsecond
  exact ⟨_, hpasses.trans hmore, by rw [htotal, add_assoc]⟩

instance (name : String) (asName : Option String) (span : Span) :
    Total (⟨name, asName, span⟩ : Alias) (dotted name + worth asName) := by
  constructor
  show (↑((segments name ++ asName.toList).map Entry.name) : Multiset Entry) = _
  rw [List.map_append, ← Multiset.coe_add]
  cases asName <;> rfl

instance (name : Parser String) [Names marks name] :
    Rule marks known (Simple.importAlias name) 0 := by
  constructor
  unfold Simple.importAlias
  refine settles_bind_looks inferInstance fun start => settles_bind_names fun text => ?_
  infer_instance

theorem worth_aliases (entries : List Alias) :
    worth entries = ↑((entries.flatMap aliasNames).map Entry.name) := by
  induction entries with
  | nil => rfl
  | cons entry entries ih =>
    rw [List.flatMap_cons, List.map_append, ← Multiset.coe_add, ← ih]
    rfl

instance (names : List Alias) (x : Multiset Entry) [h : Total names x] :
    Stores (.importStmt names) x := by
  constructor
  rw [← h.eq, worth_aliases]
  simp [entriesOf, identifiers, softKeywords, numbers, texts]

instance (module : Option String) (level : Nat) (names : List Alias) (x : Multiset Entry)
    [h : Total names x] :
    Stores (.importFrom module level names) ((module.map dotted).getD 0 + x) := by
  constructor
  rw [← h.eq, worth_aliases]
  cases module <;> simp [entriesOf, identifiers, softKeywords, numbers, texts, dotted]

instance (names : List String) (x : Multiset Entry) [h : Total names x] :
    Stores (.globalStmt names) x := by
  constructor
  rw [← h.eq, worth_names]
  simp [entriesOf, identifiers, softKeywords, numbers, texts]

instance (names : List String) (x : Multiset Entry) [h : Total names x] :
    Stores (.nonlocalStmt names) x := by
  constructor
  rw [← h.eq, worth_names]
  simp [entriesOf, identifiers, softKeywords, numbers, texts]

instance : Rule marks (.keyword .importKw :: known) Simple.importStmt 0 := by
  unfold Simple.importStmt
  infer_instance

/-- How many dots there are is worth nothing. -/
theorem worth_dots (dots : List Nat) : worth dots = 0 := by
  induction dots with
  | nil => rfl
  | cons n dots ih => exact (zero_add _).trans ih

instance : Settles marks known 0 Simple.importLevel := by
  unfold Simple.importLevel
  refine settles_bind inferInstance (Pays.self 0) fun dots => ?_
  rw [worth_dots]
  exact inferInstanceAs (Settles marks [] 0 _)

instance (priority := high) (span : Span) : Total (⟨"*", none, span⟩ : Alias) 0 := by
  constructor
  show (↑((segments "*" ++ []).map Entry.name) : Multiset Entry) = 0
  rw [segments, if_pos rfl]
  rfl

instance : Settles marks known 0 Simple.importedNames := by
  unfold Simple.importedNames
  infer_instance

theorem map_bind_eq (p : Parser α) (f : α → γ) (g : γ → Parser β) (ending : Ending)
    (state : ParserState) :
    ((f <$> p) >>= g) ending state = (p >>= fun a => g (f a)) ending state := by
  show ((p >>= fun a => pure (f a)) >>= g) ending state = _
  rw [ParserLaw.bind_assoc]
  rfl

instance : Rule marks (.keyword .fromKw :: known) Simple.importFrom 0 := by
  have hrest : ∀ (start : Position) (level : Nat) (module : Option String),
      Settles marks [] ((module.map dotted).getD 0) (do
        if module.isNone && level == 0 then failHere .invalidSyntax
        else
          expect (.keyword .importKw)
          let names ← Simple.importedNames
          node (.importFrom module level names) start []) := fun _ _ _ => inferInstance
  constructor
  unfold Simple.importFrom
  dsimp only
  refine settles_bind_looks inferInstance fun start => settles_bind_advance ?_
  refine settles_bind Rule.settles (Pays.self 0) fun level => ?_
  refine settles_bind_check ?_ (hrest start level none)
  constructor
  intro ending before t after hnames _ hok
  have hnamed : ∀ text, Settles marks [] (0 + dotted text) _ := fun text =>
    settles_of_eq (hrest start level (some text)) (zero_add (dotted text))
  have hall : Settles marks [] 0 (Simple.dottedName >>= _) := settles_bind_names hnamed
  rw [if_pos rfl, map_bind_eq] at hok
  exact hall.run hnames trivial hok

/-! ## Expressions and assignments -/

theorem worth_dropLast (ts : List Tree) :
    worth ts.dropLast + worth ts.getLast?.toList = worth ts := by
  rw [← worth_append]
  cases hlast : ts.getLast? with
  | none => rw [List.getLast?_eq_none_iff.1 hlast]; rfl
  | some t => rw [Option.toList_some, List.dropLast_append_getLast? t hlast]

instance : Rule marks known (Simple.assignment start first) (worth first) := by
  have hrest : ∀ parts : List Tree,
      Settles marks [] (worth parts.dropLast + worth parts.getLast?.toList) (do
        let targets ← ofExcept (Target.markAll .assign parts.dropLast)
        node .assign start (targets ++ parts.getLast?.toList)) := fun _ => inferInstance
  constructor
  unfold Simple.assignment
  refine settles_bind Rule.settles inferInstance fun more => ?_
  have hparts := worth_dropLast (first :: more)
  exact settles_of_eq (hrest (first :: more)) hparts.symm

instance (op : BinaryOp) (sign : Operator) :
    Rule marks (.op sign :: known) (Simple.augmented start first op) (worth first) := by
  constructor
  unfold Simple.augmented
  infer_instance

instance : Rule marks (.op .colon :: known) (Simple.annotated start first) (worth first) := by
  constructor
  unfold Simple.annotated
  infer_instance

instance : Rule marks known Simple.expressionStmt 0 := by
  constructor
  unfold Simple.expressionStmt
  refine settles_bind_looks inferInstance fun start => ?_
  refine settles_bind Rule.settles (Pays.self 0) fun first => settles_bind_peek fun kind => ?_
  split
  · infer_instance
  · split
    · next hop =>
      obtain ⟨sign, rfl⟩ := exists_sign_of_augmentedOp hop
      infer_instance
    · split
      · next h =>
        rw [eq_of_beq h]
        infer_instance
      · infer_instance

/-! ## Statements that start with a keyword -/

instance (kind : NodeKind) [Stores kind 0] (word : Keyword) :
    Rule marks (.keyword word :: known) (Simple.keywordOnly kind) 0 := by
  unfold Simple.keywordOnly
  infer_instance

instance : Rule marks (.keyword .returnKw :: known) Simple.returnStmt 0 := by
  unfold Simple.returnStmt
  infer_instance

instance : Rule marks (.keyword .raiseKw :: known) Simple.raiseStmt 0 := by
  unfold Simple.raiseStmt
  infer_instance

instance : Rule marks (.keyword .globalKw :: known) (Simple.scopeStmt .globalStmt) 0 := by
  unfold Simple.scopeStmt
  infer_instance

instance : Rule marks (.keyword .nonlocalKw :: known) (Simple.scopeStmt .nonlocalStmt) 0 := by
  unfold Simple.scopeStmt
  infer_instance

instance : Rule marks (.keyword .delKw :: known) Simple.deleteStmt 0 := by
  unfold Simple.deleteStmt
  infer_instance

instance : Rule marks (.keyword .assertKw :: known) Simple.assertStmt 0 := by
  unfold Simple.assertStmt
  infer_instance

instance : Rule marks known Simple.statement 0 := by
  constructor
  unfold Simple.statement
  refine settles_bind_peek fun kind => ?_
  split <;> infer_instance

instance : Rule false known Simple.line 0 := by
  unfold Simple.line
  infer_instance

end Simple

/-! ## Statements with blocks -/

section Compound

instance : Looks Compound.lineHere := by
  unfold Compound.lineHere
  infer_instance

/-- Blocks whose accounts are settled. -/
class OfBlock (block : Compound.BlockParser) : Prop where
  settles : ∀ construct line, Settles false [] 0 (block construct line)

variable {marks : Bool} {known : List TokenKind} {block : Compound.BlockParser}
  [hblock : OfBlock block] (start : Position)

instance (construct : Construct) (line : Nat) : Rule false known (block construct line) 0 :=
  ⟨(hblock.settles construct line).weaken⟩

instance (keyword : Keyword) (construct : Construct) :
    Rule false known (Compound.clause block keyword construct) 0 := by
  unfold Compound.clause
  infer_instance

instance : Rule false known (Compound.elseClause block) 0 := by
  unfold Compound.elseClause
  infer_instance

instance (construct : Construct) (line : Nat) :
    Rule false known (Compound.guarded block construct line) 0 := by
  unfold Compound.guarded
  infer_instance

instance : Rule false (.keyword .ifKw :: known) (Compound.ifStmt block) 0 := by
  constructor
  unfold Compound.ifStmt
  refine settles_bind_looks inferInstance fun start => settles_bind_advance ?_
  refine settles_bind Rule.settles inferInstance fun first => ?_
  infer_instance

instance : Rule false (.keyword .whileKw :: known) (Compound.whileStmt block) 0 := by
  unfold Compound.whileStmt
  infer_instance

instance (isAsync : Bool) :
    Rule false (.keyword .forKw :: known) (Compound.forStmt block start isAsync) 0 := by
  unfold Compound.forStmt
  infer_instance

/-! ### Try -/

instance (isStar : Bool) : Rule false known (Compound.caught isStar) 0 := by
  unfold Compound.caught
  infer_instance

instance (list : List Tree) (isStar : Option Bool) (x : Multiset Entry) [h : Total list x] :
    Total (⟨list, isStar⟩ : Compound.Handlers) x := ⟨h.eq⟩

instance (handlers : Compound.Handlers) (x : Multiset Entry) [h : Total handlers x] :
    Total handlers.list x := ⟨h.eq⟩

instance (handlers : Compound.Handlers) :
    Rule false (.keyword .exceptKw :: known) (Compound.handler block handlers)
      (worth handlers) := by
  constructor
  unfold Compound.handler
  refine settles_bind_looks inferInstance fun start => settles_bind_advance ?_
  refine settles_bind_worthless inferInstance fun isStar => ?_
  split
  · infer_instance
  · refine settles_bind Rule.settles (Pays.nothing _) fun found => ?_
    obtain ⟨error, name⟩ := found
    show Settles false [] (worth handlers + (worth error + worth name)) _
    rw [← add_assoc]
    infer_instance

instance : Rule false known (Compound.handlers block) 0 := by
  unfold Compound.handlers
  infer_instance

instance : Rule false (.keyword .tryKw :: known) (Compound.tryStmt block) 0 := by
  constructor
  unfold Compound.tryStmt
  dsimp only
  refine settles_bind_looks inferInstance fun start => settles_bind_advance ?_
  refine settles_bind_worthless Rule.settles fun _ => ?_
  refine settles_bind Rule.settles inferInstance fun body => ?_
  refine settles_bind_looks inferInstance fun hasHandler => ?_
  refine settles_bind_looks inferInstance fun hasFinal => ?_
  split
  · infer_instance
  · refine settles_bind Rule.settles inferInstance fun handlers => ?_
    split <;> infer_instance

/-! ### With -/

instance : Rule marks known Compound.withItem 0 := by
  unfold Compound.withItem
  infer_instance

instance : Rule marks known Compound.withItems 0 := by
  unfold Compound.withItems
  infer_instance

/-- What brackets around all items hold, if there are such. -/
theorem passes_of_bracketedItems {marks : Bool} {ending : Ending} {before after : ParserState}
    {items : List Tree} (hnames : SingleNames before.rest)
    (hknown : Knows [.op .leftParen] before.rest)
    (h : Compound.bracketedItems ending before = .ok (some items) after) :
    Passes marks before.rest (worth items) after.rest := by
  have hitems : Settles marks [.op .leftParen] 0 (do
      advance
      let first ← Compound.withItem
      let more ← commaTail (check (.op .rightParen)) Compound.withItem
      require (.op .rightParen)
      return first :: more) := inferInstance
  have hrun : (do
      advance
      let first ← Compound.withItem
      let more ← commaTail (check (.op .rightParen)) Compound.withItem
      require (.op .rightParen)
      return first :: more) ending before = .ok items after := by
    obtain ⟨_, s₁, h₁, h⟩ := ParserLaw.bind_eq_ok h
    obtain ⟨first, s₂, h₂, h⟩ := ParserLaw.bind_eq_ok h
    obtain ⟨more, s₃, h₃, h⟩ := ParserLaw.bind_eq_ok h
    obtain ⟨_, s₄, h₄, h⟩ := ParserLaw.bind_eq_ok h
    obtain ⟨isColon, s₅, h₅, h⟩ := ParserLaw.bind_eq_ok h
    cases h₅
    rw [ParserLaw.bind_eq, h₁]
    dsimp only
    rw [ParserLaw.bind_eq, h₂]
    dsimp only
    rw [ParserLaw.bind_eq, h₃]
    dsimp only
    rw [ParserLaw.bind_eq, h₄]
    split at h
    · cases h
      rfl
    · cases h
  obtain ⟨entries, hpasses, htotal⟩ := hitems.run hnames hknown hrun
  rwa [htotal, zero_add]

instance (isAsync : Bool) :
    Rule false (.keyword .withKw :: known) (Compound.withStmt block start isAsync) 0 := by
  have hrest : ∀ (line : Nat) (items : List Tree), Settles false [] (worth items) (do
      expect (.op .colon)
      let body ← block .withStmt line
      node (.withStmt isAsync) start (items ++ [body])) := fun _ _ => inferInstance
  constructor
  unfold Compound.withStmt
  dsimp only
  refine settles_bind_looks inferInstance fun line => settles_bind_advance ?_
  refine settles_bind_check (settles_bind_speculate passes_of_bracketedItems ?_ ?_) ?_
  · intro items
    exact settles_bind_makes inferInstance (inferInstance : Pays (0 + worth items) (worth items) 0)
      (fun items => settles_of_eq (hrest line items) (zero_add _))
  · infer_instance
  · rw [if_neg Bool.false_ne_true]
    exact (inferInstance : Settles false known 0 (do
      let items ← Compound.withItems
      expect (.op .colon)
      let body ← block .withStmt line
      node (.withStmt isAsync) start (items ++ [body])))

/-! ### Definitions -/

instance : Rule false known Compound.typeParam 0 := by
  have hnamed : ∀ start : Position, Settles false [] 0 (do
      let name ← expectName
      let bound ← do if ← eat (.op .colon) then pure [← Level.top.expression] else pure []
      let default ← do if ← eat (.op .equal) then pure [← Level.top.expression] else pure []
      node (.typeParam name) start (bound ++ default)) := by
    intro start
    dsimp only
    refine settles_bind Rule.settles inferInstance fun name => ?_
    refine settles_bind_worthless Rule.settles fun hasBound => ?_
    split <;> infer_instance
  constructor
  unfold Compound.typeParam
  refine settles_bind_looks inferInstance fun start => ?_
  refine settles_bind_worthless Rule.settles fun isStar => ?_
  split
  · exact settles_bind_worthless Rule.settles fun _ => hnamed start
  · exact hnamed start

instance : Rule false known Compound.typeParams 0 := by
  unfold Compound.typeParams
  infer_instance

instance (decorators : List Tree) (isAsync : Bool) (x : Multiset Entry) [Total decorators x] :
    Rule false (.keyword .defKw :: known) (Compound.functionDef block decorators start isAsync)
      x := by
  constructor
  unfold Compound.functionDef
  dsimp only
  refine settles_bind_looks inferInstance fun line => settles_bind_advance ?_
  refine settles_bind Rule.settles inferInstance fun name => ?_
  refine settles_bind Rule.settles inferInstance fun types => ?_
  refine settles_bind_worthless Rule.settles fun _ => ?_
  refine settles_bind Rule.settles inferInstance fun parameters => ?_
  refine settles_bind_worthless Rule.settles fun _ => ?_
  refine settles_bind_worthless Rule.settles fun hasResult => ?_
  split <;> infer_instance

instance : Rule false known Compound.classArguments 0 := by
  unfold Compound.classArguments
  infer_instance

instance (decorators : List Tree) (x : Multiset Entry) [Total decorators x] :
    Rule false (.keyword .classKw :: known) (Compound.classDef block decorators start) x := by
  constructor
  unfold Compound.classDef
  refine settles_bind_looks inferInstance fun line => settles_bind_advance ?_
  refine settles_bind Rule.settles inferInstance fun name => ?_
  refine settles_bind Rule.settles inferInstance fun types => ?_
  infer_instance

instance : Rule false (.op .atSign :: known) Compound.decorator 0 := by
  unfold Compound.decorator
  infer_instance

instance : Rule false known (Compound.decorated block) 0 := by
  constructor
  unfold Compound.decorated
  refine settles_bind_looks inferInstance fun start => ?_
  refine settles_bind Rule.settles (Pays.self 0) fun decorators => ?_
  refine settles_bind_peek fun first => settles_bind_second fun second => ?_
  split <;> infer_instance

instance : Rule false (.keyword .asyncKw :: known) (Compound.asyncStmt block start) 0 := by
  constructor
  unfold Compound.asyncStmt
  refine settles_bind_advance (settles_bind_peek fun kind => ?_)
  split <;> infer_instance

/-! ### Match -/

instance : Rule false known Compound.asPattern 0 := by
  unfold Compound.asPattern
  infer_instance

instance : Looks Compound.endsPattern := by
  unfold Compound.endsPattern
  infer_instance

instance : Rule false known Compound.patterns 0 := by
  unfold Compound.patterns
  infer_instance

/-- The next token is a name with this text. -/
def NextWord (text : String) (tokens : List Token) : Prop :=
  ∃ token rest, tokens = token :: rest ∧ token.kind = .name ∧ token.lexeme = text

theorem nextWord_of_check {text : String} {ending : Ending} {before after : ParserState}
    (h : checkWord text ending before = .ok true after) : NextWord text before.rest := by
  unfold checkWord at h
  have hword := (Outcome.ok.inj h).1
  cases hrest : before.rest with
  | nil =>
    rw [hrest] at hword
    cases hword
  | cons token rest =>
    rw [hrest] at hword
    obtain ⟨hkind, hlexeme⟩ := Bool.and_eq_true_iff.1 hword
    exact ⟨token, rest, rfl, eq_of_beq hkind, eq_of_beq hlexeme⟩

/-- A word that is no keyword elsewhere is taken. -/
theorem passes_of_nextWord {marks : Bool} {text : String} {ending : Ending}
    {before after : ParserState} (hword : NextWord text before.rest)
    (h : advance ending before = .ok () after) :
    Passes marks before.rest (worth text) after.rest := by
  obtain ⟨token, rest, hrest, hkind, rfl⟩ := hword
  have hsingle : token.kind ≠ .string := by simp [hkind]
  have hpasses := passes_one marks hsingle rest
  rw [← hrest, ← rest_of_advance hrest h] at hpasses
  simpa [tally, hkind, worth] using hpasses

theorem passes_of_caseClause {ending : Ending} {before after : ParserState} {t : Tree}
    (hnames : SingleNames before.rest) (hword : NextWord "case" before.rest)
    (h : Compound.caseClause block ending before = .ok t after) :
    Passes false before.rest (worth t) after.rest := by
  have hrest : ∀ start : Position, Settles false [] (worth "case") (do
      let pattern ← Compound.patterns
      let guard ← do if ← eat (.keyword .ifKw) then pure [← Expression.named .top] else pure []
      expect (.op .colon)
      let body ← block .caseClause start.line
      node .matchCase start ([pattern] ++ guard ++ [body])) := by
    intro start
    dsimp only
    refine settles_bind Rule.settles inferInstance fun pattern => ?_
    refine settles_bind_worthless Rule.settles fun hasGuard => ?_
    split <;> infer_instance
  obtain ⟨start, _, hstart, h⟩ := ParserLaw.bind_eq_ok h
  cases hstart
  obtain ⟨_, mid, hadvance, h⟩ := ParserLaw.bind_eq_ok h
  have hcase : Passes false before.rest _ mid.rest := passes_of_nextWord hword hadvance
  obtain ⟨entries, hmore, htotal⟩ := (hrest _).run (hnames.mono hcase.suffix) trivial h
  rw [htotal]
  exact hcase.trans hmore

instance : Settles false known 0 (Compound.cases block) := by
  have hitem : Settles false [] 0 (do
      if (← check .dedent) || (← atEnd) then return none
      else if ← check .indent then failHere .unexpectedIndent
      else if ← checkWord "case" then return some (← Compound.caseClause block)
      else failHere .invalidSyntax) := by
    refine settles_bind_looks inferInstance fun closed => ?_
    refine settles_bind_looks inferInstance fun ended => ?_
    split
    · infer_instance
    refine settles_bind_looks inferInstance fun indented => ?_
    split
    · infer_instance
    constructor
    intro ending before found after hnames _ hok
    obtain ⟨isCase, mid, hword, hbody⟩ := ParserLaw.bind_eq_ok hok
    obtain rfl := Looks.eq hword
    split at hbody
    · next hfound =>
      rw [hfound] at hword
      obtain ⟨t, last, hclause, hbody⟩ := ParserLaw.bind_eq_ok hbody
      cases hbody
      exact ⟨_, passes_of_caseClause hnames (nextWord_of_check hword) hclause, (zero_add _).symm⟩
    · exact absurd hbody failHere_ne_ok
  unfold Compound.cases
  infer_instance

theorem settles_matchRest (block : Compound.BlockParser) [OfBlock block] (start : Position)
    (subject : Tree) :
    Settles false [.op .colon, .newline] (worth "match" + worth subject)
      (Compound.matchRest block start subject) := by
  unfold Compound.matchRest
  infer_instance

/-- What a match statement reads before its block, if it is one. -/
theorem passes_of_matchSubject {ending : Ending} {before after : ParserState} {subject : Tree}
    (hnames : SingleNames before.rest) (hword : NextWord "match" before.rest)
    (h : Compound.matchSubject ending before = .ok (some subject) after) :
    Passes marks before.rest (worth "match" + worth subject) after.rest ∧
      Knows [.op .colon, .newline] after.rest := by
  obtain ⟨_, mid, hadvance, h⟩ := ParserLaw.bind_eq_ok h
  have hmatch : Passes marks before.rest _ mid.rest := passes_of_nextWord hword hadvance
  obtain ⟨found, next, hsubject, h⟩ := ParserLaw.bind_eq_ok h
  have hlist : Settles marks [] 0 (Expression.starNamedList .top) := inferInstance
  obtain ⟨entries, hmore, htotal⟩ := hlist.run (hnames.mono hmatch.suffix) trivial hsubject
  obtain ⟨isColon, _, hcolon, h⟩ := ParserLaw.bind_eq_ok h
  cases hcolon
  obtain ⟨second, _, hsecond, h⟩ := ParserLaw.bind_eq_ok h
  cases hsecond
  split at h
  · next hboth =>
    cases h
    obtain ⟨hfirst, hnext⟩ := Bool.and_eq_true_iff.1 hboth
    rw [htotal, zero_add]
    refine ⟨hmatch.trans hmore, eq_of_beq hfirst, ?_, trivial⟩
    rw [List.getElem?_tail]
    exact eq_of_beq hnext
  · cases h

/-- A line that starts with the word `match`, or with anything that is no keyword. -/
theorem settles_matchLine (block : Compound.BlockParser) [OfBlock block]
    (known : List TokenKind) : Settles false known 0 (do
    if ← checkWord "match" then
      match ← Compound.matchStmt block with
      | some t => return [t]
      | none => Simple.line
    else Simple.line) := by
  have hline : Settles false [] 0 Simple.line := inferInstance
  constructor
  intro ending before ts after hnames hknown hok
  obtain ⟨isMatch, mid, hcheck, hbody⟩ := ParserLaw.bind_eq_ok hok
  obtain rfl := Looks.eq hcheck
  split at hbody
  · next hfound =>
    rw [hfound] at hcheck
    obtain ⟨found, next, hmatch, hbody⟩ := ParserLaw.bind_eq_ok hbody
    obtain ⟨start, _, hstart, hmatch⟩ := ParserLaw.bind_eq_ok hmatch
    cases hstart
    obtain ⟨subject, last, hspeculate, hmatch⟩ := ParserLaw.bind_eq_ok hmatch
    unfold speculate at hspeculate
    split at hspeculate
    · next subject _ hrun =>
      cases hspeculate
      obtain ⟨hsubject, hknows⟩ :=
        passes_of_matchSubject hnames (nextWord_of_check hcheck) hrun
      obtain ⟨t, _, hrest, hmatch⟩ := ParserLaw.bind_eq_ok hmatch
      cases hmatch
      cases hbody
      obtain ⟨entries, hmore, htotal⟩ :=
        (settles_matchRest block _ subject).run (hnames.mono hsubject.suffix) hknows hrest
      refine ⟨_, hsubject.trans hmore, ?_⟩
      rw [zero_add, ← htotal]
      exact add_zero _
    · cases hspeculate
      cases hmatch
      exact hline.run hnames trivial hbody
  · exact hline.run hnames trivial hbody

/-! ### Statements and blocks -/

instance : Rule false known (Compound.statementWith block) 0 := by
  constructor
  unfold Compound.statementWith
  refine settles_bind_looks inferInstance fun start => settles_bind_peek fun kind => ?_
  have := settles_matchLine block [kind]
  split <;> infer_instance

instance (statement : Parser (List Tree)) [Settles false [] 0 statement] (construct : Construct)
    (line : Nat) : Rule false known (Compound.blockOf statement construct line) 0 := by
  constructor
  unfold Compound.blockOf
  refine settles_bind_looks inferInstance fun start => ?_
  infer_instance

end Compound

theorem settles_statement (room : Nat) : Settles false [] 0 (Compound.statement room) := by
  induction room with
  | zero =>
    have hfail : Settles false [] 0 (failHere .invalidSyntax : Parser (List Tree)) := inferInstance
    exact hfail
  | succ room ih =>
    have : OfBlock (Compound.blockOf (Compound.statement room)) := ⟨fun _ _ => Rule.settles⟩
    exact (inferInstance : Settles false [] 0
      (Compound.statementWith (Compound.blockOf (Compound.statement room))))

theorem settles_statements (room : Nat) : Settles false [] 0 (Module.statements room) := by
  have := settles_statement room
  unfold Module.statements
  infer_instance

end SnippetLint.Ledger
