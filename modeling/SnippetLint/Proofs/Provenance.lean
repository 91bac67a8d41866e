import SnippetLint.Proofs.Spans

/-!
Where the parts of a tree come from. A node starts where a token starts and stops where one stops,
a fault is reported where a token starts or where the tokens end, a block can only be empty if an
indent is followed by a dedent at once, and what is starred in a slice starts where the slice does.
`Keeps` says so of a parser, for all it may be given: it is a class like `ParserLaw.Follows`, with
`Holds` for the values that go from one parser to the next. Here are the instances for the parts
that all rules share, and for targets and patterns; the rules follow in `ProvenanceGrammar`.
-/

namespace SnippetLint.Provenance
open SnippetLint.Parser SnippetLint.Spans SnippetLint.Derivation

/-- The tokens that a grammar is given, and what stands after them. -/
structure Input where
  tokens : List Token
  ending : Ending

namespace Input

variable (input : Input)

/-- Where a token starts, or where the tokens end. -/
def IsStart (p : Position) : Prop :=
  p = input.ending.position ∨ ∃ token ∈ input.tokens, p = token.span.start

/-- Where a token stops, or where the tokens end. -/
def IsStop (p : Position) : Prop :=
  p = input.ending.position ∨ ∃ token ∈ input.tokens, p = token.span.stop

structure IsSpan (span : Span) : Prop where
  start : input.IsStart span.start
  stop : input.IsStop span.stop

/-- Whether an indent is followed by a dedent at once. -/
def Hollow : Prop :=
  ∃ before indent dedent after, input.tokens = before ++ indent :: dedent :: after ∧
    indent.kind = .indent ∧ dedent.kind = .dedent

/-- A state of a parser that reads these tokens. -/
structure Reaches (state : ParserState) : Prop where
  rest : state.rest <:+ input.tokens
  lastStop : input.IsStop state.lastStop

variable {input} {state : ParserState}

theorem Reaches.withDepth (h : input.Reaches state) (depth : Nat) :
    input.Reaches { state with depth } := ⟨h.rest, h.lastStop⟩

theorem Reaches.withInPattern (h : input.Reaches state) (inPattern : Bool) :
    input.Reaches { state with inPattern } := ⟨h.rest, h.lastStop⟩

end Input

/-- The names that an import takes. -/
def aliasesOf : NodeKind → List Alias
  | .importStmt names | .importFrom _ _ names => names
  | _ => []

/-- What is starred among these trees starts here. -/
def StarsStart (start : Position) (ts : List Tree) : Prop :=
  ∀ t ∈ ts, t.kind.isStarred = true → t.span.start = start

theorem StarsStart.append {start : Position} {ts us : List Tree} (hts : StarsStart start ts)
    (hus : StarsStart start us) : StarsStart start (ts ++ us) :=
  List.forall_mem_append.2 ⟨hts, hus⟩

/-- What is true of a node that was made from these tokens. -/
structure IsNode (input : Input) (t : Tree) : Prop where
  span : input.IsSpan t.span
  aliases : ∀ name ∈ aliasesOf t.kind, input.IsSpan name.span
  block : t.kind = .block → t.children = [] → input.Hollow
  cases : t.kind = .matchStmt → (∀ child ∈ t.children, child.kind ≠ .matchCase) → input.Hollow
  slice : t.kind = .slice → StarsStart t.span.start t.children

/-- A tree all of whose nodes were made from these tokens. -/
def Made (input : Input) (t : Tree) : Prop := ∀ part, Part t part → IsNode input part

theorem Made.self {input : Input} {t : Tree} (h : Made input t) : IsNode input t := h t (.self t)

theorem Made.children {input : Input} {t : Tree} (h : Made input t) :
    ∀ child ∈ t.children, Made input child :=
  fun _ hchild part hpart => h part (.child hchild hpart)

theorem made_of_children {input : Input} {t : Tree} (hnode : IsNode input t)
    (hchildren : ∀ child ∈ t.children, Made input child) : Made input t := by
  intro part hpart
  cases hpart with
  | self => exact hnode
  | child isChild inside => exact hchildren _ isChild part inside

/-! ## Values -/

/-- Types of values that parsers hand on, with what is true of those that come from the tokens. -/
class Value (α : Type) where
  Holds : Input → α → Prop

/-- A value that comes from the tokens. -/
class Holds (input : Input) [Value α] (a : α) : Prop where
  holds : Value.Holds input a

/-- Values in which no place stands. -/
class Placeless (α : Type) where

instance : Placeless Unit := ⟨⟩

instance : Placeless Bool := ⟨⟩

instance : Placeless Nat := ⟨⟩

instance : Placeless String := ⟨⟩

instance : Placeless TokenKind := ⟨⟩

instance : Placeless CompareOp := ⟨⟩

variable {α β σ : Type} [Value α] [Value β] [Value σ] (input : Input)

instance [Placeless α] : Value α := ⟨fun _ _ => True⟩

instance : Value Position := ⟨Input.IsStart⟩

instance : Value Span := ⟨Input.IsSpan⟩

instance : Value Alias := ⟨fun input name => input.IsSpan name.span⟩

instance : Value Tree := ⟨Made⟩

instance : Value (List α) := ⟨fun input as => ∀ a ∈ as, Value.Holds input a⟩

instance : Value (Option α) := ⟨fun input a? => ∀ a ∈ a?, Value.Holds input a⟩

instance : Value (α × β) := ⟨fun input pair => Value.Holds input pair.1 ∧ Value.Holds input pair.2⟩

instance : Value Expression.Parameters :=
  ⟨fun input parameters => Value.Holds input parameters.list⟩

instance : Value Expression.Arguments := ⟨fun input arguments => Value.Holds input arguments.list⟩

instance : Value Compound.Handlers := ⟨fun input handlers => Value.Holds input handlers.list⟩

instance [Placeless γ] (a : γ) : Holds input a := ⟨trivial⟩

theorem holds_of_some {a : α} (h : Holds input (some a)) : Holds input a := ⟨h.holds a rfl⟩

/-- What is known of a value goes along with it to where it is used. -/
instance (a : { a : α // Value.Holds input a }) : Holds input a.1 := ⟨a.2⟩

instance (a : α) (b : β) [ha : Holds input a] [hb : Holds input b] : Holds input (a, b) :=
  ⟨ha.holds, hb.holds⟩

instance : Holds input (none : Option α) := ⟨nofun⟩

instance (a : α) [ha : Holds input a] : Holds input (some a) :=
  ⟨fun _ hmem => Option.some.inj hmem ▸ ha.holds⟩

instance : Holds input ([] : List α) := ⟨nofun⟩

instance (a : α) (as : List α) [ha : Holds input a] [has : Holds input as] :
    Holds input (a :: as) := ⟨List.forall_mem_cons.2 ⟨ha.holds, has.holds⟩⟩

instance (as bs : List α) [has : Holds input as] [hbs : Holds input bs] :
    Holds input (as ++ bs) := ⟨List.forall_mem_append.2 ⟨has.holds, hbs.holds⟩⟩

instance (ass : List (List α)) [hass : Holds input ass] : Holds input ass.flatten := by
  constructor
  intro a ha
  obtain ⟨as, has, ha⟩ := List.mem_flatten.1 ha
  exact hass.holds as has a ha

instance (as : List α) [has : Holds input as] : Holds input as.dropLast :=
  ⟨fun a ha => has.holds a (List.dropLast_subset as ha)⟩

instance (as : List α) [has : Holds input as] : Holds input as.getLast?.toList :=
  ⟨fun a ha => has.holds a (List.mem_of_getLast? (Option.mem_toList.1 ha))⟩

instance (pairs : List (α × β)) [hpairs : Holds input pairs] :
    Holds input (pairs.map (·.2)) := by
  constructor
  intro b hb
  obtain ⟨pair, hpair, rfl⟩ := List.mem_map.1 hb
  exact (hpairs.holds pair hpair).2

instance (span : Span) [hspan : Holds input span] : Holds input span.start :=
  ⟨Input.IsSpan.start hspan.holds⟩

instance (name : String) (asName : Option String) (span : Span) [hspan : Holds input span] :
    Holds input (⟨name, asName, span⟩ : Alias) := ⟨hspan.holds⟩

instance (parameters : Expression.Parameters) [h : Holds input parameters] :
    Holds input parameters.list := ⟨h.holds⟩

instance (list : List Tree) (a b c d e : Bool) [h : Holds input list] :
    Holds input (⟨list, a, b, c, d, e⟩ : Expression.Parameters) := ⟨h.holds⟩

instance : Holds input Expression.Parameters.none := ⟨nofun⟩

instance (parameters : Expression.Parameters) (t : Tree) [Holds input parameters]
    [Holds input t] : Holds input (parameters.push t) := by
  unfold Expression.Parameters.push
  infer_instance

instance (arguments : Expression.Arguments) [h : Holds input arguments] :
    Holds input arguments.list := ⟨h.holds⟩

instance (list : List Tree) (a b : Bool) [h : Holds input list] :
    Holds input (⟨list, a, b⟩ : Expression.Arguments) := ⟨h.holds⟩

instance : Holds input Expression.Arguments.none := ⟨nofun⟩

instance (arguments : Expression.Arguments) (t : Tree) [Holds input arguments] [Holds input t] :
    Holds input (arguments.push t) := by
  unfold Expression.Arguments.push
  infer_instance

instance (handlers : Compound.Handlers) [h : Holds input handlers] :
    Holds input handlers.list := ⟨h.holds⟩

instance (list : List Tree) (isStar : Option Bool) [h : Holds input list] :
    Holds input (⟨list, isStar⟩ : Compound.Handlers) := ⟨h.holds⟩

/-! ## Trees -/

/-- Kinds of which only the span matters. -/
@[reducible] def isPlain : NodeKind → Bool
  | .block | .matchStmt | .slice | .importStmt _ | .importFrom _ _ _ => false
  | _ => true

class IsTrue (b : Bool) : Prop where
  eq : b = true

instance : IsTrue true := ⟨rfl⟩

/-- A kind of which only the span matters, as the search finds it by computing. -/
class Plain (kind : NodeKind) : Prop where
  eq : isPlain kind = true

instance (kind : NodeKind) [h : IsTrue (isPlain kind)] : Plain kind := ⟨h.eq⟩

theorem isNode_of_plain {kind : NodeKind} {span : Span} {children : List Tree}
    (hkind : isPlain kind = true) (hspan : input.IsSpan span) :
    IsNode input (.node kind span children) := by
  refine ⟨hspan, ?_, ?_, ?_, ?_⟩
  · unfold aliasesOf
    split
    · next heq => cases heq; cases hkind
    · next heq => cases heq; cases hkind
    · exact nofun
  all_goals
    rintro rfl
    cases hkind

instance (t : Tree) [ht : Holds input t] : Holds input t.span := ⟨(Made.self ht.holds).span⟩

instance (t : Tree) [Holds input t] : Holds input t.start := by
  unfold Tree.start
  infer_instance

instance (kind : NodeKind) [hkind : Plain kind] (span : Span) (children : List Tree)
    [hspan : Holds input span] [hchildren : Holds input children] :
    Holds input (Tree.node kind span children) :=
  ⟨made_of_children (isNode_of_plain input hkind.eq hspan.holds) hchildren.holds⟩

instance (position : Position) [h : Holds input position] :
    Holds input (⟨position, input.ending.position⟩ : Span) := ⟨h.holds, .inl rfl⟩

/-! ## Results -/

/-- A result whose value comes from the tokens, or whose fault is reported where one starts. -/
class Sound (result : Except ParseError α) : Prop where
  ok : ∀ {a}, result = .ok a → Value.Holds input a
  error : ∀ {error}, result = .error error → input.IsStart error.position

instance (a : α) [ha : Holds input a] : Sound input (.ok a) :=
  ⟨fun h => Except.ok.inj h ▸ ha.holds, nofun⟩

instance (a : α) [ha : Holds input a] : Sound input (pure a) :=
  ⟨fun h => Except.ok.inj h ▸ ha.holds, nofun⟩

instance (fault : GrammarFault) (position : Position) [hp : Holds input position] :
    Sound input (.error ⟨fault, position⟩ : Except ParseError α) :=
  ⟨nofun, fun h => Except.error.inj h ▸ hp.holds⟩

instance (result : Except ParseError α) (f : α → Except ParseError β) [hr : Sound input result]
    [hf : ∀ a : { a // Value.Holds input a }, Sound input (f a.1)] :
    Sound input (result >>= f) := by
  cases result with
  | ok a => exact hf ⟨a, hr.ok rfl⟩
  | error error =>
    refine ⟨nofun, fun h => ?_⟩
    cases h
    exact hr.error rfl

instance (c : Prop) [Decidable c] (p q : Except ParseError α) [Sound input p] [Sound input q] :
    Sound input (if c then p else q) := by
  split <;> infer_instance

section Targets

variable {kind : NodeKind} {span : Span} {children : List Tree}

theorem holds_span (h : Holds input (Tree.node kind span children)) : Holds input span :=
  ⟨(Made.self h.holds).span⟩

theorem holds_children (h : Holds input (Tree.node kind span children)) : Holds input children :=
  ⟨Made.children h.holds⟩

mutual

theorem sound_mark (action : TargetAction) : ∀ t : Tree, Holds input t →
    Sound input (Target.mark action t)
  | .node kind span children, ht => by
    have hspan := holds_span input ht
    have hchildren := holds_children input ht
    have hmarked := sound_markAll action children hchildren
    unfold Target.mark
    split <;> next heq =>
      cases heq
      infer_instance

theorem sound_markAll (action : TargetAction) : ∀ ts : List Tree, Holds input ts →
    Sound input (Target.markAll action ts)
  | [], _ => by
    unfold Target.markAll
    infer_instance
  | t :: ts, hts => by
    obtain ⟨hfirst, hrest⟩ := List.forall_mem_cons.1 hts.holds
    have := sound_mark action t ⟨hfirst⟩
    have := sound_markAll action ts ⟨hrest⟩
    unfold Target.markAll
    infer_instance

end

instance (action : TargetAction) (t : Tree) [ht : Holds input t] :
    Sound input (Target.mark action t) := sound_mark input action t ht

instance (action : TargetAction) (ts : List Tree) [hts : Holds input ts] :
    Sound input (Target.markAll action ts) := sound_markAll input action ts hts

instance (t : Tree) [Holds input t] : Sound input (Target.markAugmented t) := by
  unfold Target.markAugmented
  infer_instance

instance (t : Tree) [Holds input t] : Sound input (Target.markAnnotated t) := by
  unfold Target.markAnnotated
  infer_instance

theorem holds_positionalOnly (t : Tree) (ht : Holds input t) :
    Holds input (Expression.positionalOnly t) := by
  unfold Expression.positionalOnly
  split
  · have hspan := holds_span input ht
    have hchildren := holds_children input ht
    infer_instance
  · exact ht

instance (ts : List Tree) [hts : Holds input ts] :
    Holds input (ts.map Expression.positionalOnly) := by
  constructor
  intro u hu
  obtain ⟨t, ht, rfl⟩ := List.mem_map.1 hu
  exact (holds_positionalOnly input t ⟨hts.holds t ht⟩).holds

/-! ## Patterns -/

instance (position : Position) [Holds input position] :
    Sound input (Pattern.invalid position : Except ParseError α) := by
  unfold Pattern.invalid
  infer_instance

theorem holds_of_mem {ts : List Tree} (h : Holds input ts) {t : Tree} (ht : t ∈ ts) :
    Holds input t := ⟨h.holds t ht⟩

instance (items : List Tree) [hitems : Holds input items] :
    Sound input (Pattern.checkSequence items) := by
  unfold Pattern.checkSequence
  split
  · next second _ heq =>
    have hmem : second ∈ items.filter (·.kind.isStarred) := by simp [heq]
    have := holds_of_mem input hitems (List.mem_filter.1 hmem).1
    infer_instance
  · infer_instance

theorem sound_checkArguments (ts : List Tree) (hts : Holds input ts) :
    Sound input (Pattern.checkArguments ts) := by
  induction ts with
  | nil =>
    unfold Pattern.checkArguments
    infer_instance
  | cons t ts ih =>
    have := holds_of_mem input hts List.mem_cons_self
    have := ih ⟨(List.forall_mem_cons.1 hts.holds).2⟩
    unfold Pattern.checkArguments
    split <;> infer_instance

theorem sound_checkEntries (ts : List Tree) (hts : Holds input ts) :
    Sound input (Pattern.checkEntries ts) := by
  fun_induction Pattern.checkEntries ts with
  | case1 => infer_instance
  | case2 span children rest _ => infer_instance
  | case3 span children rest _ =>
    have := holds_span input (holds_of_mem input hts List.mem_cons_self)
    infer_instance
  | case4 => infer_instance
  | case5 key value rest _ ih =>
    have hrest := (List.forall_mem_cons.1 (List.forall_mem_cons.1 hts.holds).2).2
    exact ih ⟨hrest⟩

instance (t : Tree) [ht : Holds input t] : Holds input (Pattern.capture t) := by
  unfold Pattern.capture
  split
  · have := holds_span input ht
    have := holds_children input ht
    infer_instance
  · exact ht

instance (ts : List Tree) [hts : Holds input ts] : Holds input (Pattern.captureFirst ts) := by
  cases ts with
  | nil => exact hts
  | cons t ts =>
    obtain ⟨hfirst, hrest⟩ := List.forall_mem_cons.1 hts.holds
    have : Holds input t := ⟨hfirst⟩
    have : Holds input ts := ⟨hrest⟩
    unfold Pattern.captureFirst
    infer_instance

mutual

theorem sound_bind (slot : Pattern.Slot) : ∀ t : Tree, Holds input t →
    Sound input (Pattern.bind slot t)
  | .node kind span children, ht => by
    have hspan := holds_span input ht
    have hchildren := holds_children input ht
    have hall := fun slot => sound_bindAll slot children hchildren
    have hclass := sound_bindClass children hchildren
    have hentries := sound_bindEntries children hchildren
    have harguments : Sound input (Pattern.checkArguments (children.drop 1)) :=
      sound_checkArguments input _ ⟨fun t ht => hchildren.holds t (List.mem_of_mem_drop ht)⟩
    have hchecked := sound_checkEntries input children hchildren
    unfold Pattern.bind
    split
    · infer_instance
    rw [if_neg Bool.false_ne_true]
    split
    · infer_instance
    split
    · infer_instance
    split
    · infer_instance
    split <;> infer_instance

theorem sound_bindAll (slot : Pattern.Slot) : ∀ ts : List Tree, Holds input ts →
    Sound input (Pattern.bindAll slot ts)
  | [], _ => by
    unfold Pattern.bindAll
    infer_instance
  | t :: ts, hts => by
    obtain ⟨hfirst, hrest⟩ := List.forall_mem_cons.1 hts.holds
    have := sound_bind slot t ⟨hfirst⟩
    have := sound_bindAll slot ts ⟨hrest⟩
    unfold Pattern.bindAll
    infer_instance

theorem sound_bindClass : ∀ ts : List Tree, Holds input ts → Sound input (Pattern.bindClass ts)
  | [], _ => by
    unfold Pattern.bindClass
    infer_instance
  | t :: ts, hts => by
    obtain ⟨hfirst, hrest⟩ := List.forall_mem_cons.1 hts.holds
    have := sound_bind .dotted t ⟨hfirst⟩
    have := sound_bindArguments ts ⟨hrest⟩
    unfold Pattern.bindClass
    infer_instance

theorem sound_bindArguments : ∀ ts : List Tree, Holds input ts →
    Sound input (Pattern.bindArguments ts)
  | [], _ => by
    unfold Pattern.bindArguments
    infer_instance
  | .node kind span children :: ts, hts => by
    obtain ⟨hfirst, hrest⟩ := List.forall_mem_cons.1 hts.holds
    have hspan : Holds input span := holds_span input ⟨hfirst⟩
    have := sound_bind .pattern (.node kind span children) ⟨hfirst⟩
    have := sound_bindAll .pattern children (holds_children input ⟨hfirst⟩)
    have := sound_bindArguments ts ⟨hrest⟩
    unfold Pattern.bindArguments
    split <;> next heq => cases heq <;> infer_instance

theorem sound_bindEntries : ∀ ts : List Tree, Holds input ts →
    Sound input (Pattern.bindEntries ts)
  | [], _ => by
    unfold Pattern.bindEntries
    infer_instance
  | [.node kind span children], hts => by
    have hkey := holds_of_mem input hts List.mem_cons_self
    have hspan := holds_span input hkey
    have hchildren := holds_children input hkey
    have := sound_bindEntries [] inferInstance
    have := sound_bind .mappingKey (.node kind span children) hkey
    unfold Pattern.bindEntries
    split <;> next heq => cases heq <;> infer_instance
  | .node kind span children :: value :: rest, hts => by
    obtain ⟨hkey, htail⟩ := List.forall_mem_cons.1 hts.holds
    obtain ⟨hvalue, hrest⟩ := List.forall_mem_cons.1 htail
    have hspan := holds_span input ⟨hkey⟩
    have hchildren := holds_children input ⟨hkey⟩
    have := sound_bindEntries rest ⟨hrest⟩
    have := sound_bindEntries (value :: rest) ⟨htail⟩
    have := sound_bind .pattern value ⟨hvalue⟩
    have := sound_bind .mappingKey (.node kind span children) ⟨hkey⟩
    unfold Pattern.bindEntries
    split <;> next heq => cases heq <;> infer_instance

end

instance (slot : Pattern.Slot) (t : Tree) [ht : Holds input t] :
    Sound input (Pattern.bind slot t) := sound_bind input slot t ht

end Targets

/-! ## Parsers -/

/-- A parser that, reading these tokens, gives values that come from them and reports its faults
where a token starts. -/
class Keeps (p : Parser α) : Prop where
  run : ∀ {state a next}, input.Reaches state → p input.ending state = .ok a next →
    input.Reaches next ∧ Value.Holds input a
  stop : ∀ {state error next}, input.Reaches state → p input.ending state = .fail error next →
    input.IsStart error.position

/-- A parser that only looks. -/
theorem keeps_of_eq_ok {p : Parser α} (h : ∀ state, input.Reaches state →
    ∃ a, p input.ending state = .ok a state ∧ Value.Holds input a) : Keeps input p := by
  constructor
  · intro state a next hstate hok
    obtain ⟨b, hb, hvalue⟩ := h state hstate
    rw [hb] at hok
    cases hok
    exact ⟨hstate, hvalue⟩
  · intro state error next hstate hfail
    obtain ⟨b, hb, _⟩ := h state hstate
    rw [hb] at hfail
    cases hfail

instance (a : α) [ha : Holds input a] : Keeps input (pure a : Parser α) :=
  keeps_of_eq_ok input fun _ _ => ⟨_, rfl, ha.holds⟩

instance (n : Nat) : Keeps input (peekAt n) := keeps_of_eq_ok input fun _ _ => ⟨_, rfl, trivial⟩

instance : Keeps input peek := keeps_of_eq_ok input fun _ _ => ⟨_, rfl, trivial⟩

instance (kind : TokenKind) : Keeps input (check kind) :=
  keeps_of_eq_ok input fun _ _ => ⟨_, rfl, trivial⟩

instance (word : String) : Keeps input (checkWord word) :=
  keeps_of_eq_ok input fun _ _ => ⟨_, rfl, trivial⟩

instance : Keeps input atEnd := keeps_of_eq_ok input fun _ _ => ⟨_, rfl, trivial⟩

instance : Keeps input lexeme := keeps_of_eq_ok input fun _ _ => ⟨_, rfl, trivial⟩

instance : Keeps input inPattern := keeps_of_eq_ok input fun _ _ => ⟨_, rfl, trivial⟩

instance : Keeps input here := by
  refine keeps_of_eq_ok input fun state hstate => ⟨_, rfl, ?_⟩
  split
  · next token rest hrest =>
    exact .inr ⟨token, hstate.rest.subset (by simp [hrest]), rfl⟩
  · exact .inl rfl

instance (start : Position) [h : Holds input start] : Keeps input (spanFrom start) :=
  keeps_of_eq_ok input fun _ hstate => ⟨_, rfl, h.holds, hstate.lastStop⟩

theorem keeps_node {kind : NodeKind} {start : Position} {children : List Tree}
    (hchildren : Holds input children)
    (h : ∀ stop, input.IsStop stop → IsNode input (.node kind ⟨start, stop⟩ children)) :
    Keeps input (node kind start children) :=
  keeps_of_eq_ok input fun _ hstate =>
    ⟨_, rfl, made_of_children (h _ hstate.lastStop) hchildren.holds⟩

instance (kind : NodeKind) [hkind : Plain kind] (start : Position) (children : List Tree)
    [hstart : Holds input start] [hchildren : Holds input children] :
    Keeps input (node kind start children) :=
  keeps_node input hchildren fun _ hstop => isNode_of_plain input hkind.eq ⟨hstart.holds, hstop⟩

/-- An import, whose names have places too. -/
theorem isNode_import {kind : NodeKind} {names : List Alias} {span : Span} {children : List Tree}
    (hkind : kind = .importStmt names ∨ ∃ module level, kind = .importFrom module level names)
    (hnames : Holds input names) (hspan : input.IsSpan span) :
    IsNode input (.node kind span children) := by
  rcases hkind with rfl | ⟨module, level, rfl⟩
  · exact ⟨hspan, hnames.holds, nofun, nofun, nofun⟩
  · exact ⟨hspan, hnames.holds, nofun, nofun, nofun⟩

instance (names : List Alias) [hnames : Holds input names] (start : Position)
    [hstart : Holds input start] : Keeps input (node (.importStmt names) start []) :=
  keeps_node input inferInstance fun _ hstop =>
    isNode_import input (.inl rfl) hnames ⟨hstart.holds, hstop⟩

instance (module : Option String) (level : Nat) (names : List Alias) [hnames : Holds input names]
    (start : Position) [hstart : Holds input start] :
    Keeps input (node (.importFrom module level names) start []) :=
  keeps_node input inferInstance fun _ hstop =>
    isNode_import input (.inr ⟨module, level, rfl⟩) hnames ⟨hstart.holds, hstop⟩

/-! ## Sequences -/

theorem keeps_bind {p : Parser α} {f : α → Parser β} (hp : Keeps input p)
    (hf : ∀ a, Holds input a → Keeps input (f a)) : Keeps input (p >>= f) := by
  constructor
  · intro state b last hstate h
    obtain ⟨a, next, hfirst, h⟩ := ParserLaw.bind_eq_ok h
    obtain ⟨hnext, ha⟩ := hp.run hstate hfirst
    exact (hf a ⟨ha⟩).run hnext h
  · intro state error last hstate h
    rw [ParserLaw.bind_eq] at h
    split at h
    · next a next hfirst =>
      obtain ⟨hnext, ha⟩ := hp.run hstate hfirst
      exact (hf a ⟨ha⟩).stop hnext h
    · next hfirst =>
      cases h
      exact hp.stop hstate hfirst

instance (p : Parser α) (f : α → Parser β) [hp : Keeps input p]
    [hf : ∀ a : { a // Value.Holds input a }, Keeps input (f a.1)] : Keeps input (p >>= f) :=
  keeps_bind input hp fun a ha => hf ⟨a, ha.holds⟩

instance (priority := high) (p : Parser Unit) (f : Unit → Parser β) [hp : Keeps input p]
    [hf : Keeps input (f ())] : Keeps input (p >>= f) := keeps_bind input hp fun _ _ => hf

instance (priority := high) (p : Parser Bool) (q r : Parser β) [hp : Keeps input p]
    [hq : Keeps input q] [hr : Keeps input r] :
    Keeps input (p >>= fun found => if found = true then q else r) := by
  refine keeps_bind input hp fun found _ => ?_
  split
  · exact hq
  · exact hr

instance (c : Prop) [Decidable c] (p q : Parser α) [Keeps input p] [Keeps input q] :
    Keeps input (if c then p else q) := by
  split <;> infer_instance

instance (p : Parser α) [Keeps input p] : Keeps input (some <$> p) := by
  show Keeps input (p >>= fun a => pure (some a))
  infer_instance

instance (p : Parser α) [Keeps input p] : Keeps input (discard p) := by
  show Keeps input (p >>= fun _ => pure ())
  infer_instance

/-! ## Faults -/

instance (fault : GrammarFault) (position : Position) [hp : Holds input position] :
    Keeps input (failAt fault position : Parser α) := by
  constructor
  · intro state a next _ h
    exact absurd h failAt_ne_ok
  · intro state error next _ h
    unfold failAt at h
    split at h
    · cases h
      exact .inl rfl
    · cases h
      exact hp.holds

instance (fault : GrammarFault) : Keeps input (failHere fault : Parser α) := by
  unfold failHere
  infer_instance

instance (result : Except ParseError α) [hr : Sound input result] :
    Keeps input (Parser.ofExcept result) := by
  cases result with
  | ok a =>
    have ha : Holds input a := ⟨hr.ok rfl⟩
    unfold Parser.ofExcept
    infer_instance
  | error error =>
    have hp : Holds input error.position := ⟨hr.error rfl⟩
    unfold Parser.ofExcept
    infer_instance

/-! ## Taking tokens -/

instance : Keeps input advance := by
  constructor
  · intro state a next hstate h
    unfold advance at h
    split at h
    · next token rest hrest =>
      cases h
      have hsuffix : token :: rest <:+ input.tokens := hrest ▸ hstate.rest
      refine ⟨⟨(List.suffix_cons token rest).trans hsuffix, ?_⟩, trivial⟩
      exact .inr ⟨token, hsuffix.subset List.mem_cons_self, rfl⟩
    · cases h
      exact ⟨hstate, trivial⟩
  · intro state error next _ h
    unfold advance at h
    split at h <;> cases h

instance (kind : TokenKind) : Keeps input (eat kind) := by
  unfold eat
  infer_instance

instance (kind : TokenKind) : Keeps input (expect kind) := by
  unfold expect
  infer_instance

instance (kind : TokenKind) : Keeps input (require kind) := by
  unfold require
  infer_instance

instance : Keeps input word := by
  unfold word
  infer_instance

instance : Keeps input expectName := by
  unfold expectName
  infer_instance

/-! ## Control -/

instance (p : Parser α) [hp : Keeps input p] : Keeps input (nested p) := by
  have hdeep : Keeps input (failHere .tooDeeplyNested : Parser α) := inferInstance
  constructor
  · intro state a next hstate h
    unfold nested at h
    split at h
    · exact hdeep.run hstate h
    · split at h
      · next hrun =>
        cases h
        obtain ⟨hnext, ha⟩ := hp.run (hstate.withDepth _) hrun
        exact ⟨hnext.withDepth _, ha⟩
      · cases h
  · intro state error next hstate h
    unfold nested at h
    split at h
    · exact hdeep.stop hstate h
    · split at h
      · cases h
      · next hstop =>
        cases h
        exact hp.stop (hstate.withDepth _) hstop

instance (p : Parser α) [hp : Keeps input p] : Keeps input (withinPattern p) := by
  constructor
  · intro state a next hstate h
    unfold withinPattern at h
    split at h
    · next hrun =>
      cases h
      obtain ⟨hnext, ha⟩ := hp.run (hstate.withInPattern _) hrun
      exact ⟨hnext.withInPattern _, ha⟩
    · cases h
  · intro state error next hstate h
    unfold withinPattern at h
    split at h
    · cases h
    · next hstop =>
      cases h
      exact hp.stop (hstate.withInPattern _) hstop

instance (p : Parser (Option α)) [hp : Keeps input p] : Keeps input (speculate p) := by
  constructor
  · intro state a next hstate h
    unfold speculate at h
    split at h
    · next hrun =>
      cases h
      exact hp.run hstate hrun
    · cases h
      exact ⟨hstate, nofun⟩
  · intro state error next _ h
    unfold speculate at h
    split at h <;> cases h

/-! ## Loops -/

theorem keeps_manyWithin {item : Parser (Option α)} (hitem : Keeps input item) (fuel : Nat) :
    Keeps input (manyWithin item fuel) := by
  induction fuel with
  | zero =>
    unfold manyWithin
    infer_instance
  | succ fuel ih =>
    unfold manyWithin
    refine keeps_bind input hitem fun result hresult => ?_
    split
    · next a =>
      have ha := holds_of_some input hresult
      infer_instance
    · infer_instance

instance (item : Parser (Option α)) [hitem : Keeps input item] : Keeps input (many item) :=
  ⟨fun hstate h => (keeps_manyWithin input hitem _).run hstate h,
    fun hstate h => (keeps_manyWithin input hitem _).stop hstate h⟩

theorem keeps_iterateWithin {step : σ → Parser (σ × Bool)}
    (hstep : ∀ s, Holds input s → Keeps input (step s)) (fuel : Nat) (s : σ)
    (hs : Holds input s) : Keeps input (iterateWithin step fuel s) := by
  induction fuel generalizing s with
  | zero =>
    unfold iterateWithin
    infer_instance
  | succ fuel ih =>
    unfold iterateWithin
    refine keeps_bind input (hstep s hs) fun result hresult => ?_
    obtain ⟨s, again⟩ := result
    have hs : Holds input s := ⟨hresult.holds.1⟩
    have := ih s hs
    infer_instance

instance (step : σ → Parser (σ × Bool)) (s : σ) [hs : Holds input s]
    [hstep : ∀ s : { s // Value.Holds input s }, Keeps input (step s.1)] :
    Keeps input (iterate step s) :=
  have hstep := fun s (hs : Holds input s) => hstep ⟨s, hs.holds⟩
  ⟨fun hstate h => (keeps_iterateWithin input hstep _ s hs).run hstate h,
    fun hstate h => (keeps_iterateWithin input hstep _ s hs).stop hstate h⟩

instance (stop : Parser Bool) (item : Parser α) [Keeps input stop] [Keeps input item] :
    Keeps input (commaTail stop item) := by
  unfold commaTail
  infer_instance

instance (stop : Parser Bool) (item : Parser Tree) [Keeps input stop] [Keeps input item] :
    Keeps input (tupleOf stop item) := by
  unfold tupleOf
  infer_instance

/-! ## States of which more is known -/

/-- A parser that keeps to the tokens where it is run in such a state. -/
structure KeepsFrom (before : ParserState → Prop) (p : Parser α) : Prop where
  run : ∀ {state a next}, input.Reaches state → before state →
    p input.ending state = .ok a next → input.Reaches next ∧ Value.Holds input a
  stop : ∀ {state error next}, input.Reaches state → before state →
    p input.ending state = .fail error next → input.IsStart error.position

section From

variable {before : ParserState → Prop}

theorem KeepsFrom.keeps {p : Parser α} (hp : KeepsFrom input (fun _ => True) p) : Keeps input p :=
  ⟨fun hstate h => hp.run hstate trivial h, fun hstate h => hp.stop hstate trivial h⟩

/-- What is known of the state may be needed for all that follows. -/
theorem Keeps.restrict {p : Parser α} (hp : ∀ state, before state → Keeps input p) :
    KeepsFrom input before p :=
  ⟨fun hstate hbefore h => (hp _ hbefore).run hstate h,
    fun hstate hbefore h => (hp _ hbefore).stop hstate h⟩

theorem keepsFrom_bind {p : Parser α} {f : α → Parser β} (middle : α → ParserState → Prop)
    (hp : Keeps input p)
    (hmiddle : ∀ {state a next}, input.Reaches state → before state →
      p input.ending state = .ok a next → middle a next)
    (hf : ∀ a, Holds input a → KeepsFrom input (middle a) (f a)) :
    KeepsFrom input before (p >>= f) := by
  constructor
  · intro state b last hstate hbefore h
    obtain ⟨a, next, hfirst, h⟩ := ParserLaw.bind_eq_ok h
    obtain ⟨hnext, ha⟩ := hp.run hstate hfirst
    exact (hf a ⟨ha⟩).run hnext (hmiddle hstate hbefore hfirst) h
  · intro state error last hstate hbefore h
    rw [ParserLaw.bind_eq] at h
    split at h
    · next a next hfirst =>
      obtain ⟨hnext, ha⟩ := hp.run hstate hfirst
      exact (hf a ⟨ha⟩).stop hnext (hmiddle hstate hbefore hfirst) h
    · next hfirst =>
      cases h
      exact hp.stop hstate hfirst

end From

end SnippetLint.Provenance
