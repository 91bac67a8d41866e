import SnippetLint.Proofs.ScriptGrammar
import SnippetLint.Proofs.Shapes
import SnippetLint.Proofs.Termination

/-!
The depth of nesting and the pattern flag. Levels and patterns are opened and closed in pairs, also
where an error leaves from deep inside or an attempt is given up: this is shown of every script, and
so it holds of every rule of the grammar. Main statement: `nesting_ends_with_rule`.

That captures stand only in case patterns can also be seen in the trees, by the shapes of phrases
that are no patterns.
-/

namespace SnippetLint.Nesting
open SnippetLint.Parser SnippetLint.Derivation SnippetLint.Shapes SnippetLint.Contexts

/-! ## Runs that close what they open -/

/-- A state as deep as another one, and inside of a pattern just if that one is. -/
structure Returns (state next : ParserState) : Prop where
  depth_eq : next.depth = state.depth
  inPattern_eq : next.inPattern = state.inPattern

/-- What may be visited in a run from a state. -/
structure Proper (extent : Extent) (state : ParserState) (visit : Visit) : Prop where
  depth_le : state.depth ≤ visit.state.depth
  le_maxNesting : state.depth ≤ maxNesting → visit.state.depth ≤ maxNesting
  /-- Statements begin outside of all that the run has opened. -/
  begins : visit.begins = true → extent = .statements ∧ Returns state visit.state
  inPattern : visit.state.inPattern = true →
    state.inPattern = true ∨ visit.inCase = true ∨ extent = .pattern

/-- A run that closes what it has opened, whatever it ends in. -/
structure Closes (extent : Extent) (state : ParserState) (run : Run α) : Prop where
  returns : Returns state run.outcome.state
  proper : ∀ visit ∈ run.visits, Proper extent state visit

variable {extent : Extent} {ending : Ending} {state next : ParserState} {visit : Visit}

theorem Returns.refl (state : ParserState) : Returns state state := ⟨rfl, rfl⟩

theorem Returns.trans {last : ParserState} (h : Returns state next) (h' : Returns next last) :
    Returns state last :=
  ⟨h'.depth_eq.trans h.depth_eq, h'.inPattern_eq.trans h.inPattern_eq⟩

theorem proper_self : Proper extent state { state } where
  depth_le := Nat.le_refl _
  le_maxNesting := id
  begins := nofun
  inPattern := .inl

theorem Proper.after (h : Proper extent next visit) (hreturns : Returns state next) :
    Proper extent state visit where
  depth_le := hreturns.depth_eq ▸ h.depth_le
  le_maxNesting := hreturns.depth_eq ▸ h.le_maxNesting
  begins hbegins := (h.begins hbegins).imp_right hreturns.trans
  inPattern := hreturns.inPattern_eq ▸ h.inPattern

/-- One level deeper, where no statement begins. -/
theorem Proper.nested (h : Proper .expression { state with depth := state.depth + 1 } visit)
    (hdepth : state.depth < maxNesting) : Proper extent state visit where
  depth_le := Nat.le_of_succ_le h.depth_le
  le_maxNesting _ := h.le_maxNesting hdepth
  begins hbegins := nomatch (h.begins hbegins).1
  inPattern hpattern := (h.inPattern hpattern).imp_right (Or.imp_right nofun)

theorem Proper.withinPattern (h : Proper .expression { state with inPattern := true } visit) :
    Proper .pattern state visit where
  depth_le := h.depth_le
  le_maxNesting := h.le_maxNesting
  begins hbegins := nomatch (h.begins hbegins).1
  inPattern _ := .inr (.inr rfl)

theorem Proper.casePattern (h : Proper .pattern state visit) :
    Proper .statements state { visit with inCase := true } where
  depth_le := h.depth_le
  le_maxNesting := h.le_maxNesting
  begins hbegins := nomatch (h.begins hbegins).1
  inPattern _ := .inr (.inl rfl)

namespace Closes

theorem step {p : Parser α} (h : Returns state (p ending state).state) :
    Closes extent state (Tracer.step p ending state) :=
  ⟨h, List.forall_mem_singleton.2 proper_self⟩

theorem advance : Closes extent state (Tracer.step Parser.advance ending state) := by
  refine step ?_
  cases hadvance : Parser.advance ending state with
  | ok value next =>
    have hmoves := Derivation.moves_of_advance hadvance
    exact ⟨hmoves.depth, hmoves.inPattern⟩
  | fail error next =>
    unfold Parser.advance at hadvance
    split at hadvance <;> cases hadvance

theorem failAt (fault : GrammarFault) (position : Position) :
    Closes extent state (Tracer.step (Parser.failAt fault position : Parser α) ending state) := by
  refine step ?_
  unfold Parser.failAt
  split <;> exact .refl state

theorem pure (a : α) : Closes extent state ((Pure.pure a : Tracer α) ending state) :=
  ⟨.refl state, List.forall_mem_nil _⟩

theorem bind {m : Tracer α} {f : α → Tracer β} (hm : Closes extent state (m ending state))
    (hf : ∀ a next, Closes extent next (f a ending next)) :
    Closes extent state ((m >>= f) ending state) := by
  obtain ⟨hreturns, hproper⟩ := hm
  cases hfirst : (m ending state).outcome with
  | fail error next =>
    rw [hfirst] at hreturns
    rw [Tracer.bind_of_fail hfirst]
    exact ⟨hreturns, hproper⟩
  | ok a next =>
    rw [hfirst] at hreturns
    rw [Tracer.bind_of_ok hfirst]
    obtain ⟨hlast, hlater⟩ := hf a next
    refine ⟨hreturns.trans hlast, List.forall_mem_append.2 ⟨hproper, fun visit hvisit => ?_⟩⟩
    exact (hlater visit hvisit).after hreturns

theorem nested {m : Tracer α}
    (hm : ∀ state, Closes .expression state (m ending state)) :
    Closes extent state (Tracer.nested m ending state) := by
  unfold Tracer.nested
  split
  · exact failAt _ _
  · next hdepth =>
    obtain ⟨⟨hdeeper, hpattern⟩, hproper⟩ := hm { state with depth := state.depth + 1 }
    have hvisits : ∀ visit ∈ (m ending { state with depth := state.depth + 1 }).visits,
        Proper extent state visit :=
      fun visit hvisit => (hproper visit hvisit).nested (Nat.not_le.1 hdepth)
    dsimp only
    generalize (m ending { state with depth := state.depth + 1 }).outcome = outcome
      at hdeeper hpattern
    -- the level is closed after a value and after an error
    cases outcome with
    | ok a next => exact ⟨⟨congrArg (· - 1) hdeeper, hpattern⟩, hvisits⟩
    | fail error next => exact ⟨⟨congrArg (· - 1) hdeeper, hpattern⟩, hvisits⟩

theorem withinPattern {m : Tracer α}
    (hm : ∀ state, Closes .expression state (m ending state)) :
    Closes .pattern state (Tracer.withinPattern m ending state) := by
  obtain ⟨⟨hdepth, _⟩, hproper⟩ := hm { state with inPattern := true }
  have hvisits : ∀ visit ∈ (m ending { state with inPattern := true }).visits,
      Proper .pattern state visit := fun visit hvisit => (hproper visit hvisit).withinPattern
  unfold Tracer.withinPattern
  dsimp only
  generalize (m ending { state with inPattern := true }).outcome = outcome at hdepth
  cases outcome with
  | ok a next => exact ⟨⟨hdepth, rfl⟩, hvisits⟩
  | fail error next => exact ⟨⟨hdepth, rfl⟩, hvisits⟩

theorem speculate {m : Tracer (Option α)} (hm : Closes extent state (m ending state)) :
    Closes extent state (Tracer.speculate m ending state) := by
  obtain ⟨hreturns, hproper⟩ := hm
  unfold Tracer.speculate
  dsimp only
  generalize (m ending state).outcome = outcome at hreturns
  rcases outcome with ⟨_ | a, next⟩ | ⟨error, next⟩
  · exact ⟨.refl state, hproper⟩
  · exact ⟨hreturns, hproper⟩
  · exact ⟨.refl state, hproper⟩

theorem manyWithin {item : Tracer (Option α)}
    (hitem : ∀ state, Closes extent state (item ending state)) (fuel : Nat)
    (state : ParserState) : Closes extent state (Tracer.manyWithin item fuel ending state) := by
  induction fuel generalizing state with
  | zero => exact pure _
  | succ fuel ih =>
    refine bind (hitem state) fun found next => ?_
    cases found with
    | none => exact pure _
    | some a => exact bind (ih next) fun _ _ => pure _

theorem iterateWithin {step : σ → Tracer (σ × Bool)}
    (hstep : ∀ s state, Closes extent state (step s ending state)) (fuel : Nat) (s : σ)
    (state : ParserState) :
    Closes extent state (Tracer.iterateWithin step fuel s ending state) := by
  induction fuel generalizing s state with
  | zero => exact pure _
  | succ fuel ih =>
    refine bind (hstep s state) fun ⟨t, again⟩ next => ?_
    cases again with
    | false => exact pure _
    | true => exact ih t next

theorem statement {m : Tracer α} (hm : Closes .statements state (m ending state)) :
    Closes .statements state (Tracer.statement m ending state) := by
  refine ⟨hm.returns, List.forall_mem_cons.2 ⟨?_, hm.proper⟩⟩
  exact ⟨Nat.le_refl _, id, fun _ => ⟨rfl, .refl state⟩, .inl⟩

theorem casePattern {m : Tracer α} (hm : Closes .pattern state (m ending state)) :
    Closes .statements state (Tracer.casePattern m ending state) :=
  ⟨hm.returns, List.forall_mem_map.2 fun visit hvisit => (hm.proper visit hvisit).casePattern⟩

end Closes

/-- Every run of every script closes what it has opened. -/
theorem closes (script : Script extent α) (ending : Ending) (state : ParserState) :
    Closes extent state (script.tracer ending state) := by
  induction script generalizing state with
  | look f => exact .step (.refl state)
  | advance => exact .advance
  | failAt fault position => exact .failAt fault position
  | bind _ _ ihfirst ihrest => exact .bind (ihfirst state) ihrest
  | nested _ ih => exact .nested ih
  | withinPattern _ ih => exact .withinPattern ih
  | speculate _ ih => exact .speculate (ih state)
  | many _ ih => exact .manyWithin ih _ state
  | iterate _ s ih => exact .iterateWithin ih _ s state
  | statement _ ih => exact .statement (ih state)
  | casePattern _ ih => exact .casePattern (ih state)

/-! ## Rules -/

/-- Blocks in which so many blocks may nest. -/
def blockWithin (room : Nat) : Compound.BlockParser := Compound.blockOf (Compound.statement room)

instance (room : Nat) (construct : Construct) (line : Nat) :
    Scripted .statements (blockWithin room construct line) :=
  inferInstanceAs (Scripted .statements (Compound.blockOf (Compound.statement room) construct line))

/-- A rule of the grammar: a parser with its script. -/
structure Rule where
  {Value : Type}
  parser : Parser Value
  scripted : Scripted .statements parser

namespace Rule

def of {α : Type} (p : Parser α) [scripted : Scripted .statements p] : Rule := ⟨p, scripted⟩

/-- The run of a rule by its script. -/
def run (rule : Rule) : Tracer rule.Value := rule.scripted.script.tracer

theorem outcome_run (rule : Rule) (ending : Ending) (state : ParserState) :
    (rule.run ending state).outcome = rule.parser ending state :=
  congrFun (congrFun rule.scripted.parser_eq ending) state

end Rule

/-- The rules by name. -/
inductive RuleName where
  -- expressions
  | expression
  | conditional
  | disjunction
  | bitwiseOr
  | named
  | star
  | starNamed
  | starred
  | starList
  | starNamedList
  | yield
  | assigned
  | lambda
  | operand (least : Nat)
  | operation (least : Nat)
  | extend (least : Nat) (start : Position) (t : Tree)
  | compareChain (start : Position) (first : Tree)
  | eatCompare
  | unary (least : Nat)
  | awaited
  | primary
  | trailer (start : Position) (t : Tree)
  | atom
  | strings
  | parenthesized
  | listDisplay
  | braceDisplay
  | dictRest (start : Position) (first : List Tree)
  | dictEntry
  | displayItem
  | captured (item : Tree) (start : Position)
  | displayRest (first : Tree) (closer : TokenKind)
  | arguments (allowGenerator : Bool)
  | slices
  | slice
  | comprehensionClause
  | comprehensionClauses
  -- targets
  | targetItem
  | targetList
  -- declarations
  | typeHint (annotated : Bool)
  | parameter (annotated : Bool) (found : Expression.Parameters)
  | parameters (closer : TokenKind) (annotated : Bool)
  | typeParam
  | typeParams
  | decorated
  | functionDef (decorators : List Tree) (start : Position) (isAsync : Bool)
  | classDef (decorators : List Tree) (start : Position)
  | importStmt
  | importFrom
  | importAlias
  | asName
  | dottedName
  -- patterns
  | matchStmt
  | caseClause
  | patterns
  | openSequence
  | asPattern
  -- statements
  | expressionStmt
  | keywordOnly (kind : NodeKind)
  | simple
  | line
  | ifStmt
  | elseClause
  | whileStmt
  | forStmt (start : Position) (isAsync : Bool)
  | tryStmt
  | withStmt (start : Position) (isAsync : Bool)
  | withItems
  | bracketedItems
  | withItem
  | asyncStmt (start : Position)
  | block (construct : Construct) (header : Nat)
  | statement
  | module

/-- The rule of this name, where so many levels of expressions may still open and so many blocks may
still nest. -/
def RuleName.rule (levels room : Nat) : RuleName → Rule
  | .expression => .of (Level.within levels).expression
  | .conditional => .of (Expression.conditional (.within levels))
  | .disjunction => .of (Expression.disjunction (.within levels))
  | .bitwiseOr => .of (Expression.bitwiseOr (.within levels))
  | .named => .of (Expression.named (.within levels))
  | .star => .of (Expression.star (.within levels))
  | .starNamed => .of (Expression.starNamed (.within levels))
  | .starred => .of (Expression.starred (.within levels))
  | .starList => .of (Expression.starList (.within levels))
  | .starNamedList => .of (Expression.starNamedList (.within levels))
  | .yield => .of (Expression.yield (.within levels))
  | .assigned => .of (Expression.assigned (.within levels))
  | .lambda => .of (Expression.lambda (.within levels))
  | .operand least => .of ((Level.within levels).operand least)
  | .operation least => .of (Expression.operation (.within levels) least)
  | .extend least start t => .of (Expression.extend (.within levels) least start t)
  | .compareChain start first => .of (Expression.compareChain (.within levels) start first)
  | .eatCompare => .of Expression.eatCompare
  | .unary least => .of (Expression.unary (.within levels) least)
  | .awaited => .of (Level.within levels).primary
  | .primary => .of (Expression.primary (.within levels))
  | .trailer start t => .of (Expression.trailer (.within levels) start t)
  | .atom => .of (Expression.atom (.within levels))
  | .strings => .of Expression.strings
  | .parenthesized => .of (Expression.parenthesized (.within levels))
  | .listDisplay => .of (Expression.listDisplay (.within levels))
  | .braceDisplay => .of (Expression.braceDisplay (.within levels))
  | .dictRest start first => .of (Expression.dictRest (.within levels) start first)
  | .dictEntry => .of (Expression.dictEntry (.within levels))
  | .displayItem => .of (Expression.displayItem (.within levels))
  | .captured item start => .of (Expression.captured item start)
  | .displayRest first closer => .of (Expression.displayRest (.within levels) first closer)
  | .arguments allowGenerator => .of (Expression.arguments (.within levels) allowGenerator)
  | .slices => .of (Expression.slices (.within levels))
  | .slice => .of (Expression.slice (.within levels))
  | .comprehensionClause => .of (Expression.comprehensionClause (.within levels))
  | .comprehensionClauses => .of (Expression.comprehensionClauses (.within levels))
  | .targetItem => .of (Expression.targetItem (.within levels))
  | .targetList => .of (Expression.targetList (.within levels))
  | .typeHint annotated => .of (Expression.annotation (.within levels) annotated)
  | .parameter annotated found => .of (Expression.parameter (.within levels) annotated found)
  | .parameters closer annotated => .of (Expression.parameters (.within levels) closer annotated)
  | .typeParam => .of Compound.typeParam
  | .typeParams => .of Compound.typeParams
  | .decorated => .of (Compound.decorated (blockWithin room))
  | .functionDef decorators start isAsync =>
    .of (Compound.functionDef (blockWithin room) decorators start isAsync)
  | .classDef decorators start => .of (Compound.classDef (blockWithin room) decorators start)
  | .importStmt => .of Simple.importStmt
  | .importFrom => .of Simple.importFrom
  | .importAlias => .of (Simple.importAlias Simple.dottedName)
  | .asName => .of Simple.asName
  | .dottedName => .of Simple.dottedName
  | .matchStmt => .of (Compound.matchStmt (blockWithin room))
  | .caseClause => .of (Compound.caseClause (blockWithin room))
  | .patterns => .of Compound.patterns
  | .openSequence => .of (tupleOf Compound.endsPattern Compound.asPattern)
  | .asPattern => .of Compound.asPattern
  | .expressionStmt => .of Simple.expressionStmt
  | .keywordOnly kind => .of (Simple.keywordOnly kind)
  | .simple => .of Simple.statement
  | .line => .of Simple.line
  | .ifStmt => .of (Compound.ifStmt (blockWithin room))
  | .elseClause => .of (Compound.elseClause (blockWithin room))
  | .whileStmt => .of (Compound.whileStmt (blockWithin room))
  | .forStmt start isAsync => .of (Compound.forStmt (blockWithin room) start isAsync)
  | .tryStmt => .of (Compound.tryStmt (blockWithin room))
  | .withStmt start isAsync => .of (Compound.withStmt (blockWithin room) start isAsync)
  | .withItems => .of Compound.withItems
  | .bracketedItems => .of Compound.bracketedItems
  | .withItem => .of Compound.withItem
  | .asyncStmt start => .of (Compound.asyncStmt (blockWithin room) start)
  | .block construct header => .of (blockWithin room construct header)
  | .statement => .of (Compound.statement room)
  | .module => .of (Module.module room)

/-! ## Captures in trees -/

/-- Phrases that patterns are made of. -/
def isOfPattern : Phrase → Bool
  | .pattern _ | .patternArgument => true
  | _ => false

/-- A shape in which no pattern occurs. -/
def HasNoPattern (shape : Shape) : Prop := ∀ p ∈ letters shape, isOfPattern p = false

section Captures

variable {captures : Bool} {phrase p : Phrase} {phrases : List Phrase} {kind : NodeKind} {i : Nat}

theorem hasNoPattern_of_all {shape : Shape} (h : (letters shape).all (!isOfPattern ·) = true) :
    HasNoPattern shape := by
  simpa [HasNoPattern] using h

theorem hasNoPattern_pow (hp : isOfPattern p = false) (n : Nat) :
    HasNoPattern (child p ^ n) := by
  induction n with
  | zero => exact List.forall_mem_nil _
  | succ n ih => exact List.forall_mem_append.2 ⟨ih, List.forall_mem_singleton.2 hp⟩

theorem hasNoPattern_ofValue (captures : Bool) (kind : NodeKind) :
    HasNoPattern (ofValue captures kind) := by
  cases kind with
  | compare ops =>
    cases ops with
    | nil => exact hasNoPattern_of_all rfl
    | cons op ops => exact List.forall_mem_cons.2 ⟨rfl, hasNoPattern_pow rfl _⟩
  | matchAs name => cases captures <;> exact hasNoPattern_of_all rfl
  | name _ context | tuple context | list context | «attribute» _ context | subscript context =>
    cases context <;> exact hasNoPattern_of_all rfl
  | _ => exact hasNoPattern_of_all rfl

theorem hasNoPattern_ofItem (captures : Bool) (kind : NodeKind) :
    HasNoPattern (ofItem captures kind) := by
  unfold ofItem
  split
  · exact hasNoPattern_of_all rfl
  · exact hasNoPattern_ofValue captures kind

theorem hasNoPattern_ofTarget (action : TargetAction) (kind : NodeKind) :
    HasNoPattern (ofTarget action kind) := by
  unfold ofTarget
  split
  · cases kind with
    | starred context => cases action <;> exact hasNoPattern_of_all rfl
    | _ => exact hasNoPattern_of_all rfl
  · exact hasNoPattern_of_all rfl

theorem hasNoPattern_ofIndex (captures : Bool) (kind : NodeKind) :
    HasNoPattern (ofIndex captures kind) := by
  unfold ofIndex
  split
  · exact hasNoPattern_of_all rfl
  · exact hasNoPattern_of_all rfl
  · exact hasNoPattern_ofItem captures kind

theorem hasNoPattern_ofArgument (captures : Bool) (kind : NodeKind) :
    HasNoPattern (ofArgument captures kind) := by
  unfold ofArgument
  split
  · exact hasNoPattern_of_all rfl
  · exact hasNoPattern_ofItem captures kind

theorem hasNoPattern_ofStatement (kind : NodeKind) : HasNoPattern (ofStatement kind) := by
  unfold ofStatement
  split <;> exact hasNoPattern_of_all rfl

theorem hasNoPattern_shapeOf (hphrase : isOfPattern phrase = false)
    (hkind : kind ≠ .matchCase) : HasNoPattern (shapeOf captures phrase kind) := by
  unfold shapeOf
  split
  · exact hasNoPattern_ofValue captures kind
  · exact hasNoPattern_ofItem captures kind
  · exact hasNoPattern_ofIndex captures kind
  · exact hasNoPattern_ofArgument captures kind
  all_goals first
    | exact hasNoPattern_of_all rfl
    | exact hasNoPattern_ofTarget _ kind
    | exact hasNoPattern_ofStatement kind
    | exact Bool.noConfusion hphrase
    | exact absurd rfl hkind

/-- Outside of patterns, only the first child of a case is one. -/
theorem isOfPattern_child (hword : phrases ∈ (shapeOf captures phrase kind).matches')
    (hphrase : isOfPattern phrase = false) (hchild : phrases[i]? = some p) :
    isOfPattern p = false ∨ kind = .matchCase ∧ i = 0 := by
  by_cases hkind : kind = .matchCase
  · subst hkind
    cases phrase with
    | case =>
      obtain ⟨_, ⟨_, rfl, guard, hguard, rfl⟩, block, hblock, rfl⟩ := hword
      cases i with
      | zero => exact .inr ⟨rfl, rfl⟩
      | succ i =>
        have hrest : p ∈ guard ++ block := List.mem_of_getElem? hchild
        have hletters : HasNoPattern (Shapes.optional (child .value) * child .block) :=
          hasNoPattern_of_all rfl
        exact .inl (hletters p (mem_letters (Language.append_mem_mul hguard hblock) p hrest))
    | pattern slot => cases hphrase
    | patternArgument => cases hphrase
    | _ => exact absurd hword (Language.notMem_zero _)
  · exact .inl (hasNoPattern_shapeOf hphrase hkind p
      (mem_letters hword p (List.mem_of_getElem? hchild)))

theorem inPattern_child {t child : Tree} {path : List Nat} (hchild : t.children[i]? = some child)
    (h : InPattern child path) : InPattern t (i :: path) := by
  obtain ⟨before, after, parent, rfl, hparent, hkind⟩ := h
  refine ⟨i :: before, after, parent, rfl, ?_, hkind⟩
  rw [at?, hchild]
  exact hparent

/-- What is captured inside of a tree that is no pattern is captured in the pattern of a case. -/
theorem inPattern_of_matchAs {t part : Tree} {path : List Nat} {name : String}
    (h : Shaped false phrase t) (hphrase : isOfPattern phrase = false)
    (hpart : at? t path = some part) (hkind : part.kind = .matchAs name) : InPattern t path := by
  induction path generalizing t phrase with
  | nil =>
    cases hpart
    cases h with
    | @node _ kind _ xs hword _ =>
      obtain rfl : kind = .matchAs name := hkind
      cases phrase with
      | pattern slot => cases hphrase
      | patternArgument => cases hphrase
      | target action =>
        have hzero : shapeOf false (.target action) (.matchAs name) = 0 := ofTarget_eq_zero rfl
        rw [hzero] at hword
        exact absurd hword (Language.notMem_zero _)
      | _ => exact absurd hword (Language.notMem_zero _)
  | cons i path ih =>
    obtain ⟨child, hchild, hpart⟩ := Option.bind_eq_some_iff.1 hpart
    cases h with
    | @node _ kind span xs hword inside =>
      obtain ⟨x, hx, rfl⟩ := List.getElem?_map .. ▸ hchild |> Option.map_eq_some_iff.1
      have hphrases : (xs.map Prod.fst)[i]? = some x.1 := by rw [List.getElem?_map, hx]; rfl
      rcases isOfPattern_child hword hphrase hphrases with hplain | ⟨rfl, rfl⟩
      · exact inPattern_child hchild (ih (inside x (List.mem_of_getElem? hx)) hplain hpart)
      · exact ⟨[], path, _, rfl, rfl, rfl⟩

end Captures

/-! ## Snippets -/

/-- The run that gives the tree of a snippet. -/
def snippetRun (source : String) : Run Tree :=
  let stream := .ofText source
  let state := Module.initial stream
  (RuleName.module.rule maxNesting (state.left + 1)).run (Module.endingOf stream) state

theorem result_snippetRun (source : String) :
    (snippetRun source).outcome.result = Module.parse source :=
  (congrArg Outcome.result (Rule.outcome_run _ _ _)).trans
    (Termination.result_module (.ofText source))

theorem visit_of_snippet {source : String} (h : visit ∈ (snippetRun source).visits) :
    visit.state.depth ≤ maxNesting ∧
      (visit.begins = true → visit.state.depth = 0 ∧ visit.state.inPattern = false) ∧
      (visit.state.inPattern = true → visit.inCase = true) := by
  have hproper : Proper .statements (Module.initial (.ofText source)) visit :=
    (closes _ _ _).proper visit h
  refine ⟨hproper.le_maxNesting (Nat.zero_le _), fun hbegins => ?_, fun hpattern => ?_⟩
  · obtain ⟨-, hdepth, hpattern⟩ := hproper.begins hbegins
    exact ⟨hdepth, hpattern⟩
  · rcases hproper.inPattern hpattern with hstart | hcase | hextent
    · cases hstart
    · exact hcase
    · cases hextent

/-- **Nesting ends with the rule.** Whether a rule ends in a value or in an error, the depth and the
pattern flag are what they were before it, and on the way they never leave the bounds. So every
statement of a snippet begins at depth 0 and outside of patterns, patterns are read nowhere but in
the headers of cases, and nothing is captured elsewhere. -/
theorem nesting_ends_with_rule :
    (∀ (levels room : Nat) (name : RuleName) (ending : Ending) (state : ParserState),
      let rule := name.rule levels room
      let run := rule.run ending state
      run.outcome = rule.parser ending state ∧
        run.outcome.state.depth = state.depth ∧
        run.outcome.state.inPattern = state.inPattern ∧
        ∀ visit ∈ run.visits, state.depth ≤ visit.state.depth ∧
          (state.depth ≤ maxNesting → visit.state.depth ≤ maxNesting) ∧
          (visit.begins = true → visit.state.depth = state.depth ∧
            visit.state.inPattern = state.inPattern)) ∧
    (∀ (levels room : Nat) (ending : Ending) (state : ParserState),
      ((RuleName.statement.rule levels (room + 1)).run ending state).visits.head? =
          some { state, begins := true } ∧
        ((RuleName.simple.rule levels room).run ending state).visits.head? =
          some { state, begins := true }) ∧
    (∀ source, (snippetRun source).outcome.result = Module.parse source ∧
      ∀ visit ∈ (snippetRun source).visits, visit.state.depth ≤ maxNesting ∧
        (visit.begins = true → visit.state.depth = 0 ∧ visit.state.inPattern = false) ∧
        (visit.state.inPattern = true → visit.inCase = true)) ∧
    ∀ source root path part name, Module.parse source = .ok root → at? root path = some part →
      part.kind = .matchAs name → InPattern root path := by
  refine ⟨fun levels room name ending state => ?_, fun levels room ending state => ⟨rfl, rfl⟩,
    fun source => ⟨result_snippetRun source, fun visit => visit_of_snippet⟩,
    fun source root path part name hparse hpart hkind => ?_⟩
  · intro rule run
    obtain ⟨hreturns, hproper⟩ := closes rule.scripted.script ending state
    refine ⟨rule.outcome_run ending state, hreturns.depth_eq, hreturns.inPattern_eq,
      fun visit hvisit => ?_⟩
    obtain ⟨hdepth, hbound, hbegins, -⟩ := hproper visit hvisit
    refine ⟨hdepth, hbound, fun h => ?_⟩
    obtain ⟨-, hsame⟩ := hbegins h
    exact ⟨hsame.depth_eq, hsame.inPattern_eq⟩
  · exact inPattern_of_matchAs (shaped_of_parse hparse) rfl hpart hkind

/-- An error three levels deep in a pattern, and a capture with a statement after it. -/
theorem statement_after_case :
    (∃ ending state, state.depth ≤ maxNesting ∧ state.inPattern = false ∧
      (Compound.patterns ending state).result.isOk = false ∧
      (Compound.patterns ending state).state.depth = state.depth ∧
      (Compound.patterns ending state).state.inPattern = false ∧
      ∃ visit ∈ ((RuleName.patterns.rule 0 0).run ending state).visits,
        visit.state.inPattern = true ∧ visit.state.depth = 3 ∧ visit.state.depth ≤ maxNesting) ∧
    (∃ visit ∈ (snippetRun "match x:\n case [a as b]: pass\ny\n").visits,
      visit.begins = true ∧ visit.state.left = 2 ∧
        visit.state.depth = 0 ∧ visit.state.inPattern = false) ∧
    (∃ visit ∈ (snippetRun "match x:\n case [a as b]: pass\ny\n").visits,
      visit.state.inPattern = true ∧ visit.inCase = true) ∧
    ∃ root part, Module.parse "match x:\n case [a as b]: pass\ny\n" = .ok root ∧
      at? root [0, 1, 0, 0] = some part ∧ part.kind = .matchAs "b" ∧
        InPattern root [0, 1, 0, 0] := by
  obtain ⟨hrules, -, hsnippets, hcaptures⟩ := nesting_ends_with_rule
  obtain ⟨-, hsnippet⟩ := hsnippets "match x:\n case [a as b]: pass\ny\n"
  have hrun : (∃ visit ∈ (snippetRun "match x:\n case [a as b]: pass\ny\n").visits,
      visit.begins = true ∧ visit.state.left = 2) ∧
    ∃ visit ∈ (snippetRun "match x:\n case [a as b]: pass\ny\n").visits,
      visit.state.inPattern = true := by decide +kernel
  obtain ⟨hlast, hwithin⟩ := hrun
  refine ⟨⟨Module.endingOf (.ofText "[a as]"), Module.initial (.ofText "[a as]"), ?_⟩, ?_, ?_, ?_⟩
  · have hstart : (Module.initial (.ofText "[a as]")).depth ≤ maxNesting := Nat.zero_le _
    have hfails : (Compound.patterns (Module.endingOf (.ofText "[a as]"))
        (Module.initial (.ofText "[a as]"))).result.isOk = false := by decide +kernel
    have hdeep : ∃ visit ∈ ((RuleName.patterns.rule 0 0).run (Module.endingOf (.ofText "[a as]"))
        (Module.initial (.ofText "[a as]"))).visits,
          visit.state.inPattern = true ∧ visit.state.depth = 3 := by decide +kernel
    obtain ⟨houtcome, hdepth, hpattern, hvisits⟩ := hrules 0 0 .patterns
      (Module.endingOf (.ofText "[a as]")) (Module.initial (.ofText "[a as]"))
    rw [houtcome, show (RuleName.patterns.rule 0 0).parser = Compound.patterns from rfl]
      at hdepth hpattern
    obtain ⟨visit, hvisit, hwithin, hthree⟩ := hdeep
    obtain ⟨-, hbound, -⟩ := hvisits visit hvisit
    exact ⟨hstart, rfl, hfails, hdepth, hpattern, visit, hvisit, hwithin, hthree, hbound hstart⟩
  · obtain ⟨visit, hvisit, hbegins, hleft⟩ := hlast
    exact ⟨visit, hvisit, hbegins, hleft, (hsnippet visit hvisit).2.1 hbegins⟩
  · obtain ⟨visit, hvisit, hpattern⟩ := hwithin
    exact ⟨visit, hvisit, hpattern, (hsnippet visit hvisit).2.2 hpattern⟩
  · have hcapture : ((Module.parse "match x:\n case [a as b]: pass\ny\n").toOption.bind
        (at? · [0, 1, 0, 0])).map (·.kind) = some (.matchAs "b") := by decide +kernel
    obtain ⟨root, part, hparse, hpart, hkind⟩ := EmptyBlocks.exists_at [0, 1, 0, 0] hcapture
    exact ⟨root, part, hparse, hpart, hkind, hcaptures _ root _ part "b" hparse hpart hkind⟩

end SnippetLint.Nesting
