import SnippetLint.Proofs.Provenance

/-!
Every rule of the grammar keeps to the tokens that it is given: one instance for each rule, as in
`GrammarLaw`. Blocks and match statements are shown by hand, since what they may be without depends
on the tokens that follow their header, and slices since their lower bound has to start where they
do. Main statements: `made_of_ofStream`, `isStart_of_ofStream`.
-/

namespace SnippetLint.Provenance
open SnippetLint.Parser

variable (input : Input)

/-- A level whose parsers keep to the tokens. -/
class OfLevel (inner : Level) : Prop where
  expression : Keeps input inner.expression
  operand : ∀ least, Keeps input (inner.operand least)
  primary : Keeps input inner.primary

attribute [instance] OfLevel.expression OfLevel.operand OfLevel.primary

/-! ## Expressions -/

section Expression

variable (inner : Level) [OfLevel input inner] (start : Position) [hstart : Holds input start]
  (t : Tree) [Holds input t]

instance : Keeps input (Expression.disjunction inner) := by
  unfold Expression.disjunction
  infer_instance

instance : Keeps input (Expression.bitwiseOr inner) := by
  unfold Expression.bitwiseOr
  infer_instance

instance : Keeps input (Expression.named inner) := by
  unfold Expression.named
  refine keeps_bind input inferInstance fun start hstart => ?_
  refine keeps_bind input inferInstance fun isName _ => ?_
  refine keeps_bind input inferInstance fun second _ => ?_
  split <;> infer_instance

instance : Keeps input (Expression.starred inner) := by
  unfold Expression.starred
  infer_instance

instance : Keeps input (Expression.star inner) := by
  unfold Expression.star
  infer_instance

instance : Keeps input (Expression.starNamed inner) := by
  unfold Expression.starNamed
  infer_instance

instance : Keeps input Expression.startsNone := by
  unfold Expression.startsNone
  infer_instance

instance : Keeps input (Expression.starList inner) := by
  unfold Expression.starList
  infer_instance

instance : Keeps input (Expression.starNamedList inner) := by
  unfold Expression.starNamedList
  infer_instance

instance : Keeps input (Expression.yield inner) := by
  unfold Expression.yield
  infer_instance

instance : Keeps input (Expression.assigned inner) := by
  unfold Expression.assigned
  infer_instance

instance : Keeps input (Expression.targetItem inner) := by
  unfold Expression.targetItem
  infer_instance

instance : Keeps input (Expression.targetList inner) := by
  unfold Expression.targetList
  infer_instance

variable (annotated : Bool) (parameters : Expression.Parameters) [Holds input parameters]

instance : Keeps input (Expression.annotation inner annotated) := by
  unfold Expression.annotation
  infer_instance

instance : Keeps input (Expression.slashParameter parameters) := by
  unfold Expression.slashParameter
  infer_instance

instance : Keeps input (Expression.starParameter inner annotated parameters) := by
  unfold Expression.starParameter
  dsimp only
  infer_instance

instance : Keeps input (Expression.doubleStarParameter inner annotated parameters) := by
  unfold Expression.doubleStarParameter
  dsimp only
  infer_instance

instance : Keeps input (Expression.plainParameter inner annotated parameters) := by
  unfold Expression.plainParameter
  dsimp only
  infer_instance

instance : Keeps input (Expression.parameter inner annotated parameters) := by
  unfold Expression.parameter
  split
  · infer_instance
  · refine keeps_bind input inferInstance fun kind hkind => ?_
    split <;> infer_instance

instance (closer : TokenKind) : Keeps input (Expression.parameters inner closer annotated) := by
  unfold Expression.parameters
  infer_instance

instance : Keeps input (Expression.lambda inner) := by
  unfold Expression.lambda
  infer_instance

instance : Keeps input (Expression.conditional inner) := by
  unfold Expression.conditional
  infer_instance

instance : Keeps input Expression.startsComprehension := by
  unfold Expression.startsComprehension
  infer_instance

instance : Keeps input (Expression.comprehensionClause inner) := by
  unfold Expression.comprehensionClause
  refine keeps_bind input inferInstance fun start hstart => ?_
  refine keeps_bind input inferInstance fun isAsync hisAsync => ?_
  refine keeps_bind input inferInstance fun _ _ => ?_
  refine keeps_bind input inferInstance fun target htarget => ?_
  infer_instance

instance : Keeps input (Expression.comprehensionClauses inner) := by
  unfold Expression.comprehensionClauses
  infer_instance

instance : Keeps input (Expression.captured t start) := by
  unfold Expression.captured
  infer_instance

instance : Keeps input (Expression.displayItem inner) := by
  unfold Expression.displayItem
  infer_instance

instance : Keeps input (Expression.capturedExpression inner) := by
  unfold Expression.capturedExpression
  infer_instance

instance (closer : TokenKind) : Keeps input (Expression.displayRest inner t closer) := by
  unfold Expression.displayRest
  infer_instance

instance (kind : NodeKind) [Plain kind] (elements : List Tree) [Holds input elements]
    (closer : TokenKind) :
    Keeps input (Expression.comprehension inner kind start elements closer) := by
  unfold Expression.comprehension
  infer_instance

instance : Keeps input (Expression.parenthesized inner) := by
  unfold Expression.parenthesized
  refine keeps_bind input inferInstance fun start hstart => ?_
  refine keeps_bind input inferInstance fun _ _ => ?_
  refine keeps_bind input inferInstance fun closed hclosed => ?_
  split
  · infer_instance
  refine keeps_bind input inferInstance fun yields hyields => ?_
  split <;> infer_instance

instance : Keeps input (Expression.listDisplay inner) := by
  unfold Expression.listDisplay
  infer_instance

instance : Keeps input (Expression.dictEntry inner) := by
  unfold Expression.dictEntry
  infer_instance

instance (first : List Tree) [Holds input first] :
    Keeps input (Expression.dictRest inner start first) := by
  unfold Expression.dictRest
  infer_instance

instance : Keeps input (Expression.braceDisplay inner) := by
  unfold Expression.braceDisplay
  refine keeps_bind input inferInstance fun start hstart => ?_
  refine keeps_bind input inferInstance fun _ _ => ?_
  refine keeps_bind input inferInstance fun closed hclosed => ?_
  split
  · infer_instance
  refine keeps_bind input inferInstance fun spreads hspreads => ?_
  split <;> infer_instance

variable (allowGenerator : Bool) (arguments : Expression.Arguments) [Holds input arguments]

instance : Keeps input (Expression.starArgument inner arguments) := by
  unfold Expression.starArgument
  infer_instance

instance : Keeps input (Expression.doubleStarArgument inner arguments) := by
  unfold Expression.doubleStarArgument
  infer_instance

instance : Keeps input (Expression.keywordArgument inner arguments) := by
  unfold Expression.keywordArgument
  infer_instance

instance : Keeps input (Expression.positionalArgument inner allowGenerator arguments) := by
  unfold Expression.positionalArgument
  infer_instance

instance : Keeps input (Expression.argument inner allowGenerator arguments) := by
  unfold Expression.argument
  refine keeps_bind input inferInstance fun kind hkind => ?_
  split <;> infer_instance

instance : Keeps input (Expression.arguments inner allowGenerator) := by
  unfold Expression.arguments
  infer_instance

instance : Keeps input Expression.atSliceBoundary := by
  unfold Expression.atSliceBoundary
  infer_instance

instance : Keeps input (Expression.sliceBound inner) := by
  unfold Expression.sliceBound
  infer_instance

variable [Derivation.SoundLevel inner]

theorem starsStart_of_sliceBound {ending : Ending} {state next : ParserState} {ts : List Tree}
    (h : Expression.sliceBound inner ending state = .ok ts next) : StarsStart start ts := by
  obtain ⟨hreads, _⟩ := Derivation.optional_sliceBound inner h
  intro t ht hstar
  have hvalue := hreads.not_starred (List.mem_map_of_mem ht)
  exact absurd (hstar.symm.trans hvalue) nofun

theorem starsStart_of_starNamed {ending : Ending} {state next : ParserState}
    (hhere : here ending state = .ok start state)
    (h : Expression.starNamed inner ending state = .ok t next) : StarsStart start [t] := by
  refine List.forall_mem_singleton.2 fun hstar => ?_
  obtain ⟨isStar, _, hcheck, h⟩ := ParserLaw.bind_eq_ok h
  obtain rfl := Derivation.eq_of_check hcheck
  split at h
  · obtain ⟨first, _, hfirst, h⟩ := ParserLaw.bind_eq_ok h
    obtain ⟨_, _, _, h⟩ := ParserLaw.bind_eq_ok h
    obtain ⟨value, _, _, h⟩ := ParserLaw.bind_eq_ok h
    cases h
    cases hfirst
    exact (Outcome.ok.inj hhere).1
  · have hvalue := (Derivation.yields_named inner h).not_starred List.mem_cons_self
    exact absurd (hstar.symm.trans hvalue) nofun

theorem keeps_sliceRest {lower : List Tree} [Holds input lower] (hlower : StarsStart start lower) :
    Keeps input (Expression.sliceRest inner start lower) := by
  have hnode : ∀ {children : List Tree}, Holds input children → StarsStart start children →
      Keeps input (node .slice start children) := fun hchildren hstars =>
    keeps_node input hchildren fun _ hstop =>
      ⟨⟨hstart.holds, hstop⟩, nofun, nofun, nofun, fun _ => hstars⟩
  unfold Expression.sliceRest
  refine keeps_bind input inferInstance fun _ _ => KeepsFrom.keeps input ?_
  refine keepsFrom_bind input (fun upper _ => StarsStart start (lower ++ upper)) inferInstance
    (fun _ _ h => hlower.append (starsStart_of_sliceBound inner start h)) fun upper hupper => ?_
  refine keepsFrom_bind input (fun _ _ => StarsStart start (lower ++ upper)) inferInstance
    (fun _ hstars _ => hstars) fun hasStep _ => ?_
  dsimp only
  split
  · refine keepsFrom_bind input (fun step _ => StarsStart start (lower ++ upper ++ step))
      inferInstance (fun _ hstars h => hstars.append (starsStart_of_sliceBound inner start h))
      fun step hstep => Keeps.restrict input fun _ hstars => hnode inferInstance hstars
  · exact Keeps.restrict input fun _ hstars => hnode inferInstance (hstars.append nofun)

/-- The lower bound of a slice starts where the slice does. -/
instance : Keeps input (Expression.slice inner) := by
  unfold Expression.slice
  refine KeepsFrom.keeps input (keepsFrom_bind input
    (fun start state => here input.ending state = .ok start state) inferInstance ?_
    fun start hstart => ?_)
  · rintro state start _ _ _ h
    cases h
    rfl
  refine keepsFrom_bind input (fun _ state => here input.ending state = .ok start state)
    inferInstance ?_ fun isSlice _ => ?_
  · rintro state found _ _ hhere h
    obtain rfl := Derivation.eq_of_check h
    exact hhere
  split
  · exact Keeps.restrict input fun _ _ => keeps_sliceRest input inner start nofun
  · refine keepsFrom_bind input (fun lower _ => StarsStart start [lower]) inferInstance
      (fun _ hhere h => starsStart_of_starNamed inner start _ hhere h) fun lower hlower => ?_
    refine Keeps.restrict input fun _ hstars => keeps_bind input inferInstance fun isSlice _ => ?_
    split
    · exact keeps_sliceRest input inner start hstars
    · infer_instance

instance : Keeps input (Expression.slices inner) := by
  unfold Expression.slices
  infer_instance

instance (value : Constant) : Keeps input (Expression.constant value) := by
  unfold Expression.constant
  infer_instance

instance : Keeps input Expression.strings := by
  unfold Expression.strings
  infer_instance

instance : Keeps input (Expression.atom inner) := by
  unfold Expression.atom
  refine keeps_bind input inferInstance fun kind hkind => ?_
  split <;> infer_instance

instance : Keeps input (Expression.trailer inner start t) := by
  unfold Expression.trailer
  refine keeps_bind input inferInstance fun kind hkind => ?_
  split <;> infer_instance

instance : Keeps input (Expression.primary inner) := by
  unfold Expression.primary
  infer_instance

instance (least : Nat) : Keeps input (Expression.unary inner least) := by
  unfold Expression.unary
  refine keeps_bind input inferInstance fun start hstart => ?_
  refine keeps_bind input inferInstance fun kind hkind => ?_
  split
  · infer_instance
  · split <;> infer_instance

instance : Keeps input Expression.eatCompare := by
  unfold Expression.eatCompare
  refine keeps_bind input inferInstance fun first hfirst => ?_
  refine keeps_bind input inferInstance fun second hsecond => ?_
  split <;> infer_instance

instance (op : BoolOp) : Keeps input (Expression.boolChain inner op start t) := by
  unfold Expression.boolChain
  infer_instance

instance : Keeps input (Expression.compareChain inner start t) := by
  unfold Expression.compareChain
  have hlink : Keeps input (do
      match ← Expression.eatCompare with
      | some op => return some (op, ← inner.operand Power.ofCompare.2)
      | none => return none) := by
    refine keeps_bind input inferInstance fun op hop => ?_
    split <;> infer_instance
  infer_instance

instance (op : BinaryOp) : Keeps input (Expression.binary inner op start t) := by
  unfold Expression.binary
  infer_instance

instance (least : Nat) : Keeps input (Expression.extend inner least start t) := by
  unfold Expression.extend
  refine keeps_bind input inferInstance fun first hfirst => ?_
  refine keeps_bind input inferInstance fun second hsecond => ?_
  split <;> infer_instance

instance (least : Nat) : Keeps input (Expression.operation inner least) := by
  unfold Expression.operation
  infer_instance

end Expression

/-! ## Levels -/

instance (inner : Level) [OfLevel input inner] [Derivation.SoundLevel inner] :
    OfLevel input (.around inner) := by
  constructor
  · show Keeps input (nested (Expression.conditional inner))
    infer_instance
  · intro least
    show Keeps input (nested (Expression.operation inner least))
    infer_instance
  · show Keeps input (nested (Expression.primary inner))
    infer_instance

/-- However many levels may open, all of them keep to the tokens. -/
instance ofLevel_within (room : Nat) : OfLevel input (.within room) := by
  induction room with
  | zero =>
    have hfail : Keeps input (failHere .tooDeeplyNested : Parser Tree) := inferInstance
    exact ⟨hfail, fun _ => hfail, hfail⟩
  | succ room ih =>
    unfold Level.within
    infer_instance

instance : OfLevel input .top := ofLevel_within input maxNesting

/-! ## Simple statements -/

section Simple

variable (start : Position) [Holds input start] (first : Tree) [Holds input first]

instance : Keeps input Simple.asName := by
  unfold Simple.asName
  infer_instance

instance : Keeps input Simple.dottedName := by
  unfold Simple.dottedName
  infer_instance

instance (name : Parser String) [Keeps input name] : Keeps input (Simple.importAlias name) := by
  unfold Simple.importAlias
  infer_instance

instance : Keeps input Simple.importStmt := by
  unfold Simple.importStmt
  infer_instance

instance : Keeps input Simple.importLevel := by
  unfold Simple.importLevel
  infer_instance

instance : Keeps input Simple.importedNames := by
  unfold Simple.importedNames
  refine keeps_bind input inferInstance fun all hall => ?_
  split <;> infer_instance

instance : Keeps input Simple.importFrom := by
  unfold Simple.importFrom
  refine keeps_bind input inferInstance fun start hstart => ?_
  refine keeps_bind input inferInstance fun _ _ => ?_
  refine keeps_bind input inferInstance fun level hlevel => ?_
  refine keeps_bind input inferInstance fun named hnamed => ?_
  -- what follows both branches of a choice stands before it under a name; the search needs it
  -- in its place
  dsimp only
  split <;> infer_instance

instance : Keeps input (Simple.assignment start first) := by
  unfold Simple.assignment
  dsimp only
  infer_instance

instance (op : BinaryOp) : Keeps input (Simple.augmented start first op) := by
  unfold Simple.augmented
  infer_instance

instance : Keeps input (Simple.annotated start first) := by
  unfold Simple.annotated
  infer_instance

instance : Keeps input Simple.expressionStmt := by
  unfold Simple.expressionStmt
  refine keeps_bind input inferInstance fun start hstart => ?_
  refine keeps_bind input inferInstance fun first hfirst => ?_
  refine keeps_bind input inferInstance fun kind hkind => ?_
  split
  · infer_instance
  · split <;> infer_instance

instance (kind : NodeKind) [Plain kind] : Keeps input (Simple.keywordOnly kind) := by
  unfold Simple.keywordOnly
  infer_instance

instance : Keeps input Simple.returnStmt := by
  unfold Simple.returnStmt
  infer_instance

instance : Keeps input Simple.raiseStmt := by
  unfold Simple.raiseStmt
  infer_instance

instance (kind : List String → NodeKind) [∀ names, Plain (kind names)] :
    Keeps input (Simple.scopeStmt kind) := by
  unfold Simple.scopeStmt
  infer_instance

instance : Keeps input Simple.deleteStmt := by
  unfold Simple.deleteStmt
  infer_instance

instance : Keeps input Simple.assertStmt := by
  unfold Simple.assertStmt
  infer_instance

instance : Keeps input Simple.statement := by
  unfold Simple.statement
  refine keeps_bind input inferInstance fun kind hkind => ?_
  split <;> infer_instance

instance : Keeps input Simple.line := by
  unfold Simple.line
  infer_instance

end Simple

/-! ## Statements with blocks -/

section Compound

variable (block : Compound.BlockParser) [∀ construct line, Keeps input (block construct line)]
  (start : Position) [Holds input start]

instance : Keeps input Compound.lineHere := by
  unfold Compound.lineHere
  infer_instance

instance (keyword : Keyword) (construct : Construct) :
    Keeps input (Compound.clause block keyword construct) := by
  unfold Compound.clause
  infer_instance

instance : Keeps input (Compound.elseClause block) := by
  unfold Compound.elseClause
  infer_instance

instance (construct : Construct) (line : Nat) :
    Keeps input (Compound.guarded block construct line) := by
  unfold Compound.guarded
  infer_instance

instance : Keeps input (Compound.ifStmt block) := by
  unfold Compound.ifStmt
  infer_instance

instance : Keeps input (Compound.whileStmt block) := by
  unfold Compound.whileStmt
  infer_instance

instance (isAsync : Bool) : Keeps input (Compound.forStmt block start isAsync) := by
  unfold Compound.forStmt
  refine keeps_bind input inferInstance fun line hline => ?_
  refine keeps_bind input inferInstance fun _ _ => ?_
  refine keeps_bind input inferInstance fun target htarget => ?_
  refine keeps_bind input inferInstance fun target htarget => ?_
  infer_instance

instance (isStar : Bool) : Keeps input (Compound.caught isStar) := by
  unfold Compound.caught
  infer_instance

instance (handlers : Compound.Handlers) [Holds input handlers] :
    Keeps input (Compound.handler block handlers) := by
  unfold Compound.handler
  refine keeps_bind input inferInstance fun start hstart => ?_
  refine keeps_bind input inferInstance fun _ _ => ?_
  refine keeps_bind input inferInstance fun isStar _ => ?_
  split
  · infer_instance
  · refine keeps_bind input inferInstance fun caught hcaught => ?_
    obtain ⟨error, name⟩ := caught
    have herror : Holds input error := ⟨hcaught.holds.1⟩
    infer_instance

instance : Keeps input (Compound.handlers block) := by
  unfold Compound.handlers
  infer_instance

instance : Keeps input (Compound.tryStmt block) := by
  unfold Compound.tryStmt
  refine keeps_bind input inferInstance fun start hstart => ?_
  refine keeps_bind input inferInstance fun _ _ => ?_
  refine keeps_bind input inferInstance fun _ _ => ?_
  refine keeps_bind input inferInstance fun body hbody => ?_
  refine keeps_bind input inferInstance fun hasHandler _ => ?_
  refine keeps_bind input inferInstance fun hasFinal _ => ?_
  dsimp only
  split
  · infer_instance
  · refine keeps_bind input inferInstance fun handlers hhandlers => ?_
    split <;> infer_instance

instance : Keeps input Compound.withItem := by
  unfold Compound.withItem
  infer_instance

instance : Keeps input Compound.withItems := by
  unfold Compound.withItems
  infer_instance

instance : Keeps input Compound.bracketedItems := by
  unfold Compound.bracketedItems
  infer_instance

instance (isAsync : Bool) : Keeps input (Compound.withStmt block start isAsync) := by
  unfold Compound.withStmt
  refine keeps_bind input inferInstance fun line _ => ?_
  refine keeps_bind input inferInstance fun _ _ => ?_
  refine keeps_bind input inferInstance fun bracket _ => ?_
  -- what follows the items is the same wherever they come from
  have hrest : ∀ bracketed, Holds input bracketed → Keeps input (do
      let items ← match bracketed with
        | some items => pure items
        | none => Compound.withItems
      expect (.op .colon)
      let body ← block .withStmt line
      node (.withStmt isAsync) start (items ++ [body])) := by
    intro bracketed hbracketed
    cases bracketed with
    | some items =>
      have hitems := holds_of_some input hbracketed
      dsimp only
      infer_instance
    | none =>
      dsimp only
      infer_instance
  dsimp only
  split
  · exact keeps_bind input inferInstance hrest
  · exact keeps_bind input inferInstance hrest

instance : Keeps input Compound.typeParam := by
  unfold Compound.typeParam
  refine keeps_bind input inferInstance fun start hstart => ?_
  refine keeps_bind input inferInstance fun star hstar => ?_
  dsimp only
  split
  · refine keeps_bind input inferInstance fun _ _ => ?_
    refine keeps_bind input inferInstance fun name hname => ?_
    refine keeps_bind input inferInstance fun colon hcolon => ?_
    split <;> infer_instance
  · refine keeps_bind input inferInstance fun name hname => ?_
    refine keeps_bind input inferInstance fun colon hcolon => ?_
    split <;> infer_instance

instance : Keeps input Compound.typeParams := by
  unfold Compound.typeParams
  infer_instance

instance (decorators : List Tree) [Holds input decorators] (isAsync : Bool) :
    Keeps input (Compound.functionDef block decorators start isAsync) := by
  unfold Compound.functionDef
  refine keeps_bind input inferInstance fun line hline => ?_
  refine keeps_bind input inferInstance fun _ _ => ?_
  refine keeps_bind input inferInstance fun name hname => ?_
  refine keeps_bind input inferInstance fun types htypes => ?_
  refine keeps_bind input inferInstance fun _ _ => ?_
  refine keeps_bind input inferInstance fun parameters hparameters => ?_
  refine keeps_bind input inferInstance fun _ _ => ?_
  refine keeps_bind input inferInstance fun arrow harrow => ?_
  dsimp only
  split <;> infer_instance

instance : Keeps input Compound.classArguments := by
  unfold Compound.classArguments
  infer_instance

instance (decorators : List Tree) [Holds input decorators] :
    Keeps input (Compound.classDef block decorators start) := by
  unfold Compound.classDef
  refine keeps_bind input inferInstance fun line hline => ?_
  refine keeps_bind input inferInstance fun _ _ => ?_
  refine keeps_bind input inferInstance fun name hname => ?_
  infer_instance

instance : Keeps input Compound.decorator := by
  unfold Compound.decorator
  infer_instance

instance : Keeps input (Compound.decorated block) := by
  unfold Compound.decorated
  refine keeps_bind input inferInstance fun start hstart => ?_
  refine keeps_bind input inferInstance fun decorators hdecorators => ?_
  refine keeps_bind input inferInstance fun first hfirst => ?_
  refine keeps_bind input inferInstance fun second hsecond => ?_
  split <;> infer_instance

instance : Keeps input (Compound.asyncStmt block start) := by
  unfold Compound.asyncStmt
  refine keeps_bind input inferInstance fun _ _ => ?_
  refine keeps_bind input inferInstance fun kind hkind => ?_
  split <;> infer_instance

instance : Keeps input Compound.asPattern := by
  unfold Compound.asPattern
  infer_instance

instance : Keeps input Compound.endsPattern := by
  unfold Compound.endsPattern
  infer_instance

instance : Keeps input Compound.patterns := by
  unfold Compound.patterns
  infer_instance

instance : Keeps input (Compound.caseClause block) := by
  unfold Compound.caseClause
  refine keeps_bind input inferInstance fun start hstart => ?_
  refine keeps_bind input inferInstance fun _ _ => ?_
  refine keeps_bind input inferInstance fun pattern hpattern => ?_
  refine keeps_bind input inferInstance fun guarded hguarded => ?_
  dsimp only
  infer_instance

instance : Keeps input Compound.matchSubject := by
  unfold Compound.matchSubject
  infer_instance

instance : Keeps input (Compound.cases block) := by
  unfold Compound.cases
  infer_instance

end Compound

/-! ## Blocks

A block is opened by an indent and closed by a dedent, so it can be empty only if the two stand next
to each other. -/

section Tokens

variable {kind : TokenKind} {ending : Ending} {state next : ParserState}

theorem rest_of_eat (h : eat kind ending state = .ok true next) (hkind : kind ≠ .endMarker) :
    ∃ token, token.kind = kind ∧ state.rest = token :: next.rest := by
  obtain ⟨found, _, hcheck, h⟩ := ParserLaw.bind_eq_ok h
  cases hrest : state.rest with
  | nil =>
    have hfound : found = false := by
      cases hcheck
      simpa [hrest] using hkind.symm
    rw [hfound] at h
    cases h
  | cons token rest =>
    cases hcheck
    split at h
    · next hfound =>
      obtain ⟨_, _, hadvance, h⟩ := ParserLaw.bind_eq_ok h
      cases h
      refine ⟨token, by simpa [hrest] using hfound, ?_⟩
      unfold advance at hadvance
      split at hadvance
      · next heq =>
        cases hadvance
        rw [hrest] at heq
        exact congrArg (token :: ·) (List.cons.inj heq).2
      · next heq =>
        rw [hrest] at heq
        cases heq
    · cases h

theorem rest_of_require (h : require kind ending state = .ok () next) (hkind : kind ≠ .endMarker) :
    ∃ token, token.kind = kind ∧ state.rest = token :: next.rest := by
  obtain ⟨found, _, heat, h⟩ := ParserLaw.bind_eq_ok h
  cases found with
  | false => exact absurd h failHere_ne_ok
  | true =>
    cases h
    exact rest_of_eat heat hkind

/-- A loop that gives nothing has been run once. -/
theorem item_of_many_nil {α : Type} {item : Parser (Option α)}
    (h : many item ending state = .ok [] next) : item ending state = .ok none next := by
  obtain ⟨found, _, hitem, h⟩ := ParserLaw.bind_eq_ok h
  cases found with
  | none =>
    cases h
    exact hitem
  | some a =>
    obtain ⟨rest, _, _, h⟩ := ParserLaw.bind_eq_ok h
    cases h

/-- The first value of a loop comes from its first run. -/
theorem item_of_many_cons {α : Type} {item : Parser (Option α)} {a : α} {as : List α}
    (h : many item ending state = .ok (a :: as) next) :
    ∃ middle, item ending state = .ok (some a) middle := by
  obtain ⟨found, middle, hitem, h⟩ := ParserLaw.bind_eq_ok h
  cases found with
  | none => cases h
  | some b =>
    obtain ⟨rest, _, _, h⟩ := ParserLaw.bind_eq_ok h
    cases h
    exact ⟨middle, hitem⟩

end Tokens

/-- A state right after an indent: where a dedent follows, a block is empty. -/
def Opened (state : ParserState) : Prop :=
  ∀ token rest, state.rest = token :: rest → token.kind = .dedent → input.Hollow

theorem opened_of_eat {state next : ParserState} (hstate : input.Reaches state)
    (h : eat .indent input.ending state = .ok true next) : Opened input next := by
  obtain ⟨indent, hindent, hrest⟩ := rest_of_eat h nofun
  obtain ⟨before, hbefore⟩ := hstate.rest
  intro dedent rest hnext hdedent
  refine ⟨before, indent, dedent, rest, ?_, hindent, hdedent⟩
  rw [← hbefore, hrest, hnext]

theorem hollow_of_require {state next : ParserState} (hopened : Opened input state)
    (h : require .dedent input.ending state = .ok () next) : input.Hollow := by
  obtain ⟨dedent, hdedent, hrest⟩ := rest_of_require h nofun
  exact hopened dedent next.rest hrest hdedent

/-- What ends the lines of a block is only looked at. -/
theorem eq_of_ended {α : Type} {p : Parser (Option α)} {ending : Ending} {state next : ParserState}
    (hp : ∀ {state next}, p ending state ≠ .ok none next)
    (h : (do if (← check .dedent) || (← atEnd) then return none else p)
      ending state = .ok none next) : state = next := by
  obtain ⟨isDedent, _, hdedent, h⟩ := ParserLaw.bind_eq_ok h
  obtain ⟨isEnd, _, hend, h⟩ := ParserLaw.bind_eq_ok h
  cases hdedent
  cases hend
  split at h
  · cases h
    rfl
  · exact absurd h hp

section Blocks

variable {statement : Parser (List Tree)}
  (hne : ∀ {ending state ts next}, statement ending state = .ok ts next → ts ≠ [])
include hne

/-- If there are no statements before a dedent, nothing has been taken. -/
theorem eq_of_no_statements {ending : Ending} {state next : ParserState} {lists : List (List Tree)}
    (h : (many do
      if (← check .dedent) || (← atEnd) then return none else return some (← statement))
        ending state = .ok lists next) (hnil : lists.flatten = []) : state = next := by
  cases lists with
  | nil =>
    refine eq_of_ended (fun hnone => ?_) (item_of_many_nil h)
    obtain ⟨ts, _, _, hnone⟩ := ParserLaw.bind_eq_ok hnone
    cases hnone
  | cons ts lists =>
    obtain ⟨_, hitem⟩ := item_of_many_cons h
    obtain ⟨_, _, _, hitem⟩ := ParserLaw.bind_eq_ok hitem
    obtain ⟨_, _, _, hitem⟩ := ParserLaw.bind_eq_ok hitem
    split at hitem
    · cases hitem
    · obtain ⟨_, _, hstatement, hitem⟩ := ParserLaw.bind_eq_ok hitem
      cases hitem
      exact absurd (List.flatten_eq_nil_iff.1 hnil ts List.mem_cons_self) (hne hstatement)

theorem keeps_blockOf (hstatement : Keeps input statement) (construct : Construct) (line : Nat) :
    Keeps input (Compound.blockOf statement construct line) := by
  have hnode : ∀ {start : Position} {ts : List Tree}, Holds input start → Holds input ts →
      KeepsFrom input (fun _ => ts = [] → input.Hollow) (node .block start ts) := by
    intro start ts hstart hts
    exact Keeps.restrict input fun _ hhollow => keeps_node input hts fun _ hstop =>
      ⟨⟨hstart.holds, hstop⟩, nofun, fun _ => hhollow, nofun, nofun⟩
  unfold Compound.blockOf
  refine keeps_bind input inferInstance fun start hstart => ?_
  refine keeps_bind input inferInstance fun newline _ => ?_
  split
  · refine KeepsFrom.keeps input (keepsFrom_bind input
      (fun found next => found = true → Opened input next) inferInstance ?_ fun found _ => ?_)
    · rintro state found next hstate _ h rfl
      exact opened_of_eat input hstate h
    split
    · next hfound =>
      refine keepsFrom_bind input (fun lists next => lists.flatten = [] → Opened input next)
        inferInstance ?_ fun lists hlists => ?_
      · intro state lists next _ hopened h hnil
        rw [← eq_of_no_statements hne h hnil]
        exact hopened hfound
      refine keepsFrom_bind input (fun _ _ => lists.flatten = [] → input.Hollow) inferInstance ?_
        fun _ _ => hnode hstart inferInstance
      intro state _ next _ hopened h hnil
      exact hollow_of_require input (hopened hnil) h
    · exact Keeps.restrict input fun _ _ => inferInstance
  · refine KeepsFrom.keeps input (keepsFrom_bind input (fun ts _ => ts = [] → input.Hollow)
      inferInstance ?_ fun ts hts => hnode hstart hts)
    intro state ts next _ _ h hnil
    exact absurd hnil (Derivation.line_ne_nil h)

end Blocks

/-! ## Match statements -/

section Match

variable (block : Compound.BlockParser)

theorem kind_of_caseClause {ending : Ending} {state next : ParserState} {t : Tree}
    (h : Compound.caseClause block ending state = .ok t next) : t.kind = .matchCase := by
  obtain ⟨start, _, _, h⟩ := ParserLaw.bind_eq_ok h
  obtain ⟨_, _, _, h⟩ := ParserLaw.bind_eq_ok h
  obtain ⟨pattern, _, _, h⟩ := ParserLaw.bind_eq_ok h
  obtain ⟨isGuarded, _, _, h⟩ := ParserLaw.bind_eq_ok h
  have hrest : ∀ {guard : List Tree} {state : ParserState}, (do
      expect (.op .colon)
      let body ← block .caseClause start.line
      node .matchCase start ([pattern] ++ guard ++ [body])) ending state = .ok t next →
      t.kind = .matchCase := by
    intro guard state h
    obtain ⟨_, _, _, h⟩ := ParserLaw.bind_eq_ok h
    obtain ⟨_, _, _, h⟩ := ParserLaw.bind_eq_ok h
    cases h
    rfl
  dsimp only at h
  split at h
  · obtain ⟨guard, _, _, h⟩ := ParserLaw.bind_eq_ok h
    exact hrest h
  · exact hrest h

/-- If there are no cases before a dedent, nothing has been taken. -/
theorem eq_of_no_cases {ending : Ending} {state next : ParserState} {cases : List Tree}
    (h : Compound.cases block ending state = .ok cases next)
    (hnone : ∀ t ∈ cases, t.kind ≠ .matchCase) : state = next := by
  cases cases with
  | nil =>
    refine eq_of_ended (fun hitem => ?_) (item_of_many_nil h)
    obtain ⟨_, _, _, hitem⟩ := ParserLaw.bind_eq_ok hitem
    split at hitem
    · exact absurd hitem failHere_ne_ok
    · obtain ⟨_, _, _, hitem⟩ := ParserLaw.bind_eq_ok hitem
      split at hitem
      · obtain ⟨t, _, _, hitem⟩ := ParserLaw.bind_eq_ok hitem
        cases hitem
      · exact absurd hitem failHere_ne_ok
  | cons t cases =>
    obtain ⟨_, hitem⟩ := item_of_many_cons h
    obtain ⟨_, _, _, hitem⟩ := ParserLaw.bind_eq_ok hitem
    obtain ⟨_, _, _, hitem⟩ := ParserLaw.bind_eq_ok hitem
    split at hitem
    · cases hitem
    obtain ⟨_, _, _, hitem⟩ := ParserLaw.bind_eq_ok hitem
    split at hitem
    · exact absurd hitem failHere_ne_ok
    obtain ⟨_, _, _, hitem⟩ := ParserLaw.bind_eq_ok hitem
    split at hitem
    · obtain ⟨_, _, hcase, hitem⟩ := ParserLaw.bind_eq_ok hitem
      cases hitem
      exact absurd (kind_of_caseClause block hcase) (hnone t List.mem_cons_self)
    · exact absurd hitem failHere_ne_ok

variable [∀ construct line, Keeps input (block construct line)]
  (start : Position) [hstart : Holds input start]

instance (subject : Tree) [hsubject : Holds input subject] :
    Keeps input (Compound.matchRest block start subject) := by
  unfold Compound.matchRest
  refine keeps_bind input inferInstance fun _ _ => ?_
  refine keeps_bind input inferInstance fun _ _ => ?_
  refine KeepsFrom.keeps input (keepsFrom_bind input
    (fun found next => found = true → Opened input next) inferInstance ?_ fun found _ => ?_)
  · rintro state found next hstate _ h rfl
    exact opened_of_eat input hstate h
  split
  · exact Keeps.restrict input fun _ _ => inferInstance
  · next hfound =>
    refine keepsFrom_bind input
      (fun cases next => (∀ t ∈ cases, t.kind ≠ .matchCase) → Opened input next)
      inferInstance ?_ fun cases hcases => ?_
    · intro state cases next _ hopened h hnone
      rw [← eq_of_no_cases block h hnone]
      exact hopened (by simpa using hfound)
    refine keepsFrom_bind input (fun _ _ => (∀ t ∈ cases, t.kind ≠ .matchCase) → input.Hollow)
      inferInstance ?_ fun _ _ => ?_
    · intro state _ next _ hopened h hnone
      exact hollow_of_require input (hopened hnone) h
    refine Keeps.restrict input fun _ hhollow => keeps_node input inferInstance fun _ hstop =>
      ⟨⟨hstart.holds, hstop⟩, nofun, nofun, fun _ hnone => hhollow fun t ht => ?_, nofun⟩
    exact hnone t (List.mem_cons_of_mem _ ht)

instance : Keeps input (Compound.matchStmt block) := by
  unfold Compound.matchStmt
  refine keeps_bind input inferInstance fun start hstart => ?_
  refine keeps_bind input inferInstance fun subject hsubject => ?_
  split
  · have hsubject := holds_of_some input hsubject
    infer_instance
  · infer_instance

instance : Keeps input (Compound.statementWith block) := by
  unfold Compound.statementWith
  refine keeps_bind input inferInstance fun start hstart => ?_
  refine keeps_bind input inferInstance fun kind _ => ?_
  have hline : Keeps input (do
      if ← checkWord "match" then
        match ← Compound.matchStmt block with
        | some t => return [t]
        | none => Simple.line
      else Simple.line) := by
    refine keeps_bind input inferInstance fun isMatch _ => ?_
    split
    · refine keeps_bind input inferInstance fun found hfound => ?_
      split
      · have ht := holds_of_some input hfound
        infer_instance
      · infer_instance
    · infer_instance
  split <;> infer_instance

theorem statementWith_ne_nil {ending : Ending} {state next : ParserState} {ts : List Tree}
    (h : Compound.statementWith block ending state = .ok ts next) : ts ≠ [] := by
  have hsingle : ∀ {p : Parser Tree} {state : ParserState},
      (do return [← p] : Parser (List Tree)) ending state = .ok ts next → ts ≠ [] := by
    intro p state h
    obtain ⟨t, _, _, h⟩ := ParserLaw.bind_eq_ok h
    cases h
    exact List.cons_ne_nil _ _
  obtain ⟨start, _, _, h⟩ := ParserLaw.bind_eq_ok h
  obtain ⟨kind, _, _, h⟩ := ParserLaw.bind_eq_ok h
  split at h
  · exact absurd h failHere_ne_ok
  iterate 9 exact hsingle h
  · obtain ⟨isMatch, _, _, h⟩ := ParserLaw.bind_eq_ok h
    split at h
    · obtain ⟨found, _, _, h⟩ := ParserLaw.bind_eq_ok h
      split at h
      · cases h
        exact List.cons_ne_nil _ _
      · exact Derivation.line_ne_nil h
    · exact Derivation.line_ne_nil h

end Match

/-! ## Whole snippets -/

theorem statement_ne_nil {room : Nat} {ending : Ending} {state next : ParserState}
    {ts : List Tree} (h : Compound.statement room ending state = .ok ts next) : ts ≠ [] := by
  cases room with
  | zero => exact absurd h failHere_ne_ok
  | succ room => exact statementWith_ne_nil _ h

/-- Statements keep to the tokens, however many blocks may nest in them. -/
instance keeps_statement (room : Nat) : Keeps input (Compound.statement room) := by
  induction room with
  | zero =>
    show Keeps input (failHere .invalidSyntax : Parser (List Tree))
    infer_instance
  | succ room ih =>
    have hblock := keeps_blockOf input statement_ne_nil ih
    show Keeps input (Compound.statementWith (Compound.blockOf (Compound.statement room)))
    infer_instance

instance (room : Nat) : Keeps input (Module.statements room) := by
  unfold Module.statements
  infer_instance

theorem keeps_module (room : Nat) : Keeps input (Module.module room) := by
  have hall : Keeps input (do
      let start ← here
      let statements ← Module.statements room
      if input.ending.fault.isSome then failHere .invalidSyntax
      else return .node .module ⟨start, input.ending.position⟩ statements : Parser Tree) :=
    inferInstance
  exact ⟨hall.run, hall.stop⟩

/-- What the grammar is given of a stream. -/
def inputOf (stream : TokenStream) : Input := ⟨Module.significant stream, Module.endingOf stream⟩

theorem reaches_initial (stream : TokenStream) :
    (inputOf stream).Reaches (Module.initial stream) := by
  refine ⟨List.suffix_rfl, ?_⟩
  unfold Module.initial ParserState.before
  dsimp only
  split
  · next token rest heq => exact .inr ⟨token, by simp [inputOf, heq], rfl⟩
  · exact .inl rfl

/-- Every node of a tree comes from the tokens of its stream. -/
theorem made_of_ofStream {stream : TokenStream} {t : Tree} (h : Module.ofStream stream = .ok t) :
    Made (inputOf stream) t := by
  unfold Module.ofStream at h
  dsimp only at h
  split at h
  · next hmodule =>
    cases h
    exact ((keeps_module (inputOf stream) _).run (reaches_initial stream) hmodule).2
  · cases h

/-- Every fault of the grammar is reported where a token starts or where the tokens end. -/
theorem isStart_of_ofStream {stream : TokenStream} {error : ParseError}
    (h : Module.ofStream stream = .error error) : (inputOf stream).IsStart error.position := by
  unfold Module.ofStream at h
  dsimp only at h
  split at h
  · cases h
  · next hmodule =>
    cases h
    exact (keeps_module (inputOf stream) _).stop (reaches_initial stream) hmodule

end SnippetLint.Provenance
