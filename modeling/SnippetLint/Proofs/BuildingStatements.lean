import SnippetLint.Builder.Compound
import SnippetLint.Proofs.BuildingGrammar
import SnippetLint.Proofs.BuildingPatterns

/-!
Every rule for statements agrees with its builder, up to the whole snippet. So the arena that
reading leaves holds the tree of the snippet and nothing else, whatever was tried on the way. Main
statements: `parse_eq_ofTree` and `parsed_arena_is_tree`.
-/

namespace SnippetLint

namespace Marking
open SnippetLint.Parser (failAt)
open SnippetLint.Tree (sizeAll)

/-! ## Several targets -/

theorem roots_append (size : Nat) (ts us : List Tree) :
    roots size (ts ++ us) = roots size ts ++ roots (size + sizeAll ts) us := by
  induction ts generalizing size with
  | nil => rfl
  | cons t ts ih => rw [List.cons_append, roots, roots, ih, sizeAll, Nat.add_assoc]; rfl

theorem listingAll_append (size : Nat) (ts us : List Tree) :
    listingAll size (ts ++ us) = listingAll size ts ++ listingAll (size + sizeAll ts) us := by
  induction ts generalizing size with
  | nil => rfl
  | cons t ts ih =>
    rw [List.cons_append, listingAll, listingAll, ih, sizeAll, Nat.add_assoc, List.append_assoc]

theorem markAll_cons_eq (action : TargetAction) (id : Nat) (ids : List Nat) (ending : Ending)
    (state : ParserState) (arena : Arena) :
    Builder.markAll action (id :: ids) ending state arena =
      match arena.markWithin action (id + 1) id with
      | .ok marked => Builder.markAll action ids ending state marked
      | .error (error, marked) =>
        Builder.read (failAt error.fault error.position) ending state marked := by
  rw [Builder.markAll, Building.bind_eq, Builder.mark]
  cases arena.markWithin action (id + 1) id with
  | ok marked => rfl
  | error result =>
    obtain ⟨error, marked⟩ := result
    dsimp only [Builder.read, failAt]
    cases state.rest <;> cases ending.fault <;> rfl

/-- Marking one target after another is marking them all; if one is refused, what stands before
them is kept. -/
theorem markAll_listing (action : TargetAction) (ts : List Tree) (before after : List Node)
    (ending : Ending) (state : ParserState) :
    match Target.markAll action ts with
    | .ok us => Builder.markAll action (roots before.length ts) ending state
        (arenaOf (before ++ listingAll before.length ts ++ after)) =
          .ok () state (arenaOf (before ++ listingAll before.length us ++ after))
    | .error error => ∃ later, before <+: later.nodes.toList ∧
        Builder.markAll action (roots before.length ts) ending state
          (arenaOf (before ++ listingAll before.length ts ++ after)) =
            Builder.read (failAt error.fault error.position) ending state later := by
  induction ts generalizing before with
  | nil => rfl
  | cons t ts ih =>
    have hfirst := marked_listing action t (before.length + sizeAll t.children + 1) before
      (listingAll (before.length + t.size) ts ++ after) (Nat.lt_succ_self _)
    rw [roots, listingAll, markAll_cons_eq, markAll_cons, ← List.append_assoc,
      List.append_assoc _ _ after]
    generalize Arena.markWithin action _ _ _ = result at hfirst ⊢
    cases ht : Target.mark action t with
    | error error =>
      rw [ht] at hfirst
      obtain _ | ⟨_, rfl⟩ := hfirst
      refine ⟨_, ?_, rfl⟩
      rw [List.append_assoc]
      exact List.prefix_append _ _
    | ok first =>
      rw [ht] at hfirst
      obtain ⟨rfl⟩ := hfirst
      have hsize : first.size = t.size := by rw [size_eq, size_eq, size_of_mark ht]
      have hlength : (before ++ listing before.length first).length = before.length + t.size := by
        rw [List.length_append, length_listing, hsize]
      have hrest := ih (before ++ listing before.length first)
      rw [hlength, List.append_assoc _ _ after] at hrest
      dsimp only
      cases hts : Target.markAll action ts with
      | error error =>
        rw [hts] at hrest
        obtain ⟨later, hkeeps, hrun⟩ := hrest
        exact ⟨later, (List.prefix_append _ _).trans hkeeps, hrun⟩
      | ok rest =>
        rw [hts] at hrest
        show _ = Built.ok () state
          (arenaOf (before ++ listingAll before.length (first :: rest) ++ after))
        rw [listingAll, hsize]
        simpa only [List.append_assoc] using hrest

end Marking

namespace Building
open SnippetLint.Arena (Grows)

section Simple

variable (base mid now : Arena) (start : Position) (t : Tree)

/-! ## Imports -/

instance : Rule now now Builder.importStmt Simple.importStmt := by
  unfold Builder.importStmt Simple.importStmt
  infer_instance

instance : Rule now now Builder.importFrom Simple.importFrom := by
  unfold Builder.importFrom Simple.importFrom
  dsimp only
  infer_instance

/-! ## Expressions and assignments -/

instance {inner : Builder.Level} {inner' : Level} [OfLevel inner inner'] :
    Rule now now (Builder.assigned inner) (Expression.assigned inner') := by
  unfold Builder.assigned Expression.assigned
  infer_instance

/-- The targets of an assignment are marked where they are stored, before its value. -/
theorem agrees_targets (parts : List Tree) (hparts : parts ≠ []) :
    Agrees base (put base parts).1
      (do
        Builder.markAll .assign (put base parts).2.dropLast
        Builder.node .assign start (put base parts).2)
      (do
        let targets ← Parser.ofExcept (Target.markAll .assign parts.dropLast)
        Parser.node .assign start (targets ++ parts.getLast?.toList)) := by
  obtain ⟨init, last, rfl⟩ : ∃ init last, parts = init ++ [last] :=
    ⟨_, _, (List.dropLast_append_getLast hparts).symm⟩
  obtain ⟨before, rfl⟩ : ∃ before, base = Marking.arenaOf before :=
    ⟨_, (Marking.arenaOf_toList base).symm⟩
  have hput : ∀ ts : List Tree, put (Marking.arenaOf before) ts =
      (Marking.arenaOf (before ++ Marking.listingAll before.length ts),
        Marking.roots before.length ts) := fun ts =>
    (putAll_eq_storeAll _ ts).trans (Marking.storeAll_arenaOf before ts)
  have hlast : ∀ size, Marking.roots size [last] = [size + Tree.sizeAll last.children] :=
    fun _ => rfl
  constructor
  intro ending state
  have hmarks := Marking.markAll_listing .assign init before
    (Marking.listingAll (before.length + Tree.sizeAll init) [last]) ending state
  rw [List.append_assoc, ← Marking.listingAll_append] at hmarks
  rw [hput, Marking.roots_append, hlast, List.dropLast_concat, List.dropLast_concat,
    List.getLast?_concat, bind_eq, ParserLaw.bind_eq]
  cases hall : Target.markAll .assign init with
  | error error =>
    rw [hall] at hmarks
    obtain ⟨later, hkeeps, hrun⟩ := hmarks
    rw [hrun]
    have hgrows : Grows (Marking.arenaOf before) later := ⟨hkeeps⟩
    dsimp only [Parser.ofExcept, Builder.read, Parser.failAt]
    cases state.rest <;> cases ending.fault <;> exact .fail _ _ hgrows
  | ok targets =>
    rw [hall] at hmarks
    obtain ⟨hsize, hroots⟩ := Marking.size_of_markAll hall before.length
    have htargets : put (Marking.arenaOf before) (targets ++ [last]) =
        (Marking.arenaOf (before ++ Marking.listingAll before.length targets ++
          Marking.listingAll (before.length + Tree.sizeAll init) [last]),
        Marking.roots before.length init ++ [before.length + Tree.sizeAll init +
          Tree.sizeAll last.children]) := by
      rw [hput, Marking.listingAll_append, Marking.roots_append, hlast, hsize, hroots,
        List.append_assoc]
    have hrun : Builder.markAll _ _ _ _ _ = Built.ok _ _ _ := hmarks
    rw [hrun]
    exact (agrees_node htargets .assign start).run ending state

instance : Rule base (put base t).1 (Builder.assignment start (put base t).2)
    (Simple.assignment start t) := by
  constructor
  unfold Builder.assignment Simple.assignment
  refine agrees_bind (put base t).1 inferInstance inferInstance fun more => ?_
  exact agrees_targets base start (t :: more) (List.cons_ne_nil _ _)

theorem agrees_markSingle (refused : NodeKind → GrammarFault) :
    Agrees base (put base t).1 (Builder.markSingle refused (put base t).2)
      (Parser.ofExcept (if Target.isSingle t.kind then Target.mark .assign t
        else .error ⟨refused t.kind, t.start⟩)) := by
  constructor
  intro ending state
  unfold Builder.markSingle
  rw [get?_put]
  dsimp only
  split
  · have hmark : Agrees base (put base t).1 (Builder.mark .assign (put base t).2)
      (Parser.ofExcept (Target.mark .assign t)) := inferInstance
    exact hmark.run ending state
  · have hfail : Agrees base (put base t).1
      (liftM (Parser.failAt (refused t.kind) t.span.start : Parser Nat))
      (Parser.failAt (refused t.kind) t.span.start : Parser Tree) := inferInstance
    exact hfail.run ending state

instance : Rule base (put base t).1
    (Builder.markSingle (.illegalAugmentedTarget ∘ Target.describeAugmented) (put base t).2)
    (Parser.ofExcept (Target.markAugmented t)) := ⟨agrees_markSingle base t _⟩

instance : Rule base (put base t).1
    (Builder.markSingle (fun _ => .illegalAnnotationTarget) (put base t).2)
    (Parser.ofExcept (Target.markAnnotated t)) := ⟨agrees_markSingle base t _⟩

instance (op : BinaryOp) : Rule base (put base t).1 (Builder.augmented start (put base t).2 op)
    (Simple.augmented start t op) := by
  constructor
  unfold Builder.augmented Simple.augmented
  infer_instance

instance : Rule base (put base t).1 (Builder.annotated start (put base t).2)
    (Simple.annotated start t) := by
  constructor
  unfold Builder.annotated Simple.annotated
  infer_instance

instance [Storable β α] (f : Bool → Builder α) (q : Parser β)
    [h : Agrees base (put mid t).1 (f (Simple.isPrint t)) q] :
    Agrees base (put mid t).1 (Builder.isPrint (put mid t).2 >>= f) q := by
  constructor
  intro ending state
  have hread : Builder.isPrint (put mid t).2 ending state (put mid t).1 =
      .ok (Simple.isPrint t) state (put mid t).1 := by
    unfold Builder.isPrint Simple.isPrint
    rw [get?_put]
    cases t.kind <;> rfl
  rw [bind_eq, hread]
  exact h.run ending state

instance : Rule now now Builder.expressionStmt Simple.expressionStmt := by
  constructor
  unfold Builder.expressionStmt Simple.expressionStmt
  refine agrees_read inferInstance fun start => ?_
  refine agrees_bind now inferInstance inferInstance fun first => ?_
  refine agrees_read inferInstance fun kind => ?_
  cases Power.augmentedOp? kind <;> infer_instance

/-! ## Statements that start with a keyword -/

instance (kind : NodeKind) : Rule now now (Builder.keywordOnly kind) (Simple.keywordOnly kind) := by
  unfold Builder.keywordOnly Simple.keywordOnly
  infer_instance

instance : Rule now now Builder.returnStmt Simple.returnStmt := by
  unfold Builder.returnStmt Simple.returnStmt
  infer_instance

instance : Rule now now Builder.raiseStmt Simple.raiseStmt := by
  unfold Builder.raiseStmt Simple.raiseStmt
  infer_instance

instance (kind : List String → NodeKind) :
    Rule now now (Builder.scopeStmt kind) (Simple.scopeStmt kind) := by
  unfold Builder.scopeStmt Simple.scopeStmt
  infer_instance

instance : Rule now now Builder.deleteStmt Simple.deleteStmt := by
  unfold Builder.deleteStmt Simple.deleteStmt
  infer_instance

instance : Rule now now Builder.assertStmt Simple.assertStmt := by
  unfold Builder.assertStmt Simple.assertStmt
  infer_instance

instance : Rule now now Builder.simpleStatement Simple.statement := by
  constructor
  unfold Builder.simpleStatement Simple.statement
  refine agrees_read inferInstance fun kind => ?_
  cases kind with
  | keyword word => cases word <;> infer_instance
  | _ => infer_instance

instance : Rule now now Builder.line Simple.line := by
  unfold Builder.line Simple.line
  infer_instance

end Simple

/-! ## Clauses -/

/-- A builder of blocks beside a parser of blocks. -/
class OfBlock (block : Builder.BlockBuilder) (block' : Compound.BlockParser) : Prop where
  rule (construct : Construct) (line : Nat) (now : Arena) :
    Rule now now (block construct line) (block' construct line)

attribute [instance] OfBlock.rule

section Compound

variable (base now : Arena) (block : Builder.BlockBuilder) (block' : Compound.BlockParser)
  [OfBlock block block'] (start : Position) (isAsync : Bool) (construct : Construct)
  (list : List Tree) (ids : List Nat)

instance (keyword : Keyword) : Rule now now (Builder.clause block keyword construct)
    (Compound.clause block' keyword construct) := by
  unfold Builder.clause Compound.clause
  infer_instance

instance : Rule now now (Builder.elseClause block) (Compound.elseClause block') := by
  unfold Builder.elseClause Compound.elseClause
  infer_instance

instance (line : Nat) : Rule now now (Builder.guarded block construct line)
    (Compound.guarded block' construct line) := by
  unfold Builder.guarded Compound.guarded
  infer_instance

instance : Rule now now (Builder.ifStmt block) (Compound.ifStmt block') := by
  unfold Builder.ifStmt Compound.ifStmt
  infer_instance

instance : Rule now now (Builder.whileStmt block) (Compound.whileStmt block') := by
  unfold Builder.whileStmt Compound.whileStmt
  infer_instance

instance : Rule now now (Builder.forStmt block start isAsync)
    (Compound.forStmt block' start isAsync) := by
  constructor
  unfold Builder.forStmt Compound.forStmt
  refine agrees_read inferInstance fun line => agrees_read inferInstance fun _ => ?_
  refine agrees_bind now inferInstance inferInstance fun target => ?_
  infer_instance

/-! ## Try -/

/-- What stands beside a stored value. -/
instance [Storable β α] : Storable (β × Option String) (α × Option String) where
  put arena b := ((put arena b.1).1, (put arena b.1).2, b.2)
  grows arena b := Storable.grows arena b.1

theorem put_beside [Storable β α] (b : β) (name : Option String) :
    put base (b, name) = ((put base b).1, (put base b).2, name) := rfl

instance [Storable β α] (b : β) (a : α) (name : Option String) [h : Puts base b now a] :
    Puts base (b, name) now (a, name) := by
  constructor
  rw [put_beside, h.eq]

/-- The handlers of a statement are stored, and it is known whether they catch groups. -/
instance : Storable Compound.Handlers Builder.Handlers where
  put arena b := ((put arena b.list).1, { b with list := (put arena b.list).2 })
  grows arena b := Storable.grows arena b.list

variable (isStar : Option Bool)

theorem put_handlers : put base (⟨list, isStar⟩ : Compound.Handlers) =
    ((put base list).1, ⟨(put base list).2, isStar⟩) := rfl

instance [h : Puts base list now ids] :
    Puts base (⟨list, isStar⟩ : Compound.Handlers) now ⟨ids, isStar⟩ := by
  constructor
  rw [put_handlers, h.eq]

instance : PutsFrom now (⟨[], none⟩ : Compound.Handlers) now Builder.Handlers.none := ⟨rfl⟩

instance (isStar : Bool) : Rule now now (Builder.caught isStar) (Compound.caught isStar) := by
  unfold Builder.caught Compound.caught
  infer_instance

instance (handlers : Compound.Handlers) : Rule base (put base handlers).1
    (Builder.handler block (put base handlers).2) (Compound.handler block' handlers) := by
  obtain ⟨list, isStar⟩ := handlers
  constructor
  unfold Builder.handler Compound.handler
  simp only [put_handlers]
  refine agrees_read inferInstance fun start => agrees_read inferInstance fun _ => ?_
  refine agrees_read inferInstance fun isStar' => ?_
  split
  · infer_instance
  · refine agrees_bind (put base list).1 inferInstance inferInstance fun found => ?_
    obtain ⟨error, name⟩ := found
    simp only [put_beside]
    infer_instance

instance : Rule now now (Builder.handlers block) (Compound.handlers block') := by
  unfold Builder.handlers Compound.handlers
  infer_instance

instance : Rule now now (Builder.tryStmt block) (Compound.tryStmt block') := by
  constructor
  unfold Builder.tryStmt Compound.tryStmt
  refine agrees_read inferInstance fun start => agrees_read inferInstance fun _ => ?_
  refine agrees_read inferInstance fun _ => ?_
  refine agrees_bind now inferInstance inferInstance fun body => ?_
  refine agrees_read inferInstance fun isExcept => agrees_read inferInstance fun isFinally => ?_
  split
  · infer_instance
  · refine agrees_bind (put now body).1 inferInstance inferInstance fun handlers => ?_
    obtain ⟨list, isStar⟩ := handlers
    simp only [put_handlers]
    split <;> infer_instance

/-! ## With and definitions -/

instance : Rule now now (Builder.withStmt Builder.headItems block start isAsync)
    (Compound.withStmt block' start isAsync) :=
  ⟨agrees_withStmt now (fun _ _ _ => inferInstance) start isAsync⟩

instance : Rule now now Builder.typeParam Compound.typeParam := by
  have hnamed : ∀ start : Position, Agrees now now (do
      let name ← Parser.expectName
      let bound ← do
        if ← Parser.eat (.op .colon) then pure [← Builder.Level.top.expression] else pure []
      let default ← do
        if ← Parser.eat (.op .equal) then pure [← Builder.Level.top.expression] else pure []
      Builder.node (.typeParam name) start (bound ++ default)) (do
      let name ← Parser.expectName
      let bound ← do
        if ← Parser.eat (.op .colon) then pure [← Level.top.expression] else pure []
      let default ← do
        if ← Parser.eat (.op .equal) then pure [← Level.top.expression] else pure []
      Parser.node (.typeParam name) start (bound ++ default)) := by
    intro start
    refine agrees_read inferInstance fun name => agrees_read inferInstance fun hasBound => ?_
    split <;> infer_instance
  constructor
  unfold Builder.typeParam Compound.typeParam
  refine agrees_read inferInstance fun start => agrees_read inferInstance fun isStar => ?_
  split
  · exact agrees_read inferInstance fun _ => hnamed start
  · exact hnamed start

instance : Rule now now Builder.typeParams Compound.typeParams := by
  unfold Builder.typeParams Compound.typeParams
  infer_instance

instance [h : PutsFrom base list now ids] :
    Rule base now (Builder.functionDef block ids start isAsync)
      (Compound.functionDef block' list start isAsync) := by
  obtain ⟨rfl, rfl⟩ := h.now_eq
  constructor
  unfold Builder.functionDef Compound.functionDef
  refine agrees_read inferInstance fun line => agrees_read inferInstance fun _ => ?_
  refine agrees_read inferInstance fun name => ?_
  refine agrees_bind (put base list).1 inferInstance inferInstance fun types => ?_
  refine agrees_read inferInstance fun _ => ?_
  refine agrees_bind (put (put base list).1 types).1 inferInstance inferInstance fun _ => ?_
  refine agrees_read inferInstance fun _ => agrees_read inferInstance fun hasResult => ?_
  split <;> infer_instance

instance : Rule now now Builder.classArguments Compound.classArguments := by
  unfold Builder.classArguments Compound.classArguments
  infer_instance

instance [h : PutsFrom base list now ids] :
    Rule base now (Builder.classDef block ids start) (Compound.classDef block' list start) := by
  obtain ⟨rfl, rfl⟩ := h.now_eq
  constructor
  unfold Builder.classDef Compound.classDef
  infer_instance

instance : Rule now now Builder.decorator Compound.decorator := by
  unfold Builder.decorator Compound.decorator
  infer_instance

instance : Rule now now (Builder.decorated block) (Compound.decorated block') := by
  constructor
  unfold Builder.decorated Compound.decorated
  refine agrees_read inferInstance fun start => ?_
  refine agrees_bind now inferInstance inferInstance fun decorators => ?_
  refine agrees_read inferInstance fun kind => agrees_read inferInstance fun kind' => ?_
  cases kind with
  | keyword word =>
    cases word with
    | asyncKw =>
      cases kind' with
      | keyword word' => cases word' <;> infer_instance
      | _ => infer_instance
    | _ => infer_instance
  | _ => infer_instance

instance : Rule now now (Builder.asyncStmt block start) (Compound.asyncStmt block' start) := by
  constructor
  unfold Builder.asyncStmt Compound.asyncStmt
  refine agrees_read inferInstance fun _ => agrees_read inferInstance fun kind => ?_
  cases kind with
  | keyword word => cases word <;> infer_instance
  | _ => infer_instance

/-! ## Match -/

instance : Rule now now Builder.asPattern Compound.asPattern := by
  unfold Builder.asPattern Compound.asPattern
  dsimp only
  infer_instance

instance : Rule now now Builder.patterns Compound.patterns := by
  unfold Builder.patterns Compound.patterns
  infer_instance

instance : Rule now now (Builder.caseClause block) (Compound.caseClause block') := by
  constructor
  unfold Builder.caseClause Compound.caseClause
  refine agrees_read inferInstance fun start => agrees_read inferInstance fun _ => ?_
  refine agrees_bind now inferInstance inferInstance fun pattern => ?_
  refine agrees_read inferInstance fun isGuarded => ?_
  split <;> infer_instance

instance : Rule now now (Builder.cases block) (Compound.cases block') := by
  unfold Builder.cases Compound.cases
  infer_instance

instance (t : Tree) : Rule base (put base t).1 (Builder.matchRest block start (put base t).2)
    (Compound.matchRest block' start t) := by
  constructor
  unfold Builder.matchRest Compound.matchRest
  infer_instance

instance : Rule now now (Builder.matchStmt (Builder.matchRest block))
    (Compound.matchStmt block') := by
  have hspeculate := agrees_speculate (tries_matchSubject now)
  constructor
  unfold Builder.matchStmt Compound.matchStmt
  refine agrees_read inferInstance fun start => ?_
  refine agrees_bind now inferInstance hspeculate fun found => ?_
  cases found with
  | some subject =>
    exact inferInstanceAs (Agrees now (put now subject).1
      (do return some (← Builder.matchRest block start (put now subject).2))
      (do return some (← Compound.matchRest block' start subject)))
  | none => exact inferInstanceAs (Agrees now now (pure none) (pure none))

/-! ## Statements and blocks -/

/-- A line that begins with neither a keyword nor a sign. -/
instance agrees_nameLine : Agrees now now
    (do
      if ← Parser.checkWord "match" then
        Builder.matchLine (Builder.matchRest block) Builder.line
      else Builder.line)
    (do
      if ← Parser.checkWord "match" then
        match ← Compound.matchStmt block' with
        | some t => return [t]
        | none => Simple.line
      else Simple.line) := by
  refine agrees_read inferInstance fun isMatch => ?_
  split
  · refine agrees_bind now inferInstance inferInstance fun found => ?_
    cases found with
    | some t =>
      exact inferInstanceAs (Agrees now (put now t).1 (pure [(put now t).2]) (pure [t]))
    | none => exact inferInstanceAs (Agrees now now Builder.line Simple.line)
  · infer_instance

instance : Rule now now (Builder.statementWith block) (Compound.statementWith block') := by
  constructor
  unfold Builder.statementWith Compound.statementWith
  refine agrees_read inferInstance fun start => agrees_read inferInstance fun kind => ?_
  cases kind with
  | keyword word => cases word <;> infer_instance
  | op sign => cases sign <;> infer_instance
  | _ => infer_instance

end Compound

section Blocks

variable (now : Arena)

theorem agrees_blockOf {statement : Builder (List Nat)} {statement' : Parser (List Tree)}
    (h : ∀ now, Agrees now now statement statement') (construct : Construct) (line : Nat) :
    Agrees now now (Builder.blockOf statement construct line)
      (Compound.blockOf statement' construct line) := by
  unfold Builder.blockOf Compound.blockOf
  infer_instance

instance agrees_statement (room : Nat) :
    Rule now now (Builder.statement room) (Compound.statement room) := by
  constructor
  induction room generalizing now with
  | zero =>
    constructor
    intro ending state
    have hfail : Agrees now now
      (liftM (Parser.failHere .invalidSyntax : Parser (List Nat)))
      (Parser.failHere .invalidSyntax : Parser (List Tree)) := inferInstance
    exact hfail.run ending state
  | succ room ih =>
    have hblock : OfBlock (Builder.blockOf (Builder.statement room))
        (Compound.blockOf (Compound.statement room)) :=
      ⟨fun construct line now => ⟨agrees_blockOf now ih construct line⟩⟩
    have hstatement : Agrees now now
      (Builder.statementWith (Builder.blockOf (Builder.statement room)))
      (Compound.statementWith (Compound.blockOf (Compound.statement room))) := inferInstance
    exact ⟨fun ending state => hstatement.run ending state⟩

/-! ## Snippets -/

instance (room : Nat) : Rule now now (Builder.statements room) (Module.statements room) := by
  unfold Builder.statements Module.statements
  infer_instance

theorem matches_module (room : Nat) (ending : Ending) (state : ParserState) :
    Matches now (Builder.module room ending state now) (Module.module room ending state) := by
  have hmodule : ∀ (isFaulty : Bool) (stop : Position), Agrees now now
      (do
        let start ← Parser.here
        let statements ← Builder.statements room
        if isFaulty then Parser.failHere .invalidSyntax
        else Builder.store .module ⟨start, stop⟩ statements)
      (do
        let start ← Parser.here
        let statements ← Module.statements room
        if isFaulty then Parser.failHere .invalidSyntax
        else return Tree.node .module ⟨start, stop⟩ statements) := by
    intro isFaulty stop
    refine agrees_read inferInstance fun start => ?_
    refine agrees_bind now inferInstance inferInstance fun statements => ?_
    split
    · infer_instance
    · exact ⟨fun _ next => .of_puts (store_node rfl .module ⟨start, stop⟩) next⟩
  exact (hmodule ending.fault.isSome ending.position).run ending state

/-- **Reading leaves the tree alone.** The arena in which a snippet has been read, with all that was
tried and given up on the way, is the one that storing its tree gives; and it is refused for the
same reason. -/
theorem parse_eq_ofTree (source : String) :
    Builder.parse source = (Module.parse source).map RootedArena.ofTree := by
  have hmatch := matches_module .empty ((Module.initial (.ofText source)).left + 1)
    (Module.endingOf (.ofText source)) (Module.initial (.ofText source))
  unfold Builder.parse Module.parse Module.ofStream
  dsimp only
  generalize Builder.module _ _ _ _ = built at hmatch ⊢
  generalize Module.module _ _ _ = outcome at hmatch ⊢
  cases hmatch with
  | ok t next => rfl
  | fail error next h => rfl

end Blocks

end Building

namespace Ownership
open SnippetLint.Arena (links)

/-- **The arena is a tree without garbage.** In the arena in which a snippet has been read the root
is the last node, children come before their parents, and every other node is named exactly once
among all lists of children. So each node is reached from the root by exactly one path, the nodes
that are reached are all there are, and no walk meets an index without a node. -/
theorem parsed_arena_is_tree {source : String} {stored : RootedArena}
    (h : Builder.parse source = .ok stored) :
    stored.root + 1 = stored.arena.size ∧
    (∀ id node, stored.arena.get? id = some node → ∀ child ∈ node.children, child < id) ∧
    (∀ id < stored.arena.size, id ≠ stored.root →
      (links stored.arena.nodes.toList).count id = 1) ∧
    stored.root ∉ links stored.arena.nodes.toList ∧
    (∀ id < stored.arena.size, ∃! path, stored.arena.follow? stored.root path = some id) ∧
    Set.ncard {id | ∃ path, stored.arena.follow? stored.root path = some id} =
      stored.arena.size ∧
    ∀ limit id, (stored.walkWithin limit).error ≠ some (.danglingNode id) := by
  rw [Building.parse_eq_ofTree] at h
  obtain ⟨t, rfl⟩ : ∃ t, stored = RootedArena.ofTree t := by
    cases hparse : Module.parse source with
    | error error =>
      rw [hparse] at h
      cases h
    | ok t =>
      rw [hparse] at h
      cases h
      exact ⟨t, rfl⟩
  have htree := isTree_ofTree t
  exact ⟨htree.root_last, fun id node hnode child => htree.child_lt hnode,
    fun id => htree.count_eq_one, htree.root_not_mem, fun id => htree.existsUnique_path,
    htree.ncard_reached, htree.walk_error⟩

/-- After `match` turned out to be a name, nothing is left of the statement that it might have
started: the five nodes of the call are all there is. -/
theorem backtracked_arena_is_tree : ∃ stored,
    Builder.parse "match(x)" = .ok stored ∧ stored.arena.size = 5 ∧
      Set.ncard {id | ∃ path, stored.arena.follow? stored.root path = some id} = 5 := by
  have hsize : ((Builder.parse "match(x)").map (·.arena.size)).toOption = some 5 := by
    decide +kernel
  cases hparse : Builder.parse "match(x)" with
  | error error =>
    rw [hparse] at hsize
    cases hsize
  | ok stored =>
    rw [hparse] at hsize
    have hfive : stored.arena.size = 5 := Option.some.inj hsize
    obtain ⟨_, _, _, _, _, hreached, _⟩ := parsed_arena_is_tree hparse
    exact ⟨stored, rfl, hfive, hreached.trans hfive⟩

end Ownership

end SnippetLint
