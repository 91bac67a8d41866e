import SnippetLint.Proofs.Conservation
import SnippetLint.Proofs.Program

/-!
Every rule of the grammar has a program, which runs into no trap: first the rules of expressions,
for a level whose parsers have programs, then by induction all levels, the simple statements, the
statements with blocks and, by induction on the blocks that may nest, whole snippets. There is one
instance for each rule, and it is the rule itself that says how its program is put together. A loop
needs to know of its rounds that they take a token.

Three rules have programs of their own. A chain of operands joined by one word is entered only where
that word comes next, the dots before a module's name are counted with numbers that have a size, and
the last check of a snippet looks at the token that stands for the lexical error.
-/

namespace SnippetLint.Program

/-- The innermost level is reached only where no level may open any more. -/
def innermost : Program Tree := fun tape spot =>
  if Parser.maxNesting ≤ spot.depth then failHere .tooDeeplyNested tape spot
  else .trap .exhausted

/-- More blocks would have to nest than there are tokens. -/
def exhausted : Program α := fun _ _ => .trap .exhausted

/-- Whether the token has been reached that stands for the lexical error. -/
def atFailure : Program Bool := fun tape spot =>
  .ok (tape.failure.any fun (index, _) => index ≤ spot.pos) spot

/-- The tree of all statements, if the tokens do not end in the lexical error. -/
def finish (start : Position) (statements : List Tree) : Program Tree := do
  if ← atFailure then failHere .invalidSyntax
  else return .node .module ⟨start, (← current).span.stop⟩ statements

end SnippetLint.Program

namespace SnippetLint.Indexed
open SnippetLint.Parser SnippetLint.Derivation SnippetLint.Progress

variable {room levels : Nat}

/-- A level whose parsers have programs. -/
class OfLevel (room levels : Nat) (inner : Level) where
  expression : Indexed room levels inner.expression
  operand : ∀ least, Indexed room levels (inner.operand least)
  primary : Indexed room levels inner.primary

attribute [reducible, instance] OfLevel.expression OfLevel.operand OfLevel.primary

/-! ## Expressions -/

section Expression

variable (inner : Level) [OfLevel room levels inner] [moves.OfLevel inner]
  (start : Position) (t : Tree)

instance : Indexed room levels (Expression.disjunction inner) := by
  unfold Expression.disjunction
  infer_instance

instance : Indexed room levels (Expression.bitwiseOr inner) := by
  unfold Expression.bitwiseOr
  infer_instance

instance : Indexed room levels (Expression.named inner) := by
  unfold Expression.named
  infer_instance

instance : Indexed room levels (Expression.starred inner) := by
  unfold Expression.starred
  infer_instance

instance : Indexed room levels (Expression.star inner) := by
  unfold Expression.star
  infer_instance

instance : Indexed room levels (Expression.starNamed inner) := by
  unfold Expression.starNamed
  infer_instance

instance : Indexed room levels Expression.startsNone := by
  unfold Expression.startsNone
  infer_instance

instance : Indexed room levels (Expression.starList inner) := by
  unfold Expression.starList
  infer_instance

instance : Indexed room levels (Expression.starNamedList inner) := by
  unfold Expression.starNamedList
  infer_instance

instance : Indexed room levels (Expression.yield inner) := by
  unfold Expression.yield
  infer_instance

instance : Indexed room levels (Expression.assigned inner) := by
  unfold Expression.assigned
  infer_instance

instance : Indexed room levels (Expression.targetItem inner) := by
  unfold Expression.targetItem
  infer_instance

instance : Indexed room levels (Expression.targetList inner) := by
  unfold Expression.targetList
  infer_instance

variable (annotated : Bool) (parameters : Expression.Parameters)

instance : Indexed room levels (Expression.annotation inner annotated) := by
  unfold Expression.annotation
  infer_instance

instance : Indexed room levels (Expression.slashParameter parameters) := by
  unfold Expression.slashParameter
  infer_instance

instance : Indexed room levels (Expression.starParameter inner annotated parameters) := by
  unfold Expression.starParameter
  dsimp only
  infer_instance

instance : Indexed room levels (Expression.doubleStarParameter inner annotated parameters) := by
  unfold Expression.doubleStarParameter
  dsimp only
  infer_instance

instance : Indexed room levels (Expression.plainParameter inner annotated parameters) := by
  unfold Expression.plainParameter
  dsimp only
  infer_instance

instance : Indexed room levels (Expression.parameter inner annotated parameters) := by
  unfold Expression.parameter
  split
  · infer_instance
  · refine sequence inferInstance fun kind => ?_
    split <;> infer_instance

instance (closer : TokenKind) :
    Indexed room levels (Expression.parameters inner closer annotated) := by
  unfold Expression.parameters
  infer_instance

instance : Indexed room levels (Expression.lambda inner) := by
  unfold Expression.lambda
  infer_instance

instance : Indexed room levels (Expression.conditional inner) := by
  unfold Expression.conditional
  infer_instance

instance : Indexed room levels Expression.startsComprehension := by
  unfold Expression.startsComprehension
  infer_instance

instance : Indexed room levels (Expression.comprehensionClause inner) := by
  unfold Expression.comprehensionClause
  refine sequence inferInstance fun start => ?_
  refine sequence inferInstance fun isAsync => ?_
  refine sequence inferInstance fun _ => ?_
  refine sequence inferInstance fun target => ?_
  infer_instance

instance : Indexed room levels (Expression.comprehensionClauses inner) := by
  unfold Expression.comprehensionClauses
  infer_instance

instance : Indexed room levels (Expression.captured t start) := by
  unfold Expression.captured
  infer_instance

instance : Indexed room levels (Expression.displayItem inner) := by
  unfold Expression.displayItem
  infer_instance

instance : Indexed room levels (Expression.capturedExpression inner) := by
  unfold Expression.capturedExpression
  infer_instance

instance (closer : TokenKind) : Indexed room levels (Expression.displayRest inner t closer) := by
  unfold Expression.displayRest
  infer_instance

instance (kind : NodeKind) (elements : List Tree) (closer : TokenKind) :
    Indexed room levels (Expression.comprehension inner kind start elements closer) := by
  unfold Expression.comprehension
  infer_instance

instance : Indexed room levels (Expression.parenthesized inner) := by
  unfold Expression.parenthesized
  refine sequence inferInstance fun start => ?_
  refine sequence inferInstance fun _ => ?_
  refine sequence inferInstance fun closed => ?_
  split
  · infer_instance
  refine sequence inferInstance fun yields => ?_
  split <;> infer_instance

instance : Indexed room levels (Expression.listDisplay inner) := by
  unfold Expression.listDisplay
  refine sequence inferInstance fun start => sequence inferInstance fun _ => ?_
  refine sequence inferInstance fun closed => ?_
  split <;> infer_instance

instance : Indexed room levels (Expression.dictEntry inner) := by
  unfold Expression.dictEntry
  infer_instance

instance (first : List Tree) : Indexed room levels (Expression.dictRest inner start first) := by
  unfold Expression.dictRest
  infer_instance

instance : Indexed room levels (Expression.braceDisplay inner) := by
  unfold Expression.braceDisplay
  refine sequence inferInstance fun start => ?_
  refine sequence inferInstance fun _ => ?_
  refine sequence inferInstance fun closed => ?_
  split
  · infer_instance
  refine sequence inferInstance fun spreads => ?_
  split <;> infer_instance

variable (allowGenerator : Bool) (arguments : Expression.Arguments)

instance : Indexed room levels (Expression.starArgument inner arguments) := by
  unfold Expression.starArgument
  infer_instance

instance : Indexed room levels (Expression.doubleStarArgument inner arguments) := by
  unfold Expression.doubleStarArgument
  infer_instance

instance : Indexed room levels (Expression.keywordArgument inner arguments) := by
  unfold Expression.keywordArgument
  infer_instance

instance : Indexed room levels (Expression.positionalArgument inner allowGenerator arguments) := by
  unfold Expression.positionalArgument
  infer_instance

instance : Indexed room levels (Expression.argument inner allowGenerator arguments) := by
  unfold Expression.argument
  refine sequence inferInstance fun kind => ?_
  split <;> infer_instance

instance : Indexed room levels (Expression.arguments inner allowGenerator) := by
  unfold Expression.arguments
  infer_instance

instance : Indexed room levels Expression.atSliceBoundary := by
  unfold Expression.atSliceBoundary
  infer_instance

instance : Indexed room levels (Expression.sliceBound inner) := by
  unfold Expression.sliceBound
  infer_instance

instance (lower : List Tree) : Indexed room levels (Expression.sliceRest inner start lower) := by
  unfold Expression.sliceRest
  infer_instance

instance : Indexed room levels (Expression.slice inner) := by
  unfold Expression.slice
  infer_instance

instance : Indexed room levels (Expression.slices inner) := by
  unfold Expression.slices
  infer_instance

instance (value : Constant) : Indexed room levels (Expression.constant value) := by
  unfold Expression.constant
  infer_instance

instance : Indexed room levels Expression.strings := by
  unfold Expression.strings
  infer_instance

instance : Indexed room levels (Expression.atom inner) := by
  unfold Expression.atom
  refine sequence inferInstance fun kind => ?_
  split <;> infer_instance

instance : Indexed room levels (Expression.trailer inner start t) := by
  unfold Expression.trailer
  refine sequence inferInstance fun kind => ?_
  split <;> infer_instance

instance : Indexed room levels (Expression.primary inner) := by
  unfold Expression.primary
  infer_instance

instance (least : Nat) : Indexed room levels (Expression.unary inner least) := by
  unfold Expression.unary
  refine sequence inferInstance fun start => ?_
  refine sequence inferInstance fun kind => ?_
  split
  · infer_instance
  · split <;> infer_instance

instance : Indexed room levels Expression.eatCompare := by
  unfold Expression.eatCompare
  refine sequence inferInstance fun first => ?_
  refine sequence inferInstance fun second => ?_
  split <;> infer_instance

instance : Indexed room levels (Expression.compareChain inner start t) := by
  unfold Expression.compareChain
  have hlink : Indexed room levels (do
      match ← Expression.eatCompare with
      | some op => return some (op, ← inner.operand Power.ofCompare.2)
      | none => return none) := by
    refine sequence inferInstance fun op => ?_
    split <;> infer_instance
  infer_instance

instance (op : BinaryOp) : Indexed room levels (Expression.binary inner op start t) := by
  unfold Expression.binary
  infer_instance

variable (room levels) in
/-- A chain of operands, each after the kind of token that comes next. -/
def boolChain (op : BoolOp) : Program Tree := do
  let kind ← program room levels peek
  let operands ← Program.many <| program room levels do
    if ← eat kind then return some (← inner.operand (Power.ofBool op).2) else return none
  program room levels (node (.boolOp op) start (t :: operands))

-- the end marker would join operands for ever: the chain is entered only where a word comes next
theorem mirrors_boolChain (op : BoolOp) {kind : TokenKind} [Real kind] {v : TokenVector}
    {spot : Spot} (h : Fits room levels v spot)
    (hkind : peek v.ending (v.state spot) = .ok kind (v.state spot)) :
    Mirrors v spot (boolChain room levels inner start t op v.tape spot)
      (Expression.boolChain inner op start t v.ending (v.state spot)) := by
  refine mirrors_bind (mirrors h) fun found next hfound hle hlast hdepth => ?_
  rw [hkind] at hfound
  obtain ⟨rfl, -⟩ := Outcome.ok.inj hfound
  have h := h.after hle hlast hdepth
  exact mirrors_bind (mirrors_many _ h (Nat.lt_succ_self _)) fun operands last _ hle hlast hdepth =>
    mirrors (h.after hle hlast hdepth)

instance (least : Nat) : Indexed room levels (Expression.extend inner least start t) where
  program := do
    let kind ← program room levels peek
    match Power.boolOp? kind, Power.compareOp? kind (← program room levels (peekAt 1)),
        Power.binaryOp? kind with
    | some op, _, _ =>
      if least ≤ (Power.ofBool op).1 then
        return (← boolChain room levels inner start t op, true)
      else return (t, false)
    | none, some _, _ => program room levels do
      if least ≤ Power.ofCompare.1 then return (← Expression.compareChain inner start t, true)
      else return (t, false)
    | none, none, some op => program room levels do
      if least ≤ (Power.ofBinary op).1 then
        return (← Expression.binary inner op start t, true)
      else return (t, false)
    | none, none, none => return (t, false)
  mirrors h := by
    refine mirrors_bind (mirrors h) fun kind next hkind hle hlast hdepth => ?_
    have h := h.after hle hlast hdepth
    refine mirrors_bind (mirrors h) fun second last hsecond hle hlast hdepth => ?_
    have h := h.after hle hlast hdepth
    rw [eq_of_peek hkind, eq_of_peekAt hsecond] at hkind
    cases hbool : Power.boolOp? kind with
    | some op =>
      have := real_of_boolOp hbool
      dsimp only
      split
      · exact mirrors_bind (mirrors_boolChain inner start t op h hkind)
          fun u _ _ _ hlast _ => mirrors_pure _ hlast
      · exact mirrors_pure _ h.pos_le
    | none =>
      cases hcompare : Power.compareOp? kind second with
      | some _ => exact mirrors h
      | none =>
        cases hbinary : Power.binaryOp? kind with
        | some op => exact mirrors h
        | none => exact mirrors_pure _ h.pos_le

instance (least : Nat) : Indexed room levels (Expression.operation inner least) := by
  unfold Expression.operation
  infer_instance

end Expression

/-! ## Levels -/

instance (inner : Level) [OfLevel room levels inner] [moves.OfLevel inner] :
    OfLevel room (levels + 1) (.around inner) where
  expression := inferInstanceAs (Indexed room (levels + 1) (nested (Expression.conditional inner)))
  operand least :=
    inferInstanceAs (Indexed room (levels + 1) (nested (Expression.operation inner least)))
  primary := inferInstanceAs (Indexed room (levels + 1) (nested (Expression.primary inner)))

@[reducible]
def innermost : Indexed room 0 (failHere .tooDeeplyNested : Parser Tree) where
  program := Program.innermost
  mirrors h := by
    have hdeep := h.deep
    rw [Nat.add_zero] at hdeep
    unfold Program.innermost
    rw [if_pos hdeep]
    exact mirrors_failHere _ h.pos_le

/-- As many levels have programs as may still open. -/
instance ofLevel_within : ∀ levels, OfLevel room levels (.within levels)
  | 0 => ⟨innermost, fun _ => innermost, innermost⟩
  | levels + 1 =>
    have := ofLevel_within levels
    inferInstanceAs (OfLevel room (levels + 1) (.around (.within levels)))

instance : OfLevel room maxNesting .top := ofLevel_within maxNesting

/-! ## Simple statements -/

section Simple

variable (start : Position) (first : Tree)

instance : Indexed room maxNesting Simple.asName := by
  unfold Simple.asName
  infer_instance

instance : Indexed room maxNesting Simple.dottedName := by
  unfold Simple.dottedName
  infer_instance

instance (name : Parser String) [Indexed room maxNesting name] :
    Indexed room maxNesting (Simple.importAlias name) := by
  unfold Simple.importAlias
  infer_instance

instance : Indexed room maxNesting Simple.importStmt := by
  unfold Simple.importStmt
  infer_instance

/-- One or three of the dots before a module's name. -/
def someDots : Parser (Option Nat) := do
  if ← eat (.op .dot) then return some 1
  else if ← eat (.op .ellipsis) then return some 3
  else return none

instance : moves.Follows someDots := by
  unfold someDots
  infer_instance

instance : Takes false someDots Option.isSome := by
  unfold someDots
  infer_instance

instance : Indexed room maxNesting someDots := by
  unfold someDots
  infer_instance

theorem le_three_of_someDots {ending : Ending} {before after : ParserState} {n : Nat}
    (h : someDots ending before = .ok (some n) after) : n ≤ 3 := by
  obtain ⟨single, mid, -, h⟩ := ParserLaw.bind_eq_ok h
  split at h
  · cases h
    decide
  obtain ⟨triple, last, -, h⟩ := ParserLaw.bind_eq_ok h
  split at h
  · cases h
    decide
  · cases h

/-- A token counts for three dots at most. -/
theorem sum_le_of_manyDots {ending : Ending} {fuel : Nat} {before after : ParserState}
    {dots : List Nat} (h : manyWithin someDots fuel ending before = .ok dots after) :
    dots.sum + 3 * after.left ≤ 3 * before.left := by
  induction fuel generalizing before dots with
  | zero =>
    cases h
    simp
  | succ fuel ih =>
    obtain ⟨found, mid, hround, h⟩ := ParserLaw.bind_eq_ok h
    cases found with
    | none =>
      cases h
      have hle := left_le_of hround
      rw [List.sum_nil]
      omega
    | some n =>
      obtain ⟨more, last, hmore, h⟩ := ParserLaw.bind_eq_ok h
      cases h
      have htakes : Takes false someDots Option.isSome := inferInstance
      have hleft := htakes.run nofun hround rfl
      have hthree := le_three_of_someDots hround
      have hrest := ih hmore
      rw [List.sum_cons]
      omega

theorem total_eq {tape : Tape} {spot : Spot} {sum : Nat} {ns : List Nat}
    (h : ∀ size ∈ tape.capacity, sum + ns.sum < size) :
    Program.total sum ns tape spot = .ok (ns.foldl (· + ·) sum) spot := by
  induction ns generalizing sum with
  | nil => rfl
  | cons n ns ih =>
    simp only [List.sum_cons] at h
    have hadd : Program.add sum n tape spot = .ok (sum + n) spot := by
      unfold Program.add
      rw [if_neg]
      cases hsize : tape.capacity with
      | none => simp
      | some size =>
        have := h size hsize
        simp only [Option.any_some, decide_eq_true_eq]
        omega
    rw [Program.total, Program.bind_ok hadd, List.foldl_cons]
    exact ih fun size hsize => by have := h size hsize; omega

/-- No dots add more than three for a token, and three times the tokens fit in a number. -/
theorem mirrors_total {v : TokenVector} {spot next : Spot} {fuel : Nat} {dots : List Nat}
    (hdots : manyWithin someDots fuel v.ending (v.state spot) = .ok dots (v.state next))
    (hlast : next.pos ≤ v.last) :
    Mirrors v next (Program.total 0 dots v.tape next)
      ((pure (dots.foldl (· + ·) 0) : Parser Nat) v.ending (v.state next)) := by
  rw [total_eq]
  · exact mirrors_pure _ hlast
  · intro size hsize
    have hsum := sum_le_of_manyDots hdots
    have hfits := v.fits size hsize
    simp only [TokenVector.left_state, TokenVector.last] at hsum
    omega

instance : Indexed room maxNesting Simple.importLevel where
  program := do Program.total 0 (← Program.many (program room maxNesting someDots))
  mirrors h := mirrors_bind (mirrors_many _ h (Nat.lt_succ_self _))
    fun _ _ hdots _ hlast _ => mirrors_total hdots hlast

instance : Indexed room maxNesting Simple.importedNames := by
  unfold Simple.importedNames
  refine sequence inferInstance fun all => ?_
  split <;> infer_instance

instance : Indexed room maxNesting Simple.importFrom := by
  unfold Simple.importFrom
  refine sequence inferInstance fun start => ?_
  refine sequence inferInstance fun _ => ?_
  refine sequence inferInstance fun level => ?_
  refine sequence inferInstance fun named => ?_
  -- what follows both branches of a choice stands before it under a name; the search needs it
  -- in its place
  dsimp only
  split <;> infer_instance

instance : Indexed room maxNesting (Simple.assignment start first) := by
  unfold Simple.assignment
  dsimp only
  infer_instance

instance (op : BinaryOp) : Indexed room maxNesting (Simple.augmented start first op) := by
  unfold Simple.augmented
  infer_instance

instance : Indexed room maxNesting (Simple.annotated start first) := by
  unfold Simple.annotated
  infer_instance

instance : Indexed room maxNesting Simple.expressionStmt := by
  unfold Simple.expressionStmt
  refine sequence inferInstance fun start => ?_
  refine sequence inferInstance fun first => ?_
  refine sequence inferInstance fun kind => ?_
  split
  · infer_instance
  · split <;> infer_instance

instance (kind : NodeKind) : Indexed room maxNesting (Simple.keywordOnly kind) := by
  unfold Simple.keywordOnly
  infer_instance

instance : Indexed room maxNesting Simple.returnStmt := by
  unfold Simple.returnStmt
  infer_instance

instance : Indexed room maxNesting Simple.raiseStmt := by
  unfold Simple.raiseStmt
  infer_instance

instance (kind : List String → NodeKind) : Indexed room maxNesting (Simple.scopeStmt kind) := by
  unfold Simple.scopeStmt
  infer_instance

instance : Indexed room maxNesting Simple.deleteStmt := by
  unfold Simple.deleteStmt
  infer_instance

instance : Indexed room maxNesting Simple.assertStmt := by
  unfold Simple.assertStmt
  infer_instance

instance : Indexed room maxNesting Simple.statement := by
  unfold Simple.statement
  refine sequence inferInstance fun kind => ?_
  split <;> infer_instance

instance : Indexed room maxNesting Simple.line := by
  unfold Simple.line
  infer_instance

end Simple

/-! ## Statements with blocks -/

section Compound

variable (block : Compound.BlockParser)
  [∀ construct line, Indexed room maxNesting (block construct line)]
  [∀ construct line, moves.Follows (block construct line)]
  (start : Position)

instance : Indexed room maxNesting Compound.lineHere := by
  unfold Compound.lineHere
  infer_instance

instance (keyword : Keyword) (construct : Construct) :
    Indexed room maxNesting (Compound.clause block keyword construct) := by
  unfold Compound.clause
  infer_instance

instance : Indexed room maxNesting (Compound.elseClause block) := by
  unfold Compound.elseClause
  infer_instance

instance (construct : Construct) (line : Nat) :
    Indexed room maxNesting (Compound.guarded block construct line) := by
  unfold Compound.guarded
  infer_instance

instance : Indexed room maxNesting (Compound.ifStmt block) := by
  unfold Compound.ifStmt
  refine sequence inferInstance fun start => sequence inferInstance fun _ => ?_
  refine sequence inferInstance fun first => ?_
  infer_instance

instance : Indexed room maxNesting (Compound.whileStmt block) := by
  unfold Compound.whileStmt
  infer_instance

instance (isAsync : Bool) : Indexed room maxNesting (Compound.forStmt block start isAsync) := by
  unfold Compound.forStmt
  refine sequence inferInstance fun line => ?_
  refine sequence inferInstance fun _ => ?_
  refine sequence inferInstance fun target => ?_
  refine sequence inferInstance fun target => ?_
  infer_instance

instance (isStar : Bool) : Indexed room maxNesting (Compound.caught isStar) := by
  unfold Compound.caught
  infer_instance

instance (handlers : Compound.Handlers) :
    Indexed room maxNesting (Compound.handler block handlers) := by
  unfold Compound.handler
  refine sequence inferInstance fun start => ?_
  refine sequence inferInstance fun _ => ?_
  refine sequence inferInstance fun isStar => ?_
  split <;> infer_instance

instance : Indexed room maxNesting (Compound.handlers block) := by
  unfold Compound.handlers
  infer_instance

instance : Indexed room maxNesting (Compound.tryStmt block) := by
  unfold Compound.tryStmt
  refine sequence inferInstance fun start => ?_
  refine sequence inferInstance fun _ => ?_
  refine sequence inferInstance fun _ => ?_
  refine sequence inferInstance fun body => ?_
  dsimp only
  infer_instance

instance : Indexed room maxNesting Compound.withItem := by
  unfold Compound.withItem
  infer_instance

instance : Indexed room maxNesting Compound.withItems := by
  unfold Compound.withItems
  infer_instance

instance : Indexed room maxNesting Compound.bracketedItems := by
  unfold Compound.bracketedItems
  infer_instance

instance (isAsync : Bool) : Indexed room maxNesting (Compound.withStmt block start isAsync) := by
  unfold Compound.withStmt
  refine sequence inferInstance fun line => ?_
  refine sequence inferInstance fun _ => ?_
  refine sequence inferInstance fun bracket => ?_
  dsimp only
  split <;> refine sequence inferInstance fun bracketed => ?_
  all_goals split <;> infer_instance

instance : Indexed room maxNesting Compound.typeParam := by
  unfold Compound.typeParam
  refine sequence inferInstance fun start => ?_
  refine sequence inferInstance fun star => ?_
  dsimp only
  split
  · refine sequence inferInstance fun _ => ?_
    refine sequence inferInstance fun name => ?_
    refine sequence inferInstance fun colon => ?_
    split <;> infer_instance
  · refine sequence inferInstance fun name => ?_
    refine sequence inferInstance fun colon => ?_
    split <;> infer_instance

instance : Indexed room maxNesting Compound.typeParams := by
  unfold Compound.typeParams
  infer_instance

instance (decorators : List Tree) (isAsync : Bool) :
    Indexed room maxNesting (Compound.functionDef block decorators start isAsync) := by
  unfold Compound.functionDef
  refine sequence inferInstance fun line => ?_
  refine sequence inferInstance fun _ => ?_
  refine sequence inferInstance fun name => ?_
  refine sequence inferInstance fun types => ?_
  refine sequence inferInstance fun _ => ?_
  refine sequence inferInstance fun parameters => ?_
  refine sequence inferInstance fun _ => ?_
  refine sequence inferInstance fun arrow => ?_
  dsimp only
  infer_instance

instance : Indexed room maxNesting Compound.classArguments := by
  unfold Compound.classArguments
  infer_instance

instance (decorators : List Tree) :
    Indexed room maxNesting (Compound.classDef block decorators start) := by
  unfold Compound.classDef
  infer_instance

instance : Indexed room maxNesting Compound.decorator := by
  unfold Compound.decorator
  infer_instance

instance : Indexed room maxNesting (Compound.decorated block) := by
  unfold Compound.decorated
  refine sequence inferInstance fun start => ?_
  refine sequence inferInstance fun decorators => ?_
  refine sequence inferInstance fun first => ?_
  refine sequence inferInstance fun second => ?_
  split <;> infer_instance

instance : Indexed room maxNesting (Compound.asyncStmt block start) := by
  unfold Compound.asyncStmt
  refine sequence inferInstance fun _ => ?_
  refine sequence inferInstance fun kind => ?_
  split <;> infer_instance

instance : Indexed room maxNesting Compound.asPattern := by
  unfold Compound.asPattern
  infer_instance

instance : Indexed room maxNesting Compound.endsPattern := by
  unfold Compound.endsPattern
  infer_instance

instance : Indexed room maxNesting Compound.patterns := by
  unfold Compound.patterns
  infer_instance

instance : Indexed room maxNesting (Compound.caseClause block) := by
  unfold Compound.caseClause
  refine sequence inferInstance fun start => ?_
  refine sequence inferInstance fun _ => ?_
  refine sequence inferInstance fun pattern => ?_
  refine sequence inferInstance fun guarded => ?_
  dsimp only
  infer_instance

instance : Indexed room maxNesting Compound.matchSubject := by
  unfold Compound.matchSubject
  infer_instance

instance : Indexed room maxNesting (Compound.cases block) := by
  unfold Compound.cases
  infer_instance

instance (subject : Tree) : Indexed room maxNesting (Compound.matchRest block start subject) := by
  unfold Compound.matchRest
  infer_instance

instance : Indexed room maxNesting (Compound.matchStmt block) := by
  unfold Compound.matchStmt
  refine sequence inferInstance fun start => ?_
  refine sequence inferInstance fun subject => ?_
  split <;> infer_instance

instance : Indexed room maxNesting (Compound.statementWith block) := by
  unfold Compound.statementWith
  refine sequence inferInstance fun start => ?_
  refine sequence inferInstance fun kind => ?_
  -- the one case that itself goes on by cases
  have hline : Indexed room maxNesting (do
      if ← checkWord "match" then
        match ← Compound.matchStmt block with
        | some t => return [t]
        | none => Simple.line
      else Simple.line) := by
    refine sequence inferInstance fun isMatch => ?_
    split
    · refine sequence inferInstance fun found => ?_
      split <;> infer_instance
    · infer_instance
  split <;> infer_instance

end Compound

/-- What comes after a token that is eaten has less room to open blocks in. -/
@[reducible]
def afterEating (kind : TokenKind) [hkind : Real kind] {p q : Parser α}
    (hp : Indexed room levels p) (hq : Indexed (room + 1) levels q) :
    Indexed (room + 1) levels (eat kind >>= fun found => if found = true then p else q) where
  program := do
    if ← program (room + 1) levels (eat kind) then hp.program else hq.program
  mirrors h := by
    refine mirrors_bind (mirrors h) fun found next heat hle hlast hdepth => ?_
    have hnext := h.after hle hlast hdepth
    cases found with
    | false => exact hq.mirrors hnext
    | true =>
      have hlt := left_lt_of_eat heat hkind.ne_end
      have hroom := h.left_lt
      simp only [TokenVector.left_state] at hlt
      exact hp.mirrors ⟨hlast, by omega, hnext.deep⟩

instance (construct : Construct) (line : Nat) [Indexed room maxNesting (Compound.statement room)] :
    Indexed (room + 1) maxNesting (Compound.blockOf (Compound.statement room) construct line) := by
  unfold Compound.blockOf
  refine sequence inferInstance fun start => ?_
  exact afterEating .newline inferInstance inferInstance

/-- Statements have programs for as many blocks as there are tokens. -/
instance indexed_statement : ∀ room, Indexed room maxNesting (Compound.statement room)
  | 0 => ⟨Program.exhausted, fun h => absurd h.left_lt (Nat.not_lt_zero _)⟩
  | room + 1 =>
    have := indexed_statement room
    inferInstanceAs (Indexed (room + 1) maxNesting
      (Compound.statementWith (Compound.blockOf (Compound.statement room))))

/-! ## Whole snippets -/

instance (room : Nat) : Indexed room maxNesting (Module.statements room) := by
  unfold Module.statements
  infer_instance

theorem mirrors_finish (start : Position) (statements : List Tree) {v : TokenVector} {spot : Spot}
    (hpos : spot.pos ≤ v.last) (hrest : (v.state spot).rest = []) :
    Mirrors v spot (Program.finish start statements v.tape spot)
      ((if v.ending.fault.isSome then failHere .invalidSyntax
        else return .node .module ⟨start, v.ending.position⟩ statements : Parser Tree) v.ending
          (v.state spot)) := by
  obtain ⟨hcons, -, -⟩ | ⟨-, hend, htoken⟩ := TokenVector.rest_state hpos
  · rw [hrest] at hcons
    cases hcons
  have hfailure : Program.atFailure v.tape spot = .ok v.ending.fault.isSome spot := by
    cases hfault : v.ending.fault <;>
      simp [Program.atFailure, TokenVector.tape, hfault, hend]
  rw [Program.finish, Program.bind_ok hfailure]
  split
  · exact mirrors_failHere _ hpos
  · rw [Program.bind_ok (TokenVector.current_eq hpos), htoken]
    exact mirrors_pure _ hpos

instance (room : Nat) : Indexed room maxNesting (Module.module room) where
  program := do
    let start ← program room maxNesting here
    let statements ← program room maxNesting (Module.statements room)
    Program.finish start statements
  mirrors {v spot} h := by
    show Mirrors v spot _ ((do
      let start ← here
      let statements ← Module.statements room
      if v.ending.fault.isSome then failHere .invalidSyntax
      else return .node .module ⟨start, v.ending.position⟩ statements : Parser Tree) v.ending
        (v.state spot))
    refine mirrors_bind (mirrors h) fun start next _ hle hlast hdepth => ?_
    refine mirrors_bind (mirrors (h.after hle hlast hdepth))
      fun statements last hall _ hlast _ => ?_
    exact mirrors_finish start statements hlast (Conservation.rest_eq_nil_of_statements hall)

end SnippetLint.Indexed
