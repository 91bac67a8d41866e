import SnippetLint.Builder.Statement
import SnippetLint.Proofs.Building

/-!
Every rule that an attempt can reach agrees with its builder: one instance for each rule, from an
item of an expression to the head of a statement. A rule that is handed trees takes them stored.
Main statements: `ofLevel_within`, `tries_matchSubject`, `tries_bracketedItems` and
`agrees_withStmt`.
-/

namespace SnippetLint.Building
open SnippetLint.Parser (advance check expect speculate)

/-- A level of builders beside a level of parsers. -/
class OfLevel (inner : Builder.Level) (inner' : Level) : Prop where
  expression (now : Arena) : Rule now now inner.expression inner'.expression
  operand (now : Arena) (least : Nat) : Rule now now (inner.operand least) (inner'.operand least)
  primary (now : Arena) : Rule now now inner.primary inner'.primary

attribute [instance] OfLevel.expression OfLevel.operand OfLevel.primary

section Expression

variable (base now : Arena) (inner : Builder.Level) (inner' : Level) [OfLevel inner inner']
  (start : Position) (t : Tree)

/-! ## Expressions with and without names, stars and commas -/

instance : Rule now now (Builder.disjunction inner) (Expression.disjunction inner') := by
  unfold Builder.disjunction Expression.disjunction
  infer_instance

instance : Rule now now (Builder.bitwiseOr inner) (Expression.bitwiseOr inner') := by
  unfold Builder.bitwiseOr Expression.bitwiseOr
  infer_instance

instance : Rule now now (Builder.named inner) (Expression.named inner') := by
  constructor
  unfold Builder.named Expression.named
  refine agrees_read inferInstance fun start => agrees_read inferInstance fun isName => ?_
  refine agrees_read inferInstance fun second => ?_
  split <;> infer_instance

instance : Rule now now (Builder.starred inner) (Expression.starred inner') := by
  unfold Builder.starred Expression.starred
  infer_instance

instance : Rule now now (Builder.star inner) (Expression.star inner') := by
  unfold Builder.star Expression.star
  infer_instance

instance : Rule now now (Builder.starNamed inner) (Expression.starNamed inner') := by
  unfold Builder.starNamed Expression.starNamed
  infer_instance

instance : Rule now now (Builder.starList inner) (Expression.starList inner') := by
  unfold Builder.starList Expression.starList
  infer_instance

instance : Rule now now (Builder.starNamedList inner) (Expression.starNamedList inner') := by
  unfold Builder.starNamedList Expression.starNamedList
  infer_instance

instance : Rule now now (Builder.yield inner) (Expression.yield inner') := by
  unfold Builder.yield Expression.yield
  infer_instance

instance : Rule now now (Builder.targetItem inner) (Expression.targetItem inner') := by
  unfold Builder.targetItem Expression.targetItem
  infer_instance

instance : Rule now now (Builder.targetList inner) (Expression.targetList inner') := by
  unfold Builder.targetList Expression.targetList
  infer_instance

/-! ## Parameters -/

/-- The parameters of a list are stored, the rest of what is known about it is the same. -/
instance : Storable Expression.Parameters Builder.Parameters where
  put arena b := ((put arena b.list).1, { b with list := (put arena b.list).2 })
  grows arena b := Storable.grows arena b.list

variable (list : List Tree) (ids : List Nat)
  (seenDefault seenSlash keywordOnly bareStar seenVarKeyword : Bool)

theorem put_parameters :
    put base (⟨list, seenDefault, seenSlash, keywordOnly, bareStar, seenVarKeyword⟩ :
        Expression.Parameters) =
      ((put base list).1,
        ⟨(put base list).2, seenDefault, seenSlash, keywordOnly, bareStar, seenVarKeyword⟩) := rfl

instance [h : Puts base list now ids] :
    Puts base (⟨list, seenDefault, seenSlash, keywordOnly, bareStar, seenVarKeyword⟩ :
        Expression.Parameters) now
      ⟨ids, seenDefault, seenSlash, keywordOnly, bareStar, seenVarKeyword⟩ := by
  constructor
  rw [put_parameters, h.eq]

instance : PutsFrom now Expression.Parameters.none now Builder.Parameters.none := ⟨rfl⟩

theorem isEmpty_put [Storable β α] (bs : List β) : (put base bs).2.isEmpty = bs.isEmpty := by
  cases bs <;> rfl

variable (annotated : Bool) (parameters : Expression.Parameters)

instance : Rule now now (Builder.annotation inner annotated)
    (Expression.annotation inner' annotated) := by
  unfold Builder.annotation Expression.annotation
  infer_instance

/-- The slash changes parameters that are stored already. -/
instance : Rule base (put base parameters).1 (Builder.slashParameter (put base parameters).2)
    (Expression.slashParameter parameters) := by
  obtain ⟨list, seenDefault, seenSlash, keywordOnly, bareStar, seenVarKeyword⟩ := parameters
  constructor
  unfold Builder.slashParameter Expression.slashParameter
  simp only [put_parameters, isEmpty_put]
  split
  · infer_instance
  · refine agrees_read inferInstance fun _ => ⟨fun ending state => .of_puts ?_ state⟩
    rw [put_parameters, put_positionalOnly]

instance : Rule base (put base parameters).1
    (Builder.starParameter inner annotated (put base parameters).2)
    (Expression.starParameter inner' annotated parameters) := by
  obtain ⟨list, seenDefault, seenSlash, keywordOnly, bareStar, seenVarKeyword⟩ := parameters
  constructor
  unfold Builder.starParameter Expression.starParameter
  simp only [put_parameters, Builder.Parameters.push, Expression.Parameters.push]
  infer_instance

instance : Rule base (put base parameters).1
    (Builder.doubleStarParameter inner annotated (put base parameters).2)
    (Expression.doubleStarParameter inner' annotated parameters) := by
  obtain ⟨list, seenDefault, seenSlash, keywordOnly, bareStar, seenVarKeyword⟩ := parameters
  constructor
  unfold Builder.doubleStarParameter Expression.doubleStarParameter
  simp only [put_parameters, Builder.Parameters.push, Expression.Parameters.push]
  infer_instance

instance : Rule base (put base parameters).1
    (Builder.plainParameter inner annotated (put base parameters).2)
    (Expression.plainParameter inner' annotated parameters) := by
  obtain ⟨list, seenDefault, seenSlash, keywordOnly, bareStar, seenVarKeyword⟩ := parameters
  constructor
  unfold Builder.plainParameter Expression.plainParameter
  simp only [put_parameters, Builder.Parameters.push, Expression.Parameters.push]
  infer_instance

instance : Rule base (put base parameters).1
    (Builder.parameter inner annotated (put base parameters).2)
    (Expression.parameter inner' annotated parameters) := by
  constructor
  unfold Builder.parameter Expression.parameter
  rw [show (put base parameters).2.seenVarKeyword = parameters.seenVarKeyword from rfl]
  split
  · infer_instance
  · refine agrees_read inferInstance fun kind => ?_
    cases kind with
    | op sign => cases sign <;> infer_instance
    | _ => infer_instance

instance (closer : TokenKind) : Rule now now (Builder.parameters inner closer annotated)
    (Expression.parameters inner' closer annotated) := by
  constructor
  unfold Builder.parameters Expression.parameters
  refine agrees_bind now inferInstance inferInstance fun parameters => ?_
  obtain ⟨list, seenDefault, seenSlash, keywordOnly, bareStar, seenVarKeyword⟩ := parameters
  rw [put_parameters]
  infer_instance

instance : Rule now now (Builder.lambda inner) (Expression.lambda inner') := by
  unfold Builder.lambda Expression.lambda
  infer_instance

instance : Rule now now (Builder.conditional inner) (Expression.conditional inner') := by
  unfold Builder.conditional Expression.conditional
  infer_instance

/-! ## Comprehensions -/

instance : Rule now now (Builder.comprehensionClause inner)
    (Expression.comprehensionClause inner') := by
  constructor
  unfold Builder.comprehensionClause Expression.comprehensionClause
  refine agrees_read inferInstance fun start => agrees_read inferInstance fun isAsync => ?_
  infer_instance

instance : Rule now now (Builder.comprehensionClauses inner)
    (Expression.comprehensionClauses inner') := by
  unfold Builder.comprehensionClauses Expression.comprehensionClauses
  infer_instance

/-! ## Displays -/

instance : Rule base (put base t).1 (Builder.captured (put base t).2 start)
    (Expression.captured t start) := by
  constructor
  unfold Builder.captured Expression.captured
  infer_instance

instance : Rule now now (Builder.displayItem inner) (Expression.displayItem inner') := by
  unfold Builder.displayItem Expression.displayItem
  infer_instance

instance : Rule now now (Builder.capturedExpression inner)
    (Expression.capturedExpression inner') := by
  unfold Builder.capturedExpression Expression.capturedExpression
  infer_instance

instance (closer : TokenKind) : Rule base (put base t).1
    (Builder.displayRest inner (put base t).2 closer)
    (Expression.displayRest inner' t closer) := by
  constructor
  unfold Builder.displayRest Expression.displayRest
  infer_instance

instance (kind : NodeKind) (closer : TokenKind) [h : PutsFrom base list now ids] :
    Rule base now (Builder.comprehension inner kind start ids closer)
      (Expression.comprehension inner' kind start list closer) := by
  obtain ⟨rfl, rfl⟩ := h.now_eq
  constructor
  unfold Builder.comprehension Expression.comprehension
  infer_instance

instance : Rule now now (Builder.parenthesized inner) (Expression.parenthesized inner') := by
  unfold Builder.parenthesized Expression.parenthesized
  infer_instance

instance : Rule now now (Builder.listDisplay inner) (Expression.listDisplay inner') := by
  unfold Builder.listDisplay Expression.listDisplay
  infer_instance

instance : Rule now now (Builder.dictEntry inner) (Expression.dictEntry inner') := by
  unfold Builder.dictEntry Expression.dictEntry
  infer_instance

instance [h : PutsFrom base list now ids] :
    Rule base now (Builder.dictRest inner start ids)
      (Expression.dictRest inner' start list) := by
  obtain ⟨rfl, rfl⟩ := h.now_eq
  constructor
  unfold Builder.dictRest Expression.dictRest
  infer_instance

instance : Rule now now (Builder.braceDisplay inner) (Expression.braceDisplay inner') := by
  unfold Builder.braceDisplay Expression.braceDisplay
  infer_instance

/-! ## Arguments and subscripts -/

instance : Storable Expression.Arguments Builder.Arguments where
  put arena b := ((put arena b.list).1, { b with list := (put arena b.list).2 })
  grows arena b := Storable.grows arena b.list

variable (seenKeyword seenKeywordUnpacking : Bool)

theorem put_arguments :
    put base (⟨list, seenKeyword, seenKeywordUnpacking⟩ : Expression.Arguments) =
      ((put base list).1, ⟨(put base list).2, seenKeyword, seenKeywordUnpacking⟩) := rfl

instance [h : Puts base list now ids] :
    Puts base (⟨list, seenKeyword, seenKeywordUnpacking⟩ : Expression.Arguments) now
      ⟨ids, seenKeyword, seenKeywordUnpacking⟩ := by
  constructor
  rw [put_arguments, h.eq]

instance : PutsFrom now Expression.Arguments.none now Builder.Arguments.none := ⟨rfl⟩

variable (arguments : Expression.Arguments) (allowGenerator : Bool)

instance : Rule base (put base arguments).1
    (Builder.starArgument inner (put base arguments).2)
    (Expression.starArgument inner' arguments) := by
  obtain ⟨list, seenKeyword, seenKeywordUnpacking⟩ := arguments
  constructor
  unfold Builder.starArgument Expression.starArgument
  simp only [put_arguments, Builder.Arguments.push, Expression.Arguments.push]
  infer_instance

instance : Rule base (put base arguments).1
    (Builder.doubleStarArgument inner (put base arguments).2)
    (Expression.doubleStarArgument inner' arguments) := by
  obtain ⟨list, seenKeyword, seenKeywordUnpacking⟩ := arguments
  constructor
  unfold Builder.doubleStarArgument Expression.doubleStarArgument
  simp only [put_arguments, Builder.Arguments.push, Expression.Arguments.push]
  infer_instance

instance : Rule base (put base arguments).1
    (Builder.keywordArgument inner (put base arguments).2)
    (Expression.keywordArgument inner' arguments) := by
  obtain ⟨list, seenKeyword, seenKeywordUnpacking⟩ := arguments
  constructor
  unfold Builder.keywordArgument Expression.keywordArgument
  simp only [put_arguments, Builder.Arguments.push, Expression.Arguments.push]
  infer_instance

instance : Rule base (put base arguments).1
    (Builder.positionalArgument inner allowGenerator (put base arguments).2)
    (Expression.positionalArgument inner' allowGenerator arguments) := by
  obtain ⟨list, seenKeyword, seenKeywordUnpacking⟩ := arguments
  constructor
  unfold Builder.positionalArgument Expression.positionalArgument
  simp only [put_arguments, Builder.Arguments.push, Expression.Arguments.push, isEmpty_put]
  infer_instance

instance : Rule base (put base arguments).1
    (Builder.argument inner allowGenerator (put base arguments).2)
    (Expression.argument inner' allowGenerator arguments) := by
  constructor
  unfold Builder.argument Expression.argument
  refine agrees_read inferInstance fun kind => ?_
  cases kind with
  | op sign => cases sign <;> infer_instance
  | _ => infer_instance

instance : Rule now now (Builder.arguments inner allowGenerator)
    (Expression.arguments inner' allowGenerator) := by
  constructor
  unfold Builder.arguments Expression.arguments
  refine agrees_bind now inferInstance inferInstance fun arguments => ?_
  obtain ⟨list, seenKeyword, seenKeywordUnpacking⟩ := arguments
  rw [put_arguments]
  infer_instance

instance : Rule now now (Builder.sliceBound inner) (Expression.sliceBound inner') := by
  unfold Builder.sliceBound Expression.sliceBound
  infer_instance

instance [h : PutsFrom base list now ids] :
    Rule base now (Builder.sliceRest inner start ids)
      (Expression.sliceRest inner' start list) := by
  obtain ⟨rfl, rfl⟩ := h.now_eq
  constructor
  unfold Builder.sliceRest Expression.sliceRest
  dsimp only
  infer_instance

instance : Rule now now (Builder.slice inner) (Expression.slice inner') := by
  unfold Builder.slice Expression.slice
  infer_instance

instance : Rule now now (Builder.slices inner) (Expression.slices inner') := by
  unfold Builder.slices Expression.slices
  infer_instance

/-! ## Atoms and what follows them -/

instance (value : Constant) : Rule now now (Builder.constant value)
    (Expression.constant value) := by
  unfold Builder.constant Expression.constant
  infer_instance

instance : Rule now now Builder.strings Expression.strings := by
  unfold Builder.strings Expression.strings
  dsimp only
  infer_instance

instance : Rule now now (Builder.atom inner) (Expression.atom inner') := by
  constructor
  unfold Builder.atom Expression.atom
  refine agrees_read inferInstance fun kind => ?_
  cases kind with
  | keyword word => cases word <;> infer_instance
  | op sign => cases sign <;> infer_instance
  | _ => infer_instance

instance : Rule base (put base t).1 (Builder.trailer inner start (put base t).2)
    (Expression.trailer inner' start t) := by
  constructor
  unfold Builder.trailer Expression.trailer
  refine agrees_read inferInstance fun kind => ?_
  cases kind with
  | op sign => cases sign <;> infer_instance
  | _ => infer_instance

instance : Rule now now (Builder.primary inner) (Expression.primary inner') := by
  unfold Builder.primary Expression.primary
  infer_instance

/-! ## Operators -/

variable (least : Nat)

instance : Rule now now (Builder.unary inner least) (Expression.unary inner' least) := by
  constructor
  unfold Builder.unary Expression.unary
  refine agrees_read inferInstance fun start => ?_
  refine agrees_read inferInstance fun kind => ?_
  cases Power.unaryOp? kind <;> infer_instance

instance (op : BoolOp) : Rule base (put base t).1
    (Builder.boolChain inner op start (put base t).2)
    (Expression.boolChain inner' op start t) := by
  constructor
  unfold Builder.boolChain Expression.boolChain
  infer_instance

theorem map_fst_put [Storable β α] (links : List (CompareOp × β)) :
    (put base links).2.map (·.1) = links.map (·.1) := by
  induction links generalizing base with
  | nil => rfl
  | cons link links ih => exact congrArg (link.1 :: ·) (ih _)

theorem put_map_snd [Storable β α] (links : List (CompareOp × β)) :
    put base (links.map (·.2)) = ((put base links).1, (put base links).2.map (·.2)) := by
  induction links generalizing base with
  | nil => rfl
  | cons link links ih =>
    show ((put _ (links.map (·.2))).1, _ :: (put _ (links.map (·.2))).2) = _
    rw [ih]
    rfl

instance [Storable β α] (links : List (CompareOp × β)) :
    Puts base (links.map (·.2)) (put base links).1 ((put base links).2.map (·.2)) :=
  ⟨put_map_snd base links⟩

instance : Rule base (put base t).1 (Builder.compareChain inner start (put base t).2)
    (Expression.compareChain inner' start t) := by
  constructor
  unfold Builder.compareChain Expression.compareChain
  refine agrees_bind (put base t).1 inferInstance (agrees_many (fun now => ?_) _) fun links => ?_
  · refine agrees_read inferInstance fun found => ?_
    cases found <;> infer_instance
  · rw [map_fst_put]
    infer_instance

instance (op : BinaryOp) : Rule base (put base t).1 (Builder.binary inner op start (put base t).2)
    (Expression.binary inner' op start t) := by
  constructor
  unfold Builder.binary Expression.binary
  infer_instance

instance : Rule base (put base t).1 (Builder.extend inner least start (put base t).2)
    (Expression.extend inner' least start t) := by
  constructor
  unfold Builder.extend Expression.extend
  refine agrees_read inferInstance fun kind => ?_
  refine agrees_read inferInstance fun kind' => ?_
  cases Power.boolOp? kind <;> cases Power.compareOp? kind kind' <;>
    cases Power.binaryOp? kind <;> infer_instance

instance : Rule now now (Builder.operation inner least) (Expression.operation inner' least) := by
  unfold Builder.operation Expression.operation
  infer_instance

instance : OfLevel (.around inner) (.around inner') where
  expression _ := ⟨agrees_nested inferInstance⟩
  operand _ _ := ⟨agrees_nested inferInstance⟩
  primary _ := ⟨agrees_nested inferInstance⟩

end Expression

instance ofLevel_within (room : Nat) : OfLevel (.within room) (.within room) := by
  induction room with
  | zero =>
    unfold Builder.Level.within Level.within
    constructor <;> intros <;> infer_instance
  | succ room ih => exact inferInstanceAs (OfLevel (.around _) (.around _))

instance : OfLevel .top .top := ofLevel_within _

/-! ## Heads of statements -/

section Statement

variable (now : Arena)

instance : Rule now now Builder.withItem Compound.withItem := by
  unfold Builder.withItem Compound.withItem
  infer_instance

instance : Rule now now Builder.withItems Compound.withItems := by
  unfold Builder.withItems Compound.withItems
  infer_instance

theorem tries_bracketedItems (ending : Ending) (state : ParserState) :
    Tries now (Builder.bracketedItems ending state now)
      (Compound.bracketedItems ending state) := by
  unfold Builder.bracketedItems Compound.bracketedItems
  refine tries_read inferInstance fun _ _ => ?_
  refine tries_bind inferInstance inferInstance fun first _ => ?_
  refine tries_bind inferInstance inferInstance fun more _ => ?_
  refine tries_read inferInstance fun _ _ => ?_
  refine tries_read inferInstance fun isColon next => ?_
  cases isColon with
  | true => exact .some (first :: more) next
  | false => exact .none next inferInstance

theorem tries_matchSubject (ending : Ending) (state : ParserState) :
    Tries now (Builder.matchSubject ending state now) (Compound.matchSubject ending state) := by
  unfold Builder.matchSubject Compound.matchSubject
  refine tries_read inferInstance fun _ _ => ?_
  refine tries_bind inferInstance inferInstance fun subject _ => ?_
  refine tries_read inferInstance fun isColon _ => ?_
  refine tries_read inferInstance fun following next => ?_
  cases isColon && following == .newline with
  | true => exact .some subject next
  | false => exact .none next inferInstance

/-! ## The head of a with statement -/

/-- The trial of brackets around all items, if a bracket comes next. -/
def bracketedTrees : Parser (Option (List Tree)) := do
  if ← check (.op .leftParen) then speculate Compound.bracketedItems else pure none

/-- The items between the keyword and the colon. -/
def headTrees : Parser (List Tree) := do
  match ← bracketedTrees with
  | some items => pure items
  | none => Compound.withItems

theorem withStmt_eq (block : Compound.BlockParser) (start : Position) (isAsync : Bool) :
    Compound.withStmt block start isAsync = (do
      let line ← Compound.lineHere
      advance
      let items ← headTrees
      expect (.op .colon)
      let body ← block .withStmt line
      Parser.node (.withStmt isAsync) start (items ++ [body])) := by
  unfold Compound.withStmt headTrees bracketedTrees
  refine congrArg (Compound.lineHere >>= ·) (funext fun line => ?_)
  refine congrArg (advance >>= ·) (funext fun _ => ?_)
  funext ending state
  rw [ParserLaw.bind_assoc, ParserLaw.bind_assoc]
  refine congrArg (fun f => (check (.op .leftParen) >>= f) ending state) ?_
  funext isBracket
  cases isBracket with
  | true =>
    refine congrArg (speculate Compound.bracketedItems >>= ·) (funext fun found => ?_)
    cases found <;> rfl
  | false => rfl

instance : Rule now now Builder.tryBracketed bracketedTrees := by
  have hspeculate := agrees_speculate (tries_bracketedItems now)
  unfold Builder.tryBracketed bracketedTrees
  infer_instance

instance : Rule now now Builder.headItems headTrees := by
  constructor
  unfold Builder.headItems headTrees
  refine agrees_bind now inferInstance inferInstance fun found => ?_
  cases found with
  | some items =>
    exact inferInstanceAs (Agrees now (put now items).1 (pure (put now items).2) (pure items))
  | none => exact inferInstanceAs (Agrees now now Builder.withItems Compound.withItems)

theorem agrees_withStmt {block : Builder.BlockBuilder} {block' : Compound.BlockParser}
    (hblock : ∀ construct line now, Agrees now now (block construct line) (block' construct line))
    (start : Position) (isAsync : Bool) :
    Agrees now now (Builder.withStmt Builder.headItems block start isAsync)
      (Compound.withStmt block' start isAsync) := by
  rw [withStmt_eq]
  unfold Builder.withStmt Builder.withRest
  infer_instance

end Statement

end SnippetLint.Building
