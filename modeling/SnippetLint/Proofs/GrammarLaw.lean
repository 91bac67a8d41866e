import SnippetLint.Grammar.Module
import SnippetLint.Proofs.ParserLaw

/-!
Every rule of the grammar keeps to every law of parsers: first the rules of expressions, for a level
whose parsers keep to it, then by induction all levels, the simple statements, the statements with
blocks and, by induction on the blocks that may nest, whole snippets. Main statement:
`follows_module`.

There is one instance for each rule. The search finds most of them by itself; a rule is taken apart
by hand where it goes on by cases of what it has read, and where it is too long for one search.
-/

namespace SnippetLint.ParserLaw
open SnippetLint.Parser

variable (law : ParserLaw)

/-- A level whose parsers keep to a law. -/
class OfLevel (inner : Level) : Prop where
  expression : law.Follows inner.expression
  operand : ∀ least, law.Follows (inner.operand least)
  primary : law.Follows inner.primary

attribute [instance] OfLevel.expression OfLevel.operand OfLevel.primary

/-! ## Expressions -/

section Expression

variable (inner : Level) [law.OfLevel inner] (start : Position) (t : Tree)

instance : law.Follows (Expression.disjunction inner) := by
  unfold Expression.disjunction
  infer_instance

instance : law.Follows (Expression.bitwiseOr inner) := by
  unfold Expression.bitwiseOr
  infer_instance

instance : law.Follows (Expression.named inner) := by
  unfold Expression.named
  infer_instance

instance : law.Follows (Expression.starred inner) := by
  unfold Expression.starred
  infer_instance

instance : law.Follows (Expression.star inner) := by
  unfold Expression.star
  infer_instance

instance : law.Follows (Expression.starNamed inner) := by
  unfold Expression.starNamed
  infer_instance

instance : law.Follows Expression.startsNone := by
  unfold Expression.startsNone
  infer_instance

instance : law.Follows (Expression.starList inner) := by
  unfold Expression.starList
  infer_instance

instance : law.Follows (Expression.starNamedList inner) := by
  unfold Expression.starNamedList
  infer_instance

instance : law.Follows (Expression.yield inner) := by
  unfold Expression.yield
  infer_instance

instance : law.Follows (Expression.assigned inner) := by
  unfold Expression.assigned
  infer_instance

instance : law.Follows (Expression.targetItem inner) := by
  unfold Expression.targetItem
  infer_instance

instance : law.Follows (Expression.targetList inner) := by
  unfold Expression.targetList
  infer_instance

variable (annotated : Bool) (parameters : Expression.Parameters)

instance : law.Follows (Expression.annotation inner annotated) := by
  unfold Expression.annotation
  infer_instance

instance : law.Follows (Expression.slashParameter parameters) := by
  unfold Expression.slashParameter
  infer_instance

instance : law.Follows (Expression.starParameter inner annotated parameters) := by
  unfold Expression.starParameter
  dsimp only
  infer_instance

instance : law.Follows (Expression.doubleStarParameter inner annotated parameters) := by
  unfold Expression.doubleStarParameter
  dsimp only
  infer_instance

instance : law.Follows (Expression.plainParameter inner annotated parameters) := by
  unfold Expression.plainParameter
  dsimp only
  infer_instance

instance : law.Follows (Expression.parameter inner annotated parameters) := by
  unfold Expression.parameter
  split
  · infer_instance
  · refine follows_bind law inferInstance fun kind => ?_
    split <;> infer_instance

instance (closer : TokenKind) : law.Follows (Expression.parameters inner closer annotated) := by
  unfold Expression.parameters
  infer_instance

instance : law.Follows (Expression.lambda inner) := by
  unfold Expression.lambda
  infer_instance

instance : law.Follows (Expression.conditional inner) := by
  unfold Expression.conditional
  infer_instance

instance : law.Follows Expression.startsComprehension := by
  unfold Expression.startsComprehension
  infer_instance

instance : law.Follows (Expression.comprehensionClause inner) := by
  unfold Expression.comprehensionClause
  refine follows_bind law inferInstance fun start => ?_
  refine follows_bind law inferInstance fun isAsync => ?_
  refine follows_bind law inferInstance fun _ => ?_
  refine follows_bind law inferInstance fun target => ?_
  infer_instance

instance : law.Follows (Expression.comprehensionClauses inner) := by
  unfold Expression.comprehensionClauses
  infer_instance

instance : law.Follows (Expression.captured t start) := by
  unfold Expression.captured
  infer_instance

instance : law.Follows (Expression.displayItem inner) := by
  unfold Expression.displayItem
  infer_instance

instance : law.Follows (Expression.capturedExpression inner) := by
  unfold Expression.capturedExpression
  infer_instance

instance (closer : TokenKind) : law.Follows (Expression.displayRest inner t closer) := by
  unfold Expression.displayRest
  infer_instance

instance (kind : NodeKind) (elements : List Tree) (closer : TokenKind) :
    law.Follows (Expression.comprehension inner kind start elements closer) := by
  unfold Expression.comprehension
  infer_instance

instance : law.Follows (Expression.parenthesized inner) := by
  unfold Expression.parenthesized
  refine follows_bind law inferInstance fun start => ?_
  refine follows_bind law inferInstance fun _ => ?_
  refine follows_bind law inferInstance fun closed => ?_
  split
  · infer_instance
  refine follows_bind law inferInstance fun yields => ?_
  split <;> infer_instance

instance : law.Follows (Expression.listDisplay inner) := by
  unfold Expression.listDisplay
  infer_instance

instance : law.Follows (Expression.dictEntry inner) := by
  unfold Expression.dictEntry
  infer_instance

instance (first : List Tree) : law.Follows (Expression.dictRest inner start first) := by
  unfold Expression.dictRest
  infer_instance

instance : law.Follows (Expression.braceDisplay inner) := by
  unfold Expression.braceDisplay
  refine follows_bind law inferInstance fun start => ?_
  refine follows_bind law inferInstance fun _ => ?_
  refine follows_bind law inferInstance fun closed => ?_
  split
  · infer_instance
  refine follows_bind law inferInstance fun spreads => ?_
  split <;> infer_instance

variable (allowGenerator : Bool) (arguments : Expression.Arguments)

instance : law.Follows (Expression.starArgument inner arguments) := by
  unfold Expression.starArgument
  infer_instance

instance : law.Follows (Expression.doubleStarArgument inner arguments) := by
  unfold Expression.doubleStarArgument
  infer_instance

instance : law.Follows (Expression.keywordArgument inner arguments) := by
  unfold Expression.keywordArgument
  infer_instance

instance : law.Follows (Expression.positionalArgument inner allowGenerator arguments) := by
  unfold Expression.positionalArgument
  infer_instance

instance : law.Follows (Expression.argument inner allowGenerator arguments) := by
  unfold Expression.argument
  refine follows_bind law inferInstance fun kind => ?_
  split <;> infer_instance

instance : law.Follows (Expression.arguments inner allowGenerator) := by
  unfold Expression.arguments
  infer_instance

instance : law.Follows Expression.atSliceBoundary := by
  unfold Expression.atSliceBoundary
  infer_instance

instance : law.Follows (Expression.sliceBound inner) := by
  unfold Expression.sliceBound
  infer_instance

instance (lower : List Tree) : law.Follows (Expression.sliceRest inner start lower) := by
  unfold Expression.sliceRest
  infer_instance

instance : law.Follows (Expression.slice inner) := by
  unfold Expression.slice
  infer_instance

instance : law.Follows (Expression.slices inner) := by
  unfold Expression.slices
  infer_instance

instance (value : Constant) : law.Follows (Expression.constant value) := by
  unfold Expression.constant
  infer_instance

instance : law.Follows Expression.strings := by
  unfold Expression.strings
  infer_instance

instance : law.Follows (Expression.atom inner) := by
  unfold Expression.atom
  refine follows_bind law inferInstance fun kind => ?_
  split <;> infer_instance

instance : law.Follows (Expression.trailer inner start t) := by
  unfold Expression.trailer
  refine follows_bind law inferInstance fun kind => ?_
  split <;> infer_instance

instance : law.Follows (Expression.primary inner) := by
  unfold Expression.primary
  infer_instance

instance (least : Nat) : law.Follows (Expression.unary inner least) := by
  unfold Expression.unary
  refine follows_bind law inferInstance fun start => ?_
  refine follows_bind law inferInstance fun kind => ?_
  split
  · infer_instance
  · split <;> infer_instance

instance : law.Follows Expression.eatCompare := by
  unfold Expression.eatCompare
  refine follows_bind law inferInstance fun first => ?_
  refine follows_bind law inferInstance fun second => ?_
  split <;> infer_instance

instance (op : BoolOp) : law.Follows (Expression.boolChain inner op start t) := by
  unfold Expression.boolChain
  infer_instance

instance : law.Follows (Expression.compareChain inner start t) := by
  unfold Expression.compareChain
  have hlink : law.Follows (do
      match ← Expression.eatCompare with
      | some op => return some (op, ← inner.operand Power.ofCompare.2)
      | none => return none) := by
    refine follows_bind law inferInstance fun op => ?_
    split <;> infer_instance
  infer_instance

instance (op : BinaryOp) : law.Follows (Expression.binary inner op start t) := by
  unfold Expression.binary
  infer_instance

instance (least : Nat) : law.Follows (Expression.extend inner least start t) := by
  unfold Expression.extend
  refine follows_bind law inferInstance fun first => ?_
  refine follows_bind law inferInstance fun second => ?_
  split <;> infer_instance

instance (least : Nat) : law.Follows (Expression.operation inner least) := by
  unfold Expression.operation
  infer_instance

end Expression

/-! ## Levels -/

instance (inner : Level) [law.OfLevel inner] : law.OfLevel (.around inner) := by
  constructor
  · show law.Follows (nested (Expression.conditional inner))
    infer_instance
  · intro least
    show law.Follows (nested (Expression.operation inner least))
    infer_instance
  · show law.Follows (nested (Expression.primary inner))
    infer_instance

/-- However many levels may open, all of them keep to the law. -/
instance ofLevel_within (room : Nat) : law.OfLevel (.within room) := by
  induction room with
  | zero =>
    have hfail : law.Follows (failHere .tooDeeplyNested : Parser Tree) := inferInstance
    exact ⟨hfail, fun _ => hfail, hfail⟩
  | succ room ih =>
    unfold Level.within
    infer_instance

instance : law.OfLevel .top := ofLevel_within law maxNesting

/-! ## Simple statements -/

section Simple

variable (start : Position) (first : Tree)

instance : law.Follows Simple.asName := by
  unfold Simple.asName
  infer_instance

instance : law.Follows Simple.dottedName := by
  unfold Simple.dottedName
  infer_instance

instance (name : Parser String) [law.Follows name] : law.Follows (Simple.importAlias name) := by
  unfold Simple.importAlias
  infer_instance

instance : law.Follows Simple.importStmt := by
  unfold Simple.importStmt
  infer_instance

instance : law.Follows Simple.importLevel := by
  unfold Simple.importLevel
  infer_instance

instance : law.Follows Simple.importedNames := by
  unfold Simple.importedNames
  refine follows_bind law inferInstance fun all => ?_
  split <;> infer_instance

instance : law.Follows Simple.importFrom := by
  unfold Simple.importFrom
  refine follows_bind law inferInstance fun start => ?_
  refine follows_bind law inferInstance fun _ => ?_
  refine follows_bind law inferInstance fun level => ?_
  refine follows_bind law inferInstance fun named => ?_
  -- what follows both branches of a choice stands before it under a name; the search needs it
  -- in its place
  dsimp only
  split <;> infer_instance

instance : law.Follows (Simple.assignment start first) := by
  unfold Simple.assignment
  dsimp only
  infer_instance

instance (op : BinaryOp) : law.Follows (Simple.augmented start first op) := by
  unfold Simple.augmented
  infer_instance

instance : law.Follows (Simple.annotated start first) := by
  unfold Simple.annotated
  infer_instance

instance : law.Follows Simple.expressionStmt := by
  unfold Simple.expressionStmt
  refine follows_bind law inferInstance fun start => ?_
  refine follows_bind law inferInstance fun first => ?_
  refine follows_bind law inferInstance fun kind => ?_
  split
  · infer_instance
  · split <;> infer_instance

instance (kind : NodeKind) : law.Follows (Simple.keywordOnly kind) := by
  unfold Simple.keywordOnly
  infer_instance

instance : law.Follows Simple.returnStmt := by
  unfold Simple.returnStmt
  infer_instance

instance : law.Follows Simple.raiseStmt := by
  unfold Simple.raiseStmt
  infer_instance

instance (kind : List String → NodeKind) : law.Follows (Simple.scopeStmt kind) := by
  unfold Simple.scopeStmt
  infer_instance

instance : law.Follows Simple.deleteStmt := by
  unfold Simple.deleteStmt
  infer_instance

instance : law.Follows Simple.assertStmt := by
  unfold Simple.assertStmt
  infer_instance

instance : law.Follows Simple.statement := by
  unfold Simple.statement
  refine follows_bind law inferInstance fun kind => ?_
  split <;> infer_instance

instance : law.Follows Simple.line := by
  unfold Simple.line
  infer_instance

end Simple

/-! ## Statements with blocks -/

section Compound

variable (block : Compound.BlockParser) [∀ construct line, law.Follows (block construct line)]
  (start : Position)

instance : law.Follows Compound.lineHere := by
  unfold Compound.lineHere
  infer_instance

instance (keyword : Keyword) (construct : Construct) :
    law.Follows (Compound.clause block keyword construct) := by
  unfold Compound.clause
  infer_instance

instance : law.Follows (Compound.elseClause block) := by
  unfold Compound.elseClause
  infer_instance

instance (construct : Construct) (line : Nat) :
    law.Follows (Compound.guarded block construct line) := by
  unfold Compound.guarded
  infer_instance

instance : law.Follows (Compound.ifStmt block) := by
  unfold Compound.ifStmt
  infer_instance

instance : law.Follows (Compound.whileStmt block) := by
  unfold Compound.whileStmt
  infer_instance

instance (isAsync : Bool) : law.Follows (Compound.forStmt block start isAsync) := by
  unfold Compound.forStmt
  refine follows_bind law inferInstance fun line => ?_
  refine follows_bind law inferInstance fun _ => ?_
  refine follows_bind law inferInstance fun target => ?_
  refine follows_bind law inferInstance fun target => ?_
  infer_instance

instance (isStar : Bool) : law.Follows (Compound.caught isStar) := by
  unfold Compound.caught
  infer_instance

instance (handlers : Compound.Handlers) : law.Follows (Compound.handler block handlers) := by
  unfold Compound.handler
  refine follows_bind law inferInstance fun start => ?_
  refine follows_bind law inferInstance fun _ => ?_
  refine follows_bind law inferInstance fun isStar => ?_
  split
  · infer_instance
  · infer_instance

instance : law.Follows (Compound.handlers block) := by
  unfold Compound.handlers
  infer_instance

instance : law.Follows (Compound.tryStmt block) := by
  unfold Compound.tryStmt
  refine follows_bind law inferInstance fun start => ?_
  refine follows_bind law inferInstance fun _ => ?_
  refine follows_bind law inferInstance fun _ => ?_
  refine follows_bind law inferInstance fun body => ?_
  dsimp only
  infer_instance

instance : law.Follows Compound.withItem := by
  unfold Compound.withItem
  infer_instance

instance : law.Follows Compound.withItems := by
  unfold Compound.withItems
  infer_instance

instance : law.Follows Compound.bracketedItems := by
  unfold Compound.bracketedItems
  infer_instance

instance (isAsync : Bool) : law.Follows (Compound.withStmt block start isAsync) := by
  unfold Compound.withStmt
  refine follows_bind law inferInstance fun line => ?_
  refine follows_bind law inferInstance fun _ => ?_
  refine follows_bind law inferInstance fun bracket => ?_
  dsimp only
  split <;> refine follows_bind law inferInstance fun bracketed => ?_
  all_goals split <;> infer_instance

instance : law.Follows Compound.typeParam := by
  unfold Compound.typeParam
  refine follows_bind law inferInstance fun start => ?_
  refine follows_bind law inferInstance fun star => ?_
  dsimp only
  split
  · refine follows_bind law inferInstance fun _ => ?_
    refine follows_bind law inferInstance fun name => ?_
    refine follows_bind law inferInstance fun colon => ?_
    split <;> infer_instance
  · refine follows_bind law inferInstance fun name => ?_
    refine follows_bind law inferInstance fun colon => ?_
    split <;> infer_instance

instance : law.Follows Compound.typeParams := by
  unfold Compound.typeParams
  infer_instance

instance (decorators : List Tree) (isAsync : Bool) :
    law.Follows (Compound.functionDef block decorators start isAsync) := by
  unfold Compound.functionDef
  refine follows_bind law inferInstance fun line => ?_
  refine follows_bind law inferInstance fun _ => ?_
  refine follows_bind law inferInstance fun name => ?_
  refine follows_bind law inferInstance fun types => ?_
  refine follows_bind law inferInstance fun _ => ?_
  refine follows_bind law inferInstance fun parameters => ?_
  refine follows_bind law inferInstance fun _ => ?_
  refine follows_bind law inferInstance fun arrow => ?_
  dsimp only
  infer_instance

instance : law.Follows Compound.classArguments := by
  unfold Compound.classArguments
  infer_instance

instance (decorators : List Tree) : law.Follows (Compound.classDef block decorators start) := by
  unfold Compound.classDef
  infer_instance

instance : law.Follows Compound.decorator := by
  unfold Compound.decorator
  infer_instance

instance : law.Follows (Compound.decorated block) := by
  unfold Compound.decorated
  refine follows_bind law inferInstance fun start => ?_
  refine follows_bind law inferInstance fun decorators => ?_
  refine follows_bind law inferInstance fun first => ?_
  refine follows_bind law inferInstance fun second => ?_
  split <;> infer_instance

instance : law.Follows (Compound.asyncStmt block start) := by
  unfold Compound.asyncStmt
  refine follows_bind law inferInstance fun _ => ?_
  refine follows_bind law inferInstance fun kind => ?_
  split <;> infer_instance

instance : law.Follows Compound.asPattern := by
  unfold Compound.asPattern
  infer_instance

instance : law.Follows Compound.endsPattern := by
  unfold Compound.endsPattern
  infer_instance

instance : law.Follows Compound.patterns := by
  unfold Compound.patterns
  infer_instance

instance : law.Follows (Compound.caseClause block) := by
  unfold Compound.caseClause
  refine follows_bind law inferInstance fun start => ?_
  refine follows_bind law inferInstance fun _ => ?_
  refine follows_bind law inferInstance fun pattern => ?_
  refine follows_bind law inferInstance fun guarded => ?_
  dsimp only
  infer_instance

instance : law.Follows Compound.matchSubject := by
  unfold Compound.matchSubject
  infer_instance

instance : law.Follows (Compound.cases block) := by
  unfold Compound.cases
  infer_instance

instance (subject : Tree) : law.Follows (Compound.matchRest block start subject) := by
  unfold Compound.matchRest
  infer_instance

instance : law.Follows (Compound.matchStmt block) := by
  unfold Compound.matchStmt
  refine follows_bind law inferInstance fun start => ?_
  refine follows_bind law inferInstance fun subject => ?_
  split <;> infer_instance

instance : law.Follows (Compound.statementWith block) := by
  unfold Compound.statementWith
  refine follows_bind law inferInstance fun start => ?_
  refine follows_bind law inferInstance fun kind => ?_
  -- the one case that itself goes on by cases
  have hline : law.Follows (do
      if ← checkWord "match" then
        match ← Compound.matchStmt block with
        | some t => return [t]
        | none => Simple.line
      else Simple.line) := by
    refine follows_bind law inferInstance fun isMatch => ?_
    split
    · refine follows_bind law inferInstance fun found => ?_
      split <;> infer_instance
    · infer_instance
  split <;> infer_instance

instance (statement : Parser (List Tree)) [law.Follows statement]
    (construct : Construct) (line : Nat) :
    law.Follows (Compound.blockOf statement construct line) := by
  unfold Compound.blockOf
  refine follows_bind law inferInstance fun start => ?_
  refine follows_bind law inferInstance fun newline => ?_
  split <;> infer_instance

end Compound

/-- Statements keep to the law, however many blocks may nest in them. -/
instance follows_statement (room : Nat) : law.Follows (Compound.statement room) := by
  induction room with
  | zero =>
    show law.Follows (failHere .invalidSyntax : Parser (List Tree))
    infer_instance
  | succ room ih =>
    show law.Follows (Compound.statementWith (Compound.blockOf (Compound.statement room)))
    infer_instance

/-! ## Whole snippets -/

instance (room : Nat) : law.Follows (Module.statements room) := by
  unfold Module.statements
  infer_instance

theorem follows_module (room : Nat) : law.Follows (Module.module room) := by
  -- the ending is looked at in the last check only, and what is read before does not depend on it
  have hall : ∀ ending : Ending, law.Follows (do
      let start ← here
      let statements ← Module.statements room
      if ending.fault.isSome then failHere .invalidSyntax
      else return .node .module ⟨start, ending.position⟩ statements : Parser Tree) :=
    fun ending => inferInstance
  constructor
  · intro ending state t next h
    exact (hall ending).run h
  · intro ending state error next h
    exact (hall ending).stop h

end SnippetLint.ParserLaw
