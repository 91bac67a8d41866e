import SnippetLint.Grammar.Module
import SnippetLint.Proofs.Script

/-!
Every rule of the grammar has a script: first the rules of expressions, for a level whose parsers
have scripts, then by induction all levels, the simple statements, the statements with blocks and,
by induction on the blocks that may nest, whole snippets. There is one instance for each rule, and
it is the rule itself that says how its script is put together. Rules of expressions have scripts in
which nothing begins.
-/

namespace SnippetLint.Scripted
open SnippetLint.Parser

variable {extent : Extent}

/-- A level whose parsers have scripts. -/
class OfLevel (extent : Extent) (inner : Level) where
  expression : Scripted extent inner.expression
  operand : ∀ least, Scripted extent (inner.operand least)
  primary : Scripted extent inner.primary

attribute [reducible, instance] OfLevel.expression OfLevel.operand OfLevel.primary

/-! ## Expressions -/

section Expression

variable (inner : Level) [OfLevel extent inner] (start : Position) (t : Tree)

instance : Scripted extent (Expression.disjunction inner) := by
  unfold Expression.disjunction
  infer_instance

instance : Scripted extent (Expression.bitwiseOr inner) := by
  unfold Expression.bitwiseOr
  infer_instance

instance : Scripted extent (Expression.named inner) := by
  unfold Expression.named
  infer_instance

instance : Scripted extent (Expression.starred inner) := by
  unfold Expression.starred
  infer_instance

instance : Scripted extent (Expression.star inner) := by
  unfold Expression.star
  infer_instance

instance : Scripted extent (Expression.starNamed inner) := by
  unfold Expression.starNamed
  infer_instance

instance : Scripted extent Expression.startsNone := by
  unfold Expression.startsNone
  infer_instance

instance : Scripted extent (Expression.starList inner) := by
  unfold Expression.starList
  infer_instance

instance : Scripted extent (Expression.starNamedList inner) := by
  unfold Expression.starNamedList
  infer_instance

instance : Scripted extent (Expression.yield inner) := by
  unfold Expression.yield
  infer_instance

instance : Scripted extent (Expression.assigned inner) := by
  unfold Expression.assigned
  infer_instance

instance : Scripted extent (Expression.targetItem inner) := by
  unfold Expression.targetItem
  infer_instance

instance : Scripted extent (Expression.targetList inner) := by
  unfold Expression.targetList
  infer_instance

variable (annotated : Bool) (parameters : Expression.Parameters)

instance : Scripted extent (Expression.annotation inner annotated) := by
  unfold Expression.annotation
  infer_instance

instance : Scripted extent (Expression.slashParameter parameters) := by
  unfold Expression.slashParameter
  infer_instance

instance : Scripted extent (Expression.starParameter inner annotated parameters) := by
  unfold Expression.starParameter
  dsimp only
  infer_instance

instance : Scripted extent (Expression.doubleStarParameter inner annotated parameters) := by
  unfold Expression.doubleStarParameter
  dsimp only
  infer_instance

instance : Scripted extent (Expression.plainParameter inner annotated parameters) := by
  unfold Expression.plainParameter
  dsimp only
  infer_instance

instance : Scripted extent (Expression.parameter inner annotated parameters) := by
  unfold Expression.parameter
  split
  · infer_instance
  refine sequence inferInstance fun kind => ?_
  cases kind with
  | op sign => cases sign <;> infer_instance
  | _ => infer_instance

instance (closer : TokenKind) : Scripted extent (Expression.parameters inner closer annotated) := by
  unfold Expression.parameters
  infer_instance

instance : Scripted extent (Expression.lambda inner) := by
  unfold Expression.lambda
  infer_instance

instance : Scripted extent (Expression.conditional inner) := by
  unfold Expression.conditional
  infer_instance

instance : Scripted extent Expression.startsComprehension := by
  unfold Expression.startsComprehension
  infer_instance

instance : Scripted extent (Expression.comprehensionClause inner) := by
  unfold Expression.comprehensionClause
  refine sequence inferInstance fun start => ?_
  refine sequence inferInstance fun isAsync => ?_
  refine sequence inferInstance fun _ => ?_
  refine sequence inferInstance fun target => ?_
  infer_instance

instance : Scripted extent (Expression.comprehensionClauses inner) := by
  unfold Expression.comprehensionClauses
  infer_instance

instance : Scripted extent (Expression.captured t start) := by
  unfold Expression.captured
  infer_instance

instance : Scripted extent (Expression.displayItem inner) := by
  unfold Expression.displayItem
  infer_instance

instance : Scripted extent (Expression.capturedExpression inner) := by
  unfold Expression.capturedExpression
  infer_instance

instance (closer : TokenKind) : Scripted extent (Expression.displayRest inner t closer) := by
  unfold Expression.displayRest
  infer_instance

instance (kind : NodeKind) (elements : List Tree) (closer : TokenKind) :
    Scripted extent (Expression.comprehension inner kind start elements closer) := by
  unfold Expression.comprehension
  infer_instance

instance : Scripted extent (Expression.parenthesized inner) := by
  unfold Expression.parenthesized
  refine sequence inferInstance fun start => ?_
  refine sequence inferInstance fun _ => ?_
  refine sequence inferInstance fun closed => ?_
  split
  · infer_instance
  refine sequence inferInstance fun yields => ?_
  split <;> infer_instance

instance : Scripted extent (Expression.listDisplay inner) := by
  unfold Expression.listDisplay
  infer_instance

instance : Scripted extent (Expression.dictEntry inner) := by
  unfold Expression.dictEntry
  infer_instance

instance (first : List Tree) : Scripted extent (Expression.dictRest inner start first) := by
  unfold Expression.dictRest
  infer_instance

instance : Scripted extent (Expression.braceDisplay inner) := by
  unfold Expression.braceDisplay
  refine sequence inferInstance fun start => ?_
  refine sequence inferInstance fun _ => ?_
  refine sequence inferInstance fun closed => ?_
  split
  · infer_instance
  refine sequence inferInstance fun spreads => ?_
  split <;> infer_instance

variable (allowGenerator : Bool) (arguments : Expression.Arguments)

instance : Scripted extent (Expression.starArgument inner arguments) := by
  unfold Expression.starArgument
  infer_instance

instance : Scripted extent (Expression.doubleStarArgument inner arguments) := by
  unfold Expression.doubleStarArgument
  infer_instance

instance : Scripted extent (Expression.keywordArgument inner arguments) := by
  unfold Expression.keywordArgument
  infer_instance

instance : Scripted extent (Expression.positionalArgument inner allowGenerator arguments) := by
  unfold Expression.positionalArgument
  infer_instance

instance : Scripted extent (Expression.argument inner allowGenerator arguments) := by
  unfold Expression.argument
  refine sequence inferInstance fun kind => ?_
  cases kind with
  | op sign => cases sign <;> infer_instance
  | _ => infer_instance

instance : Scripted extent (Expression.arguments inner allowGenerator) := by
  unfold Expression.arguments
  infer_instance

instance : Scripted extent Expression.atSliceBoundary := by
  unfold Expression.atSliceBoundary
  infer_instance

instance : Scripted extent (Expression.sliceBound inner) := by
  unfold Expression.sliceBound
  infer_instance

instance (lower : List Tree) : Scripted extent (Expression.sliceRest inner start lower) := by
  unfold Expression.sliceRest
  infer_instance

instance : Scripted extent (Expression.slice inner) := by
  unfold Expression.slice
  infer_instance

instance : Scripted extent (Expression.slices inner) := by
  unfold Expression.slices
  infer_instance

instance (value : Constant) : Scripted extent (Expression.constant value) := by
  unfold Expression.constant
  infer_instance

instance : Scripted extent Expression.strings := by
  unfold Expression.strings
  infer_instance

instance : Scripted extent (Expression.atom inner) := by
  unfold Expression.atom
  refine sequence inferInstance fun kind => ?_
  cases kind with
  | keyword word => cases word <;> infer_instance
  | op sign => cases sign <;> infer_instance
  | _ => infer_instance

instance : Scripted extent (Expression.trailer inner start t) := by
  unfold Expression.trailer
  refine sequence inferInstance fun kind => ?_
  cases kind with
  | op sign => cases sign <;> infer_instance
  | _ => infer_instance

instance : Scripted extent (Expression.primary inner) := by
  unfold Expression.primary
  infer_instance

instance (least : Nat) : Scripted extent (Expression.unary inner least) := by
  unfold Expression.unary
  refine sequence inferInstance fun start => ?_
  refine sequence inferInstance fun kind => ?_
  split
  · infer_instance
  · rcases Power.unaryOp? kind with _ | ⟨op, power⟩ <;> infer_instance

instance : Scripted extent Expression.eatCompare := by
  unfold Expression.eatCompare
  refine sequence inferInstance fun first => ?_
  refine sequence inferInstance fun second => ?_
  rcases Power.compareOp? first second with _ | ⟨op, n⟩ <;> infer_instance

instance (op : BoolOp) : Scripted extent (Expression.boolChain inner op start t) := by
  unfold Expression.boolChain
  infer_instance

instance : Scripted extent (Expression.compareChain inner start t) := by
  unfold Expression.compareChain
  have hlink : Scripted extent (do
      match ← Expression.eatCompare with
      | some op => return some (op, ← inner.operand Power.ofCompare.2)
      | none => return none) := by
    refine sequence inferInstance fun op => ?_
    rcases op with _ | op <;> infer_instance
  infer_instance

instance (op : BinaryOp) : Scripted extent (Expression.binary inner op start t) := by
  unfold Expression.binary
  infer_instance

instance (least : Nat) : Scripted extent (Expression.extend inner least start t) := by
  unfold Expression.extend
  refine sequence inferInstance fun first => ?_
  refine sequence inferInstance fun second => ?_
  rcases Power.boolOp? first with _ | op
  · rcases Power.compareOp? first second with _ | found
    · rcases Power.binaryOp? first with _ | op <;> infer_instance
    · infer_instance
  · infer_instance

instance (least : Nat) : Scripted extent (Expression.operation inner least) := by
  unfold Expression.operation
  infer_instance

end Expression

/-! ## Levels -/

instance (inner : Level) [OfLevel .expression inner] : OfLevel extent (.around inner) where
  expression := inferInstanceAs (Scripted extent (nested (Expression.conditional inner)))
  operand least := inferInstanceAs (Scripted extent (nested (Expression.operation inner least)))
  primary := inferInstanceAs (Scripted extent (nested (Expression.primary inner)))

/-- However many levels may open, all of them have scripts. -/
instance ofLevel_within (extent : Extent) : ∀ levels, OfLevel extent (.within levels)
  | 0 =>
    have fails : Scripted extent (failHere .tooDeeplyNested : Parser Tree) := inferInstance
    ⟨fails, fun _ => fails, fails⟩
  | levels + 1 =>
    have := ofLevel_within .expression levels
    inferInstanceAs (OfLevel extent (.around (.within levels)))

instance : OfLevel extent .top := ofLevel_within extent maxNesting

/-! ## Simple statements -/

section Simple

variable (start : Position) (first : Tree)

instance : Scripted extent Simple.asName := by
  unfold Simple.asName
  infer_instance

instance : Scripted extent Simple.dottedName := by
  unfold Simple.dottedName
  infer_instance

instance (name : Parser String) [Scripted extent name] :
    Scripted extent (Simple.importAlias name) := by
  unfold Simple.importAlias
  infer_instance

instance : Scripted extent Simple.importStmt := by
  unfold Simple.importStmt
  infer_instance

instance : Scripted extent Simple.importLevel := by
  unfold Simple.importLevel
  infer_instance

instance : Scripted extent Simple.importedNames := by
  unfold Simple.importedNames
  refine sequence inferInstance fun all => ?_
  split <;> infer_instance

instance : Scripted extent Simple.importFrom := by
  unfold Simple.importFrom
  refine sequence inferInstance fun start => ?_
  refine sequence inferInstance fun _ => ?_
  refine sequence inferInstance fun level => ?_
  refine sequence inferInstance fun named => ?_
  -- what follows both branches of a choice stands before it under a name; the search needs it
  -- in its place
  dsimp only
  split <;> infer_instance

instance : Scripted extent (Simple.assignment start first) := by
  unfold Simple.assignment
  dsimp only
  infer_instance

instance (op : BinaryOp) : Scripted extent (Simple.augmented start first op) := by
  unfold Simple.augmented
  infer_instance

instance : Scripted extent (Simple.annotated start first) := by
  unfold Simple.annotated
  infer_instance

instance : Scripted extent Simple.expressionStmt := by
  unfold Simple.expressionStmt
  refine sequence inferInstance fun start => ?_
  refine sequence inferInstance fun first => ?_
  refine sequence inferInstance fun kind => ?_
  split
  · infer_instance
  · rcases Power.augmentedOp? kind with _ | op <;> infer_instance

instance (kind : NodeKind) : Scripted extent (Simple.keywordOnly kind) := by
  unfold Simple.keywordOnly
  infer_instance

instance : Scripted extent Simple.returnStmt := by
  unfold Simple.returnStmt
  infer_instance

instance : Scripted extent Simple.raiseStmt := by
  unfold Simple.raiseStmt
  infer_instance

instance (kind : List String → NodeKind) : Scripted extent (Simple.scopeStmt kind) := by
  unfold Simple.scopeStmt
  infer_instance

instance : Scripted extent Simple.deleteStmt := by
  unfold Simple.deleteStmt
  infer_instance

instance : Scripted extent Simple.assertStmt := by
  unfold Simple.assertStmt
  infer_instance

instance : Scripted .statements Simple.statement := by
  unfold Simple.statement
  refine statement (sequence inferInstance fun kind => ?_)
  cases kind with
  | keyword word => cases word <;> infer_instance
  | _ => infer_instance

instance : Scripted .statements Simple.line := by
  unfold Simple.line
  infer_instance

end Simple

/-! ## Statements with blocks -/

section Compound

variable (block : Compound.BlockParser)
  [∀ construct line, Scripted .statements (block construct line)] (start : Position)

instance : Scripted extent Compound.lineHere := by
  unfold Compound.lineHere
  infer_instance

instance (keyword : Keyword) (construct : Construct) :
    Scripted .statements (Compound.clause block keyword construct) := by
  unfold Compound.clause
  infer_instance

instance : Scripted .statements (Compound.elseClause block) := by
  unfold Compound.elseClause
  infer_instance

instance (construct : Construct) (line : Nat) :
    Scripted .statements (Compound.guarded block construct line) := by
  unfold Compound.guarded
  infer_instance

instance : Scripted .statements (Compound.ifStmt block) := by
  unfold Compound.ifStmt
  infer_instance

instance : Scripted .statements (Compound.whileStmt block) := by
  unfold Compound.whileStmt
  infer_instance

instance (isAsync : Bool) : Scripted .statements (Compound.forStmt block start isAsync) := by
  unfold Compound.forStmt
  refine sequence inferInstance fun line => ?_
  refine sequence inferInstance fun _ => ?_
  refine sequence inferInstance fun target => ?_
  refine sequence inferInstance fun target => ?_
  infer_instance

instance (isStar : Bool) : Scripted extent (Compound.caught isStar) := by
  unfold Compound.caught
  infer_instance

instance (handlers : Compound.Handlers) :
    Scripted .statements (Compound.handler block handlers) := by
  unfold Compound.handler
  refine sequence inferInstance fun start => ?_
  refine sequence inferInstance fun _ => ?_
  refine sequence inferInstance fun isStar => ?_
  split
  · infer_instance
  · infer_instance

instance : Scripted .statements (Compound.handlers block) := by
  unfold Compound.handlers
  infer_instance

instance : Scripted .statements (Compound.tryStmt block) := by
  unfold Compound.tryStmt
  refine sequence inferInstance fun start => ?_
  refine sequence inferInstance fun _ => ?_
  refine sequence inferInstance fun _ => ?_
  refine sequence inferInstance fun body => ?_
  dsimp only
  infer_instance

instance : Scripted extent Compound.withItem := by
  unfold Compound.withItem
  infer_instance

instance : Scripted extent Compound.withItems := by
  unfold Compound.withItems
  infer_instance

instance : Scripted extent Compound.bracketedItems := by
  unfold Compound.bracketedItems
  infer_instance

instance (isAsync : Bool) : Scripted .statements (Compound.withStmt block start isAsync) := by
  unfold Compound.withStmt
  refine sequence inferInstance fun line => ?_
  refine sequence inferInstance fun _ => ?_
  refine sequence inferInstance fun bracket => ?_
  dsimp only
  split <;> refine sequence inferInstance fun bracketed => ?_
  all_goals rcases bracketed with _ | items <;> infer_instance

instance : Scripted extent Compound.typeParam := by
  unfold Compound.typeParam
  refine sequence inferInstance fun start => ?_
  refine sequence inferInstance fun star => ?_
  dsimp only
  split
  · refine sequence inferInstance fun _ => ?_
    refine sequence inferInstance fun name => ?_
    refine sequence inferInstance fun colon => ?_
    split <;> infer_instance
  · refine sequence inferInstance fun name => ?_
    refine sequence inferInstance fun colon => ?_
    split <;> infer_instance

instance : Scripted extent Compound.typeParams := by
  unfold Compound.typeParams
  infer_instance

instance (decorators : List Tree) (isAsync : Bool) :
    Scripted .statements (Compound.functionDef block decorators start isAsync) := by
  unfold Compound.functionDef
  refine sequence inferInstance fun line => ?_
  refine sequence inferInstance fun _ => ?_
  refine sequence inferInstance fun name => ?_
  refine sequence inferInstance fun types => ?_
  refine sequence inferInstance fun _ => ?_
  refine sequence inferInstance fun parameters => ?_
  refine sequence inferInstance fun _ => ?_
  refine sequence inferInstance fun arrow => ?_
  dsimp only
  infer_instance

instance : Scripted extent Compound.classArguments := by
  unfold Compound.classArguments
  infer_instance

instance (decorators : List Tree) :
    Scripted .statements (Compound.classDef block decorators start) := by
  unfold Compound.classDef
  infer_instance

instance : Scripted extent Compound.decorator := by
  unfold Compound.decorator
  infer_instance

instance : Scripted .statements (Compound.decorated block) := by
  unfold Compound.decorated
  refine sequence inferInstance fun start => ?_
  refine sequence inferInstance fun decorators => ?_
  refine sequence inferInstance fun first => ?_
  refine sequence inferInstance fun second => ?_
  cases first with
  | keyword word =>
    cases word with
    | asyncKw =>
      cases second with
      | keyword next => cases next <;> infer_instance
      | _ => infer_instance
    | _ => infer_instance
  | _ => infer_instance

instance : Scripted .statements (Compound.asyncStmt block start) := by
  unfold Compound.asyncStmt
  refine sequence inferInstance fun _ => ?_
  refine sequence inferInstance fun kind => ?_
  cases kind with
  | keyword word => cases word <;> infer_instance
  | _ => infer_instance

instance : Scripted extent Compound.asPattern := by
  unfold Compound.asPattern
  infer_instance

instance : Scripted extent Compound.endsPattern := by
  unfold Compound.endsPattern
  infer_instance

instance : Scripted .statements Compound.patterns := by
  unfold Compound.patterns
  exact casePattern inferInstance

instance : Scripted .statements (Compound.caseClause block) := by
  unfold Compound.caseClause
  refine sequence inferInstance fun start => ?_
  refine sequence inferInstance fun _ => ?_
  refine sequence inferInstance fun pattern => ?_
  refine sequence inferInstance fun guarded => ?_
  dsimp only
  infer_instance

instance : Scripted extent Compound.matchSubject := by
  unfold Compound.matchSubject
  infer_instance

instance : Scripted .statements (Compound.cases block) := by
  unfold Compound.cases
  infer_instance

instance (subject : Tree) : Scripted .statements (Compound.matchRest block start subject) := by
  unfold Compound.matchRest
  infer_instance

instance : Scripted .statements (Compound.matchStmt block) := by
  unfold Compound.matchStmt
  refine sequence inferInstance fun start => ?_
  refine sequence inferInstance fun subject => ?_
  rcases subject with _ | subject <;> infer_instance

instance : Scripted .statements (Compound.statementWith block) := by
  unfold Compound.statementWith
  refine sequence inferInstance fun start => ?_
  refine sequence inferInstance fun kind => ?_
  -- the one case that itself goes on by cases
  have hline : Scripted .statements (do
      if ← checkWord "match" then
        match ← Compound.matchStmt block with
        | some t => return [t]
        | none => Simple.line
      else Simple.line) := by
    refine sequence inferInstance fun isMatch => ?_
    split
    · refine sequence inferInstance fun found => ?_
      rcases found with _ | t <;> infer_instance
    · infer_instance
  cases kind with
  | keyword word => cases word <;> infer_instance
  | op sign => cases sign <;> infer_instance
  | _ => infer_instance

instance (statement : Parser (List Tree)) [Scripted .statements statement]
    (construct : Construct) (line : Nat) :
    Scripted .statements (Compound.blockOf statement construct line) := by
  unfold Compound.blockOf
  refine sequence inferInstance fun start => ?_
  refine sequence inferInstance fun newline => ?_
  split <;> infer_instance

end Compound

/-- Statements have scripts, however many blocks may nest in them. -/
instance scripted_statement : ∀ room, Scripted .statements (Compound.statement room)
  | 0 => inferInstanceAs (Scripted .statements (failHere .invalidSyntax : Parser (List Tree)))
  | room + 1 =>
    have := scripted_statement room
    statement (inferInstanceAs (Scripted .statements
      (Compound.statementWith (Compound.blockOf (Compound.statement room)))))

/-! ## Whole snippets -/

instance (room : Nat) : Scripted .statements (Module.statements room) := by
  unfold Module.statements
  infer_instance

instance (room : Nat) : Scripted .statements (Module.module room) :=
  let ending : Parser Ending := fun ending state => .ok ending state
  have : Scripted .statements ending := look _ fun _ _ => rfl
  inferInstanceAs (Scripted .statements (do
    let start ← here
    let statements ← Module.statements room
    let ending ← ending
    if ending.fault.isSome then failHere .invalidSyntax
    else return .node .module ⟨start, ending.position⟩ statements : Parser Tree))

end SnippetLint.Scripted
