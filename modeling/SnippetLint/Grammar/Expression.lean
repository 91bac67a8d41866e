import SnippetLint.Grammar.Parser
import SnippetLint.Grammar.Power
import SnippetLint.Grammar.Target

/-!
Expressions. The grammar is recursive only through three parsers that open a nesting level: a
whole expression, an operand that binds at least so tightly, and the operand of an await. Each
rule below takes these three for the level inside it, and `Level.within` ties them together level
by level, down to where nothing may nest any more.
-/

namespace SnippetLint

/-- The parsers that open a nesting level. -/
structure Level where
  expression : Parser Tree
  /-- An operand whose operators bind at least this tightly. -/
  operand : Nat → Parser Tree
  primary : Parser Tree
  deriving Inhabited

namespace Expression
open SnippetLint.Parser

/-! ## Expressions with and without names, stars and commas -/

def disjunction (inner : Level) : Parser Tree := inner.operand 0

def bitwiseOr (inner : Level) : Parser Tree := inner.operand Power.bitwiseOr

def named (inner : Level) : Parser Tree := do
  let start ← here
  if (← check .name) && (← peekAt 1) == .op .colonEqual then
    let id ← word
    let target ← node (.name id .store) start []
    advance
    let value ← inner.expression
    node .namedExpr start [target, value]
  else
    let value ← inner.expression
    if ← check (.op .colonEqual) then failHere .invalidSyntax else return value

/-- A star and what it spreads. -/
def starred (inner : Level) : Parser Tree := do
  let start ← here
  advance
  let value ← bitwiseOr inner
  node (.starred .load) start [value]

def star (inner : Level) : Parser Tree := do
  if ← check (.op .star) then starred inner else inner.expression

def starNamed (inner : Level) : Parser Tree := do
  if ← check (.op .star) then starred inner else named inner

/-- Whether no expression starts here. -/
def startsNone : Parser Bool := do return !Power.startsExpression (← peek)

def starList (inner : Level) : Parser Tree := tupleOf startsNone (star inner)

def starNamedList (inner : Level) : Parser Tree := tupleOf startsNone (starNamed inner)

def yield (inner : Level) : Parser Tree := do
  let start ← here
  advance
  if ← eat (.keyword .fromKw) then
    let value ← inner.expression
    node .yieldFrom start [value]
  else if ← startsNone then node .yieldExpr start []
  else
    let value ← starList inner
    node .yieldExpr start [value]

/-- What may stand on the right of an assignment. -/
def assigned (inner : Level) : Parser Tree := do
  if ← check (.keyword .yieldKw) then yield inner else starList inner

/-! ## Targets -/

def targetItem (inner : Level) : Parser Tree := do
  if ← check (.op .star) then starred inner else bitwiseOr inner

/-- Targets read so that a following `in` is left. -/
def targetList (inner : Level) : Parser Tree := tupleOf startsNone (targetItem inner)

/-! ## Parameters -/

/-- What has been read of a parameter list. -/
structure Parameters where
  list : List Tree
  seenDefault : Bool
  seenSlash : Bool
  keywordOnly : Bool
  /-- Whether a star without a name still waits for a parameter. -/
  bareStar : Bool
  seenVarKeyword : Bool
  deriving Inhabited

def Parameters.none : Parameters := ⟨[], false, false, false, false, false⟩

def Parameters.push (parameters : Parameters) (t : Tree) : Parameters :=
  { parameters with list := parameters.list ++ [t] }

/-- A parameter that can only be passed by position. -/
def positionalOnly : Tree → Tree
  | .node (.parameter name _) span children =>
    .node (.parameter name .positionalOnly) span children
  | t => t

def annotation (inner : Level) (annotated : Bool) : Parser (List Tree) := do
  if annotated then
    if ← eat (.op .colon) then return [← star inner] else return []
  else return []

def slashParameter (parameters : Parameters) : Parser Parameters := do
  if parameters.seenSlash || parameters.keywordOnly || parameters.list.isEmpty then
    failHere .invalidSyntax
  else
    advance
    return { parameters with seenSlash := true, list := parameters.list.map positionalOnly }

def starParameter (inner : Level) (annotated : Bool) (parameters : Parameters) :
    Parser Parameters := do
  let start ← here
  if parameters.keywordOnly then failHere .invalidSyntax
  else
    advance
    if ← check .name then
      let name ← word
      let children ← annotation inner annotated
      let t ← node (.parameter name .varPositional) start children
      return { parameters.push t with keywordOnly := true }
    else if ← check (.op .comma) then
      return { parameters with keywordOnly := true, bareStar := true }
    else failHere .bareStarWithoutNames

def doubleStarParameter (inner : Level) (annotated : Bool) (parameters : Parameters) :
    Parser Parameters := do
  let start ← here
  if parameters.bareStar then failAt .bareStarWithoutNames start
  else
    advance
    let name ← expectName
    let children ← annotation inner annotated
    let t ← node (.parameter name .varKeyword) start children
    return { parameters.push t with seenVarKeyword := true }

def plainParameter (inner : Level) (annotated : Bool) (parameters : Parameters) :
    Parser Parameters := do
  let start ← here
  let kind : ParameterKind := if parameters.keywordOnly then .keywordOnly else .regular
  let name ← expectName
  let children ← annotation inner annotated
  if ← eat (.op .equal) then
    let value ← inner.expression
    let t ← node (.parameter name kind) start (children ++ [value])
    return { parameters.push t with
      bareStar := false
      seenDefault := parameters.seenDefault || !parameters.keywordOnly }
  else if parameters.seenDefault && !parameters.keywordOnly then
    failAt .nonDefaultAfterDefault start
  else
    let t ← node (.parameter name kind) start children
    return { parameters.push t with bareStar := false }

/-- One parameter, or a mark between parameters. -/
def parameter (inner : Level) (annotated : Bool) (parameters : Parameters) :
    Parser Parameters := do
  if parameters.seenVarKeyword then failHere .invalidSyntax
  else
    match ← peek with
    | .op .slash => slashParameter parameters
    | .op .star => starParameter inner annotated parameters
    | .op .doubleStar => doubleStarParameter inner annotated parameters
    | _ => plainParameter inner annotated parameters

/-- The parameters before `closer`, which is left; those of a lambda have no annotations. -/
def parameters (inner : Level) (closer : TokenKind) (annotated : Bool) : Parser (List Tree) := do
  let parameters ← iterate (fun parameters => do
    if ← check closer then return (parameters, false)
    else
      let parameters ← parameter inner annotated parameters
      return (parameters, ← eat (.op .comma))) Parameters.none
  if parameters.bareStar then failHere .bareStarWithoutNames else return parameters.list

def lambda (inner : Level) : Parser Tree := do
  let start ← here
  advance
  let children ← parameters inner (.op .colon) false
  expect (.op .colon)
  let body ← inner.expression
  node .lambda start (children ++ [body])

def conditional (inner : Level) : Parser Tree := do
  if ← check (.keyword .lambdaKw) then lambda inner
  else
    let start ← here
    let body ← disjunction inner
    if ← eat (.keyword .ifKw) then
      let test ← disjunction inner
      if ← eat (.keyword .elseKw) then
        let orElse ← inner.expression
        node .ifExp start [body, test, orElse]
      else failHere (.expected "'else' after 'if' expression")
    else return body

/-! ## Comprehensions -/

def startsComprehension : Parser Bool := do
  if ← check (.keyword .forKw) then return true
  else return (← check (.keyword .asyncKw)) && (← peekAt 1) == .keyword .forKw

def comprehensionClause (inner : Level) : Parser Tree := do
  let start ← here
  let isAsync ← eat (.keyword .asyncKw)
  advance
  let target ← targetList inner
  let target ← ofExcept (Target.mark .assign target)
  expect (.keyword .inKw)
  let source ← disjunction inner
  let conditions ← many do
    if ← eat (.keyword .ifKw) then return some (← disjunction inner) else return none
  node (.comprehension isAsync) start (target :: source :: conditions)

def comprehensionClauses (inner : Level) : Parser (List Tree) :=
  many do
    if ← startsComprehension then return some (← comprehensionClause inner) else return none

/-! ## Displays -/

/-- Inside a case pattern, an item with the name it is bound to. -/
def captured (item : Tree) (start : Position) : Parser Tree := do
  if ← inPattern then
    if ← eat (.keyword .asKw) then
      let name ← expectName
      node (.matchAs name) start [item]
    else return item
  else return item

/-- An item of a list, a tuple or a set. -/
def displayItem (inner : Level) : Parser Tree := do
  let start ← here
  let item ← starNamed inner
  captured item start

/-- An expression with a capture, where a dictionary or an argument holds its value. -/
def capturedExpression (inner : Level) : Parser Tree := do
  let start ← here
  let value ← inner.expression
  captured value start

/-- The items after the first one, and the closing bracket. -/
def displayRest (inner : Level) (first : Tree) (closer : TokenKind) : Parser (List Tree) := do
  let items ← commaTail (check closer) (displayItem inner)
  require closer
  return first :: items

/-- What is left of a comprehension after its element, and the closing bracket. -/
def comprehension (inner : Level) (kind : NodeKind) (start : Position) (elements : List Tree)
    (closer : TokenKind) : Parser Tree := do
  let clauses ← comprehensionClauses inner
  require closer
  node kind start (elements ++ clauses)

def parenthesized (inner : Level) : Parser Tree := do
  let start ← here
  advance
  if ← eat (.op .rightParen) then node (.tuple .load) start []
  else if ← check (.keyword .yieldKw) then
    let value ← yield inner
    require (.op .rightParen)
    return value
  else
    let first ← displayItem inner
    if ← startsComprehension then
      comprehension inner .generatorExp start [first] (.op .rightParen)
    else if ← check (.op .comma) then
      let items ← displayRest inner first (.op .rightParen)
      node (.tuple .load) start items
    else if first.kind.isStarred then failAt .invalidSyntax start
    else
      require (.op .rightParen)
      return first

def listDisplay (inner : Level) : Parser Tree := do
  let start ← here
  advance
  if ← eat (.op .rightBracket) then node (.list .load) start []
  else
    let first ← displayItem inner
    if ← startsComprehension then
      comprehension inner .listComp start [first] (.op .rightBracket)
    else
      let items ← displayRest inner first (.op .rightBracket)
      node (.list .load) start items

/-- A key and its value, or a mapping that is spread. -/
def dictEntry (inner : Level) : Parser (List Tree) := do
  let start ← here
  if ← eat (.op .doubleStar) then
    let mapping ← bitwiseOr inner
    return [← node .dictUnpack start [mapping]]
  else
    let key ← inner.expression
    expect (.op .colon)
    let value ← capturedExpression inner
    return [key, value]

/-- The entries of a dictionary after the first one, and the closing brace. -/
def dictRest (inner : Level) (start : Position) (first : List Tree) : Parser Tree := do
  let entries ← commaTail (check (.op .rightBrace)) (dictEntry inner)
  require (.op .rightBrace)
  node .dict start (first ++ entries.flatten)

def braceDisplay (inner : Level) : Parser Tree := do
  let start ← here
  advance
  if ← eat (.op .rightBrace) then node .dict start []
  else if ← check (.op .doubleStar) then
    let first ← dictEntry inner
    dictRest inner start first
  else
    let first ← displayItem inner
    if ← eat (.op .colon) then
      let value ← capturedExpression inner
      if ← startsComprehension then
        comprehension inner .dictComp start [first, value] (.op .rightBrace)
      else dictRest inner start [first, value]
    else if ← startsComprehension then
      comprehension inner .setComp start [first] (.op .rightBrace)
    else
      let items ← displayRest inner first (.op .rightBrace)
      node .set start items

/-! ## Arguments and subscripts -/

/-- What has been read of an argument list. -/
structure Arguments where
  list : List Tree
  seenKeyword : Bool
  seenKeywordUnpacking : Bool
  deriving Inhabited

def Arguments.none : Arguments := ⟨[], false, false⟩

def Arguments.push (arguments : Arguments) (t : Tree) : Arguments :=
  { arguments with list := arguments.list ++ [t] }

def starArgument (inner : Level) (arguments : Arguments) : Parser Arguments := do
  let start ← here
  if arguments.seenKeywordUnpacking then failHere .unpackingAfterKeywordUnpacking
  else
    advance
    let value ← inner.expression
    return arguments.push (← node (.starred .load) start [value])

def doubleStarArgument (inner : Level) (arguments : Arguments) : Parser Arguments := do
  let start ← here
  advance
  let value ← inner.expression
  let t ← node (.keyword none) start [value]
  return { arguments.push t with seenKeyword := true, seenKeywordUnpacking := true }

def keywordArgument (inner : Level) (arguments : Arguments) : Parser Arguments := do
  let start ← here
  let name ← word
  advance
  let value ← capturedExpression inner
  let t ← node (.keyword (some name)) start [value]
  return { arguments.push t with seenKeyword := true }

/-- An argument by position. A generator without brackets has to be the only argument, and the
header of a class takes none. -/
def positionalArgument (inner : Level) (allowGenerator : Bool) (arguments : Arguments) :
    Parser Arguments := do
  let start ← here
  let value ← named inner
  if ← startsComprehension then
    let clauses ← comprehensionClauses inner
    if !allowGenerator then failAt .invalidSyntax start
    else if !arguments.list.isEmpty || !(← check (.op .rightParen)) then
      failAt .unparenthesizedGenerator start
    else return arguments.push (← node .generatorExp start (value :: clauses))
  else if ← check (.op .equal) then failAt .invalidSyntax start
  else if arguments.seenKeyword then failAt .positionalAfterKeyword start
  else return arguments.push (← captured value start)

def argument (inner : Level) (allowGenerator : Bool) (arguments : Arguments) :
    Parser Arguments := do
  match ← peek with
  | .op .star => starArgument inner arguments
  | .op .doubleStar => doubleStarArgument inner arguments
  | .name =>
    if (← peekAt 1) == .op .equal then keywordArgument inner arguments
    else positionalArgument inner allowGenerator arguments
  | _ => positionalArgument inner allowGenerator arguments

/-- The arguments of a call or of a class header before the closing bracket, which is left. -/
def arguments (inner : Level) (allowGenerator : Bool) : Parser (List Tree) := do
  let arguments ← iterate (fun arguments => do
    if ← check (.op .rightParen) then return (arguments, false)
    else
      let arguments ← argument inner allowGenerator arguments
      return (arguments, ← eat (.op .comma))) Arguments.none
  return arguments.list

def atSliceBoundary : Parser Bool := do
  return match ← peek with
    | .op .colon | .op .comma | .op .rightBracket => true
    | _ => false

/-- An optional bound of a slice. -/
def sliceBound (inner : Level) : Parser (List Tree) := do
  if ← atSliceBoundary then return [] else return [← inner.expression]

/-- A slice after its lower bound. -/
def sliceRest (inner : Level) (start : Position) (lower : List Tree) : Parser Tree := do
  advance
  let upper ← sliceBound inner
  let step ← do if ← eat (.op .colon) then sliceBound inner else pure []
  node .slice start (lower ++ upper ++ step)

/-- Bounds divided by colons, or one item, which may be starred. -/
def slice (inner : Level) : Parser Tree := do
  let start ← here
  if ← check (.op .colon) then sliceRest inner start []
  else
    let lower ← starNamed inner
    if ← check (.op .colon) then sliceRest inner start [lower] else return lower

def slices (inner : Level) : Parser Tree := tupleOf (check (.op .rightBracket)) (slice inner)

/-! ## Atoms and what follows them -/

/-- A token that stands for a constant. -/
def constant (value : Constant) : Parser Tree := do
  let start ← here
  advance
  node (.constant value) start []

/-- Adjacent string literals, which are all of bytes or all of text. -/
def strings : Parser Tree := do
  let start ← here
  let first ← word
  let isBytes := Quotation.isBytes first.toList
  let more ← many do
    if ← check .string then
      if Quotation.isBytes (← lexeme).toList != isBytes then failAt .mixedBytesLiterals start
      else return some (← word)
    else return none
  node (.constant (.str (" ".intercalate (first :: more)))) start []

def atom (inner : Level) : Parser Tree := do
  match ← peek with
  | .name =>
    let start ← here
    let id ← word
    node (.name id .load) start []
  | .number => constant (.number (← lexeme))
  | .string => strings
  | .keyword .noneKw => constant .none
  | .keyword .trueKw => constant .true
  | .keyword .falseKw => constant .false
  | .op .ellipsis => constant .ellipsis
  | .op .leftParen => parenthesized inner
  | .op .leftBracket => listDisplay inner
  | .op .leftBrace => braceDisplay inner
  | _ => failHere .invalidSyntax

/-- An attribute, a call or a subscript of what has been read. -/
def trailer (inner : Level) (start : Position) (t : Tree) : Parser (Tree × Bool) := do
  match ← peek with
  | .op .dot =>
    advance
    let attr ← expectName
    return (← node (.attribute attr .load) start [t], true)
  | .op .leftParen =>
    advance
    let arguments ← arguments inner true
    require (.op .rightParen)
    return (← node .call start (t :: arguments), true)
  | .op .leftBracket =>
    advance
    let index ← slices inner
    require (.op .rightBracket)
    return (← node (.subscript .load) start [t, index], true)
  | _ => return (t, false)

def primary (inner : Level) : Parser Tree := do
  let start ← here
  let t ← atom inner
  iterate (trailer inner start) t

/-! ## Operators -/

/-- An operand with the operators before it. Since `not` binds loosely, it cannot start an operand
of a tighter operator. -/
def unary (inner : Level) (least : Nat) : Parser Tree := do
  let start ← here
  let kind ← peek
  if kind == .keyword .awaitKw then
    advance
    let operand ← inner.primary
    node .awaitExpr start [operand]
  else
    match Power.unaryOp? kind with
    | some (op, power) =>
      if op = .not && power < least then failHere .invalidSyntax
      else
        advance
        let operand ← inner.operand power
        node (.unaryOp op) start [operand]
    | none => primary inner

/-- The comparison operator that comes next. -/
def eatCompare : Parser (Option CompareOp) := do
  match Power.compareOp? (← peek) (← peekAt 1) with
  | some (op, n) =>
    advance
    if n = 2 then advance
    return some op
  | none => return none

/-- A chain of operands joined by the same operator. -/
def boolChain (inner : Level) (op : BoolOp) (start : Position) (first : Tree) : Parser Tree := do
  let kind ← peek
  let operands ← many do
    if ← eat kind then return some (← inner.operand (Power.ofBool op).2) else return none
  node (.boolOp op) start (first :: operands)

/-- A chain of comparisons. -/
def compareChain (inner : Level) (start : Position) (first : Tree) : Parser Tree := do
  let links ← many do
    match ← eatCompare with
    | some op => return some (op, ← inner.operand Power.ofCompare.2)
    | none => return none
  node (.compare (links.map (·.1))) start (first :: links.map (·.2))

def binary (inner : Level) (op : BinaryOp) (start : Position) (first : Tree) : Parser Tree := do
  advance
  let second ← inner.operand (Power.ofBinary op).2
  node (.binOp op) start [first, second]

/-- One more operator, if the next one binds tightly enough. -/
def extend (inner : Level) (least : Nat) (start : Position) (t : Tree) :
    Parser (Tree × Bool) := do
  let kind ← peek
  match Power.boolOp? kind, Power.compareOp? kind (← peekAt 1), Power.binaryOp? kind with
  | some op, _, _ =>
    if least ≤ (Power.ofBool op).1 then return (← boolChain inner op start t, true)
    else return (t, false)
  | none, some _, _ =>
    if least ≤ Power.ofCompare.1 then return (← compareChain inner start t, true)
    else return (t, false)
  | none, none, some op =>
    if least ≤ (Power.ofBinary op).1 then return (← binary inner op start t, true)
    else return (t, false)
  | none, none, none => return (t, false)

/-- Operands and the operators between them that bind at least this tightly. -/
def operation (inner : Level) (least : Nat) : Parser Tree := do
  let start ← here
  let first ← unary inner least
  iterate (extend inner least start) first

end Expression

namespace Level
open SnippetLint.Parser

/-- The level around another one. -/
def around (inner : Level) : Level where
  expression := nested (Expression.conditional inner)
  operand least := nested (Expression.operation inner least)
  primary := nested (Expression.primary inner)

/-- The level in which `room` levels may still open. -/
def within : Nat → Level
  | 0 => ⟨failHere .tooDeeplyNested, fun _ => failHere .tooDeeplyNested,
      failHere .tooDeeplyNested⟩
  | room + 1 => around (within room)

/-- The level of statements. -/
def top : Level := within maxNesting

end Level

end SnippetLint
