import SnippetLint.Grammar.Expression

/-!
Simple statements, which stand on one logical line and may be divided by semicolons.
-/

namespace SnippetLint.Simple
open SnippetLint.Parser

/-! ## Imports -/

def asName : Parser (Option String) := do
  if ← eat (.keyword .asKw) then return some (← expectName) else return none

/-- Names with dots between them, as one text. -/
def dottedName : Parser String := do
  let first ← expectName
  let more ← many do
    if ← eat (.op .dot) then return some (← expectName) else return none
  return ".".intercalate (first :: more)

/-- What an import takes, by a name that `name` reads. -/
def importAlias (name : Parser String) : Parser Alias := do
  let start ← here
  let name ← name
  let asName ← asName
  return ⟨name, asName, ← spanFrom start⟩

def importStmt : Parser Tree := do
  let start ← here
  advance
  let first ← importAlias dottedName
  let more ← commaTail (pure false) (importAlias dottedName)
  node (.importStmt (first :: more)) start []

/-- The number of leading dots of a module's name. -/
def importLevel : Parser Nat := do
  let dots ← many do
    if ← eat (.op .dot) then return some 1
    else if ← eat (.op .ellipsis) then return some 3
    else return none
  return dots.foldl (· + ·) 0

/-- What is taken from a module: everything, or names, which may stand in brackets. -/
def importedNames : Parser (List Alias) := do
  if ← check (.op .star) then
    let start ← here
    advance
    return [⟨"*", none, ← spanFrom start⟩]
  else if ← eat (.op .leftParen) then
    let first ← importAlias expectName
    let more ← commaTail (check (.op .rightParen)) (importAlias expectName)
    require (.op .rightParen)
    return first :: more
  else
    let first ← importAlias expectName
    let more ← commaTail (pure false) (importAlias expectName)
    return first :: more

def importFrom : Parser Tree := do
  let start ← here
  advance
  let level ← importLevel
  let module ← do if ← check .name then some <$> dottedName else pure none
  if module.isNone && level == 0 then failHere .invalidSyntax
  else
    expect (.keyword .importKw)
    let names ← importedNames
    node (.importFrom module level names) start []

/-! ## Expressions and assignments -/

/-- The kinds of token after which a bare `print` was meant as a statement. -/
def followsPrint : TokenKind → Bool
  | .name | .number | .string => true
  | .keyword .noneKw | .keyword .trueKw | .keyword .falseKw => true
  | .keyword .lambdaKw | .keyword .notKw | .keyword .awaitKw => true
  | .op .ellipsis | .op .leftBrace => true
  | _ => false

def isPrint (t : Tree) : Bool :=
  match t.kind with
  | .name id _ => id == "print"
  | _ => false

/-- Targets and a value after equals signs; all but the last are targets. -/
def assignment (start : Position) (first : Tree) : Parser Tree := do
  let more ← many do
    if ← eat (.op .equal) then return some (← Expression.assigned .top) else return none
  let parts := first :: more
  let targets ← ofExcept (Target.markAll .assign parts.dropLast)
  node .assign start (targets ++ parts.getLast?.toList)

def augmented (start : Position) (first : Tree) (op : BinaryOp) : Parser Tree := do
  let target ← ofExcept (Target.markAugmented first)
  advance
  let value ← Expression.assigned .top
  node (.augAssign op) start [target, value]

def annotated (start : Position) (first : Tree) : Parser Tree := do
  let target ← ofExcept (Target.markAnnotated first)
  advance
  let annotation ← Level.top.expression
  if ← eat (.op .equal) then
    let value ← Expression.assigned .top
    node .annAssign start [target, annotation, value]
  else node .annAssign start [target, annotation]

def expressionStmt : Parser Tree := do
  let start ← here
  let first ← Expression.assigned .top
  let kind ← peek
  if kind == .op .equal then assignment start first
  else
    match Power.augmentedOp? kind with
    | some op => augmented start first op
    | none =>
      if kind == .op .colon then annotated start first
      else if isPrint first && followsPrint kind then failAt .missingParenthesesInPrint start
      else node .exprStmt start [first]

/-! ## Statements that start with a keyword -/

def keywordOnly (kind : NodeKind) : Parser Tree := do
  let start ← here
  advance
  node kind start []

def returnStmt : Parser Tree := do
  let start ← here
  advance
  if ← Expression.startsNone then node .returnStmt start []
  else
    let value ← Expression.starList .top
    node .returnStmt start [value]

def raiseStmt : Parser Tree := do
  let start ← here
  advance
  if ← Expression.startsNone then node .raiseStmt start []
  else
    let error ← Level.top.expression
    if ← eat (.keyword .fromKw) then
      let cause ← Level.top.expression
      node .raiseStmt start [error, cause]
    else node .raiseStmt start [error]

/-- Names of variables from an outer scope. -/
def scopeStmt (kind : List String → NodeKind) : Parser Tree := do
  let start ← here
  advance
  let first ← expectName
  let more ← commaTail (pure false) expectName
  node (kind (first :: more)) start []

def deleteStmt : Parser Tree := do
  let start ← here
  advance
  let target ← Expression.targetList .top
  let target ← ofExcept (Target.mark .delete target)
  node .deleteStmt start [target]

def assertStmt : Parser Tree := do
  let start ← here
  advance
  let test ← Level.top.expression
  if ← eat (.op .comma) then
    let message ← Level.top.expression
    node .assertStmt start [test, message]
  else node .assertStmt start [test]

def statement : Parser Tree := do
  match ← peek with
  | .keyword .passKw => keywordOnly .passStmt
  | .keyword .breakKw => keywordOnly .breakStmt
  | .keyword .continueKw => keywordOnly .continueStmt
  | .keyword .returnKw => returnStmt
  | .keyword .raiseKw => raiseStmt
  | .keyword .globalKw => scopeStmt .globalStmt
  | .keyword .nonlocalKw => scopeStmt .nonlocalStmt
  | .keyword .delKw => deleteStmt
  | .keyword .assertKw => assertStmt
  | .keyword .importKw => importStmt
  | .keyword .fromKw => importFrom
  | _ => expressionStmt

/-- The statements of a line, with its end. -/
def line : Parser (List Tree) := do
  let first ← statement
  let more ← many do
    if ← eat (.op .semicolon) then
      if ← check .newline then return none else return some (← statement)
    else return none
  require .newline
  return first :: more

end SnippetLint.Simple
