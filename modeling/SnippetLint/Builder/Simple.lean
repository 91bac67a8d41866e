import SnippetLint.Builder.Expression
import SnippetLint.Grammar.Simple

/-!
Simple statements built in an arena. What turns out to be a target is stored as any expression is,
and marked when what comes after it is seen.
-/

namespace SnippetLint.Builder
open SnippetLint.Parser (advance check eat expect expectName failAt failHere here peek require)
open SnippetLint.Expression (startsNone)
open SnippetLint.Simple (dottedName followsPrint importAlias importLevel importedNames)

/-! ## Imports -/

def importStmt : Builder Nat := do
  let start ← here
  advance
  let first ← importAlias dottedName
  let more ← Parser.commaTail (pure false) (importAlias dottedName)
  node (.importStmt (first :: more)) start []

def importFrom : Builder Nat := do
  let start ← here
  advance
  let level ← importLevel
  let module ← do
    if ← check .name then (some <$> dottedName : Parser _) else (pure none : Parser _)
  if module.isNone && level == 0 then failHere .invalidSyntax
  else
    expect (.keyword .importKw)
    let names ← importedNames
    node (.importFrom module level names) start []

/-! ## Expressions and assignments -/

/-- What may stand on the right of an assignment. -/
def assigned (inner : Level) : Builder Nat := do
  if ← check (.keyword .yieldKw) then yield inner else starList inner

/-- Marks stored nodes as targets, one after another. -/
def markAll (action : TargetAction) : List Nat → Builder Unit
  | [] => pure ()
  | id :: ids => do
    let _ ← mark action id
    markAll action ids

/-- Marks a stored node as the only target of a statement. One that cannot be is refused by the
fault for its kind. -/
def markSingle (refused : NodeKind → GrammarFault) (id : Nat) : Builder Nat :=
  fun ending state arena =>
    match arena.get? id with
    | none => .ok id state arena
    | some node =>
      if Target.isSingle node.kind then mark .assign id ending state arena
      else read (failAt (refused node.kind) node.span.start) ending state arena

/-- Whether a stored node is the name `print`. -/
def isPrint (id : Nat) : Builder Bool := fun _ state arena =>
  let found := match arena.get? id with
    | some ⟨.name name _, _, _⟩ => name == "print"
    | _ => false
  .ok found state arena

/-- Targets and a value after equals signs; all but the last are targets. -/
def assignment (start : Position) (first : Nat) : Builder Nat := do
  let more ← many do
    if ← eat (.op .equal) then return some (← assigned .top) else return none
  let parts := first :: more
  markAll .assign parts.dropLast
  node .assign start parts

def augmented (start : Position) (first : Nat) (op : BinaryOp) : Builder Nat := do
  let target ← markSingle (.illegalAugmentedTarget ∘ Target.describeAugmented) first
  advance
  let value ← assigned .top
  node (.augAssign op) start [target, value]

def annotated (start : Position) (first : Nat) : Builder Nat := do
  let target ← markSingle (fun _ => .illegalAnnotationTarget) first
  advance
  let annotation ← Level.top.expression
  if ← eat (.op .equal) then
    let value ← assigned .top
    node .annAssign start [target, annotation, value]
  else node .annAssign start [target, annotation]

def expressionStmt : Builder Nat := do
  let start ← here
  let first ← assigned .top
  let kind ← peek
  if kind == .op .equal then assignment start first
  else
    match Power.augmentedOp? kind with
    | some op => augmented start first op
    | none =>
      if kind == .op .colon then annotated start first
      else if (← isPrint first) && followsPrint kind then
        failAt .missingParenthesesInPrint start
      else node .exprStmt start [first]

/-! ## Statements that start with a keyword -/

def keywordOnly (kind : NodeKind) : Builder Nat := do
  let start ← here
  advance
  node kind start []

def returnStmt : Builder Nat := do
  let start ← here
  advance
  if ← startsNone then node .returnStmt start []
  else
    let value ← starList .top
    node .returnStmt start [value]

def raiseStmt : Builder Nat := do
  let start ← here
  advance
  if ← startsNone then node .raiseStmt start []
  else
    let error ← Level.top.expression
    if ← eat (.keyword .fromKw) then
      let cause ← Level.top.expression
      node .raiseStmt start [error, cause]
    else node .raiseStmt start [error]

/-- Names of variables from an outer scope. -/
def scopeStmt (kind : List String → NodeKind) : Builder Nat := do
  let start ← here
  advance
  let first ← expectName
  let more ← Parser.commaTail (pure false) expectName
  node (kind (first :: more)) start []

def deleteStmt : Builder Nat := do
  let start ← here
  advance
  let target ← targetList .top
  let target ← mark .delete target
  node .deleteStmt start [target]

def assertStmt : Builder Nat := do
  let start ← here
  advance
  let test ← Level.top.expression
  if ← eat (.op .comma) then
    let message ← Level.top.expression
    node .assertStmt start [test, message]
  else node .assertStmt start [test]

def simpleStatement : Builder Nat := do
  match ← peek with
  | .keyword .passKw => keywordOnly .passStmt
  | .keyword .breakKw => keywordOnly .breakStmt
  | .keyword .continueKw => keywordOnly .continueStmt
  | .keyword .returnKw => returnStmt
  | .keyword .raiseKw => raiseStmt
  | .keyword .globalKw => scopeStmt .globalStmt
  | .keyword .nonlocalKw => scopeStmt .nonlocalStmt
  | .keyword .delKw => deleteStmt
  | .keyword .assertKw => assertStmt
  | .keyword .importKw => importStmt
  | .keyword .fromKw => importFrom
  | _ => expressionStmt

/-- The statements of a line, with its end. -/
def line : Builder (List Nat) := do
  let first ← simpleStatement
  let more ← many do
    if ← eat (.op .semicolon) then
      if ← check .newline then return none else return some (← simpleStatement)
    else return none
  require .newline
  return first :: more

end SnippetLint.Builder
