import SnippetLint.Builder.Expression
import SnippetLint.Grammar.Compound

/-!
The two statements that are begun on trial. A bracket after `with` may be the one around all items
or belong to the first one, and the word `match` may start a statement or be an ordinary name. The
first reading is tried; if it fails or turns out not to be meant, the second one starts over. What a
statement goes on with once that is decided is a parameter.
-/

namespace SnippetLint.Builder
open SnippetLint.Parser (advance check eat expect here peekAt require)
open SnippetLint.Compound (lineHere)

/-! ## With -/

/-- Builds the block after a header of a construct that stands on a line. -/
abbrev BlockBuilder := Construct → Nat → Builder Nat

def withItem : Builder Nat := do
  let start ← here
  let manager ← Level.top.expression
  if ← eat (.keyword .asKw) then
    let target ← bitwiseOr .top
    let target ← mark .assign target
    node .withItem start [manager, target]
  else node .withItem start [manager]

def withItems : Builder (List Nat) := do
  let first ← withItem
  let more ← commaTail (pure false) withItem
  return first :: more

/-- Items in brackets, if the colon of the block comes after them. -/
def bracketedItems : Builder (Option (List Nat)) := do
  advance
  let first ← withItem
  let more ← commaTail (check (.op .rightParen)) withItem
  require (.op .rightParen)
  if ← check (.op .colon) then return some (first :: more) else return none

/-- The trial of brackets around all items, if a bracket comes next. -/
def tryBracketed : Builder (Option (List Nat)) := do
  if ← check (.op .leftParen) then speculate bracketedItems else pure none

/-- The items between the keyword and the colon. -/
def headItems : Builder (List Nat) := do
  match ← tryBracketed with
  | some items => pure items
  | none => withItems

/-- A with statement after its items. -/
def withRest (block : BlockBuilder) (start : Position) (isAsync : Bool) (line : Nat)
    (items : List Nat) : Builder Nat := do
  expect (.op .colon)
  let body ← block .withStmt line
  node (.withStmt isAsync) start (items ++ [body])

/-- A with statement whose items are built by `items`, from its keyword on. -/
def withStmt (items : Builder (List Nat)) (block : BlockBuilder) (start : Position)
    (isAsync : Bool) : Builder Nat := do
  let line ← lineHere
  advance
  let items ← items
  withRest block start isAsync line items

/-! ## Match -/

/-- The subject of a match statement, if the word `match` and what follows it start one. -/
def matchSubject : Builder (Option Nat) := do
  advance
  let subject ← starNamedList .top
  if (← check (.op .colon)) && (← peekAt 1) == .newline then return some subject
  else return none

/-- A match statement, if there is one, with `rest` for what comes after its subject. -/
def matchStmt (rest : Position → Nat → Builder Nat) : Builder (Option Nat) := do
  let start ← here
  match ← speculate matchSubject with
  | some subject => return some (← rest start subject)
  | none => return none

/-- A line that begins with the word `match`: a match statement, or else what `line` builds. -/
def matchLine (rest : Position → Nat → Builder Nat) (line : Builder (List Nat)) :
    Builder (List Nat) := do
  match ← matchStmt rest with
  | some id => return [id]
  | none => line

end SnippetLint.Builder
