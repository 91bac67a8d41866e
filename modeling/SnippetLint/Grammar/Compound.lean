import SnippetLint.Grammar.Pattern
import SnippetLint.Grammar.Simple

/-!
Statements with blocks. The rules take the parser for the block after a header; `statement` ties
them together, with the number of blocks that may still nest.
-/

namespace SnippetLint.Compound
open SnippetLint.Parser

/-- Reads the block after a header of a construct that stands on a line. -/
abbrev BlockParser := Construct → Nat → Parser Tree

/-- The line of the next token. -/
def lineHere : Parser Nat := do return (← here).line

/-- A clause with its own keyword before the colon of its block. -/
def clause (block : BlockParser) (keyword : Keyword) (construct : Construct) :
    Parser (List Tree) := do
  let line ← lineHere
  if ← eat (.keyword keyword) then
    expect (.op .colon)
    return [← block construct line]
  else return []

def elseClause (block : BlockParser) : Parser (List Tree) := clause block .elseKw .elseClause

/-- A condition and its block. -/
def guarded (block : BlockParser) (construct : Construct) (line : Nat) : Parser (List Tree) := do
  let test ← Expression.named .top
  expect (.op .colon)
  let body ← block construct line
  return [test, body]

def ifStmt (block : BlockParser) : Parser Tree := do
  let start ← here
  advance
  let first ← guarded block .ifStmt start.line
  let more ← many do
    let line ← lineHere
    if ← eat (.keyword .elifKw) then return some (← guarded block .elifClause line)
    else return none
  let orElse ← elseClause block
  node .ifStmt start (first ++ more.flatten ++ orElse)

def whileStmt (block : BlockParser) : Parser Tree := do
  let start ← here
  advance
  let first ← guarded block .whileStmt start.line
  let orElse ← elseClause block
  node .whileStmt start (first ++ orElse)

/-- A loop over items, from its keyword on. -/
def forStmt (block : BlockParser) (start : Position) (isAsync : Bool) : Parser Tree := do
  let line ← lineHere
  advance
  let target ← Expression.targetList .top
  let target ← ofExcept (Target.mark .assign target)
  expect (.keyword .inKw)
  let source ← Expression.starList .top
  expect (.op .colon)
  let body ← block .forStmt line
  let orElse ← elseClause block
  node (.forStmt isAsync) start ([target, source, body] ++ orElse)

/-! ## Try -/

/-- The handlers read so far, and whether they catch groups, once there is one. -/
structure Handlers where
  list : List Tree
  isStar : Option Bool
  deriving Inhabited

/-- What a handler catches, and the name it gives to it. -/
def caught (isStar : Bool) : Parser (List Tree × Option String) := do
  if ← check (.op .colon) then
    if isStar then failHere .invalidSyntax else return ([], none)
  else
    let error ← Level.top.expression
    let name ← Simple.asName
    return ([error], name)

def handler (block : BlockParser) (handlers : Handlers) : Parser Handlers := do
  let start ← here
  advance
  let isStar ← eat (.op .star)
  if handlers.isStar.any (· != isStar) then failAt .invalidSyntax start
  else
    let (error, name) ← caught isStar
    expect (.op .colon)
    let body ← block (if isStar then .exceptStarClause else .exceptClause) start.line
    let t ← node (.exceptHandler name) start (error ++ [body])
    return ⟨handlers.list ++ [t], some isStar⟩

def handlers (block : BlockParser) : Parser Handlers :=
  iterate (fun handlers => do
    if ← check (.keyword .exceptKw) then return (← handler block handlers, true)
    else return (handlers, false)) ⟨[], none⟩

def tryStmt (block : BlockParser) : Parser Tree := do
  let start ← here
  advance
  expect (.op .colon)
  let body ← block .tryStmt start.line
  if !(← check (.keyword .exceptKw)) && !(← check (.keyword .finallyKw)) then
    failHere .missingExceptOrFinally
  else
    let handlers ← handlers block
    let orElse ← if handlers.isStar.isSome then elseClause block else pure []
    let final ← clause block .finallyKw .finallyClause
    node (.tryStmt (handlers.isStar.getD false)) start (body :: handlers.list ++ orElse ++ final)

/-! ## With -/

def withItem : Parser Tree := do
  let start ← here
  let manager ← Level.top.expression
  if ← eat (.keyword .asKw) then
    let target ← Expression.bitwiseOr .top
    let target ← ofExcept (Target.mark .assign target)
    node .withItem start [manager, target]
  else node .withItem start [manager]

def withItems : Parser (List Tree) := do
  let first ← withItem
  let more ← commaTail (pure false) withItem
  return first :: more

/-- Items in brackets, if the colon of the block comes after them. -/
def bracketedItems : Parser (Option (List Tree)) := do
  advance
  let first ← withItem
  let more ← commaTail (check (.op .rightParen)) withItem
  require (.op .rightParen)
  if ← check (.op .colon) then return some (first :: more) else return none

/-- A with statement, from its keyword on. A bracket after the keyword may be the one around all
items or belong to the first one. -/
def withStmt (block : BlockParser) (start : Position) (isAsync : Bool) : Parser Tree := do
  let line ← lineHere
  advance
  let bracketed ← do
    if ← check (.op .leftParen) then speculate bracketedItems else pure none
  let items ← match bracketed with
    | some items => pure items
    | none => withItems
  expect (.op .colon)
  let body ← block .withStmt line
  node (.withStmt isAsync) start (items ++ [body])

/-! ## Definitions -/

def typeParam : Parser Tree := do
  let start ← here
  if !(← eat (.op .star)) then discard (eat (.op .doubleStar))
  let name ← expectName
  let bound ← do if ← eat (.op .colon) then pure [← Level.top.expression] else pure []
  let default ← do if ← eat (.op .equal) then pure [← Level.top.expression] else pure []
  node (.typeParam name) start (bound ++ default)

/-- Type parameters in square brackets, of which there is at least one. -/
def typeParams : Parser (List Tree) := do
  if ← eat (.op .leftBracket) then
    let first ← typeParam
    let more ← commaTail (check (.op .rightBracket)) typeParam
    require (.op .rightBracket)
    return first :: more
  else return []

/-- A function, from `def` on. -/
def functionDef (block : BlockParser) (decorators : List Tree) (start : Position)
    (isAsync : Bool) : Parser Tree := do
  let line ← lineHere
  advance
  let name ← expectName
  let types ← typeParams
  expect (.op .leftParen)
  let parameters ← Expression.parameters .top (.op .rightParen) true
  require (.op .rightParen)
  let result ← do if ← eat (.op .arrow) then pure [← Level.top.expression] else pure []
  expect (.op .colon)
  let body ← block .functionDef line
  node (.functionDef name isAsync) start (decorators ++ types ++ parameters ++ result ++ [body])

/-- The bases and keywords of a class, if its header has brackets. -/
def classArguments : Parser (List Tree) := do
  if ← eat (.op .leftParen) then
    let arguments ← Expression.arguments .top false
    require (.op .rightParen)
    return arguments
  else return []

/-- A class, from `class` on. -/
def classDef (block : BlockParser) (decorators : List Tree) (start : Position) :
    Parser Tree := do
  let line ← lineHere
  advance
  let name ← expectName
  let types ← typeParams
  let arguments ← classArguments
  expect (.op .colon)
  let body ← block .classDef line
  node (.classDef name) start (decorators ++ types ++ arguments ++ [body])

def decorator : Parser Tree := do
  let start ← here
  advance
  let value ← Expression.named .top
  require .newline
  node .decorator start [value]

def decorated (block : BlockParser) : Parser Tree := do
  let start ← here
  let decorators ← many do
    if ← check (.op .atSign) then return some (← decorator) else return none
  match ← peek, ← peekAt 1 with
  | .keyword .defKw, _ => functionDef block decorators start false
  | .keyword .asyncKw, .keyword .defKw =>
    advance
    functionDef block decorators start true
  | .keyword .classKw, _ => classDef block decorators start
  | _, _ => failHere .invalidSyntax

def asyncStmt (block : BlockParser) (start : Position) : Parser Tree := do
  advance
  match ← peek with
  | .keyword .defKw => functionDef block [] start true
  | .keyword .forKw => forStmt block start true
  | .keyword .withKw => withStmt block start true
  | _ => failHere .invalidSyntax

/-! ## Match -/

def asPattern : Parser Tree := do
  let start ← here
  let pattern ← do
    if ← check (.op .star) then Expression.starNamed .top else Expression.bitwiseOr .top
  Expression.captured pattern start

/-- Whether a pattern ends here. -/
def endsPattern : Parser Bool := do
  if ← check (.op .colon) then return true else check (.keyword .ifKw)

/-- The pattern of a case, with its captures bound. -/
def patterns : Parser Tree := do
  let pattern ← withinPattern (tupleOf endsPattern asPattern)
  ofExcept (Pattern.bind .pattern pattern)

def caseClause (block : BlockParser) : Parser Tree := do
  let start ← here
  advance
  let pattern ← patterns
  let guard ← do if ← eat (.keyword .ifKw) then pure [← Expression.named .top] else pure []
  expect (.op .colon)
  let body ← block .caseClause start.line
  node .matchCase start ([pattern] ++ guard ++ [body])

/-- The subject of a match statement, if the word `match` and what follows it start one. -/
def matchSubject : Parser (Option Tree) := do
  advance
  let subject ← Expression.starNamedList .top
  if (← check (.op .colon)) && (← peekAt 1) == .newline then return some subject
  else return none

/-- The cases of a match statement, up to where its block ends. -/
def cases (block : BlockParser) : Parser (List Tree) :=
  many do
    if (← check .dedent) || (← atEnd) then return none
    else if ← check .indent then failHere .unexpectedIndent
    else if ← checkWord "case" then return some (← caseClause block)
    else failHere .invalidSyntax

/-- A match statement after its subject. -/
def matchRest (block : BlockParser) (start : Position) (subject : Tree) : Parser Tree := do
  advance
  advance
  if !(← eat .indent) then failHere (.missingIndentedBlock .matchStmt start.line)
  else
    let cases ← cases block
    require .dedent
    node .matchStmt start (subject :: cases)

/-- A match statement, if there is one; else `match` is an ordinary name. -/
def matchStmt (block : BlockParser) : Parser (Option Tree) := do
  let start ← here
  match ← speculate matchSubject with
  | some subject => return some (← matchRest block start subject)
  | none => return none

/-! ## Statements and blocks -/

/-- One compound statement, or the statements of a line. -/
def statementWith (block : BlockParser) : Parser (List Tree) := do
  let start ← here
  match ← peek with
  | .indent => failHere .unexpectedIndent
  | .keyword .ifKw => return [← ifStmt block]
  | .keyword .whileKw => return [← whileStmt block]
  | .keyword .forKw => return [← forStmt block start false]
  | .keyword .tryKw => return [← tryStmt block]
  | .keyword .withKw => return [← withStmt block start false]
  | .keyword .defKw => return [← functionDef block [] start false]
  | .keyword .classKw => return [← classDef block [] start]
  | .op .atSign => return [← decorated block]
  | .keyword .asyncKw => return [← asyncStmt block start]
  | _ =>
    if ← checkWord "match" then
      match ← matchStmt block with
      | some t => return [t]
      | none => Simple.line
    else Simple.line

/-- Statements on the line of the header, or lines that are indented. -/
def blockOf (statement : Parser (List Tree)) (construct : Construct) (line : Nat) :
    Parser Tree := do
  let start ← here
  if ← eat .newline then
    if ← eat .indent then
      let statements ← many do
        if (← check .dedent) || (← atEnd) then return none else return some (← statement)
      require .dedent
      node .block start statements.flatten
    else failHere (.missingIndentedBlock construct line)
  else
    let statements ← Simple.line
    node .block start statements

/-- A statement in which `room` blocks may still nest. -/
def statement : Nat → Parser (List Tree)
  | 0, ending, state => failHere .invalidSyntax ending state
  | room + 1, ending, state =>
    statementWith (blockOf fun ending state => statement room ending state) ending state

end SnippetLint.Compound
