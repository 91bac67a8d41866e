import SnippetLint.Builder.Pattern
import SnippetLint.Builder.Simple
import SnippetLint.Builder.Statement
import SnippetLint.Grammar.Module

/-!
Statements with blocks built in an arena, and whole snippets. A block is stored after its
statements, and the statement that it belongs to after the block.
-/

namespace SnippetLint.Builder
open SnippetLint.Parser (advance atEnd check checkWord eat expect expectName failAt failHere here
  peek peekAt require)
open SnippetLint.Compound (endsPattern lineHere)

/-- A clause with its own keyword before the colon of its block. -/
def clause (block : BlockBuilder) (keyword : Keyword) (construct : Construct) :
    Builder (List Nat) := do
  let line ← lineHere
  if ← eat (.keyword keyword) then
    expect (.op .colon)
    return [← block construct line]
  else return []

def elseClause (block : BlockBuilder) : Builder (List Nat) := clause block .elseKw .elseClause

/-- A condition and its block. -/
def guarded (block : BlockBuilder) (construct : Construct) (line : Nat) : Builder (List Nat) := do
  let test ← named .top
  expect (.op .colon)
  let body ← block construct line
  return [test, body]

def ifStmt (block : BlockBuilder) : Builder Nat := do
  let start ← here
  advance
  let first ← guarded block .ifStmt start.line
  let more ← many do
    let line ← lineHere
    if ← eat (.keyword .elifKw) then return some (← guarded block .elifClause line)
    else return none
  let orElse ← elseClause block
  node .ifStmt start (first ++ more.flatten ++ orElse)

def whileStmt (block : BlockBuilder) : Builder Nat := do
  let start ← here
  advance
  let first ← guarded block .whileStmt start.line
  let orElse ← elseClause block
  node .whileStmt start (first ++ orElse)

/-- A loop over items, from its keyword on. -/
def forStmt (block : BlockBuilder) (start : Position) (isAsync : Bool) : Builder Nat := do
  let line ← lineHere
  advance
  let target ← targetList .top
  let target ← mark .assign target
  expect (.keyword .inKw)
  let source ← starList .top
  expect (.op .colon)
  let body ← block .forStmt line
  let orElse ← elseClause block
  node (.forStmt isAsync) start ([target, source, body] ++ orElse)

/-! ## Try -/

/-- The handlers stored so far, and whether they catch groups, once there is one. -/
structure Handlers where
  list : List Nat
  isStar : Option Bool
  deriving Inhabited

def Handlers.none : Handlers := ⟨[], Option.none⟩

/-- What a handler catches, and the name it gives to it. -/
def caught (isStar : Bool) : Builder (List Nat × Option String) := do
  if ← check (.op .colon) then
    if isStar then failHere .invalidSyntax else return ([], none)
  else
    let error ← Level.top.expression
    let name ← Simple.asName
    return ([error], name)

def handler (block : BlockBuilder) (handlers : Handlers) : Builder Handlers := do
  let start ← here
  advance
  let isStar ← eat (.op .star)
  if handlers.isStar.any (· != isStar) then failAt .invalidSyntax start
  else
    let (error, name) ← caught isStar
    expect (.op .colon)
    let body ← block (if isStar then .exceptStarClause else .exceptClause) start.line
    let id ← node (.exceptHandler name) start (error ++ [body])
    return ⟨handlers.list ++ [id], some isStar⟩

def handlers (block : BlockBuilder) : Builder Handlers :=
  iterate (fun handlers => do
    if ← check (.keyword .exceptKw) then return (← handler block handlers, true)
    else return (handlers, false)) .none

def tryStmt (block : BlockBuilder) : Builder Nat := do
  let start ← here
  advance
  expect (.op .colon)
  let body ← block .tryStmt start.line
  if !(← check (.keyword .exceptKw)) && !(← check (.keyword .finallyKw)) then
    failHere .missingExceptOrFinally
  else
    let handlers ← handlers block
    let orElse ← if handlers.isStar.isSome then elseClause block else pure []
    let final ← clause block .finallyKw .finallyClause
    node (.tryStmt (handlers.isStar.getD false)) start (body :: handlers.list ++ orElse ++ final)

/-! ## Definitions -/

def typeParam : Builder Nat := do
  let start ← here
  if !(← eat (.op .star)) then (discard (eat (.op .doubleStar)) : Parser _)
  let name ← expectName
  let bound ← do if ← eat (.op .colon) then pure [← Level.top.expression] else pure []
  let default ← do if ← eat (.op .equal) then pure [← Level.top.expression] else pure []
  node (.typeParam name) start (bound ++ default)

/-- Type parameters in square brackets, of which there is at least one. -/
def typeParams : Builder (List Nat) := do
  if ← eat (.op .leftBracket) then
    let first ← typeParam
    let more ← commaTail (check (.op .rightBracket)) typeParam
    require (.op .rightBracket)
    return first :: more
  else return []

/-- A function, from `def` on. -/
def functionDef (block : BlockBuilder) (decorators : List Nat) (start : Position)
    (isAsync : Bool) : Builder Nat := do
  let line ← lineHere
  advance
  let name ← expectName
  let types ← typeParams
  expect (.op .leftParen)
  let parameters ← parameters .top (.op .rightParen) true
  require (.op .rightParen)
  let result ← do if ← eat (.op .arrow) then pure [← Level.top.expression] else pure []
  expect (.op .colon)
  let body ← block .functionDef line
  node (.functionDef name isAsync) start (decorators ++ types ++ parameters ++ result ++ [body])

/-- The bases and keywords of a class, if its header has brackets. -/
def classArguments : Builder (List Nat) := do
  if ← eat (.op .leftParen) then
    let arguments ← arguments .top false
    require (.op .rightParen)
    return arguments
  else return []

/-- A class, from `class` on. -/
def classDef (block : BlockBuilder) (decorators : List Nat) (start : Position) :
    Builder Nat := do
  let line ← lineHere
  advance
  let name ← expectName
  let types ← typeParams
  let arguments ← classArguments
  expect (.op .colon)
  let body ← block .classDef line
  node (.classDef name) start (decorators ++ types ++ arguments ++ [body])

def decorator : Builder Nat := do
  let start ← here
  advance
  let value ← named .top
  require .newline
  node .decorator start [value]

def decorated (block : BlockBuilder) : Builder Nat := do
  let start ← here
  let decorators ← many do
    if ← check (.op .atSign) then return some (← decorator) else return none
  match ← peek, ← peekAt 1 with
  | .keyword .defKw, _ => functionDef block decorators start false
  | .keyword .asyncKw, .keyword .defKw =>
    advance
    functionDef block decorators start true
  | .keyword .classKw, _ => classDef block decorators start
  | _, _ => failHere .invalidSyntax

def asyncStmt (block : BlockBuilder) (start : Position) : Builder Nat := do
  advance
  match ← peek with
  | .keyword .defKw => functionDef block [] start true
  | .keyword .forKw => forStmt block start true
  | .keyword .withKw => withStmt headItems block start true
  | _ => failHere .invalidSyntax

/-! ## Match -/

def asPattern : Builder Nat := do
  let start ← here
  let pattern ← do
    if ← check (.op .star) then starNamed .top else bitwiseOr .top
  captured pattern start

/-- The pattern of a case, with its captures bound. -/
def patterns : Builder Nat := do
  let pattern ← withinPattern (tupleOf endsPattern asPattern)
  bindPattern pattern

def caseClause (block : BlockBuilder) : Builder Nat := do
  let start ← here
  advance
  let pattern ← patterns
  let guard ← do if ← eat (.keyword .ifKw) then pure [← named .top] else pure []
  expect (.op .colon)
  let body ← block .caseClause start.line
  node .matchCase start ([pattern] ++ guard ++ [body])

/-- The cases of a match statement, up to where its block ends. -/
def cases (block : BlockBuilder) : Builder (List Nat) :=
  many do
    if (← check .dedent) || (← atEnd) then return none
    else if ← check .indent then failHere .unexpectedIndent
    else if ← checkWord "case" then return some (← caseClause block)
    else failHere .invalidSyntax

/-- A match statement after its subject. -/
def matchRest (block : BlockBuilder) (start : Position) (subject : Nat) : Builder Nat := do
  advance
  advance
  if !(← eat .indent) then failHere (.missingIndentedBlock .matchStmt start.line)
  else
    let cases ← cases block
    require .dedent
    node .matchStmt start (subject :: cases)

/-! ## Statements and blocks -/

/-- One compound statement, or the statements of a line. -/
def statementWith (block : BlockBuilder) : Builder (List Nat) := do
  let start ← here
  match ← peek with
  | .indent => failHere .unexpectedIndent
  | .keyword .ifKw => return [← ifStmt block]
  | .keyword .whileKw => return [← whileStmt block]
  | .keyword .forKw => return [← forStmt block start false]
  | .keyword .tryKw => return [← tryStmt block]
  | .keyword .withKw => return [← withStmt headItems block start false]
  | .keyword .defKw => return [← functionDef block [] start false]
  | .keyword .classKw => return [← classDef block [] start]
  | .op .atSign => return [← decorated block]
  | .keyword .asyncKw => return [← asyncStmt block start]
  | _ => if ← checkWord "match" then matchLine (matchRest block) line else line

/-- Statements on the line of the header, or lines that are indented. -/
def blockOf (statement : Builder (List Nat)) (construct : Construct) (line : Nat) :
    Builder Nat := do
  let start ← here
  if ← eat .newline then
    if ← eat .indent then
      let statements ← many do
        if (← check .dedent) || (← atEnd) then return none else return some (← statement)
      require .dedent
      node .block start statements.flatten
    else failHere (.missingIndentedBlock construct line)
  else
    let statements ← Builder.line
    node .block start statements

/-- A statement in which `room` blocks may still nest. -/
def statement : Nat → Builder (List Nat)
  | 0, ending, state, arena => read (failHere .invalidSyntax) ending state arena
  | room + 1, ending, state, arena =>
    statementWith (blockOf fun ending state arena => statement room ending state arena)
      ending state arena

/-! ## Snippets -/

/-- Statements up to the end of the tokens. Blocks nest no deeper than there are tokens. -/
def statements (room : Nat) : Builder (List Nat) := do
  let statements ← many do
    if ← atEnd then return none else return some (← statement room)
  return statements.flatten

/-- Stores a node with this span. -/
def store (kind : NodeKind) (span : Span) (children : List Nat) : Builder Nat :=
  fun _ state arena => .ok arena.size state (arena.push ⟨kind, span, children⟩)

/-- All statements as one node; the text has to be readable to its end. -/
def module (room : Nat) : Builder Nat := fun ending state arena =>
  (do
    let start ← here
    let statements ← statements room
    if ending.fault.isSome then failHere .invalidSyntax
    else store .module ⟨start, ending.position⟩ statements : Builder Nat) ending state arena

/-- The arena that reading a snippet leaves, with its root. -/
def parse (source : String) : Except ParseError RootedArena :=
  let stream := TokenStream.ofText source
  let state := Module.initial stream
  match module (state.left + 1) (Module.endingOf stream) state .empty with
  | .ok root _ arena => .ok ⟨arena, root⟩
  | .fail error _ _ => .error error

end SnippetLint.Builder
