import SnippetLint.Grammar.Fault
import SnippetLint.Tree.Basic

/-!
Case patterns. A pattern is read by the expression grammar, with captures allowed; the tree is
then checked, and the names that it captures are marked as bound. Names of classes, dotted names
and the keys of mappings are only read. A node is checked before its children, and the children
from the last to the first.
-/

namespace SnippetLint.Pattern

/-- What a tree has to be at its place in a pattern. -/
inductive Slot where
  | pattern
  /-- An item of a sequence, which may be a starred name. -/
  | sequenceItem
  | mappingKey
  /-- A name, or a name with attributes. -/
  | dotted
  deriving DecidableEq, Inhabited

def isImaginary (number : String) : Bool :=
  number.toList.getLast?.any fun c => c == 'j' || c == 'J'

/-- The text of a number. -/
def number? (t : Tree) : Option String :=
  match t.kind with
  | .constant (.number text) => some text
  | _ => none

/-- The text of a number, which may have a minus sign before it. -/
def signedNumber? (t : Tree) : Option String :=
  match t.kind, t.children with
  | .unaryOp .minus, [operand] => number? operand
  | _, _ => number? t

/-- Literals: constants other than the ellipsis, negative numbers, and sums or differences of a
real and an imaginary number. -/
def isLiteral (t : Tree) : Bool :=
  match t.kind, t.children with
  | .constant value, _ => value != .ellipsis
  | .unaryOp .minus, _ => (signedNumber? t).isSome
  | .binOp .add, [real, imaginary] | .binOp .sub, [real, imaginary] =>
    (signedNumber? real).any (!isImaginary ·) && (number? imaginary).any isImaginary
  | _, _ => false

def isWildcard (t : Tree) : Bool :=
  match t.kind with
  | .name id _ => id == "_"
  | _ => false

/-- A name as one that is bound. -/
def capture (t : Tree) : Tree :=
  match t with
  | .node (.name id _) span children => .node (.name id .store) span children
  | t => t

/-- The first child as a name that is bound. -/
def captureFirst : List Tree → List Tree
  | t :: ts => capture t :: ts
  | [] => []

def startsWithName (ts : List Tree) : Bool := ts.head?.any (·.kind.isName)

def invalid (position : Position) : Except ParseError α := .error ⟨.invalidSyntax, position⟩

/-- A sequence has at most one starred item. -/
def checkSequence (items : List Tree) : Except ParseError Unit :=
  match items.filter (·.kind.isStarred) with
  | _ :: second :: _ => invalid second.start
  | _ => .ok ()

/-- The arguments of a class pattern spread nothing and are no generator. -/
def checkArguments : List Tree → Except ParseError Unit
  | [] => .ok ()
  | t :: ts =>
    match t.kind with
    | .keyword none | .starred _ | .generatorExp => invalid t.start
    | _ => checkArguments ts

/-- A mapping may take its remaining entries by one name at the end, which is no wildcard. -/
def checkEntries : List Tree → Except ParseError Unit
  | [] => .ok ()
  | .node .dictUnpack span children :: rest =>
    if rest.isEmpty && startsWithName children && !children.head?.any isWildcard then .ok ()
    else invalid span.start
  | [_] => .ok ()
  | _ :: _ :: rest => checkEntries rest

mutual

/-- The tree as a pattern, with its captures bound. -/
def bind (slot : Slot) : Tree → Except ParseError Tree
  | .node kind span children =>
    if kind matches .attribute _ _ then do
      let children ← bindAll .dotted children
      return .node kind span children
    else if slot = .dotted then
      if kind.isName then .ok (.node kind span children) else invalid span.start
    else if isLiteral (.node kind span children) then .ok (.node kind span children)
    else if slot = .mappingKey then invalid span.start
    else
      match kind with
      | .starred _ =>
        if slot = .sequenceItem && startsWithName children then
          .ok (.node kind span (captureFirst children))
        else invalid span.start
      | .name _ _ => .ok (capture (.node kind span children))
      | .binOp .bitOr => do
        let children ← bindAll .pattern children
        return .node kind span children
      | .matchAs name =>
        if name = "_" then .error ⟨.wildcardTarget, span.start⟩
        else do
          let children ← bindAll .pattern children
          return .node kind span children
      | .tuple _ | .list _ => do
        checkSequence children
        let children ← bindAll .sequenceItem children
        return .node kind span children
      | .call => do
        checkArguments (children.drop 1)
        let children ← bindClass children
        return .node kind span children
      | .dict => do
        checkEntries children
        let children ← bindEntries children
        return .node kind span children
      | _ => invalid span.start

def bindAll (slot : Slot) : List Tree → Except ParseError (List Tree)
  | [] => .ok []
  | t :: ts => do
    let ts ← bindAll slot ts
    let t ← bind slot t
    return t :: ts

/-- The class and the arguments of a class pattern. -/
def bindClass : List Tree → Except ParseError (List Tree)
  | [] => .ok []
  | t :: ts => do
    let ts ← bindArguments ts
    let t ← bind .dotted t
    return t :: ts

def bindArguments : List Tree → Except ParseError (List Tree)
  | [] => .ok []
  | .node (.keyword arg) span children :: ts => do
    let ts ← bindArguments ts
    let children ← bindAll .pattern children
    return .node (.keyword arg) span children :: ts
  | t :: ts => do
    let ts ← bindArguments ts
    let t ← bind .pattern t
    return t :: ts

/-- The keys and values of a mapping pattern, and the name that takes the rest. -/
def bindEntries : List Tree → Except ParseError (List Tree)
  | [] => .ok []
  | .node .dictUnpack span children :: rest => do
    let rest ← bindEntries rest
    return .node .dictUnpack span (captureFirst children) :: rest
  | [key] => do
    let key ← bind .mappingKey key
    return [key]
  | key :: value :: rest => do
    let rest ← bindEntries rest
    let value ← bind .pattern value
    let key ← bind .mappingKey key
    return key :: value :: rest

end

end SnippetLint.Pattern
