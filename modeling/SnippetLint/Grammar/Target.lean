import SnippetLint.Grammar.Fault
import SnippetLint.Tree.Basic

/-!
Targets. An expression that is assigned to or deleted is read as any other and then marked: a
name, an attribute or a subscript by itself, a tuple, a list or a starred item with all it holds.
-/

namespace SnippetLint.Target

/-- The context in which an action puts its target. -/
def contextOf : TargetAction → Context
  | .assign => .store
  | .delete => .del

mutual

/-- The tree as a target; a starred item cannot be deleted. -/
def mark (action : TargetAction) : Tree → Except ParseError Tree
  | .node (.name id _) span children => .ok (.node (.name id (contextOf action)) span children)
  | .node (.attribute attr _) span children =>
    .ok (.node (.attribute attr (contextOf action)) span children)
  | .node (.subscript _) span children => .ok (.node (.subscript (contextOf action)) span children)
  | .node (.starred _) span children =>
    if action = .delete then .error ⟨.invalidTarget action "starred", span.start⟩
    else do
      let children ← markAll action children
      return .node (.starred (contextOf action)) span children
  | .node (.tuple _) span children => do
    let children ← markAll action children
    return .node (.tuple (contextOf action)) span children
  | .node (.list _) span children => do
    let children ← markAll action children
    return .node (.list (contextOf action)) span children
  | .node kind span _ => .error ⟨.invalidTarget action kind.describe, span.start⟩

def markAll (action : TargetAction) : List Tree → Except ParseError (List Tree)
  | [] => .ok []
  | t :: ts => do
    let t ← mark action t
    let ts ← markAll action ts
    return t :: ts

end

def isSingle : NodeKind → Bool
  | .name _ _ | .attribute _ _ | .subscript _ => true
  | _ => false

/-- How a kind is named where augmented assignment refuses it. -/
def describeAugmented : NodeKind → String
  | .tuple _ => "tuple"
  | .list _ => "list"
  | .starred _ => "starred"
  | kind => kind.describe

/-- The target of an augmented assignment: a name, an attribute or a subscript. -/
def markAugmented (t : Tree) : Except ParseError Tree :=
  if isSingle t.kind then mark .assign t
  else .error ⟨.illegalAugmentedTarget (describeAugmented t.kind), t.start⟩

/-- The target of an annotation: a name, an attribute or a subscript. -/
def markAnnotated (t : Tree) : Except ParseError Tree :=
  if isSingle t.kind then mark .assign t else .error ⟨.illegalAnnotationTarget, t.start⟩

end SnippetLint.Target
