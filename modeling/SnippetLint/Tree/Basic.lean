import SnippetLint.Tree.Kind

/-!
Trees. A node has a kind, the span of its text and its children in source order.
-/

namespace SnippetLint

inductive Tree where
  | node (kind : NodeKind) (span : Span) (children : List Tree)
  deriving Inhabited

namespace Tree

def kind : Tree → NodeKind
  | node kind _ _ => kind

def span : Tree → Span
  | node _ span _ => span

def children : Tree → List Tree
  | node _ _ children => children

/-- The place where the tree's text starts. -/
def start (t : Tree) : Position := t.span.start

mutual

/-- The number of nodes. -/
def size : Tree → Nat
  | node _ _ children => sizeAll children + 1

def sizeAll : List Tree → Nat
  | [] => 0
  | t :: ts => size t + sizeAll ts

end

end Tree

end SnippetLint
