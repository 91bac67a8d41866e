import SnippetLint.Name.Set
import SnippetLint.Tree.Walk

/-!
The names that a tree binds anywhere, whatever their scope.
-/

namespace SnippetLint.Bound

/-- The part of a dotted name before its first dot, if it has one. -/
def topPackage? (name : String) : Option String :=
  if '.' ∈ name.toList then some (String.ofList (name.toList.takeWhile (· != '.'))) else none

/-- The import of a module binds its name, its top package and the name given to it. -/
def ofImport (entry : Alias) : List String :=
  (topPackage? entry.name).toList ++ entry.name :: entry.asName.toList

/-- An import from a module binds the name taken and the name given to it. -/
def ofImportFrom (entry : Alias) : List String :=
  if entry.name = "*" then [] else entry.name :: entry.asName.toList

/-- The names bound by a node itself. -/
def ofKind : NodeKind → List String
  | .name id .store => [id]
  | .functionDef name _ | .classDef name | .parameter name _ | .typeParam name
  | .matchAs name => [name]
  | .exceptHandler name => name.toList
  | .importStmt names => names.flatMap ofImport
  | .importFrom _ _ names => names.flatMap ofImportFrom
  | _ => []

/-- The names bound by the nodes that a walk visits. -/
def ofWalk (walk : Walk) : List String := walk.visited.flatMap fun node => ofKind node.kind

/-- The known names and those that a tree binds. A walk that ends early gives what it met. -/
def collect (known : NameSet) (tree : RootedArena) : NameSet := known.insertAll (ofWalk tree.walk)

end SnippetLint.Bound
