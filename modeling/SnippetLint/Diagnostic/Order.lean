import SnippetLint.Diagnostic.Basic
import SnippetLint.Settings

/-!
The order of diagnostics: by line and column, and those at one place as they were reported.
-/

namespace SnippetLint.Diagnostic

/-- Whether one diagnostic stands before the other or at the same place. -/
def before (a b : Diagnostic) : Bool :=
  a.line < b.line || (a.line == b.line && a.column ≤ b.column)

def sorted (diagnostics : List Diagnostic) : List Diagnostic := diagnostics.mergeSort before

/-- Leaves out what stands on `line`, and then all but the first of each line, where the lines of
the list do not mix. -/
def otherLines (line : Nat) : List Diagnostic → List Diagnostic
  | [] => []
  | d :: ds => if d.line = line then otherLines line ds else d :: otherLines d.line ds

/-- The first of each line, where the lines of the list do not mix. -/
def firstPerLine : List Diagnostic → List Diagnostic
  | [] => []
  | d :: ds => d :: otherLines d.line ds

/-- Sorted, and thinned as the policy says. -/
def aggregate (policy : LinePolicy) (diagnostics : List Diagnostic) : List Diagnostic :=
  match policy with
  | .keepAll => sorted diagnostics
  | .firstPerLine => firstPerLine (sorted diagnostics)

end SnippetLint.Diagnostic
