import SnippetLint.Diagnostic.Order
import SnippetLint.Grammar.Module
import SnippetLint.Name.Bound
import SnippetLint.Name.Seed
import SnippetLint.Scan

/-!
The analysis of a snippet. One that has no tree gives a single diagnostic. Otherwise the names it
binds are collected, its tokens are scanned with them, and the reports are put in order.
-/

namespace SnippetLint.Analysis

def indentationSuggestions : List String :=
  ["Check indentation level", "Use consistent indentation (spaces)",
   "Ensure proper block indentation"]

def syntaxSuggestions : List String :=
  ["Check syntax at the indicated position", "Verify matching parentheses and brackets",
   "Ensure proper indentation"]

/-- A parse error as a diagnostic. -/
def ofParseError (error : ParseError) : Diagnostic :=
  let (kind, suggestions) :=
    if error.fault.isIndentation then (DiagnosticKind.indentationError, indentationSuggestions)
    else (.syntaxError, syntaxSuggestions)
  ((Diagnostic.error kind error.fault.message).placeAt error.position).suggest suggestions

/-- The tree of a snippet, or why it has none. -/
def tree (source : String) : Except Diagnostic Tree := (Module.parse source).mapError ofParseError

/-- The names known when the tokens of a snippet with this tree are scanned. -/
def knownNames (settings : Settings) (t : Tree) : NameSet :=
  Bound.collect (Seed.names settings) (.ofTree t)

def diagnostics (settings : Settings) (source : String) : List Diagnostic :=
  match tree source with
  | .error d => [d]
  | .ok t =>
    let scan := Scan.source settings.indentWidth .window (knownNames settings t) source
    Diagnostic.aggregate settings.policy scan.diagnostics

end SnippetLint.Analysis
