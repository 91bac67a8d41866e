import SnippetLint.Text.Position

/-!
Diagnostics: what is wrong with a snippet, where, and what may help.
-/

namespace SnippetLint

inductive Severity where
  | error | warning | info
  deriving DecidableEq, Inhabited

namespace Severity

def text : Severity → String
  | error => "error"
  | warning => "warning"
  | info => "info"

def ofText? : String → Option Severity
  | "error" => some error
  | "warning" => some warning
  | "info" => some info
  | _ => none

end Severity

inductive DiagnosticKind where
  | syntaxError | indentationError | nameError | tokenError | inputError
  deriving DecidableEq, Inhabited

namespace DiagnosticKind

def text : DiagnosticKind → String
  | syntaxError => "SyntaxError"
  | indentationError => "IndentationError"
  | nameError => "NameError"
  | tokenError => "TokenError"
  | inputError => "InputError"

def ofText? : String → Option DiagnosticKind
  | "SyntaxError" => some syntaxError
  | "IndentationError" => some indentationError
  | "NameError" => some nameError
  | "TokenError" => some tokenError
  | "InputError" => some inputError
  | _ => none

/-- What to suggest when a diagnostic has no suggestions of its own. -/
def fallbackSuggestions : DiagnosticKind → List String
  | nameError =>
    ["Define the variable before using it", "Check for typos in variable name",
      "Import required module"]
  | syntaxError =>
    ["Check for missing parentheses", "Verify indentation", "Check for missing colons"]
  | indentationError =>
    ["Use consistent indentation (spaces or tabs)", "Check indentation level"]
  | tokenError | inputError => ["No specific suggestions available"]

end DiagnosticKind

structure Diagnostic where
  /-- Counted from one. -/
  line : Nat
  /-- Counted from zero, which also stands for an unknown column. -/
  column : Nat
  message : String
  severity : Severity
  kind : DiagnosticKind
  suggestions : List String
  deriving DecidableEq, Inhabited

namespace Diagnostic

/-- An error at the start of the snippet. -/
def error (kind : DiagnosticKind) (message : String) : Diagnostic :=
  ⟨1, 0, message, .error, kind, []⟩

/-- The same, at another place. -/
def place (d : Diagnostic) (line column : Nat) : Diagnostic := { d with line, column }

def placeAt (d : Diagnostic) (position : Position) : Diagnostic :=
  d.place position.line position.column

/-- The same, with more suggestions. -/
def suggest (d : Diagnostic) (suggestions : List String) : Diagnostic :=
  { d with suggestions := d.suggestions ++ suggestions }

/-- The suggestions, or those of the kind if there are none. -/
def shownSuggestions (d : Diagnostic) : List String :=
  if d.suggestions.isEmpty then d.kind.fallbackSuggestions else d.suggestions

def isError (d : Diagnostic) : Bool := d.severity == .error

/-- Reported when there is nothing to look at. -/
def missingInput : Diagnostic :=
  (error .inputError "No code provided for analysis").suggest ["Provide Python code for analysis"]

def text (d : Diagnostic) : String :=
  d.severity.text ++ ": " ++ d.message ++ " [" ++ d.kind.text ++ s!"]\n  --> {d.line}:{d.column}"

end Diagnostic

/-- Diagnostics in the order in which they were reported. -/
structure Report where
  diagnostics : List Diagnostic
  deriving DecidableEq, Inhabited

namespace Report

def empty : Report := ⟨[]⟩

def add (report : Report) (d : Diagnostic) : Report := ⟨report.diagnostics ++ [d]⟩

def size (report : Report) : Nat := report.diagnostics.length

def isEmpty (report : Report) : Bool := report.diagnostics.isEmpty

def hasErrors (report : Report) : Bool := report.diagnostics.any (·.isError)

end Report

end SnippetLint
