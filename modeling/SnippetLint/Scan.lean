import SnippetLint.Diagnostic.Basic
import SnippetLint.Name.Set
import SnippetLint.Token.Stream

/-!
A scan over the tokens of a snippet. It reports blocks whose indentation is not a whole number of
steps and names that are not known; an unknown name that looks like being bound becomes known. A
lexical error ends the scan with one report.
-/

namespace SnippetLint

/-- Whether a name between two tokens, either of which may be missing, is bound there. -/
abbrev BindingRule := Option Token → Option Token → Bool

namespace BindingRule

def predecessors : List String := ["def", "class", "import", "from", "as"]

def successors : List String := ["=", "(", "import", "from"]

/-- Looks at the text of the token before and of the token after. -/
def window : BindingRule := fun previous next =>
  previous.any (predecessors.contains ·.lexeme) || next.any (successors.contains ·.lexeme)

end BindingRule

/-- What a scan reports and the names known after it. -/
structure Scan where
  diagnostics : List Diagnostic
  names : NameSet
  deriving DecidableEq, Inhabited

namespace Scan

def undefinedName (token : Token) : Diagnostic :=
  let name := token.lexeme
  ((Diagnostic.error .nameError ("NameError: name '" ++ name ++ "' is not defined")).placeAt
    token.span.start).suggest
      ["Define variable '" ++ name ++ "' before using it",
       "Check if '" ++ name ++ "' is misspelled",
       "Import module if '" ++ name ++ "' is from a module"]

def unexpectedIndent (width : Nat) (token : Token) (expected : Int) : Diagnostic :=
  ((Diagnostic.error .indentationError
    s!"IndentationError: unexpected indent (expected {expected} spaces)").placeAt
      token.span.start).suggest
        [s!"Use {width} spaces for indentation", "Convert tabs to spaces",
         "Fix indentation level"]

def tokenError (error : LexicalError) : Diagnostic :=
  ((Diagnostic.error .tokenError ("TokenError: " ++ error.fault.message)).place
    error.position.line 0).suggest ["Check the syntax of your code"]

/-- The scan that reports something more, before the rest. -/
def report (d : Diagnostic) (scan : Scan) : Scan :=
  { scan with diagnostics := d :: scan.diagnostics }

/-- Scans tokens after `previous`, when blocks should be indented by `expected` columns. -/
def tokens (width : Nat) (rule : BindingRule) (names : NameSet) (expected : Int)
    (previous : Option Token) : List Token → Scan
  | [] => ⟨[], names⟩
  | token :: rest =>
    match token.kind with
    | .indent =>
      let expected := expected + width
      let scan := tokens width rule names expected (some token) rest
      if (token.lexeme.length : Int) = expected then scan
      else scan.report (unexpectedIndent width token expected)
    | .dedent => tokens width rule names (expected - width) (some token) rest
    | .name =>
      if names.contains token.lexeme then tokens width rule names expected (some token) rest
      else if rule previous rest.head? then
        tokens width rule (names.insert token.lexeme) expected (some token) rest
      else (tokens width rule names expected (some token) rest).report (undefinedName token)
    | _ => tokens width rule names expected (some token) rest

/-- Scans a stream. -/
def stream (width : Nat) (rule : BindingRule) (names : NameSet) (stream : TokenStream) : Scan :=
  let scan := tokens width rule names 0 none stream.tokens
  { scan with diagnostics := scan.diagnostics ++ stream.error.toList.map tokenError }

/-- Scans a snippet. -/
def source (width : Nat) (rule : BindingRule) (names : NameSet) (source : String) : Scan :=
  stream width rule names (.ofText source)

end Scan

end SnippetLint
