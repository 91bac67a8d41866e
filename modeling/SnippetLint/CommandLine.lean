import SnippetLint.Analysis
import SnippetLint.Diagnostic.Wire
import SnippetLint.Settings.File
import SnippetLint.Text.Lines

/-!
The command line: which arguments are taken, and what is printed for them. A snippet is given as
an argument, in which a backslash and the letter n stand for a line feed.
-/

namespace SnippetLint.CommandLine

inductive Format where
  | json | pretty
  deriving DecidableEq, Inhabited

namespace Format

def ofText? : String → Option Format
  | "json" => some json
  | "pretty" => some pretty
  | _ => none

end Format

/-! ## Arguments -/

/-- What has been given on the command line. -/
structure Given where
  source : Option String
  format : Option Format
  config : Option String
  deriving DecidableEq, Inhabited

namespace Given

def nothing : Given := ⟨none, none, none⟩

/-- There is at most one snippet. -/
def addSource (given : Given) (source : String) : Option Given :=
  if given.source.isSome then none else some { given with source := some source }

/-- The format is named at most once. -/
def addFormat (given : Given) (name : String) : Option Given :=
  if given.format.isSome then none
  else (Format.ofText? name).map fun format => { given with format := some format }

/-- The file of settings is named at most once, and its name is not empty. -/
def addConfig (given : Given) (path : String) : Option Given :=
  if given.config.isSome || path.isEmpty then none else some { given with config := some path }

end Given

inductive Request where
  | version
  | help
  | run (given : Given)
  deriving DecidableEq, Inhabited

/-- Whether an argument is read as an option: it starts with a dash and is more than that. -/
def isOption (arg : String) : Bool := arg.startsWith "-" && arg != "-"

/-- The text after a name and an equals sign. -/
def attached? (name arg : String) : Option String :=
  let front := (name ++ "=").toList
  if front.isPrefixOf arg.toList then some (String.ofList (arg.toList.drop front.length)) else none

/-- Arguments after two dashes, of which none is an option. -/
def parsePlain (given : Given) : List String → Option Request
  | [] => some (.run given)
  | arg :: args => do parsePlain (← given.addSource arg) args

/-- The request that the arguments make, if they can be read. An option takes its value from the
next argument, unless that is an option too, or from after an equals sign. -/
def parse (given : Given) : List String → Option Request
  | [] => some (.run given)
  | "--" :: args => parsePlain given args
  | "--version" :: _ => some .version
  | "--help" :: _ => some .help
  | "--format" :: value :: args =>
    if isOption value then none else do parse (← given.addFormat value) args
  | "--config" :: value :: args =>
    if isOption value then none else do parse (← given.addConfig value) args
  | arg :: args =>
    match attached? "--format" arg, attached? "--config" arg with
    | some value, _ => do parse (← given.addFormat value) args
    | none, some value => do parse (← given.addConfig value) args
    | none, none =>
      if isOption arg then
        match arg.toList with
        | '-' :: 'V' :: _ => some .version
        | '-' :: 'h' :: _ => some .help
        | _ => none
      else do parse (← given.addSource arg) args

def request (args : List String) : Option Request := parse .nothing args

/-! ## Output -/

/-- Backslashes followed by the letter n become line feeds. -/
def readEscapes : List Char → List Char
  | '\\' :: 'n' :: cs => '\n' :: readEscapes cs
  | c :: cs => c :: readEscapes cs
  | [] => []

/-- A diagnostic for a reader: with its place in the snippet, or as plain lines if it points to
no character of it. -/
inductive Shown where
  | located (title place help : String)
  | plain (lines : List String)
  deriving DecidableEq, Inhabited

def snippetName : String := "<snippet>"

/-- The place of a diagnostic in the snippet, as a number of characters before it. -/
def placeOf (d : Diagnostic) (source : String) : Option Nat :=
  (Text.charOffset source d.line d.column).filter (· < source.length)

def shown (source : String) (d : Diagnostic) : Shown :=
  match placeOf d source with
  | some offset =>
    let (line, column) := Text.displayPlace 1 1 offset source.toList
    .located ("[" ++ d.kind.text ++ "] Error: " ++ d.message) (snippetName ++ s!":{line}:{column}")
      ("; ".intercalate d.shownSuggestions)
  | none =>
    let headline := d.severity.text ++ ": " ++ d.message ++ " [" ++ d.kind.text ++ "]"
    .plain <|
      (headline ++ s!" at {d.line}:{d.column}") :: d.shownSuggestions.map ("   = help: " ++ ·)

inductive Response where
  /-- The arguments cannot be read. -/
  | usage
  /-- The settings cannot be used. -/
  | failed (line : String)
  | printed (text : String)
  | listed (items : List Shown)
  deriving DecidableEq, Inhabited

def versionText : String := "pydiag 0.1.0\n"

/-- The settings named on the command line; `content` is what the file holds. -/
def settingsFor (given : Given) (content : Option String) : Except String Settings :=
  match given.config with
  | none => .ok .standard
  | some path => (Settings.ofFile content).mapError fun error =>
      "error: " ++ path ++ ": " ++ error.message

/-- The snippet and what is to be said about it. -/
def analyze (settings : Settings) (given : Given) : String × List Diagnostic :=
  match given.source with
  | some raw =>
    let source := String.ofList (readEscapes raw.toList)
    (source, Analysis.diagnostics settings source)
  | none => ("", [.missingInput])

/-- What is printed for a request to look at a snippet. -/
def run (given : Given) (content : Option String) : Response :=
  match settingsFor given content with
  | .error line => .failed line
  | .ok settings =>
    let (source, diagnostics) := analyze settings given
    match given.format.getD .json with
    | .json => .printed (Diagnostic.listToJson diagnostics ++ "\n")
    | .pretty => .listed (diagnostics.map (shown source))

/-- The answer to the arguments; `read` gives the content of a file that can be read. -/
def respond (args : List String) (read : String → Option String) : Response :=
  match request args with
  | none => .usage
  | some .version => .printed versionText
  | some .help => .printed ""
  | some (.run given) => run given (given.config.bind read)

end SnippetLint.CommandLine
