import SnippetLint.Settings
import SnippetLint.Token.Word
import SnippetLint.Toml.Reader

/-!
Settings from a file. Each setting may be left out; other keys, and values of another kind, are
refused. The width must not be zero, and every added name must be one word.
-/

namespace SnippetLint

inductive SettingsError where
  | unreadable
  | malformed
  | zeroIndentWidth
  | invalidBuiltin (name : String)
  deriving DecidableEq, Inhabited

namespace SettingsError

def message : SettingsError → String
  | unreadable => "failed to read config file:"
  | malformed => "invalid config:"
  | zeroIndentWidth => "invalid config: 'indent_width' must be greater than zero"
  | invalidBuiltin name =>
    "invalid config: '" ++ name ++ "' in 'extra_builtins' is not a valid identifier"

end SettingsError

namespace Settings

/-- The greatest width. -/
def maxIndentWidth : Nat := 4294967295

def readWidth : TomlValue → Option Nat
  | .integer n => if 0 ≤ n ∧ n ≤ maxIndentWidth then some n.toNat else none
  | _ => none

def readText : TomlValue → Option String
  | .string text => some text
  | _ => none

def readNames : TomlValue → Option (List String)
  | .array items => items.mapM readText
  | _ => none

/-- A policy by its name, or by a table with the name as its only key and nothing in it. -/
def readPolicy : TomlValue → Option LinePolicy
  | .string text => LinePolicy.ofText? text
  | .table _ [(name, .table _ [])] | .table _ [(name, .array [])] => LinePolicy.ofText? name
  | _ => none

/-- The settings with the value of one key. -/
def set (settings : Settings) (key : String) (value : TomlValue) : Option Settings :=
  match key with
  | "indent_width" => (readWidth value).map fun indentWidth => { settings with indentWidth }
  | "extra_builtins" => (readNames value).map fun extraBuiltins => { settings with extraBuiltins }
  | "dedup" => (readPolicy value).map fun policy => { settings with policy }
  | _ => none

/-- The settings that a table gives, before they are checked. -/
def ofEntries? (entries : TomlValue.Entries) : Option Settings :=
  entries.foldlM (fun settings (key, value) => settings.set key value) standard

def validate (settings : Settings) : Except SettingsError Settings :=
  if settings.indentWidth = 0 then .error .zeroIndentWidth
  else
    match settings.extraBuiltins.find? fun name => !Word.isIdentifier name with
    | some name => .error (.invalidBuiltin name)
    | none => .ok settings

/-- The settings that a text holds. -/
def ofText (s : String) : Except SettingsError Settings :=
  match (Toml.parse? s).bind ofEntries? with
  | some settings => settings.validate
  | none => .error .malformed

/-- The settings of a file, given what is in it, if it can be read. -/
def ofFile : Option String → Except SettingsError Settings
  | some content => ofText content
  | none => .error .unreadable

end Settings

end SnippetLint
