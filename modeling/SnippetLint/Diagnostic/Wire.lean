import SnippetLint.Diagnostic.Basic
import SnippetLint.Json.Reader

/-!
Diagnostics as JSON: an object of six members. It may also be read from an array of the six
values, and other members are passed over.
-/

namespace SnippetLint.Diagnostic

/-- The greatest line or column. -/
def maxNumber : Nat := 4294967295

def toJson (d : Diagnostic) : String :=
  JsonValue.writeObject
    [("line", toString d.line), ("column", toString d.column),
     ("message", JsonValue.writeString d.message),
     ("severity", JsonValue.writeString d.severity.text),
     ("type", JsonValue.writeString d.kind.text),
     ("suggestions", JsonValue.writeArray (d.suggestions.map JsonValue.writeString))]

def listToJson (diagnostics : List Diagnostic) : String :=
  JsonValue.writeArray (diagnostics.map toJson)

/-- A whole number written with digits only. -/
def readNat : JsonValue → Option Nat
  | .number text =>
    if text.toList.all Char.isDigit then
      let n := text.toList.foldl (fun n c => 10 * n + (c.toNat - '0'.toNat)) 0
      if n ≤ maxNumber then some n else none
    else none
  | _ => none

def readText : JsonValue → Option String
  | .string text => text
  | _ => none

/-- One of several words, as a string or as the only member of an object, without a value. -/
def readWord (ofText? : String → Option α) : JsonValue → Option α
  | .string (some text) => ofText? text
  | .object [(some text, .null)] => ofText? text
  | _ => none

def readTexts : JsonValue → Option (List String)
  | .array items => items.mapM readText
  | _ => none

def ofFields (line column message severity kind suggestions : JsonValue) : Option Diagnostic := do
  return ⟨← readNat line, ← readNat column, ← readText message,
    ← readWord Severity.ofText? severity, ← readWord DiagnosticKind.ofText? kind,
    ← readTexts suggestions⟩

/-- The value of the only member with this name. -/
def member? (members : List (Option String × JsonValue)) (name : String) : Option JsonValue :=
  match members.filter (·.1 == some name) with
  | [(_, value)] => some value
  | _ => none

def ofJson? : JsonValue → Option Diagnostic
  | .array [line, column, message, severity, kind, suggestions] =>
    ofFields line column message severity kind suggestions
  | .object members =>
    if members.all (·.1.isSome) then do
      ofFields (← member? members "line") (← member? members "column")
        (← member? members "message") (← member? members "severity")
        (← member? members "type") (← member? members "suggestions")
    else none
  | _ => none

/-- The diagnostic that a text holds as JSON. -/
def ofJsonText? (s : String) : Option Diagnostic := (JsonValue.ofText? s).bind ofJson?

end SnippetLint.Diagnostic
