/-!
JSON values. Numbers keep their text, and the order of members is kept, repeated ones included. A
text with half of a surrogate pair in it has no characters, which is allowed where nobody asks
for them.
-/

namespace SnippetLint

inductive JsonValue where
  | null
  | bool (value : Bool)
  | number (text : String)
  | string (text : Option String)
  | array (items : List JsonValue)
  | object (members : List (Option String × JsonValue))
  deriving Inhabited

namespace JsonValue

/-- One character as it stands in a written string. -/
def escapeChar (c : Char) : String :=
  if c = '\x22' then "\\\""
  else if c = '\\' then "\\\\"
  else if c = '\n' then "\\n"
  else if c = '\r' then "\\r"
  else if c = '\t' then "\\t"
  else if c = '\x08' then "\\b"
  else if c = '\x0c' then "\\f"
  else if c.toNat < 16 then "\\u000" ++ String.ofList (Nat.toDigits 16 c.toNat)
  else if c.toNat < 32 then "\\u00" ++ String.ofList (Nat.toDigits 16 c.toNat)
  else String.singleton c

/-- A text in quotes. -/
def writeString (s : String) : String :=
  "\"" ++ String.join (s.toList.map escapeChar) ++ "\""

/-- Written values between brackets. -/
def writeArray (items : List String) : String := "[" ++ ",".intercalate items ++ "]"

/-- Names with written values. -/
def writeObject (members : List (String × String)) : String :=
  "\x7b" ++ ",".intercalate (members.map fun (name, value) => writeString name ++ ":" ++ value) ++
    "\x7d"

end JsonValue

end SnippetLint
