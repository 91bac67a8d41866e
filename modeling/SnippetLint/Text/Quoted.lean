import SnippetLint.Text.Shown

/-!
The quoted form of a text: double quotes around it, a backslash before quotes and backslashes,
short escapes for the common controls, and code points in hexadecimal for all else that is not
shown as itself.
-/

namespace SnippetLint.Text

/-- One character as it stands inside double quotes. -/
def quoteChar (c : Char) : String :=
  if c = '\x22' then "\\\""
  else if c = '\\' then "\\\\"
  else if c = '\n' then "\\n"
  else if c = '\r' then "\\r"
  else if c = '\t' then "\\t"
  else if c = '\x00' then "\\0"
  else if isShown c then String.singleton c
  else "\\u\x7b" ++ String.ofList (Nat.toDigits 16 c.toNat) ++ "\x7d"

def quote (s : String) : String :=
  "\"" ++ String.join (s.toList.map quoteChar) ++ "\""

end SnippetLint.Text
