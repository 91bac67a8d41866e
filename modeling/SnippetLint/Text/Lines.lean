/-!
Lines of a text, and places in it by the number of characters before them.
-/

namespace SnippetLint.Text

/-- The lines of a text, each with its line feed. -/
def linesOf : List Char → List (List Char)
  | [] => []
  | c :: cs =>
    if c = '\n' then [c] :: linesOf cs
    else
      match linesOf cs with
      | line :: lines => (c :: line) :: lines
      | [] => [[c]]

/-- The number of characters before a line, counted from one, and a column of it, counted from
zero. A column past the end of the line stands for its end; a line that is more than one past the
last has no place. -/
def charOffset (source : String) (line column : Nat) : Option Nat :=
  let lines := linesOf source.toList
  let skipped := line - 1
  if skipped ≤ lines.length then
    let before := (lines.take skipped).flatten.length
    let width := (lines[skipped]?.map List.length).getD 0
    some (before + min column width)
  else none

/-- The characters that end a line on display. -/
def endsLine (c : Char) : Bool :=
  c == '\n' || c == '\r' || c == '\x0b' || c == '\x0c' || c == '\x85' || c == '\u2028' ||
    c == '\u2029'

/-- The line and column on display, both counted from one, after `n` more characters; a carriage
return and a line feed end one line together. -/
def displayPlace (line column : Nat) : Nat → List Char → Nat × Nat
  | n + 1, c :: cs =>
    if endsLine c && !(c == '\r' && cs.head? == some '\n') then displayPlace (line + 1) 1 n cs
    else displayPlace line (column + 1) n cs
  | _, _ => (line, column)

end SnippetLint.Text
