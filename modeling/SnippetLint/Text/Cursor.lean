import SnippetLint.Text.Position

/-!
A reader over the characters of a snippet: the text still to be read and the place where it
starts. Every movement is a number of single steps, so the place is always the one that the
text read so far determines.
-/

namespace SnippetLint

structure Cursor where
  rest : List Char
  position : Position
  deriving DecidableEq, Inhabited

namespace Cursor

def ofText (s : String) : Cursor := ⟨s.toList, .start⟩

/-- The `n`-th character ahead, the next one being number zero. -/
def peekNth (c : Cursor) (n : Nat) : Option Char := c.rest[n]?

def peek (c : Cursor) : Option Char := c.rest.head?

def peekSecond (c : Cursor) : Option Char := c.peekNth 1

def atEnd (c : Cursor) : Bool := c.rest.isEmpty

/-- One character further; at the end nothing changes. -/
def next (c : Cursor) : Cursor :=
  match c.rest with
  | [] => c
  | ch :: rest => ⟨rest, c.position.after ch rest⟩

/-- `n` characters further. -/
def skip : Nat → Cursor → Cursor
  | 0, c => c
  | n + 1, c => skip n c.next

/-- Past `ch`, if it is the next character. -/
def eat? (c : Cursor) (ch : Char) : Option Cursor :=
  if c.peek = some ch then some c.next else none

/-- The line break at the front of a text: a line feed, a carriage return, or the two as a
pair. -/
def lineBreak : List Char → List Char
  | '\r' :: '\n' :: _ => ['\r', '\n']
  | '\r' :: _ => ['\r']
  | '\n' :: _ => ['\n']
  | _ => []

/-- Past a line break, if one is next. -/
def eatLineBreak? (c : Cursor) : Option Cursor :=
  match lineBreak c.rest with
  | [] => none
  | br => some (c.skip br.length)

/-- Past the longest run of characters that satisfy `p`. -/
def eatWhile (p : Char → Bool) (c : Cursor) : Cursor :=
  c.skip (c.rest.takeWhile p).length

/-- Past everything. -/
def toEnd (c : Cursor) : Cursor := c.skip c.rest.length

/-- The span from `first` to here. -/
def spanFrom (c : Cursor) (first : Position) : Span := ⟨first, c.position⟩

end Cursor

end SnippetLint
