import SnippetLint.Text.Numeral
import SnippetLint.Token.Kind

/-!
Words: a letter or an underscore, then letters, numerals and underscores. A word is a keyword or
a name, or it is the mark in front of a string literal.
-/

namespace SnippetLint.Word

def isStart (c : Char) : Bool := Text.isLetter c || c == '_'

def isPart (c : Char) : Bool := Text.isAlphanumeric c || c == '_'

/-- The word characters at the front of a text. -/
def munch (cs : List Char) : List Char := cs.takeWhile isPart

def kind (word : List Char) : TokenKind :=
  match Keyword.ofWord? (String.ofList word) with
  | some keyword => .keyword keyword
  | none => .name

/-- The letters that may stand before a string literal, in lower case. -/
def stringMarks : List (List Char) :=
  ["r", "u", "b", "f", "br", "rb", "fr", "rf"].map String.toList

def isStringMark (word : List Char) : Bool := stringMarks.contains (word.map Char.toLower)

/-- Whether a text is one word. -/
def isIdentifier (s : String) : Bool :=
  match s.toList with
  | [] => false
  | c :: cs => isStart c && cs.all isPart

theorem isPart_of_isStart {c : Char} (h : isStart c = true) : isPart c = true := by
  simp only [isStart, isPart, Text.isAlphanumeric, Bool.or_eq_true] at *
  rcases h with h | h <;> simp [h]

end SnippetLint.Word
