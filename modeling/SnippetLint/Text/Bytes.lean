/-!
Cutting a text by byte offsets. A cut inside a character, or past the end, gives nothing.
-/

namespace SnippetLint.Text

/-- Length in bytes. -/
def byteLength : List Char → Nat
  | [] => 0
  | c :: cs => c.utf8Size + byteLength cs

/-- What follows the first `n` bytes. -/
def dropBytes : Nat → List Char → Option (List Char)
  | 0, cs => some cs
  | _ + 1, [] => none
  | n + 1, c :: cs => if c.utf8Size ≤ n + 1 then dropBytes (n + 1 - c.utf8Size) cs else none

/-- The first `n` bytes. -/
def takeBytes : Nat → List Char → Option (List Char)
  | 0, _ => some []
  | _ + 1, [] => none
  | n + 1, c :: cs =>
    if c.utf8Size ≤ n + 1 then (takeBytes (n + 1 - c.utf8Size) cs).map (c :: ·) else none

/-- The bytes from `first` up to `last`. -/
def sliceBytes (cs : List Char) (first last : Nat) : Option (List Char) :=
  if first ≤ last then (dropBytes first cs).bind (takeBytes (last - first)) else none

end SnippetLint.Text
