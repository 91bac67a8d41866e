import SnippetLint.Text.Bytes
import SnippetLint.Text.Cursor

/-!
Reading by characters and cutting by bytes agree. Main facts: `rest_skip` and `offset_skip`, what a
cursor has before it and how many bytes it has read after `n` characters, and `sliceBytes_append`,
the cut between the offsets that two prefixes have.
-/

namespace SnippetLint

namespace Text

@[simp] theorem byteLength_append (a b : List Char) :
    byteLength (a ++ b) = byteLength a + byteLength b := by
  induction a with
  | nil => simp [byteLength]
  | cons c a ih => simp [byteLength, ih, Nat.add_assoc]

theorem dropBytes_add (c : Char) (cs : List Char) (n : Nat) :
    dropBytes (c.utf8Size + n) (c :: cs) = dropBytes n cs := by
  obtain ⟨k, hk⟩ : ∃ k, c.utf8Size = k + 1 := ⟨c.utf8Size - 1, by have := c.utf8Size_pos; omega⟩
  have hn : c.utf8Size + n = (k + n) + 1 := by omega
  rw [hn, dropBytes, if_pos (by omega)]
  congr 1
  omega

theorem takeBytes_add (c : Char) (cs : List Char) (n : Nat) :
    takeBytes (c.utf8Size + n) (c :: cs) = (takeBytes n cs).map (c :: ·) := by
  obtain ⟨k, hk⟩ : ∃ k, c.utf8Size = k + 1 := ⟨c.utf8Size - 1, by have := c.utf8Size_pos; omega⟩
  have hn : c.utf8Size + n = (k + n) + 1 := by omega
  rw [hn, takeBytes, if_pos (by omega)]
  congr 2
  omega

theorem dropBytes_append (a b : List Char) : dropBytes (byteLength a) (a ++ b) = some b := by
  induction a with
  | nil => simp [byteLength, dropBytes]
  | cons c a ih => rw [byteLength, List.cons_append, dropBytes_add, ih]

theorem takeBytes_append (a b : List Char) : takeBytes (byteLength a) (a ++ b) = some a := by
  induction a with
  | nil => simp [byteLength, takeBytes]
  | cons c a ih => rw [byteLength, List.cons_append, takeBytes_add, ih, Option.map_some]

/-- The bytes after a prefix, up to the end of what follows it. -/
theorem sliceBytes_append (a b c : List Char) :
    sliceBytes (a ++ b ++ c) (byteLength a) (byteLength a + byteLength b) = some b := by
  rw [sliceBytes, if_pos (Nat.le_add_right _ _), List.append_assoc, dropBytes_append,
    Nat.add_sub_cancel_left]
  exact takeBytes_append b c

end Text

namespace Position

@[simp] theorem offset_after (p : Position) (ch : Char) (rest : List Char) :
    (p.after ch rest).offset = p.offset + ch.utf8Size := by
  unfold after
  split
  · rfl
  · split
    · split <;> rfl
    · rfl

end Position

namespace Cursor

@[simp] theorem rest_ofText (s : String) : (ofText s).rest = s.toList := rfl

@[simp] theorem offset_ofText (s : String) : (ofText s).position.offset = 0 := rfl

@[simp] theorem skip_zero (c : Cursor) : c.skip 0 = c := rfl

@[simp] theorem rest_next (c : Cursor) : c.next.rest = c.rest.tail := by
  unfold next
  split
  · next h => rw [h, List.tail_nil]
  · next h => rw [h, List.tail_cons]

@[simp] theorem rest_skip (n : Nat) (c : Cursor) : (c.skip n).rest = c.rest.drop n := by
  induction n generalizing c with
  | zero => rfl
  | succ n ih => rw [skip, ih, rest_next, List.drop_tail]

theorem skip_skip (m n : Nat) (c : Cursor) : (c.skip m).skip n = c.skip (m + n) := by
  induction m generalizing c with
  | zero => rw [Nat.zero_add, skip_zero]
  | succ m ih => rw [Nat.succ_add, skip, skip, ih]

theorem offset_skip (n : Nat) (c : Cursor) :
    (c.skip n).position.offset = c.position.offset + Text.byteLength (c.rest.take n) := by
  induction n generalizing c with
  | zero => simp [Text.byteLength]
  | succ n ih =>
    rw [skip, ih]
    cases h : c.rest with
    | nil => simp [next, h, Text.byteLength]
    | cons ch rest => simp [next, h, Text.byteLength, Nat.add_assoc]

/-- At the end of the text there is nothing to read any more. -/
theorem skip_of_rest_eq_nil {c : Cursor} (h : c.rest = []) (n : Nat) : c.skip n = c := by
  induction n with
  | zero => rfl
  | succ n ih => rw [skip, next, h, ih]

theorem rest_toEnd (c : Cursor) : c.toEnd.rest = [] := by simp [toEnd]

/-- A cursor with nothing before it stands at the end. -/
theorem skip_eq_toEnd {c : Cursor} {n : Nat} (h : (c.skip n).rest = []) : c.skip n = c.toEnd := by
  have hn : c.rest.length ≤ n := by simpa using h
  have he := skip_skip c.rest.length (n - c.rest.length) c
  rw [Nat.add_sub_cancel' hn] at he
  rw [← he]
  exact skip_of_rest_eq_nil (rest_toEnd c) _

end Cursor

end SnippetLint
