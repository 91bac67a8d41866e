import Mathlib.Algebra.Group.Nat.Defs
import SnippetLint.Proofs.Coverage

/-!
Lexing with numbers of a size. Here a cursor counts with 32 bits, text is cut out of the source by
byte offsets, and an operation that has no result is `none`: a sum that does not fit, a cut that
ends before it starts, past the end of the text or inside a character. A source of fewer than 2²⁹
bytes is lexed without any of these (`stream_eq`): a tab moves the indentation by eight columns at
most, and no other number grows by more than one for a byte.
-/

namespace SnippetLint.Checked

/-- A number of 32 bits. -/
def word (n : Nat) : Option Nat := if n < 2 ^ 32 then some n else none

theorem word_eq {n : Nat} (h : n < 2 ^ 32) : word n = some n := if_pos h

/-! ## Reading -/

/-- The place after a character. -/
def after (p : Position) (ch : Char) (rest : List Char) : Option Position := do
  let offset ← word (p.offset + ch.utf8Size)
  if ch = '\n' then return ⟨← word (p.line + 1), 0, offset⟩
  else if ch = '\r' then
    if rest.head? = some '\n' then return ⟨p.line, p.column, offset⟩
    else return ⟨← word (p.line + 1), 0, offset⟩
  else return ⟨p.line, ← word (p.column + 1), offset⟩

/-- Reads on to the end of the text, and cuts out what has been read since `start` at every place on
the way. A scan that begins at `start` does a part of this, however far it looks. -/
def readOn (source : List Char) (start position : Position) : List Char → Option Unit
  | [] => discard (Text.sliceBytes source start.offset position.offset)
  | ch :: rest => do
    discard (Text.sliceBytes source start.offset position.offset)
    readOn source start (← after position ch rest) rest

/-- A place up to which a text has been read, with what is left of it. -/
structure Within (source : List Char) (position : Position) (rest : List Char) : Prop where
  exists_before : ∃ before, source = before ++ rest ∧ position.offset = Text.byteLength before
  line_le : position.line ≤ position.offset + 1
  column_le : position.column ≤ position.offset

theorem Within.offset_le {source : List Char} {position : Position} {rest : List Char}
    (h : Within source position rest) :
    position.offset + Text.byteLength rest = Text.byteLength source := by
  obtain ⟨before, rfl, hoffset⟩ := h.exists_before
  rw [hoffset, Text.byteLength_append]

theorem Within.after {source : List Char} {position : Position} {ch : Char} {rest : List Char}
    (h : Within source position (ch :: rest)) : Within source (position.after ch rest) rest := by
  obtain ⟨before, hsource, hoffset⟩ := h.exists_before
  have hsize := ch.utf8Size_pos
  have hline := h.line_le
  have hcolumn := h.column_le
  constructor
  · exact ⟨before ++ [ch], by simpa using hsource, by simp [hoffset, Text.byteLength]⟩
  · rw [Position.offset_after]
    unfold Position.after
    dsimp only
    repeat' split
    all_goals dsimp only; omega
  · rw [Position.offset_after]
    unfold Position.after
    dsimp only
    repeat' split
    all_goals dsimp only; omega

theorem Within.skip {source : List Char} {cursor : Cursor}
    (h : Within source cursor.position cursor.rest) (n : Nat) :
    Within source (cursor.skip n).position (cursor.skip n).rest := by
  induction n generalizing cursor with
  | zero => exact h
  | succ n ih =>
    refine ih ?_
    unfold Cursor.next
    split
    · exact h
    · next ch rest hrest =>
      rw [hrest] at h
      exact h.after

theorem within_ofText (source : String) :
    Within source.toList (Cursor.ofText source).position (Cursor.ofText source).rest :=
  ⟨⟨[], rfl, rfl⟩, Nat.le_refl _, Nat.le_refl _⟩

section Small

variable {source : List Char} (hsize : Text.byteLength source < 2 ^ 29)

include hsize in
theorem after_eq {position : Position} {ch : Char} {rest : List Char}
    (h : Within source position (ch :: rest)) :
    after position ch rest = some (position.after ch rest) := by
  have hoffset := h.offset_le
  rw [Text.byteLength] at hoffset
  have hline := h.line_le
  have hcolumn := h.column_le
  unfold after Position.after
  rw [word_eq (by omega), word_eq (by omega), word_eq (by omega)]
  dsimp only
  repeat' split
  all_goals rfl

/-- What has been read between two places is the text between their offsets. -/
theorem slice_eq {before middle rest : List Char} {first last : Nat}
    (hsource : source = before ++ middle ++ rest) (hfirst : first = Text.byteLength before)
    (hlast : last = Text.byteLength (before ++ middle)) :
    Text.sliceBytes source first last = some middle := by
  rw [hsource, hfirst, hlast, Text.byteLength_append]
  exact Text.sliceBytes_append before middle rest

include hsize in
theorem readOn_eq {start position : Position} {before middle rest : List Char}
    (hstart : start.offset = Text.byteLength before) (hsource : source = before ++ middle ++ rest)
    (hposition : position.offset = Text.byteLength (before ++ middle))
    (h : Within source position rest) : readOn source start position rest = some () := by
  induction rest generalizing position middle with
  | nil => rw [readOn, slice_eq hsource hstart hposition]; rfl
  | cons ch rest ih =>
    rw [readOn, slice_eq hsource hstart hposition, after_eq hsize h]
    have hsource : source = before ++ (middle ++ [ch]) ++ rest := by simpa using hsource
    have hposition : (position.after ch rest).offset =
        Text.byteLength (before ++ (middle ++ [ch])) := by
      simp [hposition, Text.byteLength, Nat.add_assoc]
    exact ih hsource hposition h.after

end Small

/-! ## Indentation -/

/-- The width of white space after one more character. -/
def extend (tabSize : Nat) (indentation : Indentation) (c : Char) : Option Indentation := do
  if c = ' ' then return ⟨← word (indentation.width + 1), ← word (indentation.plainWidth + 1)⟩
  else if c = '\t' then
    let stops ← word (indentation.width / tabSize + 1)
    return ⟨← word (stops * tabSize), ← word (indentation.plainWidth + 1)⟩
  else return .zero

def measure (tabSize : Nat) (gap : List Char) : Option Indentation :=
  gap.foldlM (extend tabSize) .zero

/-- A character widens the white space up to the next tab stop at most. -/
theorem extend_eq {tabSize limit : Nat} {indentation : Indentation} {c : Char} (htab : 0 < tabSize)
    (hwidth : indentation.width + tabSize ≤ limit)
    (hplain : indentation.plainWidth + tabSize ≤ limit)
    (hlimit : limit < 2 ^ 32) :
    extend tabSize indentation c = some (indentation.extend tabSize c) ∧
      (indentation.extend tabSize c).width ≤ indentation.width + tabSize ∧
      (indentation.extend tabSize c).plainWidth ≤ indentation.plainWidth + tabSize := by
  have hstops : indentation.width / tabSize ≤ indentation.width := Nat.div_le_self _ _
  have hstop : (indentation.width / tabSize + 1) * tabSize ≤ indentation.width + tabSize := by
    rw [Nat.succ_mul]
    exact Nat.add_le_add_right (Nat.div_mul_le_self _ _) _
  unfold extend Indentation.extend
  split
  · rw [word_eq (by omega), word_eq (by omega)]
    exact ⟨rfl, Nat.add_le_add_left htab _, Nat.add_le_add_left htab _⟩
  split
  · rw [word_eq (by omega)]
    dsimp only [Option.bind_eq_bind, Option.bind_some]
    rw [word_eq (by omega), word_eq (by omega)]
    exact ⟨rfl, hstop, Nat.add_le_add_left htab _⟩
  · exact ⟨rfl, Nat.zero_le _, Nat.zero_le _⟩

theorem measure_eq {tabSize : Nat} {gap : List Char} (htab : 0 < tabSize)
    (hlimit : gap.length * tabSize < 2 ^ 32) :
    measure tabSize gap = some (Indentation.measure tabSize gap) := by
  have hfold : ∀ (gap : List Char) (indentation : Indentation),
      indentation.width + gap.length * tabSize < 2 ^ 32 →
      indentation.plainWidth + gap.length * tabSize < 2 ^ 32 →
      gap.foldlM (extend tabSize) indentation =
        some (gap.foldl (Indentation.extend tabSize) indentation) := by
    intro gap
    induction gap with
    | nil => intros; rfl
    | cons c gap ih =>
      intro indentation hwidth hplain
      rw [List.length_cons, Nat.succ_mul] at hwidth hplain
      obtain ⟨heq, hwidth', hplain'⟩ := @extend_eq tabSize (2 ^ 32 - 1) indentation c htab
        (by omega) (by omega) (by omega)
      rw [List.foldlM_cons, heq, List.foldl_cons]
      exact ih (indentation.extend tabSize c) (by omega) (by omega)
  exact hfold gap .zero (by simpa [Indentation.zero] using hlimit)
    (by simpa [Indentation.zero] using hlimit)

/-! ## Tokens -/

/-- The token with its text cut out of the source. -/
def cut (source : List Char) (token : Token) : Option Token := do
  let text ← Text.sliceBytes source token.span.start.offset token.span.stop.offset
  return { token with lexeme := String.ofList text }

theorem cut_take {source : List Char} {cursor : Cursor}
    (h : Within source cursor.position cursor.rest) (kind : TokenKind) (n : Nat) :
    cut source (Lexer.take cursor kind n) = some (Lexer.take cursor kind n) := by
  obtain ⟨before, hsource, hoffset⟩ := h.exists_before
  have hslice : Text.sliceBytes source cursor.position.offset (cursor.skip n).position.offset =
      some (cursor.rest.take n) := by
    have hsource : source = before ++ cursor.rest.take n ++ cursor.rest.drop n := by
      rw [List.append_assoc, List.take_append_drop, hsource]
    refine slice_eq hsource hoffset ?_
    rw [Cursor.offset_skip, hoffset, Text.byteLength_append]
  simp only [cut, Lexer.take, Cursor.spanFrom, hslice]
  rfl

/-- Tokens that stand in the text one after the other are cut out of it. -/
theorem cut_of_tiles {source : List Char} {first last : Cursor} {tokens : List Token}
    (h : Coverage.Tiles first tokens last) (hfirst : Within source first.position first.rest) :
    tokens.mapM (cut source) = some tokens := by
  induction h with
  | nil => rfl
  | gap n _ _ ih => exact ih (hfirst.skip n)
  | token kind n _ ih =>
    rw [List.mapM_cons, cut_take hfirst, ih (hfirst.skip n)]
    rfl

/-! ## Steps -/

/-- A step with the texts of its tokens cut out of the source. -/
def cutTokens (source : List Char) : Lexer.Step → Option Lexer.Step
  | .emit tokens next => do return .emit (← tokens.mapM (cut source)) next
  | .finish tokens => do return .finish (← tokens.mapM (cut source))
  | .fail error => some (.fail error)

theorem cutTokens_step {source : List Char} {lexer : Lexer} (tabSize : Nat)
    (h : Within source lexer.cursor.position lexer.cursor.rest) :
    cutTokens source (lexer.step tabSize) = some (lexer.step tabSize) := by
  cases hstep : lexer.step tabSize with
  | emit tokens next =>
    rw [cutTokens, cut_of_tiles (Coverage.tiles_of_emits (Lexer.emits_of_step hstep)) h]
    rfl
  | finish tokens =>
    rw [cutTokens, cut_of_tiles (Coverage.tiles_of_finishes (Lexer.finishes_of_step hstep)) h]
    rfl
  | fail error => rfl

/-- One step of a lexer. The white space before a token and the token are scanned from where they
start. -/
def step (source : List Char) (tabSize : Nat) (lexer : Lexer) : Option Lexer.Step := do
  readOn source lexer.cursor.position lexer.cursor.position lexer.cursor.rest
  if lexer.measures then
    discard (measure tabSize (lexer.cursor.rest.takeWhile Indentation.isGap))
  readOn source lexer.here.position lexer.here.position lexer.here.rest
  cutTokens source (lexer.step tabSize)

/-- Runs at most `fuel` steps, which have to be enough. -/
def run (source : List Char) (tabSize : Nat) : Nat → Lexer → Option TokenStream
  | 0, _ => none
  | fuel + 1, lexer => do
    match ← step source tabSize lexer with
    | .emit tokens next =>
      let stream ← run source tabSize fuel next
      return ⟨tokens ++ stream.tokens, stream.error⟩
    | .finish tokens => return ⟨tokens, none⟩
    | .fail error => return ⟨[], some error⟩

/-- The tokens of a snippet. -/
def stream (source : String) : Option TokenStream :=
  run source.toList TokenStream.tabSize (Lexer.ofText source).fuel (Lexer.ofText source)

theorem length_le_byteLength (text : List Char) : text.length ≤ Text.byteLength text := by
  induction text with
  | nil => exact Nat.le_refl _
  | cons c text ih =>
    have := c.utf8Size_pos
    rw [List.length_cons, Text.byteLength]
    omega

section Small

variable {source : List Char} (hsize : Text.byteLength source < 2 ^ 29)

include hsize in
theorem step_eq {lexer : Lexer} (h : Within source lexer.cursor.position lexer.cursor.rest) :
    step source TokenStream.tabSize lexer = some (lexer.step TokenStream.tabSize) := by
  have hread : ∀ {position : Position} {rest : List Char}, Within source position rest →
      readOn source position position rest = some () := by
    intro position rest h
    obtain ⟨before, hsource, hoffset⟩ := h.exists_before
    have hsource : source = before ++ [] ++ rest := by simpa using hsource
    exact readOn_eq hsize hoffset hsource (by simpa using hoffset) h
  have hhere : Within source lexer.here.position lexer.here.rest := h.skip _
  have hgap : (lexer.cursor.rest.takeWhile Indentation.isGap).length < 2 ^ 29 := by
    have hprefix := (List.takeWhile_prefix (l := lexer.cursor.rest) Indentation.isGap).length_le
    have hbytes := length_le_byteLength lexer.cursor.rest
    have hoffset := h.offset_le
    omega
  have hmeasure : measure TokenStream.tabSize (lexer.cursor.rest.takeWhile Indentation.isGap) =
      some (lexer.indentation TokenStream.tabSize) :=
    measure_eq (by decide) (by unfold TokenStream.tabSize; omega)
  unfold step
  rw [hread h, hread hhere, hmeasure, cutTokens_step _ h]
  split <;> rfl

include hsize in
theorem run_eq {fuel : Nat} {lexer : Lexer} (hfuel : lexer.fuel ≤ fuel)
    (h : Within source lexer.cursor.position lexer.cursor.rest) :
    run source TokenStream.tabSize fuel lexer = some (lexer.run TokenStream.tabSize fuel) := by
  induction fuel generalizing lexer with
  | zero => simp [Lexer.fuel] at hfuel
  | succ fuel ih =>
    rw [run, Lexer.run, step_eq hsize h]
    cases hstep : lexer.step TokenStream.tabSize with
    | emit tokens next =>
      have hemits := Lexer.emits_of_step hstep
      have hlt := Lexer.fuel_lt_of_emits hemits
      obtain ⟨n, hcursor⟩ := (Coverage.tiles_of_emits hemits).exists_skip
      have hnext : Within source next.cursor.position next.cursor.rest := hcursor ▸ h.skip n
      have hrest := ih (by omega) hnext
      simp only [Option.bind_eq_bind, Option.bind_some, hrest]
      rfl
    | finish tokens => rfl
    | fail error => rfl

end Small

/-- A small source is lexed without an operation that has no result. -/
theorem stream_eq {source : String} (hsize : Text.byteLength source.toList < 2 ^ 29) :
    stream source = some (TokenStream.ofText source) :=
  run_eq hsize (Nat.le_refl _) (within_ofText source)

end SnippetLint.Checked
