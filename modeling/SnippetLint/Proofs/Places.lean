import Mathlib.Data.List.Infix
import SnippetLint.Proofs.ProvenanceGrammar
import SnippetLint.Proofs.Reports

/-!
Places are exact. `placeAfter` is the position that a text determines once it has been read: lines
and columns counted from its line breaks, and its length in bytes. A cursor that moves on stands
where the text before it says (`stands_skip`), and a lexer never stops between the two characters of
one line break, so all positions of a token stream are of this kind; trees and reports take theirs
from the tokens. Main statement: `positions_are_exact`.
-/

namespace SnippetLint.Places

/-! ## Lines and columns of a text -/

/-- The number of line breaks in a text. A carriage return and a line feed are one break
together. -/
def breaks : List Char → Nat
  | [] => 0
  | '\r' :: '\n' :: cs => breaks cs + 1
  | c :: cs => if c = '\n' ∨ c = '\r' then breaks cs + 1 else breaks cs

/-- The number of characters after the last line break. -/
def column (cs : List Char) : Nat := (cs.reverse.takeWhile (!Lexer.isLineBreak ·)).length

/-- The place after a text. -/
def placeAfter (before : List Char) : Position :=
  ⟨1 + breaks before, column before, Text.byteLength before⟩

/-- Whether a text may be cut here: not inside a line break. -/
def IsCut (before after : List Char) : Prop :=
  ¬(before.getLast? = some '\r' ∧ after.head? = some '\n')

/-- A position that some beginning of the text determines. -/
def Exact (text : List Char) (p : Position) : Prop :=
  ∃ before after, text = before ++ after ∧ IsCut before after ∧ p = placeAfter before

def ExactSpan (text : List Char) (span : Span) : Prop :=
  Exact text span.start ∧ Exact text span.stop

theorem isCut_nil (after : List Char) : IsCut [] after := by simp [IsCut]

theorem isCut_of_last {before : List Char} (h : before.getLast? ≠ some '\r') (after : List Char) :
    IsCut before after := fun hsplit => h hsplit.1

theorem isCut_cons {c : Char} {a b : List Char} (h : IsCut (c :: a) b) : IsCut a b := by
  intro hsplit
  refine h ⟨?_, hsplit.2⟩
  rw [List.getLast?_cons, hsplit.1, Option.getD_some]

theorem isCut_cons_of_ne {c : Char} {a b : List Char} (hc : c ≠ '\r') (h : IsCut a b) :
    IsCut (c :: a) b := by
  rintro ⟨hlast, hhead⟩
  cases a with
  | nil => exact hc (by simpa using hlast)
  | cons d a => exact h ⟨by simpa using hlast, hhead⟩

theorem breaks_cons {c : Char} {cs : List Char} (h : IsCut [c] cs) :
    breaks (c :: cs) = (if Lexer.isLineBreak c then 1 else 0) + breaks cs := by
  rw [breaks.eq_def]
  split
  · next heq => cases heq
  · next heq =>
    cases heq
    exact absurd ⟨rfl, rfl⟩ h
  · next heq =>
    cases heq
    simp only [Lexer.isLineBreak, Bool.or_eq_true, beq_iff_eq]
    split <;> omega

theorem breaks_append {a b : List Char} (h : IsCut a b) :
    breaks (a ++ b) = breaks a + breaks b := by
  induction a using breaks.induct with
  | case1 => simp [breaks]
  | case2 cs ih =>
    rw [List.cons_append, List.cons_append, breaks, breaks, ih (isCut_cons (isCut_cons h))]
    omega
  | case3 c cs hpair _ ih | case4 c cs hpair _ ih =>
    have hfront : IsCut [c] cs := by
      rintro ⟨hc, hcs⟩
      obtain ⟨rest, rfl⟩ := List.head?_eq_some_iff.1 hcs
      obtain rfl : c = '\r' := by simpa using hc
      exact hpair rest rfl rfl
    have hall : IsCut [c] (cs ++ b) := by
      cases cs with
      | nil => exact h
      | cons d cs => exact hfront
    rw [List.cons_append, breaks_cons hall, breaks_cons hfront, ih (isCut_cons h), Nat.add_assoc]

theorem column_concat (cs : List Char) (c : Char) :
    column (cs ++ [c]) = if Lexer.isLineBreak c then 0 else column cs + 1 := by
  cases h : Lexer.isLineBreak c <;> simp [column, h]

theorem column_append (before : List Char) {text : List Char}
    (h : ∀ c ∈ text, Lexer.isLineBreak c = false) :
    column (before ++ text) = column before + text.length := by
  have hfront : ∀ c ∈ text.reverse, (!Lexer.isLineBreak c) = true := by
    intro c hc
    rw [h c (List.mem_reverse.1 hc), Bool.not_false]
  rw [column, column, List.reverse_append, List.takeWhile_append_of_pos hfront, List.length_append,
    List.length_reverse, Nat.add_comm]

/-! ## Along the cursor -/

/-- How a position stands to the text before and after it. Between the two characters of one break
line and column are still those before the break. -/
def placeBetween (before after : List Char) : Position :=
  if before.getLast? = some '\r' ∧ after.head? = some '\n' then
    { placeAfter before.dropLast with offset := Text.byteLength before }
  else placeAfter before

theorem placeBetween_of_isCut {before after : List Char} (h : IsCut before after) :
    placeBetween before after = placeAfter before := if_neg h

/-- One more character moves the place as it should. -/
theorem after_placeBetween (before : List Char) (c : Char) (after : List Char) :
    (placeBetween before (c :: after)).after c after = placeBetween (before ++ [c]) after := by
  have hbytes : Text.byteLength (before ++ [c]) = Text.byteLength before + c.utf8Size := by
    simp [Text.byteLength]
  by_cases hfeed : c = '\n'
  · subst hfeed
    have hcut : IsCut (before ++ ['\n']) after := isCut_of_last (by simp) after
    rw [placeBetween_of_isCut hcut]
    by_cases hreturn : before.getLast? = some '\r'
    · obtain ⟨front, rfl⟩ := List.getLast?_eq_some_iff.1 hreturn
      have hpair : breaks (front ++ ['\r', '\n']) = breaks front + 1 :=
        breaks_append (b := ['\r', '\n']) fun hsplit => by simp at hsplit
      have hcolumn : column (front ++ ['\r', '\n']) = 0 := by
        rw [List.append_cons, column_concat]
        rfl
      simp [placeBetween, Position.after, placeAfter, Text.byteLength, hpair, hcolumn,
        Nat.add_assoc]
    · have hline := breaks_append (a := before) (b := ['\n']) (isCut_of_last hreturn _)
      simp [placeBetween, hreturn, Position.after, placeAfter, hbytes, hline, column_concat,
        Lexer.isLineBreak, breaks, Nat.add_assoc]
  · have hcut : IsCut before (c :: after) := by
      rintro ⟨_, hc⟩
      exact hfeed (by simpa using hc)
    rw [placeBetween_of_isCut hcut]
    have hline := breaks_append (a := before) (b := [c])
      fun hsplit => hfeed (by simpa using hsplit.2)
    by_cases hreturn : c = '\r'
    · subst hreturn
      by_cases hnext : after.head? = some '\n'
      · simp [placeBetween, hnext, Position.after, placeAfter, hbytes]
      · simp [placeBetween, hnext, Position.after, placeAfter, hbytes, hline, column_concat,
          Lexer.isLineBreak, breaks, Nat.add_assoc]
    · simp [placeBetween, hreturn, hfeed, Position.after, placeAfter, hbytes, hline, column_concat,
        Lexer.isLineBreak, breaks]

/-- A cursor stands where the text that it has read says. -/
def Stands (text : List Char) (cursor : Cursor) : Prop :=
  ∃ before, text = before ++ cursor.rest ∧ IsCut before cursor.rest ∧
    cursor.position = placeAfter before

theorem Stands.exact {text : List Char} {cursor : Cursor} (h : Stands text cursor) :
    Exact text cursor.position := by
  obtain ⟨before, htext, hcut, hposition⟩ := h
  exact ⟨before, cursor.rest, htext, hcut, hposition⟩

theorem stands_ofText (s : String) : Stands s.toList (.ofText s) :=
  ⟨[], rfl, isCut_nil _, rfl⟩

theorem position_skip {n : Nat} {cursor : Cursor} {before : List Char}
    (h : cursor.position = placeBetween before cursor.rest) :
    (cursor.skip n).position =
      placeBetween (before ++ cursor.rest.take n) (cursor.skip n).rest := by
  induction n generalizing cursor before with
  | zero => simpa using h
  | succ n ih =>
    cases hrest : cursor.rest with
    | nil =>
      rw [Cursor.skip_of_rest_eq_nil hrest, hrest, List.take_nil, List.append_nil, ← hrest]
      exact h
    | cons c rest =>
      have hnext : cursor.next = ⟨rest, cursor.position.after c rest⟩ := by rw [Cursor.next, hrest]
      have hplace : cursor.next.position = placeBetween (before ++ [c]) cursor.next.rest := by
        rw [hnext, h, hrest]
        exact after_placeBetween before c rest
      have hskip := ih hplace
      rw [Cursor.skip, hskip, hnext, List.take_succ_cons, List.append_assoc, List.singleton_append]

/-- A cursor that moves on and does not stop inside a line break stands where it should. -/
theorem stands_skip {text : List Char} {cursor : Cursor} (h : Stands text cursor) {n : Nat}
    (hcut : IsCut (cursor.rest.take n) (cursor.rest.drop n)) : Stands text (cursor.skip n) := by
  obtain ⟨before, htext, hbefore, hposition⟩ := h
  have hall : IsCut (before ++ cursor.rest.take n) (cursor.rest.drop n) := by
    cases htaken : cursor.rest.take n with
    | nil =>
      -- nothing has been read, so it is the cut from before
      have hdrop : cursor.rest.drop n = cursor.rest := by
        have hwhole := List.take_append_drop n cursor.rest
        rwa [htaken, List.nil_append] at hwhole
      rw [List.append_nil, hdrop]
      exact hbefore
    | cons c taken =>
      rw [htaken] at hcut
      intro hsplit
      exact hcut ⟨by simpa using hsplit.1, hsplit.2⟩
  refine ⟨before ++ cursor.rest.take n, ?_, ?_, ?_⟩
  · rw [Cursor.rest_skip, List.append_assoc, List.take_append_drop]
    exact htext
  · rw [Cursor.rest_skip]
    exact hall
  · rw [position_skip (hposition.trans (placeBetween_of_isCut hbefore).symm), Cursor.rest_skip]
    exact placeBetween_of_isCut hall

/-! ## Where lexemes end -/

/-- What is taken from the front of a text and does not end in a carriage return. -/
structure Taken (taken text : List Char) : Prop where
  front : taken <+: text
  last : taken.getLast? ≠ some '\r'

theorem Taken.isCut {taken text : List Char} (h : Taken taken text) :
    IsCut (text.take taken.length) (text.drop taken.length) := by
  rw [← List.prefix_iff_eq_take.1 h.front]
  exact isCut_of_last h.last _

theorem last_ne_of_not_mem {taken : List Char} (h : '\r' ∉ taken) : taken.getLast? ≠ some '\r' :=
  fun hlast => h (List.mem_of_getLast? hlast)

theorem taken_takeWhile {p : Char → Bool} (h : p '\r' = false) (text : List Char) :
    Taken (text.takeWhile p) text := by
  refine ⟨List.takeWhile_prefix p, last_ne_of_not_mem fun hmem => ?_⟩
  have hp := List.all_eq_true.1 (List.all_takeWhile (p := p) (l := text)) _ hmem
  rw [h] at hp
  cases hp

theorem taken_lineBreak (text : List Char) :
    IsCut (text.take (Cursor.lineBreak text).length)
      (text.drop (Cursor.lineBreak text).length) := by
  unfold Cursor.lineBreak
  split
  · exact isCut_of_last (by simp) _
  · next rest hpair =>
    rintro ⟨_, hfeed⟩
    obtain ⟨after, hafter⟩ := List.head?_eq_some_iff.1 hfeed
    rw [List.length_singleton, List.drop_one, List.tail_cons] at hafter
    exact hpair after (by rw [hafter])
  · exact isCut_of_last (by simp) _
  · exact isCut_nil _

/-- Characters taken from a text, and what follows them. -/
structure Cuts (text : List Char) (result : List Char × List Char) : Prop where
  whole : result.1 ++ result.2 = text
  plain : '\r' ∉ result.1

theorem cuts_nil (text : List Char) : Cuts text ([], text) := ⟨rfl, by simp⟩

theorem Cuts.cons {c : Char} {text : List Char} {result : List Char × List Char} (hc : c ≠ '\r')
    (h : Cuts text result) : Cuts (c :: text) (c :: result.1, result.2) :=
  ⟨by rw [List.cons_append, h.whole], by simp [h.plain, hc.symm]⟩

theorem ne_return {p : Char → Bool} (h : p '\r' = false) {c : Char} (hc : p c = true) :
    c ≠ '\r' := by
  rintro rfl
  rw [h] at hc
  cases hc

theorem cuts_digitTail {isDigit : Char → Bool} (h : isDigit '\r' = false) (text : List Char) :
    Cuts text (Number.digitTail isDigit text) := by
  induction text using Number.digitTail.induct isDigit with
  | case1 c cs hc _ _ _ ih =>
    rw [Number.digitTail, if_pos hc]
    exact (ih.cons (ne_return h hc)).cons (by decide)
  | case2 c cs hc =>
    rw [Number.digitTail, if_neg hc]
    exact cuts_nil _
  | case3 c cs hjoined hc _ _ _ ih =>
    rw [Number.digitTail, if_pos hc]
    · exact ih.cons (ne_return h hc)
    · exact hjoined
  | case4 c cs hjoined hc =>
    rw [Number.digitTail, if_neg hc]
    · exact cuts_nil _
    · exact hjoined
  | case5 => exact cuts_nil _

theorem cuts_digitPart {isDigit : Char → Bool} (h : isDigit '\r' = false) (text : List Char) :
    Cuts text (Number.digitPart isDigit text) := by
  unfold Number.digitPart
  split
  · next c cs =>
    split
    · next hc => exact (cuts_digitTail h cs).cons (ne_return h hc)
    · exact cuts_nil _
  · exact cuts_nil _

theorem cuts_optional {p : Char → Bool} (h : p '\r' = false) (text : List Char) :
    Cuts text (Number.optional p text) := by
  unfold Number.optional
  split
  · next c cs =>
    split
    · next hc => exact (cuts_nil cs).cons (ne_return h hc)
    · exact cuts_nil _
  · exact cuts_nil _

/-- One cut after another. -/
theorem Cuts.append {text : List Char} {first second : List Char × List Char} (h : Cuts text first)
    (k : Cuts first.2 second) : Cuts text (first.1 ++ second.1, second.2) :=
  ⟨by rw [List.append_assoc, k.whole, h.whole], by simp [h.plain, k.plain]⟩

theorem Cuts.taken {text : List Char} {result : List Char × List Char} (h : Cuts text result) :
    Taken result.1 text := ⟨⟨result.2, h.whole⟩, last_ne_of_not_mem h.plain⟩

theorem cuts_exponentPart (text : List Char) : Cuts text (Number.exponentPart text) := by
  unfold Number.exponentPart
  dsimp only
  split
  · exact cuts_nil text
  · exact ((cuts_optional rfl text).append (cuts_optional rfl _)).append (cuts_digitPart rfl _)

theorem taken_decimal {text number : List Char} (h : Number.decimal text = .ok number) :
    Taken number text := by
  unfold Number.decimal at h
  dsimp only at h
  have hwhole : Cuts text (Number.digitPart Number.isDecimal text) := cuts_digitPart rfl text
  have hpoint := hwhole.append (cuts_optional (p := (· == '.')) rfl _)
  generalize Number.optional (· == '.') (Number.digitPart Number.isDecimal text).2 = point at *
  have hfraction : Cuts point.2
      (if point.1.isEmpty then ([], point.2) else Number.digitPart Number.isDecimal point.2) := by
    split
    · exact cuts_nil _
    · exact cuts_digitPart rfl _
  generalize (if point.1.isEmpty then ([], point.2)
    else Number.digitPart Number.isDecimal point.2) = fraction at *
  split at h
  · cases h
  split at h
  · cases h
  · cases h
    exact (((hpoint.append hfraction).append (cuts_exponentPart _)).append
      (cuts_optional (p := Number.isImaginaryUnit) rfl _)).taken

theorem cuts_based {base : NumberBase} {isDigit : Char → Bool} {text digits : List Char}
    (hdigit : isDigit '\r' = false) (h : Number.based base isDigit text = .ok digits) :
    ∃ rest, Cuts text (digits, rest) := by
  unfold Number.based at h
  dsimp only at h
  split at h
  · cases h
  · cases h
    exact ⟨_, (cuts_optional (p := (· == '_')) rfl text).append (cuts_digitPart hdigit _)⟩

theorem isDigit_of_baseOf? {mark : Char} {base : NumberBase} {isDigit : Char → Bool}
    (h : Number.baseOf? mark = some (base, isDigit)) : isDigit '\r' = false ∧ mark ≠ '\r' := by
  unfold Number.baseOf? at h
  split at h <;> cases h <;> exact ⟨rfl, by decide⟩

theorem taken_number {text number : List Char} (h : Number.munch text = .ok number) :
    Taken number text := by
  unfold Number.munch at h
  split at h
  · next mark rest =>
    split at h
    · next base isDigit hbase =>
      obtain ⟨hdigit, hmark⟩ := isDigit_of_baseOf? hbase
      cases hdigits : Number.based base isDigit rest with
      | error fault => rw [hdigits] at h; cases h
      | ok digits =>
        rw [hdigits] at h
        cases h
        obtain ⟨after, hcuts⟩ := cuts_based hdigit hdigits
        refine ⟨⟨after, by simpa using hcuts.whole⟩, last_ne_of_not_mem ?_⟩
        simp [hcuts.plain, hmark.symm]
    · exact taken_decimal h
  · exact taken_decimal h

theorem last_cons {c d : Char} {cs : List Char} (h : cs.getLast? = some d) :
    (c :: cs).getLast? = some d := by
  rw [List.getLast?_cons, h, Option.getD_some]

theorem taken_untilQuote {quote : Char} {text body : List Char}
    (h : Quotation.untilQuote quote text = some body) :
    body <+: text ∧ body.getLast? = some quote := by
  fun_induction Quotation.untilQuote quote text generalizing body with
  | case1 cs ih =>
    obtain ⟨tail, htail, rfl⟩ := Option.map_eq_some_iff.1 h
    obtain ⟨⟨rest, hrest⟩, hlast⟩ := ih htail
    exact ⟨⟨rest, by simp [hrest]⟩, last_cons (last_cons (last_cons hlast))⟩
  | case2 c cs _ ih =>
    obtain ⟨tail, htail, rfl⟩ := Option.map_eq_some_iff.1 h
    obtain ⟨⟨rest, hrest⟩, hlast⟩ := ih htail
    exact ⟨⟨rest, by simp [hrest]⟩, last_cons (last_cons hlast)⟩
  | case3 c cs _ _ _ => cases h
  | case4 cs _ _ _ =>
    cases h
    exact ⟨⟨cs, rfl⟩, rfl⟩
  | case5 c cs _ _ _ _ ih =>
    obtain ⟨tail, htail, rfl⟩ := Option.map_eq_some_iff.1 h
    obtain ⟨⟨rest, hrest⟩, hlast⟩ := ih htail
    exact ⟨⟨rest, by simp [hrest]⟩, last_cons hlast⟩
  | case6 => cases h

theorem taken_untilTripleQuote {quote : Char} {text body : List Char}
    (h : Quotation.untilTripleQuote quote text = some body) :
    body <+: text ∧ body.getLast? = some quote := by
  fun_induction Quotation.untilTripleQuote quote text generalizing body with
  | case1 c cs ih =>
    obtain ⟨tail, htail, rfl⟩ := Option.map_eq_some_iff.1 h
    obtain ⟨⟨rest, hrest⟩, hlast⟩ := ih htail
    exact ⟨⟨rest, by simp [hrest]⟩, last_cons (last_cons hlast)⟩
  | case2 c cs _ hquotes =>
    cases h
    refine ⟨⟨cs.drop 2, ?_⟩, rfl⟩
    have hsplit := List.take_append_drop 2 cs
    rw [hquotes.2] at hsplit
    simpa using hsplit
  | case3 c cs _ _ ih =>
    obtain ⟨tail, htail, rfl⟩ := Option.map_eq_some_iff.1 h
    obtain ⟨⟨rest, hrest⟩, hlast⟩ := ih htail
    exact ⟨⟨rest, by simp [hrest]⟩, last_cons hlast⟩
  | case4 => cases h

/-- A literal ends in the quote with which it starts. -/
theorem taken_quoted {text quoted : List Char} (h : Quotation.munch text = .ok quoted) :
    quoted <+: text ∧ quoted.getLast? = text.head? := by
  unfold Quotation.munch at h
  split at h
  · next quote cs =>
    split at h
    · next hopen =>
      split at h
      · next tail htail =>
        cases h
        obtain ⟨⟨rest, hrest⟩, hlast⟩ := taken_untilTripleQuote htail
        refine ⟨⟨rest, ?_⟩, last_cons (last_cons (last_cons hlast))⟩
        have hsplit := List.take_append_drop 2 cs
        rw [hopen, ← hrest] at hsplit
        simpa using hsplit
      · cases h
    · split at h
      · next tail htail =>
        cases h
        obtain ⟨⟨rest, hrest⟩, hlast⟩ := taken_untilQuote htail
        exact ⟨⟨rest, by simp [hrest]⟩, last_cons hlast⟩
      · cases h
  · cases h

theorem taken_quotation {start : Cursor} {marks text : List Char} {lexeme : Lexeme}
    (hquote : text.head?.any Quotation.isQuote = true)
    (h : Lexeme.quotation start marks text = .ok lexeme) : Taken lexeme.chars (marks ++ text) := by
  unfold Lexeme.quotation at h
  split at h
  · cases h
  · cases h
  · next quoted hquoted =>
    cases hcheck : Quotation.check (marks ++ quoted) with
    | error fault => rw [hcheck] at h; cases h
    | ok _ =>
      rw [hcheck] at h
      cases h
      obtain ⟨⟨rest, hrest⟩, hlast⟩ := taken_quoted hquoted
      obtain ⟨quote, hhead, hisQuote⟩ := (Option.any_eq_true _ _).1 hquote
      refine ⟨⟨rest, by simp [hrest]⟩, ?_⟩
      rw [List.getLast?_append, hlast, hhead]
      rintro ⟨⟩
      exact absurd hisQuote (by decide)

theorem taken_operator {text : List Char} {lexeme : Lexeme}
    (h : Lexeme.operator text = .ok lexeme) : Taken lexeme.chars text := by
  have hlast : ∀ entry ∈ Operator.table, entry.1.toList.getLast? ≠ some '\r' := by decide
  unfold Lexeme.operator at h
  split at h
  · next spelling sign found =>
    cases h
    have hfront := List.find?_some found
    exact ⟨List.isPrefixOf_iff_prefix.1 hfront, hlast _ (List.mem_of_find?_eq_some found)⟩
  · split at h <;> cases h

/-- A lexeme is taken from the front of the text and does not end inside a line break. -/
theorem taken_munch {start : Cursor} {lexeme : Lexeme} (h : Lexeme.munch start = .ok lexeme) :
    Taken lexeme.chars start.rest := by
  cases Lexeme.accepted h with
  | string _ marks cs whole _ opens quotation_eq =>
    rw [whole]
    exact taken_quotation opens quotation_eq
  | number _ _ number_eq => exact taken_number number_eq
  | word _ rest whole _ parts _ _ =>
    refine ⟨⟨rest, whole.symm⟩, last_ne_of_not_mem fun hmem => ?_⟩
    exact absurd (parts _ hmem) (by decide)
  | operator _ _ operator_eq => exact taken_operator operator_eq

/-- What a token of the line shows is the lexeme that was read for it. -/
theorem exists_lexeme {tabSize : Nat} {lexer : Lexer} {stream : TokenStream} {token : Token}
    (h : lexer.Lexes tabSize stream) (htoken : token ∈ stream.tokens)
    (hlayout : token.kind.isLayout = false) (htrivia : token.kind.isTrivia = false) :
    ∃ start lexeme, Lexeme.munch start = .ok lexeme ∧ token.kind = lexeme.kind ∧
      token.lexeme.toList = lexeme.chars := by
  obtain ⟨start, lexeme, munched, rfl⟩ := h.exists_munch htoken hlayout htrivia
  have htake : start.rest.take lexeme.chars.length = lexeme.chars :=
    (List.prefix_iff_eq_take.1 (taken_munch munched).front).symm
  exact ⟨start, lexeme, munched, rfl, by rw [Lexer.take, String.toList_ofList, htake]⟩

/-! ## Along the tokens -/

/-- A lexer that stands where it should and remembers exact places. -/
structure Sound (text : List Char) (lexer : Lexer) : Prop where
  stands : Stands text lexer.cursor
  brackets : ∀ bracket ∈ lexer.brackets, Exact text bracket.position

theorem stands_here {text : List Char} {lexer : Lexer} (h : Stands text lexer.cursor) :
    Stands text lexer.here :=
  stands_skip h (taken_takeWhile (p := Indentation.isGap) rfl _).isCut

theorem exact_take {text : List Char} {cursor : Cursor} (kind : TokenKind) {n : Nat}
    (h : Stands text cursor) (hskip : Stands text (cursor.skip n)) :
    ExactSpan text (Lexer.take cursor kind n).span := ⟨h.exact, hskip.exact⟩

theorem exact_mark {text : List Char} {cursor : Cursor} (kind : TokenKind)
    (h : Stands text cursor) : ExactSpan text (Lexer.mark kind cursor.position).span :=
  ⟨h.exact, h.exact⟩

theorem brackets_of_update {text : List Char} {c : Char} {position : Position}
    {brackets updated : List Bracket} (hposition : Exact text position)
    (hbrackets : ∀ bracket ∈ brackets, Exact text bracket.position)
    (h : Bracket.update c position brackets = .ok updated) :
    ∀ bracket ∈ updated, Exact text bracket.position := by
  unfold Bracket.update at h
  split at h
  · split at h
    · cases h
    · cases h
      exact List.forall_mem_cons.2 ⟨hposition, hbrackets⟩
  · split at h
    · split at h
      · cases h
      · split at h
        · cases h
          exact (List.forall_mem_cons.1 hbrackets).2
        · cases h
    · cases h
      exact hbrackets

theorem sound_of_emits {text : List Char} {tabSize : Nat} {lexer next : Lexer}
    {tokens : List Token} (h : lexer.Emits tabSize tokens next) (sound : Sound text lexer) :
    (∀ token ∈ tokens, ExactSpan text token.span) ∧ Sound text next := by
  have hhere := stands_here sound.stands
  cases h with
  | blank _ _ => exact ⟨by simp, hhere, sound.brackets⟩
  | same _ _ => exact ⟨by simp, hhere, sound.brackets⟩
  | deeper _ _ =>
    exact ⟨List.forall_mem_singleton.2 (exact_take _ sound.stands hhere), hhere, sound.brackets⟩
  | shallower closed _ _ _ =>
    refine ⟨fun token htoken => ?_, hhere, sound.brackets⟩
    rw [List.eq_of_mem_replicate htoken]
    exact exact_mark .dedent hhere
  | join rest _ hrest broken =>
    refine ⟨by simp, ?_, sound.brackets⟩
    refine stands_skip hhere ?_
    rw [hrest, Nat.add_comm, List.take_succ_cons, List.drop_succ_cons]
    exact isCut_cons_of_ne (by decide) (taken_lineBreak rest)
  | lineBreak _ _ =>
    have hskip := stands_skip hhere (taken_lineBreak _)
    exact ⟨List.forall_mem_singleton.2 (exact_take _ hhere hskip), hskip, sound.brackets⟩
  | comment _ _ _ =>
    have hskip := stands_skip hhere (taken_takeWhile (p := (!Lexer.isLineBreak ·)) rfl _).isCut
    exact ⟨List.forall_mem_singleton.2 (exact_take _ hhere hskip), hskip, sound.brackets⟩
  | lexeme c rest lexeme brackets _ _ munched updated =>
    have hskip := stands_skip hhere (taken_munch munched).isCut
    exact ⟨List.forall_mem_singleton.2 (exact_take _ hhere hskip), hskip,
      brackets_of_update hhere.exact sound.brackets updated⟩

theorem exact_of_finishes {text : List Char} {lexer : Lexer} {tokens : List Token}
    (h : lexer.Finishes tokens) (sound : Sound text lexer) :
    ∀ token ∈ tokens, ExactSpan text token.span := by
  have hmark : ∀ kind, ExactSpan text (Lexer.mark kind lexer.here.position).span := fun kind =>
    exact_mark kind (stands_here sound.stands)
  intro token htoken
  rw [h.tokens_eq, List.mem_append, List.mem_append] at htoken
  rcases htoken with (hnewline | hdedent) | hend
  · split at hnewline
    · rw [List.mem_singleton.1 hnewline]
      exact hmark _
    · cases hnewline
  · rw [List.eq_of_mem_replicate hdedent]
    exact hmark _
  · rw [List.mem_singleton.1 hend]
    exact hmark _

/-- An error is reported at an exact place. After a backslash at the end that is the end of the
text, for an open bracket it is the bracket, and otherwise what comes next. -/
theorem exact_of_fails {text : List Char} {tabSize : Nat} {lexer : Lexer} {error : LexicalError}
    (h : lexer.step tabSize = .fail error) (sound : Sound text lexer) :
    Exact text error.position := by
  have hhere : Stands text lexer.here := stands_here sound.stands
  rw [Lexer.step_eq] at h
  split at h
  · unfold Lexer.indentStep at h
    dsimp only at h
    repeat' split at h
    all_goals cases h
    all_goals exact hhere.exact
  · unfold Lexer.contentStep at h
    dsimp only at h
    split at h
    · unfold Lexer.endStep at h
      split at h
      · next bracket outer hbrackets =>
        cases h
        exact sound.brackets bracket (by simp [hbrackets])
      · cases h
    · next c rest hrest =>
      have hrest : lexer.here.rest = c :: rest := hrest
      split at h
      · next hc =>
        unfold Lexer.joinStep at h
        split at h
        · cases h
        · split at h
          · cases h
            refine Stands.exact (stands_skip (n := 1) hhere ?_)
            rw [hrest, hc]
            exact isCut_of_last (by simp) _
          · cases h
            exact hhere.exact
      · unfold Lexer.breakStep Lexer.commentStep Lexer.lexemeStep at h
        dsimp only at h
        repeat' split at h
        all_goals cases h
        all_goals exact hhere.exact

theorem exact_of_lexes {text : List Char} {tabSize : Nat} {lexer : Lexer} {stream : TokenStream}
    (h : lexer.Lexes tabSize stream) (sound : Sound text lexer) :
    (∀ token ∈ stream.tokens, ExactSpan text token.span) ∧
      ∀ error ∈ stream.error, Exact text error.position := by
  induction h with
  | emit emits _ ih =>
    obtain ⟨htokens, hnext⟩ := sound_of_emits emits sound
    obtain ⟨hrest, herror⟩ := ih hnext
    exact ⟨List.forall_mem_append.2 ⟨htokens, hrest⟩, herror⟩
  | finish finishes => exact ⟨exact_of_finishes finishes sound, by simp⟩
  | fail fails => exact ⟨by simp, by simpa using exact_of_fails fails sound⟩

theorem sound_ofText (source : String) : Sound source.toList (.ofText source) :=
  ⟨stands_ofText source, by simp [Lexer.ofText]⟩

/-- Where the tokens of a snippet start and stop, and where its reading fails, is exact. -/
theorem exact_of_stream (source : String) :
    (∀ token ∈ (TokenStream.ofText source).tokens, ExactSpan source.toList token.span) ∧
      ∀ error ∈ (TokenStream.ofText source).error, Exact source.toList error.position :=
  exact_of_lexes (TokenStream.lexes_withTabs _ source) (sound_ofText source)

/-! ## In trees and reports -/

section Source

variable {source : String}

/-- Where the tokens end is where the lexer failed, or where the mark of the end stands. -/
theorem ending_cases (source : String) :
    (∃ error, (TokenStream.ofText source).error = some error ∧
      (Module.endingOf (.ofText source)).position = error.position) ∨
    ∃ token ∈ (TokenStream.ofText source).tokens, token.kind = .endMarker ∧
      (Module.endingOf (.ofText source)).position = token.span.start ∧
      token.span.stop = token.span.start := by
  cases herror : (TokenStream.ofText source).error with
  | some error => exact .inl ⟨error, rfl, Agreement.position_endingOf herror⟩
  | none =>
    obtain ⟨stop, _, hend⟩ :=
      Coverage.tiles_of_lexes (TokenStream.lexes_withTabs TokenStream.tabSize source)
    obtain ⟨_, init, hinit⟩ := hend herror
    have hinit : (TokenStream.ofText source).tokens =
        init ++ [Lexer.mark .endMarker stop.position] := hinit
    refine .inr ⟨Lexer.mark .endMarker stop.position, by simp [hinit], rfl, ?_, rfl⟩
    unfold Module.endingOf
    rw [herror, hinit, List.getLast?_concat]
    rfl

theorem exact_ending (source : String) :
    Exact source.toList (Module.endingOf (.ofText source)).position := by
  obtain ⟨htokens, herror⟩ := exact_of_stream source
  rcases ending_cases source with ⟨error, hfails, hposition⟩ | ⟨token, htoken, _, hposition, _⟩
  · rw [hposition]
    exact herror error hfails
  · rw [hposition]
    exact (htokens token htoken).1

/-- The tokens that a grammar is given are tokens of the stream. -/
theorem mem_of_mem_significant {stream : TokenStream} {token : Token}
    (h : token ∈ (Provenance.inputOf stream).tokens) :
    token ∈ stream.tokens ∧ token.kind.isTrivia = false := by
  obtain ⟨hmem, hkind⟩ := List.mem_filter.1 h
  exact ⟨hmem, by simpa using (Bool.and_eq_true_iff.1 hkind).1⟩

theorem exact_of_isStart {p : Position}
    (h : (Provenance.inputOf (.ofText source)).IsStart p) : Exact source.toList p := by
  rcases h with rfl | ⟨token, htoken, rfl⟩
  · exact exact_ending source
  · exact ((exact_of_stream source).1 token (mem_of_mem_significant htoken).1).1

theorem exact_of_isStop {p : Position}
    (h : (Provenance.inputOf (.ofText source)).IsStop p) : Exact source.toList p := by
  rcases h with rfl | ⟨token, htoken, rfl⟩
  · exact exact_ending source
  · exact ((exact_of_stream source).1 token (mem_of_mem_significant htoken).1).2

theorem exact_of_isSpan {span : Span} (h : (Provenance.inputOf (.ofText source)).IsSpan span) :
    ExactSpan source.toList span := ⟨exact_of_isStart h.start, exact_of_isStop h.stop⟩

/-- A parse error is reported at a token that the grammar sees, at the end, or where the lexer
failed. -/
theorem origin_of_error {error : ParseError} (h : Module.parse source = .error error) :
    (∃ token ∈ (TokenStream.ofText source).tokens, token.kind.isTrivia = false ∧
      error.position = token.span.start) ∨
    ∃ lexical, (TokenStream.ofText source).error = some lexical ∧
      error.position = lexical.position := by
  rcases Provenance.isStart_of_ofStream h with hending | ⟨token, htoken, hposition⟩
  · rw [hending]
    rcases ending_cases source with hfails | ⟨token, htoken, hkind, hposition, _⟩
    · exact .inr hfails
    · exact .inl ⟨token, htoken, by rw [hkind]; rfl, hposition⟩
  · obtain ⟨hmem, hkind⟩ := mem_of_mem_significant htoken
    exact .inl ⟨token, hmem, hkind, hposition⟩

/-- A diagnostic at an exact place. -/
def PointsInto (text : List Char) (d : Diagnostic) : Prop :=
  ∃ position, Exact text position ∧ d.line = position.line ∧ d.column = position.column

theorem pointsInto_of_findingAt {width : Nat} {rule : BindingRule} {known : NameSet} {i : Nat}
    {d : Diagnostic}
    (h : Findings.findingAt width rule known (TokenStream.ofText source).tokens i = some d) :
    PointsInto source.toList d := by
  obtain ⟨token, htoken, h⟩ := Option.bind_eq_some_iff.1 h
  have hmem := List.mem_of_getElem? htoken
  refine ⟨token.span.start, ((exact_of_stream source).1 token hmem).1, ?_⟩
  unfold Findings.findingOf at h
  split at h
  · split at h <;> cases h
    exact ⟨rfl, rfl⟩
  · split at h <;> cases h
    exact ⟨rfl, rfl⟩
  · cases h

theorem pointsInto_of_diagnostics {settings : Settings} {d : Diagnostic}
    (h : d ∈ Analysis.diagnostics settings source) : PointsInto source.toList d := by
  cases hparse : Module.parse source with
  | error error =>
    rw [Reports.diagnostics_of_error hparse, List.mem_singleton] at h
    rw [h]
    refine ⟨error.position, exact_of_isStart (Provenance.isStart_of_ofStream hparse), ?_⟩
    unfold Analysis.ofParseError
    split
    exact ⟨rfl, rfl⟩
  | ok t =>
    rw [Reports.diagnostics_of_ok hparse] at h
    have hscan := Reports.mem_of_mem_aggregate h
    rw [Findings.source_diagnostics, Agreement.error_eq_none_of_ofStream hparse] at hscan
    rw [Option.map_none, Option.toList_none, List.append_nil] at hscan
    obtain ⟨i, _, hfinding⟩ := List.mem_filterMap.1 hscan
    exact pointsInto_of_findingAt hfinding

/-- **Positions are exact.** Wherever a position of a snippet is shown, at the ends of a token or of
a node, with an error of the lexer or the grammar or in a diagnostic, some beginning of the text
that does not end inside a line break determines it: its line breaks give the line, what follows
the last of them the column, and its bytes the offset. -/
theorem positions_are_exact (settings : Settings) (source : String) :
    (∀ token ∈ (TokenStream.ofText source).tokens, ExactSpan source.toList token.span) ∧
    (∀ error ∈ (TokenStream.ofText source).error, Exact source.toList error.position) ∧
    (∀ t, Module.parse source = .ok t → ∀ part, Spans.Part t part →
      ExactSpan source.toList part.span ∧
        ∀ name ∈ Provenance.aliasesOf part.kind, ExactSpan source.toList name.span) ∧
    (∀ error, Module.parse source = .error error → Exact source.toList error.position ∧
      ((∃ token ∈ (TokenStream.ofText source).tokens, token.kind.isTrivia = false ∧
          error.position = token.span.start) ∨
        ∃ lexical, (TokenStream.ofText source).error = some lexical ∧
          error.position = lexical.position)) ∧
    ∀ d ∈ Analysis.diagnostics settings source, PointsInto source.toList d := by
  obtain ⟨htokens, herror⟩ := exact_of_stream source
  refine ⟨htokens, herror, fun t h part hpart => ?_, fun error h => ?_,
    fun d => pointsInto_of_diagnostics⟩
  · have hnode := Provenance.made_of_ofStream h part hpart
    exact ⟨exact_of_isSpan hnode.span, fun name hname => exact_of_isSpan (hnode.aliases name hname)⟩
  · exact ⟨exact_of_isStart (Provenance.isStart_of_ofStream h), origin_of_error h⟩

end Source

end SnippetLint.Places
