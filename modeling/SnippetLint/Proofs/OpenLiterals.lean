import SnippetLint.Proofs.Literals
import SnippetLint.Proofs.Lookahead
import SnippetLint.Proofs.Numerals

/-!
Literals without an end. A text stops being read at the first character of a literal that is left
open, the letters that mark it included, since no step of a lexer ends between these letters and
their quote (`Fresh`). A literal in triple quotes names the line on which its reading stopped. One
in single quotes names the line on which it starts, which is not that line if the literal goes on
over a protected line break. Main statement: `open_literals_are_located`.
-/

namespace SnippetLint.OpenLiterals
open Literals Places

/-! ## The word at the end of a text -/

def lastWord (cs : List Char) : List Char := cs.rtakeWhile Word.isPart

theorem lastWord_append (before : List Char) {word : List Char}
    (h : ∀ c ∈ word, Word.isPart c = true) :
    lastWord (before ++ word) = lastWord before ++ word := by
  have hword : ∀ c ∈ word.reverse, Word.isPart c = true := fun c hc => h c (List.mem_reverse.1 hc)
  rw [lastWord, lastWord, List.rtakeWhile, List.rtakeWhile, List.reverse_append,
    List.takeWhile_append_of_pos hword, List.reverse_append, List.reverse_reverse]

theorem lastWord_eq_nil {before : List Char} (h : before.getLast?.any Word.isPart = false) :
    lastWord before = [] := by
  rw [← List.head?_reverse] at h
  rw [lastWord, List.rtakeWhile, List.reverse_eq_nil_iff]
  exact Word.munch_eq_nil_iff.2 h

/-- The letters that mark a string at the end of a text. -/
def marksAtEnd (cs : List Char) : List Char :=
  if Word.isStringMark (lastWord cs) then lastWord cs else []

theorem isStringMark_suffix {word tail : List Char} (h : Word.isStringMark word = true)
    (htail : tail <:+ word) (hne : tail ≠ []) : Word.isStringMark tail = true := by
  have hall : ∀ marks ∈ Word.stringMarks, ∀ tail ∈ marks.tails, tail ≠ [] →
      Word.stringMarks.contains tail = true := by decide
  refine hall _ (List.contains_iff_mem.1 h) _ ((List.mem_tails _ _).2 (htail.map Char.toLower)) ?_
  rwa [Ne, List.map_eq_nil_iff]

/-- Behind the word that a text ends with, no letters mark a string that do not on their own. -/
theorem marksAtEnd_append (before : List Char) {word : List Char}
    (hparts : ∀ c ∈ word, Word.isPart c = true) (hne : word ≠ [])
    (h : Word.isStringMark word = false) : marksAtEnd (before ++ word) = [] := by
  refine if_neg fun hmark => ?_
  rw [lastWord_append before hparts] at hmark
  rw [isStringMark_suffix hmark (List.suffix_append _ _) hne] at h
  cases h

/-- Letters that mark strings. -/
def markLetters : List Char := "rubfRUBF".toList

theorem mem_markLetters {word : List Char} (h : Word.isStringMark word = true) {c : Char}
    (hc : c ∈ word) : c ∈ markLetters := by
  have hall : ∀ marks ∈ Word.stringMarks, ∀ d ∈ marks, d ∈ "rubf".toList := by decide
  have hlower : c.toLower ∈ "rubf".toList :=
    hall _ (List.contains_iff_mem.1 h) _ (List.mem_map_of_mem hc)
  have hcase : ∀ d ∈ "rubf".toList,
      d.isLower = true ∧ d ∈ markLetters ∧ d.toUpper ∈ markLetters := by decide
  obtain ⟨hisLower, hmem, hupper⟩ := hcase _ hlower
  rcases (toLower_eq_iff hisLower).1 rfl with heq | heq
  · rwa [← heq] at hmem
  · rwa [← heq] at hupper

theorem marksAtEnd_eq_nil {cs : List Char} {c : Char} (hc : c ∈ lastWord cs)
    (hletter : c ∉ markLetters) : marksAtEnd cs = [] :=
  if_neg fun hmark => hletter (mem_markLetters hmark hc)

theorem marksAtEnd_of_last {cs : List Char} {c : Char} (hlast : cs.getLast? = some c)
    (hletter : c ∉ markLetters) : marksAtEnd cs = [] := by
  obtain ⟨front, rfl⟩ := List.getLast?_eq_some_iff.1 hlast
  cases hpart : Word.isPart c with
  | true =>
    refine marksAtEnd_eq_nil (c := c) ?_ hletter
    rw [lastWord_append front (List.forall_mem_singleton.2 hpart)]
    exact List.mem_append_right _ (List.mem_singleton_self c)
  | false =>
    have hnil : lastWord (front ++ [c]) = [] := lastWord_eq_nil (by rw [hlast]; exact hpart)
    rw [marksAtEnd, hnil]
    rfl

/-! ### Numbers -/

/-- A text that ends in a character that marks no string. -/
def EndsPlain (cs : List Char) : Prop := ∃ c, cs.getLast? = some c ∧ c ∉ markLetters

theorem EndsPlain.append {back : List Char} (h : EndsPlain back) (front : List Char) :
    EndsPlain (front ++ back) := by
  obtain ⟨c, hlast, hc⟩ := h
  exact ⟨c, by rw [List.getLast?_append, hlast]; rfl, hc⟩

theorem EndsPlain.cons {cs : List Char} (h : EndsPlain cs) (c : Char) : EndsPlain (c :: cs) :=
  h.append [c]

theorem endsPlain_digitPart {ds : List Char}
    (h : Numerals.DigitPart Numerals.decimalDigits ds) : EndsPlain ds := by
  have hall : ∀ c ∈ Numerals.decimalDigits, c ∉ markLetters := by decide
  induction h with
  | last digit => exact ⟨_, rfl, hall _ digit⟩
  | digit _ _ ih => exact ih.cons _
  | spaced _ _ ih => exact (ih.cons _).cons _

theorem endsPlain_exponent {es : List Char} (h : Numerals.Exponent es) : EndsPlain es := by
  cases h with
  | plain _ digits => exact (endsPlain_digitPart digits).cons _
  | signed _ _ digits => exact ((endsPlain_digitPart digits).cons _).cons _

theorem endsPlain_pointFloat {ps : List Char} (h : Numerals.PointFloat ps) : EndsPlain ps := by
  have hpoint : EndsPlain ['.'] := ⟨'.', rfl, by decide⟩
  cases h with
  | fraction fraction => exact (endsPlain_digitPart fraction).cons _
  | whole _ => exact hpoint.append _
  | both _ fraction => exact ((endsPlain_digitPart fraction).cons _).append _

theorem endsPlain_float {fs : List Char} (h : Numerals.Float fs) : EndsPlain fs := by
  cases h with
  | point point => exact endsPlain_pointFloat point
  | pointExponent _ exponent => exact (endsPlain_exponent exponent).append _
  | exponent _ exponent => exact (endsPlain_exponent exponent).append _

theorem isPart_of_groups {digits gs : List Char} (hdigits : ∀ c ∈ digits, Word.isPart c = true)
    (h : Numerals.Groups digits gs) : ∀ c ∈ gs, Word.isPart c = true := by
  have hbar : Word.isPart '_' = true := by decide
  induction h with
  | last digit => exact List.forall_mem_singleton.2 (hdigits _ digit)
  | lastSpaced digit =>
    exact List.forall_mem_cons.2 ⟨hbar, List.forall_mem_singleton.2 (hdigits _ digit)⟩
  | digit digit _ ih => exact List.forall_mem_cons.2 ⟨hdigits _ digit, ih⟩
  | spaced digit _ ih =>
    exact List.forall_mem_cons.2 ⟨hbar, List.forall_mem_cons.2 ⟨hdigits _ digit, ih⟩⟩

theorem isPart_of_groups_ne_nil {mark : Char} {gs : List Char}
    (h : Numerals.Groups (Numerals.digitsOf mark) gs) : Word.isPart mark = true := by
  unfold Numerals.digitsOf at h
  split at h
  all_goals first
    | decide
    | cases h <;> contradiction

/-- No letters at the end of a number mark a string. -/
theorem marksAtEnd_numeral (before : List Char) {number : List Char}
    (h : Numerals.Numeral number) : marksAtEnd (before ++ number) = [] := by
  have hplain : EndsPlain number → marksAtEnd (before ++ number) = [] := by
    intro hnumber
    obtain ⟨c, hlast, hc⟩ := hnumber.append before
    exact marksAtEnd_of_last hlast hc
  cases h with
  | @based mark gs groups =>
    -- hexadecimal digits may be letters that mark strings, but a zero comes before them
    have hparts : ∀ c ∈ '0' :: mark :: gs, Word.isPart c = true := by
      refine List.forall_mem_cons.2 ⟨by decide, List.forall_mem_cons.2 ⟨?_, ?_⟩⟩
      · exact isPart_of_groups_ne_nil groups
      · exact isPart_of_groups (fun c => Numerals.isPart_of_mem_digitsOf) groups
    refine marksAtEnd_eq_nil (c := '0') ?_ (by decide)
    rw [lastWord_append before hparts]
    exact List.mem_append_right _ List.mem_cons_self
  | integer whole _ => exact hplain (endsPlain_digitPart whole)
  | float float => exact hplain (endsPlain_float float)
  | imaginary _ isUnit =>
    refine hplain (EndsPlain.append ⟨_, rfl, ?_⟩ _)
    rcases isUnit with rfl | rfl <;> decide

/-! ## Along the lexer -/

/-- If a quote comes after the next word, just this word can mark the string. -/
def Fresh (before rest : List Char) : Prop :=
  ∀ cs, rest = Word.munch rest ++ cs → cs.head?.any Quotation.isQuote = true →
    marksAtEnd (before ++ Word.munch rest) = marksAtEnd (Word.munch rest)

theorem fresh_of_last {before : List Char} (h : before.getLast?.any Word.isPart = false)
    (rest : List Char) : Fresh before rest := by
  intro cs _ _
  have hparts := Word.all_isPart_munch rest
  have hword : lastWord (Word.munch rest) = lastWord [] ++ Word.munch rest :=
    lastWord_append [] hparts
  rw [marksAtEnd, marksAtEnd, lastWord_append before hparts, lastWord_eq_nil h, hword]
  rfl

theorem fresh_of_next {rest : List Char} (hpart : rest.head?.any Word.isPart = false)
    (hquote : rest.head?.any Quotation.isQuote = false) (before : List Char) :
    Fresh before rest := by
  intro cs hwhole hopens
  rw [Word.munch_eq_nil_iff.2 hpart] at hwhole
  rw [hwhole, List.nil_append, hopens] at hquote
  cases hquote

/-- Past text that ends in no part of a word. -/
theorem fresh_append {taken : List Char} (hne : taken ≠ [])
    (h : ∀ c ∈ taken, Word.isPart c = false) (before rest : List Char) :
    Fresh (before ++ taken) rest := by
  refine fresh_of_last ?_ rest
  rw [List.getLast?_append_of_ne_nil _ hne]
  cases hlast : taken.getLast? with
  | none => rfl
  | some c => exact h c (List.mem_of_getLast? hlast)

theorem fresh_word {word rest : List Char} (hne : word ≠ [])
    (hparts : ∀ c ∈ word, Word.isPart c = true) (after : rest.head?.any Word.isPart = false)
    (unmarked : (Word.isStringMark word && rest.head?.any Quotation.isQuote) = false)
    (before : List Char) : Fresh (before ++ word) rest := by
  intro cs hwhole hopens
  rw [Word.munch_eq_nil_iff.2 after] at hwhole ⊢
  rw [List.nil_append] at hwhole
  subst hwhole
  rw [hopens, Bool.and_true] at unmarked
  rw [List.append_nil, marksAtEnd_append before hparts hne unmarked]
  rfl

theorem fresh_number {number rest : List Char} (h : Numerals.Numeral number)
    (hword : Number.runsIntoWord rest = false) (before : List Char) :
    Fresh (before ++ number) rest := by
  intro cs _ _
  rcases Lookahead.word_cases hword with hnil | hoperator
  · rw [hnil, List.append_nil, marksAtEnd_numeral before h]
    rfl
  · have hunmarked : ∀ word ∈ Number.operatorWords, word ≠ [] ∧ Word.isStringMark word = false := by
      decide
    obtain ⟨hne, hmark⟩ := hunmarked _ hoperator
    have hparts := Word.all_isPart_munch rest
    rw [marksAtEnd_append _ hparts hne hmark]
    exact (marksAtEnd_append [] hparts hne hmark).symm

/-- A cursor in front of no letters that mark a string together with what has been read. -/
def FreshAt (text : List Char) (cursor : Cursor) : Prop :=
  ∃ before, text = before ++ cursor.rest ∧ Fresh before cursor.rest

variable {text : List Char} {cursor : Cursor}

theorem FreshAt.skip (h : FreshAt text cursor) {n : Nat}
    (hskip : ∀ before, Fresh before cursor.rest →
      Fresh (before ++ cursor.rest.take n) (cursor.rest.drop n)) :
    FreshAt text (cursor.skip n) := by
  obtain ⟨before, htext, hfresh⟩ := h
  refine ⟨before ++ cursor.rest.take n, ?_, ?_⟩
  · rw [Cursor.rest_skip, List.append_assoc, List.take_append_drop]
    exact htext
  · rw [Cursor.rest_skip]
    exact hskip before hfresh

theorem freshAt_here {lexer : Lexer} (h : FreshAt text lexer.cursor) : FreshAt text lexer.here := by
  refine h.skip fun before hfresh => ?_
  have htake : lexer.cursor.rest.take (lexer.cursor.rest.takeWhile Indentation.isGap).length =
      lexer.cursor.rest.takeWhile Indentation.isGap :=
    (List.prefix_iff_eq_take.1 (List.takeWhile_prefix _)).symm
  rw [htake]
  cases hgap : lexer.cursor.rest.takeWhile Indentation.isGap with
  | nil => rwa [List.append_nil]
  | cons c gap =>
    refine fresh_append (List.cons_ne_nil c gap) (fun d hd => ?_) before _
    have hd : Indentation.isGap d = true := List.all_eq_true.1
      (List.all_takeWhile (p := Indentation.isGap) (l := lexer.cursor.rest)) d (hgap ▸ hd)
    have hall : ∀ d ∈ [' ', '\t', '\x0c'], Word.isPart d = false := by decide
    exact hall d (by simpa [Indentation.isGap, or_assoc] using hd)

theorem isPart_of_lineBreak {cs : List Char} (h : Cursor.lineBreak cs ≠ []) :
    ∀ c ∈ Cursor.lineBreak cs, Word.isPart c = false := by
  rcases (Coverage.lineBreak_cases h).1 with heq | heq | heq <;> rw [heq] <;> decide

theorem isLineBreak_of_isQuote {c : Char} (h : Quotation.isQuote c = true) :
    Lexer.isLineBreak c = false := by
  have hquotes : ∀ d ∈ ['\x27', '\x22'], Lexer.isLineBreak d = false := by decide
  exact hquotes c (by simpa [Quotation.isQuote] using h)

/-- A comment ends before a line break, and so before no quote. -/
theorem fresh_comment (before cs : List Char) :
    Fresh before (cs.dropWhile (!Lexer.isLineBreak ·)) := by
  have hends := head?_dropWhile (!Lexer.isLineBreak ·) cs
  refine fresh_of_next (Numerals.Bars.mono hends fun c hc => ?_)
    (Numerals.Bars.mono hends fun c hc => ?_) before
  · rw [Bool.not_eq_true']
    refine Bool.eq_false_iff.2 fun hbreak => ?_
    rw [Lookahead.isPart_of_isLineBreak hbreak] at hc
    cases hc
  · rw [isLineBreak_of_isQuote hc, Bool.not_false]

theorem getLast?_delimiter (quote : Char) (triple : Bool) :
    (delimiter quote triple).getLast? = some quote := by
  cases triple <;> rfl

/-- A lexeme is fresh in front of what follows it. -/
theorem fresh_lexeme {start : Cursor} {lexeme : Lexeme} {rest : List Char}
    (h : Lexeme.munch start = .ok lexeme) (hrest : start.rest = lexeme.chars ++ rest)
    (before : List Char) : Fresh (before ++ lexeme.chars) rest := by
  have hne := (Lexeme.isContent_of_munch h).chars_ne_nil
  cases Lexeme.accepted h with
  | string kind_eq =>
    obtain ⟨l, hchars, -⟩ := literal_of_munch h kind_eq
    refine fresh_of_last ?_ rest
    have hlast : lexeme.chars.getLast? = some l.quote := by
      simp [hchars, Literal.text, List.getLast?_append, getLast?_delimiter]
    rw [List.getLast?_append, hlast]
    exact Word.isPart_of_isQuote l.isQuote
  | number _ starts number_eq =>
    have hnumeral := Numerals.numeral_of_munch starts number_eq
    rw [hrest] at starts number_eq
    exact fresh_number hnumeral (Lookahead.local_number number_eq starts).1 before
  | word _ more whole first parts after unmarked =>
    obtain rfl := List.append_cancel_left (whole.symm.trans hrest)
    exact fresh_word hne parts after unmarked before
  | operator _ _ operator_eq =>
    have hall : ∀ entry ∈ Operator.table, ∀ c ∈ entry.1.toList, Word.isPart c = false := by decide
    obtain ⟨entry, hentry, -, hchars⟩ := Lexeme.exists_entry_of_operator operator_eq
    exact fresh_append hne (hchars ▸ hall entry hentry) before rest

theorem freshAt_of_emits {tabSize : Nat} {lexer next : Lexer} {tokens : List Token}
    (h : lexer.Emits tabSize tokens next) (fresh : FreshAt text lexer.cursor) :
    FreshAt text next.cursor := by
  have hhere := freshAt_here fresh
  cases h with
  | blank | same | deeper | shallower => exact hhere
  | join rest _ hrest broken =>
    refine hhere.skip fun before _ => ?_
    rw [hrest, Nat.add_comm, List.take_succ_cons, (Coverage.lineBreak_cases broken).2]
    refine fresh_append (List.cons_ne_nil _ _) ?_ before _
    exact List.forall_mem_cons.2 ⟨by decide, isPart_of_lineBreak broken⟩
  | lineBreak _ broken =>
    refine hhere.skip fun before _ => ?_
    rw [(Coverage.lineBreak_cases broken).2]
    exact fresh_append broken (isPart_of_lineBreak broken) before _
  | comment =>
    refine hhere.skip fun before _ => ?_
    have hrest := Cursor.rest_eatWhile (!Lexer.isLineBreak ·) lexer.here
    rw [Cursor.eatWhile, Cursor.rest_skip] at hrest
    rw [hrest]
    exact fresh_comment _ lexer.here.rest
  | lexeme c rest lexeme brackets _ _ munched _ =>
    refine hhere.skip fun before _ => ?_
    have hfront := (taken_munch munched).front
    rw [← List.prefix_iff_eq_take.1 hfront]
    exact fresh_lexeme munched (List.prefix_append_drop hfront) before

theorem freshAt_ofText (source : String) : FreshAt source.toList (Lexer.ofText source).cursor :=
  ⟨[], rfl, fresh_of_last rfl _⟩

/-! ## Where a literal is left open -/

theorem breaks_eq_zero {cs : List Char} (h : ∀ c ∈ cs, Lexer.isLineBreak c = false) :
    breaks cs = 0 := by
  induction cs with
  | nil => rfl
  | cons c cs ih =>
    obtain ⟨hc, hcs⟩ := List.forall_mem_cons.1 h
    have hcut : IsCut [c] cs := isCut_of_last (fun hlast => by
      obtain rfl : c = '\r' := Option.some.inj hlast
      cases hc) cs
    rw [breaks_cons hcut, hc, ih hcs]
    rfl

/-- A literal that a text leaves open: what stands before it, the letters that mark it, and a body
that is read up to where it can go on no more. -/
structure Unclosed (text : List Char) where
  before : List Char
  marks : List Char
  quote : Char
  triple : Bool
  body : List Char
  after : List Char
  whole : text = before ++ (marks ++ (delimiter quote triple ++ (body ++ after)))
  marks_eq : marks = marksAtEnd (before ++ marks)
  isQuote : Quotation.isQuote quote = true
  inside : Inside quote triple after body
  stops : Stops triple after

namespace Unclosed

/-- Where the literal starts, with the letters that mark it. -/
def start (u : Unclosed text) : Position := placeAfter u.before

/-- Where its reading stops. -/
def stop (u : Unclosed text) : Position :=
  placeAfter (u.before ++ (u.marks ++ delimiter u.quote u.triple) ++ u.body)

theorem isPart_of_marks (u : Unclosed text) : ∀ c ∈ u.marks, Word.isPart c = true := by
  intro c hc
  rw [u.marks_eq, marksAtEnd] at hc
  split at hc
  · exact List.mem_rtakeWhile_imp hc
  · cases hc

theorem isLineBreak_of_opening (u : Unclosed text) :
    ∀ c ∈ u.marks ++ delimiter u.quote u.triple, Lexer.isLineBreak c = false := by
  intro c hc
  rcases List.mem_append.1 hc with hc | hc
  · refine Bool.eq_false_iff.2 fun hbreak => ?_
    have hpart := u.isPart_of_marks c hc
    rw [Lookahead.isPart_of_isLineBreak hbreak] at hpart
    cases hpart
  · obtain rfl : c = u.quote := by
      unfold delimiter at hc
      split at hc <;> simpa using hc
    exact isLineBreak_of_isQuote u.isQuote

/-- The reading stops as many lines further as the body has line breaks. -/
theorem line_stop (u : Unclosed text) : u.stop.line = u.start.line + breaks u.body := by
  have hopening := u.isLineBreak_of_opening
  have hfront : IsCut u.before (u.marks ++ delimiter u.quote u.triple) := by
    rintro ⟨_, hfeed⟩
    cases hopening '\n' (List.mem_of_mem_head? hfeed)
  have hback : IsCut (u.before ++ (u.marks ++ delimiter u.quote u.triple)) u.body := by
    refine isCut_of_last ?_ u.body
    rw [List.getLast?_append, List.getLast?_append, getLast?_delimiter]
    intro hreturn
    obtain hquote : u.quote = '\r' := Option.some.inj hreturn
    have hisQuote := u.isQuote
    rw [hquote] at hisQuote
    cases hisQuote
  show 1 + breaks (u.before ++ (u.marks ++ delimiter u.quote u.triple) ++ u.body) =
    1 + breaks u.before + breaks u.body
  rw [breaks_append hback, breaks_append hfront, breaks_eq_zero hopening, Nat.add_zero,
    Nat.add_assoc]

/-- A literal that goes on to the end of the text is read up to there. -/
theorem stop_eq (u : Unclosed text) (h : u.after = []) : u.stop = placeAfter text := by
  have hwhole : text = u.before ++ (u.marks ++ delimiter u.quote u.triple) ++ u.body := by
    conv_lhs => rw [u.whole, h]
    simp
  rw [stop, ← hwhole]

end Unclosed

/-! ### There is one such literal -/

section Unique

variable {quote : Char} {triple : Bool} {after after' body body' : List Char}

theorem not_endsBody_slash (hquote : Quotation.isQuote quote = true) (cs : List Char) :
    ¬EndsBody quote triple ('\\' :: cs) := by
  rintro (hopens | hnil | ⟨_, hbreak⟩)
  · obtain ⟨rest, hrest⟩ : ∃ rest, delimiter quote triple = quote :: rest := by
      cases triple <;> exact ⟨_, rfl⟩
    rw [hrest] at hopens
    exact (ne_of_isQuote hquote).2 (List.cons_prefix_cons.1 hopens).1
  · cases hnil
  · cases hbreak

/-- Nothing is read of a body where it ends. -/
theorem inside_eq_nil (hquote : Quotation.isQuote quote = true)
    (h : Inside quote triple after body) (hends : EndsBody quote triple (body ++ after)) :
    body = [] := by
  cases h with
  | nil => rfl
  | pair | escape | last => exact (not_endsBody_slash hquote _ hends).elim
  | plain _ opens inline _ =>
    rcases hends with hopens | hnil | ⟨hsingle, hbreak⟩
    · exact (opens hopens).elim
    · cases hnil
    · have hplain := inline hsingle
      rw [List.cons_append, List.head?_cons, Option.any_some, hplain] at hbreak
      cases hbreak

/-- A text can be cut only once into a body and what ends it. -/
theorem inside_unique (hquote : Quotation.isQuote quote = true)
    (h : Inside quote triple after body) (hends : EndsBody quote triple after)
    (h' : Inside quote triple after' body') (hends' : EndsBody quote triple after')
    (heq : body ++ after = body' ++ after') : body = body' := by
  induction h generalizing body' with
  | nil => exact (inside_eq_nil hquote h' (heq ▸ hends)).symm
  | pair rest ih =>
    cases h' with
    | nil => cases inside_eq_nil hquote (.pair rest) (heq ▸ hends')
    | pair rest' => rw [ih rest' (by simpa using heq)]
    | escape alone rest' =>
      simp only [List.cons_append, List.cons.injEq] at heq
      obtain ⟨_, rfl, heq⟩ := heq
      rw [← heq] at alone
      exact (alone rfl rfl).elim
    | plain bare => exact (bare (List.cons.inj heq).1.symm).elim
    | last ends' => simp [ends'] at heq
  | escape alone rest ih =>
    cases h' with
    | nil => cases inside_eq_nil hquote (.escape alone rest) (heq ▸ hends')
    | pair rest' =>
      simp only [List.cons_append, List.cons.injEq] at heq
      obtain ⟨_, rfl, heq⟩ := heq
      rw [heq] at alone
      exact (alone rfl rfl).elim
    | escape alone' rest' =>
      simp only [List.cons_append, List.cons.injEq] at heq
      obtain ⟨_, rfl, heq⟩ := heq
      rw [ih rest' heq]
    | plain bare => exact (bare (List.cons.inj heq).1.symm).elim
    | last ends' => simp [ends'] at heq
  | plain bare opens inline rest ih =>
    cases h' with
    | nil => cases inside_eq_nil hquote (.plain bare opens inline rest) (heq ▸ hends')
    | pair | escape | last => exact (bare (List.cons.inj heq).1).elim
    | plain _ _ _ rest' =>
      obtain ⟨rfl, htail⟩ := List.cons.inj heq
      rw [ih rest' htail]
  | last ends =>
    cases h' with
    | nil =>
      have hslash : EndsBody quote triple (['\\'] ++ after) := by rw [heq]; exact hends'
      cases inside_eq_nil hquote (.last ends) hslash
    | pair | escape => simp [ends] at heq
    | plain bare => exact (bare (List.cons.inj heq).1.symm).elim
    | last => rfl

/-- Three quotes are not one quote and a body that is left open. -/
theorem delimiter_ne (hquote : Quotation.isQuote quote = true)
    (h : Inside quote false after body) (hstops : Stops false after) (cs : List Char) :
    delimiter quote true ++ cs ≠ delimiter quote false ++ (body ++ after) := by
  intro heq
  have hrest : quote :: quote :: cs = body ++ after := (List.cons.inj heq).2
  cases body with
  | nil =>
    obtain rfl : quote :: quote :: cs = after := hrest
    rcases hstops with hnil | ⟨_, hbreak⟩
    · cases hnil
    · rw [List.head?_cons, Option.any_some, isLineBreak_of_isQuote hquote] at hbreak
      cases hbreak
  | cons c body =>
    obtain rfl := (List.cons.inj hrest).1
    exact Literal.head_ne_of_inside hquote h rfl

end Unique

namespace Unclosed

theorem before_eq {u v : Unclosed text} (h : u.start = v.start) : u.before = v.before := by
  have hu := Text.takeBytes_append u.before
    (u.marks ++ (delimiter u.quote u.triple ++ (u.body ++ u.after)))
  have hv := Text.takeBytes_append v.before
    (v.marks ++ (delimiter v.quote v.triple ++ (v.body ++ v.after)))
  have hbytes : Text.byteLength u.before = Text.byteLength v.before := congrArg Position.offset h
  rw [← u.whole, hbytes] at hu
  rw [← v.whole] at hv
  exact Option.some.inj (hu.symm.trans hv)

theorem head?_delimiter (quote : Char) (triple : Bool) (cs : List Char) :
    (delimiter quote triple ++ cs).head? = some quote := by
  cases triple <;> rfl

theorem munch_opening (u : Unclosed text) (cs : List Char) :
    Word.munch (u.marks ++ (delimiter u.quote u.triple ++ cs)) = u.marks := by
  refine Word.munch_append u.isPart_of_marks ?_
  rw [head?_delimiter]
  exact Word.isPart_of_isQuote u.isQuote

/-- A text leaves open one literal at most that starts at a place. -/
theorem unique (u v : Unclosed text) (h : u.start = v.start) : u = v := by
  have hbefore := before_eq h
  have hrest : u.marks ++ (delimiter u.quote u.triple ++ (u.body ++ u.after)) =
      v.marks ++ (delimiter v.quote v.triple ++ (v.body ++ v.after)) := by
    have hwhole := u.whole.symm.trans v.whole
    rw [hbefore] at hwhole
    exact List.append_cancel_left hwhole
  have hmarks : u.marks = v.marks := by
    rw [← u.munch_opening (u.body ++ u.after), hrest, v.munch_opening]
  rw [hmarks] at hrest
  have hquoted := List.append_cancel_left hrest
  have hquote : u.quote = v.quote := by
    have hhead := congrArg List.head? hquoted
    rw [head?_delimiter, head?_delimiter] at hhead
    exact Option.some.inj hhead
  have htriple : u.triple = v.triple := by
    have hu := u.inside
    have hv := v.inside
    have hustops := u.stops
    have hvstops := v.stops
    rw [hquote] at hquoted hu
    generalize u.triple = ut at *
    generalize v.triple = vt at *
    cases ut <;> cases vt
    · rfl
    · exact (delimiter_ne v.isQuote hu hustops _ hquoted.symm).elim
    · exact (delimiter_ne v.isQuote hv hvstops _ hquoted).elim
    · rfl
  rw [hquote, htriple] at hquoted
  have hsplit := List.append_cancel_left hquoted
  have hbody : u.body = v.body := by
    have hinside := u.inside
    have hstops := u.stops
    rw [hquote, htriple] at hinside
    rw [htriple] at hstops
    exact inside_unique v.isQuote hinside (.inr hstops) v.inside (.inr v.stops) hsplit
  rw [hbody] at hsplit
  have hafter := List.append_cancel_left hsplit
  cases u
  cases v
  cases hbefore
  cases hmarks
  cases hquote
  cases htriple
  cases hbody
  cases hafter
  rfl

end Unclosed

theorem position_toEnd (h : Stands text cursor) : cursor.toEnd.position = placeAfter text := by
  have hcut : IsCut (cursor.rest.take cursor.rest.length)
      (cursor.rest.drop cursor.rest.length) := by
    rw [List.drop_length]
    rintro ⟨_, hfeed⟩
    cases hfeed
  obtain ⟨before, htext, _, hplace⟩ := stands_skip h hcut
  rw [Cursor.rest_skip, List.drop_length, List.append_nil] at htext
  rw [Cursor.toEnd, hplace, htext]

theorem marksAtEnd_self {marks : List Char} (hparts : ∀ c ∈ marks, Word.isPart c = true)
    (h : marks = [] ∨ Word.isStringMark marks = true) : marksAtEnd marks = marks := by
  have hword : lastWord marks = marks := lastWord_append [] hparts
  unfold marksAtEnd
  rw [hword]
  rcases h with rfl | hmark
  · rfl
  · exact if_pos hmark

/-- Where a lexer fails on a literal, no letters that mark it have been read before. -/
theorem exists_marks {source : String} {error : LexicalError}
    (h : (TokenStream.ofText source).error = some error)
    (hliteral : error.fault.isOfLiteral = true) :
    ∃ start before marks cs, Stands source.toList start ∧
      source.toList = before ++ (marks ++ cs) ∧ start.position = placeAfter before ∧
      error.position = start.position ∧ marks = marksAtEnd (before ++ marks) ∧
      Quoted start marks cs (.error error.fault) := by
  obtain ⟨last, fresh, stands, hposition, munched⟩ :=
    exists_failed freshAt_of_emits (freshAt_ofText source) h hliteral
  obtain ⟨cs, hrest, marked, opens, hquoted⟩ := quoted_of_fault munched hliteral
  obtain ⟨before, htext, _, hplace⟩ := id stands
  obtain ⟨front, hfront, hfresh⟩ := freshAt_here fresh
  obtain rfl := List.append_cancel_right (hfront.symm.trans htext)
  refine ⟨last.here, front, _, cs, stands, by rw [← hrest]; exact htext, hplace, hposition, ?_,
    hquoted⟩
  rw [hfresh cs hrest opens, marksAtEnd_self (Word.all_isPart_munch _) marked]

/-- **Open literals are located.** One literal at most is left open from a place on. If a text stops
being read at a literal without an end, then the error is placed at the first character of the
literal, its marks included. In triple quotes it names the line on which the reading of the literal
stopped. In single quotes it names the line on which the literal starts, and that is the same line
just if the body holds no protected line break. -/
theorem open_literals_are_located {source : String} {error : LexicalError}
    (h : (TokenStream.ofText source).error = some error) :
    (∀ u v : Unclosed source.toList, u.start = v.start → u = v) ∧
    (∀ line, error.fault = .unterminatedString line →
      ∃ u : Unclosed source.toList, u.triple = false ∧ error.position = u.start ∧
        line = u.start.line ∧ (line = u.stop.line ↔ breaks u.body = 0)) ∧
    ∀ line, error.fault = .unterminatedTripleQuoted line →
      ∃ u : Unclosed source.toList, u.triple = true ∧ error.position = u.start ∧
        line = u.stop.line := by
  refine ⟨Unclosed.unique, fun line hfault => ?_, fun line hfault => ?_⟩
  · obtain ⟨start, before, marks, cs, _, hwhole, hplace, hposition, marks_eq, hquoted⟩ :=
      exists_marks h (by rw [hfault]; rfl)
    rw [hfault] at hquoted
    cases hquoted with
    | refused l _ _ _ verdict =>
      rcases Literal.fault_of_verdict verdict with heq | ⟨_, heq⟩ <;> cases heq
    | single quote body after isQuote whole inside stops =>
      let u : Unclosed source.toList := ⟨before, marks, quote, false, body, after,
        by rw [hwhole, whole], marks_eq, isQuote, inside, stops⟩
      have hline : start.position.line = u.start.line := congrArg Position.line hplace
      refine ⟨u, rfl, hposition.trans hplace, hline, ?_⟩
      rw [hline, u.line_stop]
      omega
  · obtain ⟨start, before, marks, cs, stands, hwhole, hplace, hposition, marks_eq, hquoted⟩ :=
      exists_marks h (by rw [hfault]; rfl)
    rw [hfault] at hquoted
    cases hquoted with
    | refused l _ _ _ verdict =>
      rcases Literal.fault_of_verdict verdict with heq | ⟨_, heq⟩ <;> cases heq
    | triple quote body after isQuote whole inside stops =>
      let u : Unclosed source.toList := ⟨before, marks, quote, true, body, after,
        by rw [hwhole, whole], marks_eq, isQuote, inside, stops⟩
      have hafter : after = [] := stops.resolve_right fun hsingle => nomatch hsingle.1
      refine ⟨u, rfl, hposition.trans hplace, ?_⟩
      rw [position_toEnd stands, u.stop_eq hafter]

/-- A literal of raw bytes that is left open on the line after the one where it starts. -/
theorem raw_bytes_are_located :
    (TokenStream.ofText "x = Rb'a\\\r\nb\n").error =
      some ⟨.unterminatedString 1, ⟨1, 4, 4⟩⟩ ∧
    ∃ u : Unclosed "x = Rb'a\\\r\nb\n".toList, u.start = ⟨1, 4, 4⟩ ∧ u.start.line = 1 ∧
      (1 = u.stop.line ↔ breaks u.body = 0) := by
  have herror : (TokenStream.ofText "x = Rb'a\\\r\nb\n").error =
      some ⟨.unterminatedString 1, ⟨1, 4, 4⟩⟩ := by decide +kernel
  obtain ⟨u, _, hposition, hline, hstop⟩ := (open_literals_are_located herror).2.1 1 rfl
  exact ⟨herror, u, hposition.symm, hline.symm, hstop⟩

/-- A literal in single quotes that goes on over a protected line break names the line on which it
starts, though its reading stops on the next one. -/
theorem protected_break_is_not_counted : ∃ u : Unclosed "'a\\\nb\n".toList,
    (TokenStream.ofText "'a\\\nb\n").error = some ⟨.unterminatedString 1, u.start⟩ ∧
      u.stop.line = 2 := by
  have hinside : Inside '\x27' false ['\n'] ['a', '\\', '\n', 'b'] :=
    .plain (by decide) (by decide) (fun _ => rfl) <| .escape (by decide) <|
      .plain (by decide) (by decide) (fun _ => rfl) .nil
  let u : Unclosed "'a\\\nb\n".toList := ⟨[], [], '\x27', false, ['a', '\\', '\n', 'b'], ['\n'],
    by decide, by decide, rfl, hinside, .inr ⟨rfl, rfl⟩⟩
  have herror : (TokenStream.ofText "'a\\\nb\n").error =
      some ⟨.unterminatedString 1, ⟨1, 0, 0⟩⟩ := by decide +kernel
  exact ⟨u, herror, rfl⟩

end SnippetLint.OpenLiterals
