import SnippetLint.Proofs.Recoding

/-!
String literals, said without their readers. `Inside` holds of a body that is read from its opening
quotes up to what follows it without meeting its end, and `Literal` is a literal that has both. The
reader of literals stops only after one, and the check of literals, which starts over from the
finished text, cuts it where the reader did. Main statement: `literals_are_cut_alike`.
-/

namespace SnippetLint.Literals
open Quotation

/-! ## Bodies -/

/-- One quote, or three of them. -/
def delimiter (quote : Char) (triple : Bool) : List Char :=
  if triple then [quote, quote, quote] else [quote]

/-- What a literal goes on over: with `after` next to it, no part of the body ends the literal. -/
inductive Inside (quote : Char) (triple : Bool) (after : List Char) : List Char → Prop
  | nil : Inside quote triple after []
  /-- A carriage return and a line feed are protected together. -/
  | pair {cs : List Char} (rest : Inside quote triple after cs) :
      Inside quote triple after ('\\' :: '\r' :: '\n' :: cs)
  | escape {c : Char} {cs : List Char} (alone : c = '\r' → (cs ++ after).head? ≠ some '\n')
      (rest : Inside quote triple after cs) : Inside quote triple after ('\\' :: c :: cs)
  | plain {c : Char} {cs : List Char} (bare : c ≠ '\\')
      (opens : ¬delimiter quote triple <+: c :: (cs ++ after))
      (inline : triple = false → Lexer.isLineBreak c = false)
      (rest : Inside quote triple after cs) : Inside quote triple after (c :: cs)
  /-- A backslash at the end of the text protects nothing. -/
  | last (ends : after = []) : Inside quote triple after ['\\']

/-- Where a literal is left open: at the end of the text, or at a line break if it has one quote. -/
def Stops (triple : Bool) (after : List Char) : Prop :=
  after = [] ∨ triple = false ∧ after.head?.any Lexer.isLineBreak = true

/-- Where the reading of a body ends: at its closing quotes, or where it is left open. -/
def EndsBody (quote : Char) (triple : Bool) (after : List Char) : Prop :=
  delimiter quote triple <+: after ∨ Stops triple after

/-- How a body can be read: up to its closing quotes, or to where the literal is left open. -/
inductive Scanned (quote : Char) (triple : Bool) (cs : List Char) : Option (List Char) → Prop
  | closed (body after : List Char) (whole : cs = body ++ (delimiter quote triple ++ after))
      (inside : Inside quote triple (delimiter quote triple ++ after) body) :
      Scanned quote triple cs (some (body ++ delimiter quote triple))
  | stopped (body after : List Char) (whole : cs = body ++ after)
      (inside : Inside quote triple after body) (stops : Stops triple after) :
      Scanned quote triple cs none

variable {quote : Char} {triple : Bool} {cs after : List Char}

/-- A body may be continued to the left wherever that does not change how it is read. -/
theorem Scanned.more (piece : List Char) {result : Option (List Char)}
    (h : Scanned quote triple cs result)
    (step : ∀ body after, cs = body ++ after → EndsBody quote triple after →
      Inside quote triple after body → Inside quote triple after (piece ++ body)) :
    Scanned quote triple (piece ++ cs) (result.map (piece ++ ·)) := by
  cases h with
  | closed body after whole inside =>
    have hmore := step body _ whole (.inl (List.prefix_append _ _)) inside
    rw [Option.map_some, ← List.append_assoc]
    exact .closed (piece ++ body) after (by rw [whole, List.append_assoc]) hmore
  | stopped body after whole inside stops =>
    have hmore := step body after whole (.inr stops) inside
    exact .stopped (piece ++ body) after (by rw [whole, List.append_assoc]) hmore stops

/-- A backslash that protects nothing stands at the end of the text. -/
theorem eq_nil_of_slash {c : Char} (h : ∀ d ds, c = '\\' → cs = d :: ds → False)
    (hslash : c = '\\') : cs = [] := by
  cases cs with
  | nil => rfl
  | cons d ds => exact (h d ds hslash rfl).elim

theorem scanned_untilQuote (quote : Char) (cs : List Char) :
    Scanned quote false cs (untilQuote quote cs) := by
  fun_induction untilQuote quote cs with
  | case1 cs ih => exact ih.more ['\\', '\r', '\n'] fun _ _ _ _ inside => .pair inside
  | case2 c cs hother ih =>
    refine ih.more ['\\', c] fun body after whole _ inside => .escape ?_ inside
    rintro rfl hfeed
    obtain ⟨rest, hrest⟩ := List.head?_eq_some_iff.1 hfeed
    exact hother rest rfl (whole.trans hrest)
  | case3 c cs _ _ hbreak =>
    refine .stopped [] (c :: cs) rfl .nil (.inr ⟨rfl, ?_⟩)
    simpa [Lexer.isLineBreak] using hbreak
  | case4 cs => exact .closed [] cs rfl .nil
  | case5 c cs _ hescape hbreak hquote ih =>
    by_cases hslash : c = '\\'
    · rw [eq_nil_of_slash hescape hslash, hslash]
      exact .stopped ['\\'] [] rfl (.last rfl) (.inl rfl)
    · refine ih.more [c] fun body after _ _ inside => .plain hslash ?_ ?_ inside
      · intro hopens
        exact hquote (List.cons_prefix_cons.1 hopens).1.symm
      · intro _
        simpa [Lexer.isLineBreak] using hbreak
  | case6 => exact .stopped [] [] rfl .nil (.inl rfl)

theorem delimiter_triple_prefix_iff {c : Char} :
    delimiter quote true <+: c :: cs ↔ c = quote ∧ cs.take 2 = [quote, quote] := by
  rw [delimiter, if_pos rfl, List.cons_prefix_cons, List.prefix_iff_eq_take]
  exact and_congr eq_comm eq_comm

/-- A carriage return keeps its line feed: neither ends a literal in triple quotes. -/
theorem Inside.pair_of_feed {body : List Char} (hquote : quote ≠ '\n')
    (hends : EndsBody quote true after)
    (hfeed : (body ++ after).head? = some '\n') (h : Inside quote true after body) :
    Inside quote true after (['\\', '\r'] ++ body) := by
  cases h with
  | nil =>
    exfalso
    obtain ⟨rest, hafter⟩ := List.head?_eq_some_iff.1 hfeed
    obtain rfl : after = '\n' :: rest := hafter
    rcases hends with hopens | hnil | ⟨hsingle, _⟩
    · exact hquote (delimiter_triple_prefix_iff.1 hopens).1.symm
    · cases hnil
    · cases hsingle
  | pair | escape | last => cases hfeed
  | plain _ _ _ rest =>
    cases hfeed
    exact .pair rest

theorem scanned_untilTripleQuote (hquote : quote ≠ '\n') (cs : List Char) :
    Scanned quote true cs (untilTripleQuote quote cs) := by
  fun_induction untilTripleQuote quote cs with
  | case1 c cs ih =>
    refine ih.more ['\\', c] fun body after whole hends inside => ?_
    by_cases hpair : c = '\r' ∧ (body ++ after).head? = some '\n'
    · obtain ⟨rfl, hfeed⟩ := hpair
      exact inside.pair_of_feed hquote hends hfeed
    · exact .escape (fun hreturn hfeed => hpair ⟨hreturn, hfeed⟩) inside
  | case2 c cs _ hopens =>
    obtain ⟨rfl, htake⟩ := hopens
    refine .closed [] (cs.drop 2) ?_ .nil
    simp only [delimiter, if_pos, List.nil_append, List.cons_append]
    rw [← List.take_append_drop 2 cs, htake]
    rfl
  | case3 c cs hescape hopens ih =>
    by_cases hslash : c = '\\'
    · rw [eq_nil_of_slash hescape hslash, hslash]
      exact .stopped ['\\'] [] rfl (.last rfl) (.inl rfl)
    · refine ih.more [c] fun body after whole _ inside => .plain hslash ?_ Bool.noConfusion inside
      intro hnext
      exact hopens (delimiter_triple_prefix_iff.1 (whole ▸ hnext))
  | case4 => exact .stopped [] [] rfl .nil (.inl rfl)

/-! ## Literals -/

theorem ne_of_isQuote (h : isQuote quote = true) : quote ≠ '\n' ∧ quote ≠ '\\' := by
  constructor
  · rintro rfl
    cases h
  · rintro rfl
    cases h

/-- How a text that starts with a quote can be read. -/
inductive Read (cs : List Char) : Except Open (List Char) → Prop
  | closed (quote : Char) (triple : Bool) (body after : List Char)
      (isQuote : isQuote quote = true)
      (whole : cs = delimiter quote triple ++ (body ++ (delimiter quote triple ++ after)))
      (inside : Inside quote triple (delimiter quote triple ++ after) body) :
      Read cs (.ok (delimiter quote triple ++ (body ++ delimiter quote triple)))
  | stopped (quote : Char) (triple : Bool) (body after : List Char)
      (isQuote : isQuote quote = true) (whole : cs = delimiter quote triple ++ (body ++ after))
      (inside : Inside quote triple after body) (stops : Stops triple after) :
      Read cs (.error (if triple then .triple else .single))

/-- What is made of a body that has been read. -/
def finished (quote : Char) (triple : Bool) : Option (List Char) → Except Open (List Char)
  | some tail => .ok (delimiter quote triple ++ tail)
  | none => .error (if triple then .triple else .single)

theorem Scanned.read {result : Option (List Char)} (hquote : isQuote quote = true)
    (h : Scanned quote triple cs result) :
    Read (delimiter quote triple ++ cs) (finished quote triple result) := by
  cases h with
  | closed body after whole inside =>
    exact .closed quote triple body after hquote (by rw [whole]) inside
  | stopped body after whole inside stops =>
    exact .stopped quote triple body after hquote (by rw [whole]) inside stops

/-- The number of quotes in front decides how a body is read. -/
theorem read_munch (h : cs.head?.any isQuote = true) : Read cs (munch cs) := by
  obtain ⟨quote, hhead, hquote⟩ := (Option.any_eq_true _ _).1 h
  obtain ⟨rest, rfl⟩ := List.head?_eq_some_iff.1 hhead
  unfold munch
  dsimp only
  by_cases htriple : rest.take 2 = [quote, quote]
  · have hread := (scanned_untilTripleQuote (ne_of_isQuote hquote).1 (rest.drop 2)).read hquote
    have hwhole : delimiter quote true ++ rest.drop 2 = quote :: rest := by
      conv_rhs => rw [← List.take_append_drop 2 rest, htriple]
      rfl
    rw [hwhole] at hread
    rw [if_pos htriple]
    exact hread
  · rw [if_neg htriple]
    exact (scanned_untilQuote quote rest).read hquote

/-- Whether a body goes on is decided by its closing quotes, not by what comes after them. -/
theorem Inside.shorten {body more : List Char}
    (h : Inside quote triple (delimiter quote triple ++ more) body) :
    Inside quote triple (delimiter quote triple) body := by
  have hne : delimiter quote triple ≠ [] := by
    unfold delimiter
    split <;> exact List.cons_ne_nil _ _
  have hhead : ∀ cs : List Char, (cs ++ (delimiter quote triple ++ more)).head? =
      (cs ++ delimiter quote triple).head? := by
    intro cs
    rw [← List.append_assoc, List.head?_append_of_ne_nil _ (by simp [hne])]
  induction h with
  | nil => exact .nil
  | pair _ ih => exact .pair ih
  | escape alone _ ih => exact .escape (fun hreturn => hhead _ ▸ alone hreturn) ih
  | plain bare opens inline _ ih =>
    refine .plain bare (fun hopens => opens (hopens.trans ?_)) inline ih
    rw [← List.append_assoc]
    exact List.cons_prefix_cons.2 ⟨rfl, List.prefix_append _ _⟩
  | last ends => exact absurd ends (by simp [hne])

/-- What may stand before the quotes of a literal, in small letters. -/
def spellings : List (List Char) :=
  ["", "r", "u", "b", "f", "br", "rb", "fr", "rf"].map String.toList

/-- A finished string literal: what stands before its quotes, and what stands between them. -/
structure Literal where
  marks : List Char
  quote : Char
  triple : Bool
  body : List Char
  isMarks : marks.map Char.toLower ∈ spellings
  isQuote : isQuote quote = true
  inside : Inside quote triple (delimiter quote triple) body

theorem toLower_eq_iff {c letter : Char} (h : letter.isLower = true) :
    c.toLower = letter ↔ c = letter ∨ c = letter.toUpper := by
  have hletter : 97 ≤ letter.toNat ∧ letter.toNat ≤ 122 := by
    delta Char.isLower at h
    simpa [UInt32.le_iff_toNat_le] using h
  have hupper : letter.toUpper.toNat = letter.toNat - 32 := by
    delta Char.toUpper
    simp [UInt32.le_iff_toNat_le, hletter, Char.toNat_mk]
    omega
  have hlower : c.toLower.toNat =
      if 65 ≤ c.toNat ∧ c.toNat ≤ 90 then c.toNat + 32 else c.toNat := by
    delta Char.toLower
    simp [UInt32.le_iff_toNat_le]
    split
    · simp
      omega
    · rfl
  rw [← Char.toNat_inj, ← Char.toNat_inj, ← Char.toNat_inj, hupper, hlower]
  split <;> omega

namespace Literal

def text (l : Literal) : List Char :=
  l.marks ++ (delimiter l.quote l.triple ++ (l.body ++ delimiter l.quote l.triple))

/-- Whether the marks hold a letter, small or capital. -/
def HasMark (l : Literal) (letter : Char) : Prop := letter ∈ l.marks ∨ letter.toUpper ∈ l.marks

instance (l : Literal) (letter : Char) : Decidable (l.HasMark letter) :=
  inferInstanceAs (Decidable (_ ∨ _))

/-- What is wrong with a literal: text that is not ASCII in a literal of bytes, or the fields of a
formatted one. -/
def verdict (l : Literal) : Except LexicalFault Unit :=
  if l.HasMark 'b' ∧ (l.body.any fun c => 128 ≤ c.toNat) = true then .error .nonAsciiBytes
  else if l.HasMark 'f' then (Template.check (l.HasMark 'r') l.body).mapError .template
  else .ok ()

/-! ### The check of literals -/

theorem any_isQuote_marks (l : Literal) : l.marks.any Quotation.isQuote = false := by
  have hletters : ∀ marks ∈ spellings, ∀ c ∈ marks, Quotation.isQuote c = false := by decide
  refine List.any_eq_false.2 fun c hc hquote => ?_
  have hlower := hletters _ l.isMarks c.toLower (List.mem_map_of_mem hc)
  have hsame : c.toLower = c := by
    simp only [Quotation.isQuote, Bool.or_eq_true, beq_iff_eq] at hquote
    rcases hquote with rfl | rfl <;> rfl
  rw [hsame, hquote] at hlower
  cases hlower

/-- The body of a literal in single quotes does not begin with its quote. -/
theorem head_ne_of_inside {body : List Char} (hquote : Quotation.isQuote quote = true)
    (h : Inside quote false after body) : body.head? ≠ some quote := by
  have hslash := (ne_of_isQuote hquote).2
  cases h with
  | nil => exact Option.some_ne_none _ ∘ Eq.symm
  | pair | escape | last => exact fun hhead => hslash (Option.some.inj hhead).symm
  | plain _ opens _ _ =>
    intro hhead
    obtain rfl := Option.some.inj hhead
    exact opens (List.cons_prefix_cons.2 ⟨rfl, List.nil_prefix⟩)

theorem delimited (l : Literal) :
    Recoding.Delimited (delimiter l.quote l.triple ++ (l.body ++ delimiter l.quote l.triple))
      l.body := by
  obtain ⟨_, quote, triple, body, _, hquote, inside⟩ := l
  rw [← List.append_assoc]
  cases triple with
  | true => exact .triple quote body hquote
  | false =>
    refine .single quote body hquote fun htwo => ?_
    cases body with
    | nil => cases htwo
    | cons c body => exact head_ne_of_inside hquote inside (congrArg List.head? htwo)

/-- A literal is cut into its marks and its body. -/
theorem ofLexeme?_text (l : Literal) : Parts.ofLexeme? l.text = some ⟨l.marks, l.body⟩ :=
  Recoding.parts_of_delimited l.delimited l.any_isQuote_marks

theorem hasMark_iff (l : Literal) {letter : Char} (h : letter.isLower = true) :
    (⟨l.marks, l.body⟩ : Parts).hasMark letter = true ↔ l.HasMark letter := by
  simp only [Parts.hasMark, List.any_eq_true, beq_iff_eq, toLower_eq_iff h, HasMark]
  constructor
  · rintro ⟨c, hc, rfl | rfl⟩
    · exact .inl hc
    · exact .inr hc
  · rintro (hc | hc)
    · exact ⟨_, hc, .inl rfl⟩
    · exact ⟨_, hc, .inr rfl⟩

theorem isBytes_text (l : Literal) : isBytes l.text = true ↔ l.HasMark 'b' := by
  unfold isBytes
  rw [ofLexeme?_text]
  exact l.hasMark_iff rfl

/-- The check sees the marks and the body. -/
theorem check_text (l : Literal) : check l.text = l.verdict := by
  have hascii : l.body.all isAscii = false ↔ (l.body.any fun c => 128 ≤ c.toNat) = true := by
    simp [List.all_eq_false, isAscii]
  have hraw : (⟨l.marks, l.body⟩ : Parts).hasMark 'r' = decide (l.HasMark 'r') :=
    Bool.eq_iff_iff.2 ((l.hasMark_iff rfl).trans decide_eq_true_iff.symm)
  have hbytes : (⟨l.marks, l.body⟩ : Parts).hasMark 'b' = true ↔ _ := l.hasMark_iff rfl
  have hformat : (⟨l.marks, l.body⟩ : Parts).hasMark 'f' = true ↔ _ := l.hasMark_iff rfl
  unfold check verdict
  rw [ofLexeme?_text]
  dsimp only
  rw [hraw]
  simp only [Bool.and_eq_true, Bool.not_eq_true', hascii, hbytes, hformat]

theorem fault_of_verdict {l : Literal} {fault : LexicalFault} (h : l.verdict = .error fault) :
    fault = .nonAsciiBytes ∨ ∃ t, fault = .template t := by
  unfold verdict at h
  split at h
  · cases h
    exact .inl rfl
  · split at h
    · cases htemplate : Template.check (l.HasMark 'r') l.body with
      | error t =>
        rw [htemplate] at h
        cases h
        exact .inr ⟨t, rfl⟩
      | ok _ =>
        rw [htemplate] at h
        cases h
    · cases h

end Literal

/-! ## Along the tokens -/

/-- A word that marks a string may stand before a literal. -/
theorem map_toLower_mem {marks : List Char} (h : marks = [] ∨ Word.isStringMark marks = true) :
    marks.map Char.toLower ∈ spellings := by
  rcases h with rfl | h
  · exact List.mem_cons_self
  · exact List.mem_cons_of_mem _ (List.contains_iff_mem.1 h)

/-- What the literal with these marks and this text behind them gives. -/
inductive Quoted (start : Cursor) (marks cs : List Char) : Except LexicalFault Lexeme → Prop
  | accepted (l : Literal) (after : List Char) (whole : marks ++ cs = l.text ++ after)
      (verdict : l.verdict = .ok ()) : Quoted start marks cs (.ok ⟨.string, l.text⟩)
  | refused (l : Literal) (after : List Char) (fault : LexicalFault)
      (whole : marks ++ cs = l.text ++ after) (verdict : l.verdict = .error fault) :
      Quoted start marks cs (.error fault)
  | single (quote : Char) (body after : List Char) (isQuote : isQuote quote = true)
      (whole : cs = delimiter quote false ++ (body ++ after))
      (inside : Inside quote false after body) (stops : Stops false after) :
      Quoted start marks cs (.error (.unterminatedString start.position.line))
  | triple (quote : Char) (body after : List Char) (isQuote : isQuote quote = true)
      (whole : cs = delimiter quote true ++ (body ++ after))
      (inside : Inside quote true after body) (stops : Stops true after) :
      Quoted start marks cs (.error (.unterminatedTripleQuoted start.toEnd.position.line))

variable {start : Cursor}

theorem quoted_quotation {marks : List Char}
    (marked : marks = [] ∨ Word.isStringMark marks = true) (h : cs.head?.any isQuote = true) :
    Quoted start marks cs (Lexeme.quotation start marks cs) := by
  have hread := read_munch h
  unfold Lexeme.quotation
  generalize munch cs = result at hread
  cases hread with
  | closed quote triple body after hquote whole inside =>
    let l : Literal := ⟨marks, quote, triple, body, map_toLower_mem marked, hquote, inside.shorten⟩
    have hwhole : marks ++ cs = l.text ++ after := by simp [whole, l, Literal.text]
    have hcheck : check (marks ++ (delimiter quote triple ++ (body ++ delimiter quote triple))) =
        l.verdict := l.check_text
    dsimp only
    rw [hcheck]
    cases hverdict : l.verdict with
    | ok _ => exact .accepted l after hwhole hverdict
    | error fault => exact .refused l after fault hwhole hverdict
  | stopped quote triple body after hquote whole inside stops =>
    cases triple with
    | true => exact .triple quote body after hquote whole inside stops
    | false => exact .single quote body after hquote whole inside stops

/-- A string token is a literal in order. -/
theorem literal_of_munch {lexeme : Lexeme} (h : Lexeme.munch start = .ok lexeme)
    (hkind : lexeme.kind = .string) :
    ∃ l : Literal, lexeme.chars = l.text ∧ l.verdict = .ok () := by
  cases Lexeme.accepted h with
  | string _ marks cs _ marked opens quotation_eq =>
    have hquoted : Quoted start marks cs _ := quoted_quotation marked opens
    rw [quotation_eq] at hquoted
    cases hquoted with
    | accepted l _ _ verdict => exact ⟨l, rfl, verdict⟩
  | number kind_eq => cases kind_eq.symm.trans hkind
  | operator _ kind_eq => cases kind_eq.symm.trans hkind
  | word kind_eq =>
    rcases Word.kind_cases lexeme.chars with hword | ⟨_, hword⟩
    · cases hkind.symm.trans (kind_eq.trans hword)
    · cases hkind.symm.trans (kind_eq.trans hword)

/-- What is wrong with a literal is found by reading one. -/
theorem quoted_of_fault {fault : LexicalFault} (h : Lexeme.munch start = .error fault)
    (hliteral : fault.isOfLiteral = true) :
    ∃ cs, start.rest = Word.munch start.rest ++ cs ∧
      (Word.munch start.rest = [] ∨ Word.isStringMark (Word.munch start.rest) = true) ∧
      cs.head?.any isQuote = true ∧ Quoted start (Word.munch start.rest) cs (.error fault) := by
  cases Lexeme.munched start with
  | literal marks cs whole marks_eq marked opens munch_eq =>
    subst marks_eq
    refine ⟨cs, whole, marked, opens, ?_⟩
    rw [← h, munch_eq]
    exact quoted_quotation marked opens
  | number _ _ _ munch_eq => cases munch_eq.symm.trans h
  | word _ _ _ _ _ _ _ munch_eq => cases munch_eq.symm.trans h
  | operator _ _ munch_eq => cases munch_eq.symm.trans h
  | stray _ isStray munch_eq =>
    cases munch_eq.symm.trans h
    cases fault <;> cases hliteral <;> cases isStray

/-- A lexer fails on a literal where the literal starts, and what every step keeps holds there. -/
theorem exists_failed {P : Lexer → Prop} {source : String} {error : LexicalError}
    (keeps : ∀ {lexer next : Lexer} {tokens : List Token},
      lexer.Emits TokenStream.tabSize tokens next → P lexer → P next)
    (hstart : P (.ofText source)) (h : (TokenStream.ofText source).error = some error)
    (hliteral : error.fault.isOfLiteral = true) :
    ∃ last : Lexer, P last ∧ Places.Stands source.toList last.here ∧
      error.position = last.here.position ∧ Lexeme.munch last.here = .error error.fault := by
  obtain ⟨last, ⟨hlast, sound⟩, fails⟩ :=
    (TokenStream.lexes_withTabs TokenStream.tabSize source).exists_fail
      (P := fun lexer => P lexer ∧ Places.Sound source.toList lexer)
      (fun emits hlexer => ⟨keeps emits hlexer.1, (Places.sound_of_emits emits hlexer.2).2⟩)
      ⟨hstart, Places.sound_ofText source⟩ h
  obtain ⟨munched, hposition⟩ := Lexer.munch_of_fail fails hliteral
  exact ⟨last, hlast, Places.stands_here sound.stands, hposition, munched⟩

/-- **Literals are cut alike.** Every string token is a literal: marks, one or three quotes, a body
in which nothing unprotected ends it, and the same quotes. The check of literals starts over from
the whole lexeme and finds the same marks and the same body, so bytes are told by the marks alone
and the faults of a literal, with which the reading of a text ends at its first character, are
those of its body. -/
theorem literals_are_cut_alike (source : String) :
    (∀ l : Literal, Parts.ofLexeme? l.text = some ⟨l.marks, l.body⟩ ∧
      (isBytes l.text = true ↔ 'b' ∈ l.marks ∨ 'B' ∈ l.marks) ∧ check l.text = l.verdict) ∧
    (∀ token ∈ (TokenStream.ofText source).tokens, token.kind = .string →
      ∃ l : Literal, token.lexeme.toList = l.text ∧ l.verdict = .ok ()) ∧
    ∀ error, (TokenStream.ofText source).error = some error →
      (error.fault = .nonAsciiBytes ∨ ∃ fault, error.fault = .template fault) →
      ∃ (before : List Char) (l : Literal) (after : List Char),
        source.toList = before ++ (l.text ++ after) ∧
        error.position = Places.placeAfter before ∧ l.verdict = .error error.fault := by
  refine ⟨fun l => ⟨l.ofLexeme?_text, l.isBytes_text, l.check_text⟩, ?_, ?_⟩
  · intro token htoken hkind
    obtain ⟨start, lexeme, munched, hsame, hshown⟩ :=
      Places.exists_lexeme (TokenStream.lexes_withTabs TokenStream.tabSize source) htoken
        (by rw [hkind]; rfl) (by rw [hkind]; rfl)
    rw [hshown]
    exact literal_of_munch munched (hsame.symm.trans hkind)
  · intro error herror hfault
    have hliteral : error.fault.isOfLiteral = true := by
      rcases hfault with heq | ⟨fault, heq⟩ <;> rw [heq] <;> rfl
    obtain ⟨last, _, ⟨before, htext, _, hplace⟩, hposition, munched⟩ :=
      exists_failed (P := fun _ => True) (fun _ _ => trivial) trivial herror hliteral
    obtain ⟨cs, hwhole, _, _, hquoted⟩ := quoted_of_fault munched hliteral
    generalize error.fault = fault at hfault hquoted
    cases hquoted with
    | refused l after _ whole verdict =>
      exact ⟨before, l, after, by rw [htext, hwhole, whole], hposition.trans hplace, verdict⟩
    | single | triple => rcases hfault with heq | ⟨_, heq⟩ <;> cases heq

/-- Of four quotes at the end the first one is protected, and belongs to the body. -/
example : Parts.ofLexeme? "Br\x27\x27\x27\\\x27\x27\x27\x27".toList =
    some ⟨['B', 'r'], ['\\', '\x27']⟩ := by decide

end SnippetLint.Literals
