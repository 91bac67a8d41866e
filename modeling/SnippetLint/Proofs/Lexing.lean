import SnippetLint.Proofs.Cursor
import SnippetLint.Token.Stream

/-!
What a lexer does, step by step. `Lexeme.Munched` says what can stand at a cursor and
`Lexeme.Accepted` what has been read there; `Lexer.Emits` lists the ways in which a step gives
tokens, with what it reads and what it checks, and `Lexer.emits_of_step` says that there are no
others. Every step makes the lexer's fuel smaller, so the fuel never runs out: a stream is a
`Lexer.Lexes` derivation, and facts about streams are proved by induction on it.
-/

namespace SnippetLint

/-- What holds of every character of a list is decided along the list, not along all characters. -/
instance decidableForallMem {p : Char → Prop} [DecidablePred p] (cs : List Char) :
    Decidable (∀ c ∈ cs, p c) := cs.decidableBAll p

/-- What satisfies `p` at the front of a text, where it ends with that. -/
theorem takeWhile_front {p : Char → Bool} {front cs : List Char}
    (hfront : ∀ c ∈ front, p c = true) (hcs : cs.head?.any p = false) :
    (front ++ cs).takeWhile p = front := by
  rw [List.takeWhile_append_of_pos hfront]
  cases cs with
  | nil => exact List.append_nil front
  | cons c cs =>
    have hc : ¬ p c = true := Bool.eq_false_iff.1 hcs
    rw [List.takeWhile_cons_of_neg hc, List.append_nil]

theorem head?_dropWhile (p : Char → Bool) (cs : List Char) :
    (cs.dropWhile p).head?.any p = false := by
  induction cs with
  | nil => rfl
  | cons c cs ih =>
    rw [List.dropWhile_cons]
    split
    · exact ih
    · next hc => exact Bool.eq_false_iff.2 hc

namespace Word

theorem isPart_of_isDigit {c : Char} (h : c.isDigit = true) : isPart c = true := by
  have hall : ∀ n < 58, 48 ≤ n → isPart (Char.ofNat n) = true := by decide
  have hrange : 48 ≤ c.toNat ∧ c.toNat ≤ 57 := by
    simpa [Char.isDigit, UInt32.le_iff_toNat_le] using h
  have hpart := hall c.toNat (by omega) hrange.1
  rwa [Char.ofNat_toNat] at hpart

/-- The word at the front of a text, if it ends with it or where no part of a word follows. -/
theorem munch_append {word rest : List Char} (hword : ∀ c ∈ word, isPart c = true)
    (hrest : rest.head?.any isPart = false) : munch (word ++ rest) = word :=
  takeWhile_front hword hrest

theorem munch_eq_nil_iff {rest : List Char} :
    munch rest = [] ↔ rest.head?.any isPart = false := by
  cases rest with
  | nil => simp [munch]
  | cons c rest => simp [munch, List.takeWhile_cons]

/-- Cut after its first word, a text goes on with no part of one. -/
theorem munch_append_drop (cs : List Char) :
    munch cs ++ cs.drop (munch cs).length = cs ∧
      (cs.drop (munch cs).length).head?.any isPart = false := by
  have hwhole : munch cs ++ cs.drop (munch cs).length = cs :=
    List.prefix_iff_eq_append.1 (List.takeWhile_prefix isPart)
  have hsplit : munch cs ++ cs.dropWhile isPart = cs := List.takeWhile_append_dropWhile
  have hdrop := List.append_cancel_left (hwhole.trans hsplit.symm)
  exact ⟨hwhole, hdrop ▸ head?_dropWhile isPart cs⟩

theorem all_isPart_munch (cs : List Char) : ∀ c ∈ munch cs, isPart c = true :=
  List.all_eq_true.1 List.all_takeWhile

/-- A word is a name or a keyword. -/
theorem kind_cases (word : List Char) :
    kind word = .name ∨ ∃ keyword, kind word = .keyword keyword := by
  unfold kind
  split
  · exact .inr ⟨_, rfl⟩
  · exact .inl rfl

theorem isPart_of_isQuote {c : Char} (h : Quotation.isQuote c = true) : isPart c = false := by
  have hquotes : ∀ d ∈ ['\x27', '\x22'], isPart d = false := by decide
  exact hquotes c (by simpa [Quotation.isQuote] using h)

end Word

/-- What can be wrong with a number, or with a character that starts nothing. -/
def LexicalFault.isStray : LexicalFault → Bool
  | .invalidNumber _ | .leadingZeros | .invalidCharacter _ | .unexpectedEnd => true
  | _ => false

/-- What can be wrong with a string literal. -/
def LexicalFault.isOfLiteral : LexicalFault → Bool
  | .unterminatedString _ | .unterminatedTripleQuoted _ | .template _ | .nonAsciiBytes => true
  | _ => false

namespace Lexeme

/-- A word that marks no string literal. -/
theorem word_eq_ok {a : Cursor} {word rest : List Char} (ha : a.rest = word ++ rest)
    (hword : ∀ c ∈ word, Word.isPart c = true) (hrest : rest.head?.any Word.isPart = false)
    (hmark : (Word.isStringMark word && rest.head?.any Quotation.isQuote) = false) :
    Lexeme.word a = .ok ⟨Word.kind word, word⟩ := by
  unfold Lexeme.word
  dsimp only
  rw [ha, Word.munch_append hword hrest, List.drop_left, hmark, if_neg Bool.false_ne_true]

/-- A token that belongs to a logical line: it has text, and is no mark of the layout. -/
structure IsContent (lexeme : Lexeme) : Prop where
  chars_ne_nil : lexeme.chars ≠ []
  not_layout : lexeme.kind.isLayout = false
  not_trivia : lexeme.kind.isTrivia = false

theorem isStray_of_operator {cs : List Char} {fault : LexicalFault}
    (h : operator cs = .error fault) : fault.isStray = true := by
  unfold operator at h
  split at h
  · cases h
  · split at h
    · cases h
      rfl
    · cases h
      rfl

theorem quotation_ne_nil {cs quoted : List Char} (h : Quotation.munch cs = .ok quoted) :
    quoted ≠ [] := by
  unfold Quotation.munch at h
  split at h
  · split at h
    · split at h <;> cases h
      exact List.cons_ne_nil _ _
    · split at h <;> cases h
      exact List.cons_ne_nil _ _
  · cases h

theorem isContent_of_quotation {start : Cursor} {marks cs : List Char} {lexeme : Lexeme}
    (h : quotation start marks cs = .ok lexeme) : lexeme.IsContent := by
  unfold quotation at h
  split at h
  · cases h
  · cases h
  · next quoted found =>
    cases hc : Quotation.check (marks ++ quoted) with
    | error fault => rw [hc] at h; cases h
    | ok _ =>
      rw [hc] at h
      cases h
      exact ⟨by simp [quotation_ne_nil found], rfl, rfl⟩

end Lexeme

namespace Number

/-- Without a digit after it an underscore is a character like any other. -/
theorem digitTail_cons {isDigit : Char → Bool} {c : Char} {cs : List Char}
    (h : c = '_' → cs = []) : digitTail isDigit (c :: cs) =
      if isDigit c = true then (c :: (digitTail isDigit cs).1, (digitTail isDigit cs).2)
      else ([], c :: cs) := by
  rw [digitTail]
  rintro d ds rfl rfl
  cases h rfl

theorem optional_cases {p : Char → Bool} {cs taken left : List Char}
    (h : optional p cs = (taken, left)) : taken = [] ∨ ∃ c, taken = [c] ∧ p c = true := by
  unfold optional at h
  split at h
  · next c cs =>
    split at h
    · next hc =>
      cases h
      exact .inr ⟨c, rfl, hc⟩
    · cases h
      exact .inl rfl
  · cases h
    exact .inl rfl

theorem munch_eq_decimal {cs : List Char}
    (h : ∀ mark tail, cs = '0' :: mark :: tail → baseOf? mark = none) : munch cs = decimal cs := by
  unfold munch
  split
  · next mark tail => rw [h mark tail rfl]
  · rfl

/-- A number starts with a digit or a point. -/
theorem first_of_starts {c : Char} {cs : List Char} (h : starts (c :: cs) = true) :
    isDecimal c = true ∨ c = '.' := by
  simp only [starts, Bool.or_eq_true, Bool.and_eq_true, beq_iff_eq] at h
  exact h.imp_right And.left

theorem starts_append {number : List Char} (h : starts number = true) (cs : List Char) :
    starts (number ++ cs) = true := by
  rcases number with _ | ⟨c, _ | ⟨d, number⟩⟩
  · cases h
  · rw [starts, List.head?_nil, Option.any_none, Bool.and_false, Bool.or_false] at h
    rw [List.singleton_append, starts, h, Bool.true_or]
  · exact h

/-- A decimal literal starts with its whole digits and its point. -/
theorem decimal_starts {cs number : List Char} (h : decimal cs = .ok number) :
    (digitPart isDecimal cs).1 ++ (optional (· == '.') (digitPart isDecimal cs).2).1 <+:
      number := by
  unfold decimal at h
  dsimp only at h
  repeat' split at h
  all_goals cases h
  all_goals
    rw [List.append_assoc, List.append_assoc]
    exact List.prefix_append _ _

theorem decimal_ne_nil {cs number : List Char} (hs : starts cs = true)
    (h : decimal cs = .ok number) : number ≠ [] := by
  have hp := (decimal_starts h).ne_nil
  cases cs with
  | nil => simp [starts] at hs
  | cons c cs =>
    simp only [starts, Bool.or_eq_true, Bool.and_eq_true, beq_iff_eq] at hs
    rcases hs with hd | ⟨rfl, hd⟩
    · exact hp (by simp [digitPart, hd])
    · exact hp (by simp [digitPart, optional, isDecimal])

theorem munch_ne_nil {cs number : List Char} (hs : starts cs = true)
    (h : munch cs = .ok number) : number ≠ [] := by
  unfold munch at h
  split at h
  · next mark rest =>
    split at h
    · next base isDigit _ =>
      cases hb : based base isDigit rest with
      | error fault => rw [hb] at h; cases h
      | ok digits =>
        rw [hb] at h
        cases h
        exact List.cons_ne_nil _ _
    · exact decimal_ne_nil hs h
  · exact decimal_ne_nil hs h

end Number

theorem Number.isStray_of_munch {cs : List Char} {fault : LexicalFault}
    (h : munch cs = .error fault) : fault.isStray = true := by
  have hdecimal : ∀ cs fault, decimal cs = .error fault → fault.isStray = true := by
    intro cs fault h
    unfold decimal at h
    dsimp only at h
    split at h
    all_goals
      split at h
      · cases h
        rfl
      · split at h
        · cases h
          rfl
        · cases h
  unfold munch at h
  split at h
  · next mark rest =>
    split at h
    · next base isDigit _ =>
      cases hbased : based base isDigit rest with
      | error e =>
        rw [hbased] at h
        cases h
        unfold based at hbased
        dsimp only at hbased
        split at hbased
        · cases hbased
          rfl
        · cases hbased
      | ok _ =>
        rw [hbased] at h
        cases h
    · exact hdecimal _ _ h
  · exact hdecimal _ _ h

namespace Lexeme

variable {start : Cursor} {lexeme : Lexeme}

/-- What can stand at a cursor, and what reading it gives. -/
inductive Munched (start : Cursor) : Prop
  /-- A quote comes next, or follows a word that marks a string. -/
  | literal (marks cs : List Char) (whole : start.rest = marks ++ cs)
      (marks_eq : marks = Word.munch start.rest)
      (marked : marks = [] ∨ Word.isStringMark marks = true)
      (opens : cs.head?.any Quotation.isQuote = true)
      (munch_eq : munch start = quotation start marks cs)
  | number (number : List Char) (starts : Number.starts start.rest = true)
      (number_eq : Number.munch start.rest = .ok number)
      (munch_eq : munch start = .ok ⟨.number, number⟩)
  | word (word rest : List Char) (whole : start.rest = word ++ rest)
      (first : word.head?.any Word.isStart = true) (parts : ∀ c ∈ word, Word.isPart c = true)
      (after : rest.head?.any Word.isPart = false)
      (unmarked : (Word.isStringMark word && rest.head?.any Quotation.isQuote) = false)
      (munch_eq : munch start = .ok ⟨Word.kind word, word⟩)
  | operator (lexeme : Lexeme) (operator_eq : operator start.rest = .ok lexeme)
      (munch_eq : munch start = .ok lexeme)
  | stray (fault : LexicalFault) (isStray : fault.isStray = true)
      (munch_eq : munch start = .error fault)

theorem munched_of_number (hquote : ¬start.peek.any Quotation.isQuote = true)
    (starts : Number.starts start.rest = true) : Munched start := by
  have heq : munch start = do return ⟨.number, ← Number.munch start.rest⟩ := by
    rw [munch, if_neg hquote, if_pos starts]
  cases hnumber : Number.munch start.rest with
  | ok number => exact .number number starts hnumber (by rw [heq, hnumber]; rfl)
  | error fault => exact .stray fault (Number.isStray_of_munch hnumber) (by rw [heq, hnumber]; rfl)

theorem munched_of_word (hquote : ¬start.peek.any Quotation.isQuote = true)
    (hnumber : ¬Number.starts start.rest = true) (hstart : start.peek.any Word.isStart = true) :
    Munched start := by
  obtain ⟨hwhole, hafter⟩ := Word.munch_append_drop start.rest
  have heq : munch start = word start := by
    rw [munch, if_neg hquote, if_neg hnumber, if_pos hstart]
  unfold word at heq
  dsimp only at heq
  cases hmark : Word.isStringMark (Word.munch start.rest) &&
      (start.rest.drop (Word.munch start.rest).length).head?.any Quotation.isQuote with
  | true =>
    rw [hmark, if_pos rfl] at heq
    obtain ⟨hmarked, hopens⟩ := Bool.and_eq_true_iff.1 hmark
    exact .literal _ _ hwhole.symm rfl (.inr hmarked) hopens heq
  | false =>
    rw [hmark, if_neg Bool.false_ne_true] at heq
    refine .word _ _ hwhole.symm ?_ (Word.all_isPart_munch _) hafter hmark heq
    obtain ⟨c, hc, hstart⟩ := (Option.any_eq_true _ _).1 hstart
    obtain ⟨cs, hcs⟩ := List.head?_eq_some_iff.1 hc
    simp [hcs, Word.munch, Word.isPart_of_isStart hstart, hstart]

theorem munched_of_operator (hquote : ¬start.peek.any Quotation.isQuote = true)
    (hnumber : ¬Number.starts start.rest = true) (hstart : ¬start.peek.any Word.isStart = true) :
    Munched start := by
  have heq : munch start = operator start.rest := by
    rw [munch, if_neg hquote, if_neg hnumber, if_neg hstart]
  cases hoperator : operator start.rest with
  | ok lexeme => exact .operator lexeme hoperator (heq.trans hoperator)
  | error fault => exact .stray fault (isStray_of_operator hoperator) (heq.trans hoperator)

/-- There is nothing else. -/
theorem munched (start : Cursor) : Munched start := by
  by_cases hquote : start.peek.any Quotation.isQuote = true
  · have hword : Word.munch start.rest = [] := by
      obtain ⟨c, hc, hq⟩ := (Option.any_eq_true _ _).1 hquote
      obtain ⟨cs, hcs⟩ := List.head?_eq_some_iff.1 hc
      rw [Word.munch_eq_nil_iff, hcs, List.head?_cons, Option.any_some,
        Word.isPart_of_isQuote hq]
    exact .literal [] start.rest rfl hword.symm (.inl rfl) hquote (if_pos hquote)
  · by_cases hnumber : Number.starts start.rest = true
    · exact munched_of_number hquote hnumber
    · by_cases hstart : start.peek.any Word.isStart = true
      · exact munched_of_word hquote hnumber hstart
      · exact munched_of_operator hquote hnumber hstart

theorem kind_of_quotation {marks cs : List Char} (h : quotation start marks cs = .ok lexeme) :
    lexeme.kind = .string := by
  unfold quotation at h
  split at h
  · cases h
  · cases h
  · next quoted _ =>
    cases hcheck : Quotation.check (marks ++ quoted) with
    | error fault => rw [hcheck] at h; cases h
    | ok _ =>
      rw [hcheck] at h
      cases h
      rfl

theorem exists_entry_of_operator {cs : List Char} (h : operator cs = .ok lexeme) :
    ∃ entry ∈ Operator.table, lexeme.kind = .op entry.2 ∧ lexeme.chars = entry.1.toList := by
  unfold operator at h
  split at h
  · next found =>
    cases h
    exact ⟨_, List.mem_of_find?_eq_some found, rfl, rfl⟩
  · split at h <;> cases h

theorem isContent_of_operator {cs : List Char} (h : operator cs = .ok lexeme) :
    lexeme.IsContent := by
  have spelled : ∀ entry ∈ Operator.table, entry.1.toList ≠ [] := by decide
  obtain ⟨entry, hentry, hkind, hchars⟩ := exists_entry_of_operator h
  exact ⟨hchars ▸ spelled entry hentry, by rw [hkind]; rfl, by rw [hkind]; rfl⟩

/-- What has been read at a cursor, by its kind. -/
inductive Accepted (start : Cursor) (lexeme : Lexeme) : Prop
  | string (kind_eq : lexeme.kind = .string) (marks cs : List Char)
      (whole : start.rest = marks ++ cs) (marked : marks = [] ∨ Word.isStringMark marks = true)
      (opens : cs.head?.any Quotation.isQuote = true)
      (quotation_eq : quotation start marks cs = .ok lexeme)
  | number (kind_eq : lexeme.kind = .number) (starts : Number.starts start.rest = true)
      (number_eq : Number.munch start.rest = .ok lexeme.chars)
  | word (kind_eq : lexeme.kind = Word.kind lexeme.chars) (rest : List Char)
      (whole : start.rest = lexeme.chars ++ rest)
      (first : lexeme.chars.head?.any Word.isStart = true)
      (parts : ∀ c ∈ lexeme.chars, Word.isPart c = true)
      (after : rest.head?.any Word.isPart = false)
      (unmarked : (Word.isStringMark lexeme.chars && rest.head?.any Quotation.isQuote) = false)
  | operator (sign : Operator) (kind_eq : lexeme.kind = .op sign)
      (operator_eq : operator start.rest = .ok lexeme)

theorem accepted (h : munch start = .ok lexeme) : Accepted start lexeme := by
  cases munched start with
  | literal marks cs whole _ marked opens munch_eq =>
    have hquotation := munch_eq.symm.trans h
    exact .string (kind_of_quotation hquotation) marks cs whole marked opens hquotation
  | number number starts number_eq munch_eq =>
    cases munch_eq.symm.trans h
    exact .number rfl starts number_eq
  | word word rest whole first parts after unmarked munch_eq =>
    cases munch_eq.symm.trans h
    exact .word rfl rest whole first parts after unmarked
  | operator _ operator_eq munch_eq =>
    cases munch_eq.symm.trans h
    obtain ⟨entry, _, hkind, _⟩ := exists_entry_of_operator operator_eq
    exact .operator entry.2 hkind operator_eq
  | stray _ _ munch_eq => cases munch_eq.symm.trans h

theorem isContent_of_munch (h : munch start = .ok lexeme) : lexeme.IsContent := by
  cases accepted h with
  | string _ _ _ _ _ _ quotation_eq => exact isContent_of_quotation quotation_eq
  | number kind_eq starts number_eq =>
    exact ⟨Number.munch_ne_nil starts number_eq, by rw [kind_eq]; rfl, by rw [kind_eq]; rfl⟩
  | word kind_eq _ _ first _ _ _ =>
    refine ⟨?_, ?_, ?_⟩
    · intro hnil
      rw [hnil] at first
      cases first
    · rcases Word.kind_cases lexeme.chars with hkind | ⟨_, hkind⟩ <;> rw [kind_eq, hkind] <;> rfl
    · rcases Word.kind_cases lexeme.chars with hkind | ⟨_, hkind⟩ <;> rw [kind_eq, hkind] <;> rfl
  | operator _ _ operator_eq => exact isContent_of_operator operator_eq

/-- A name or a keyword is a word. -/
theorem word_of_munch (h : munch start = .ok lexeme)
    (hkind : lexeme.kind = .name ∨ lexeme.kind.isKeyword = true) :
    lexeme.chars.head?.any Word.isStart = true ∧ ∀ c ∈ lexeme.chars, Word.isPart c = true := by
  cases accepted h with
  | word _ _ _ first parts _ _ => exact ⟨first, parts⟩
  | string kind_eq => rcases hkind with hkind | hkind <;> rw [kind_eq] at hkind <;> cases hkind
  | number kind_eq => rcases hkind with hkind | hkind <;> rw [kind_eq] at hkind <;> cases hkind
  | operator _ kind_eq => rcases hkind with hkind | hkind <;> rw [kind_eq] at hkind <;> cases hkind

end Lexeme

namespace Indentation

/-- The blocks that end and those that stay open are all there were. -/
theorem closed_add_remaining {here : Indentation} {blocks remaining : List Indentation}
    {closed : Nat} (h : compare here blocks = .ok (.shallower closed remaining)) :
    closed + remaining.length = blocks.length := by
  unfold compare at h
  simp only at h
  repeat' split at h
  all_goals cases h
  have hle := (List.dropWhile_suffix (l := blocks) fun block => here.width < block.width).length_le
  omega

end Indentation

namespace Lexer

/-- Where a lexer stands after the white space before it. -/
def here (lexer : Lexer) : Cursor := lexer.cursor.eatWhile Indentation.isGap

/-- Whether a lexer has to measure the indentation of a line. -/
def measures (lexer : Lexer) : Bool := lexer.atLineStart && lexer.brackets.isEmpty

/-- The indentation of the line at whose start a lexer stands. -/
def indentation (tabSize : Nat) (lexer : Lexer) : Indentation :=
  .measure tabSize (lexer.cursor.rest.takeWhile Indentation.isGap)

/-- The ways in which a step gives tokens and goes on. -/
inductive Emits (tabSize : Nat) (lexer : Lexer) : List Token → Lexer → Prop
  /-- A line without tokens of its own leaves the blocks as they are. -/
  | blank (measured : lexer.measures = true)
      (bare : ∀ c ∈ lexer.here.rest.head?, c = '#' ∨ c = '\n' ∨ c = '\r') :
      Emits tabSize lexer [] { lexer with cursor := lexer.here, atLineStart := false }
  | same (measured : lexer.measures = true)
      (compared : (lexer.indentation tabSize).compare lexer.blocks = .ok .same) :
      Emits tabSize lexer [] { lexer with cursor := lexer.here, atLineStart := false }
  | deeper (measured : lexer.measures = true)
      (compared : (lexer.indentation tabSize).compare lexer.blocks = .ok .deeper) :
      Emits tabSize lexer
        [take lexer.cursor .indent (lexer.cursor.rest.takeWhile Indentation.isGap).length]
        { lexer with
          cursor := lexer.here
          atLineStart := false
          blocks := lexer.indentation tabSize :: lexer.blocks }
  | shallower (closed : Nat) (remaining : List Indentation) (measured : lexer.measures = true)
      (compared :
        (lexer.indentation tabSize).compare lexer.blocks = .ok (.shallower closed remaining)) :
      Emits tabSize lexer (List.replicate closed (mark .dedent lexer.here.position))
        { lexer with cursor := lexer.here, atLineStart := false, blocks := remaining }
  | join (rest : List Char) (inside : lexer.measures = false)
      (next : lexer.here.rest = '\\' :: rest) (broken : Cursor.lineBreak rest ≠ []) :
      Emits tabSize lexer []
        { lexer with cursor := lexer.here.skip (1 + (Cursor.lineBreak rest).length) }
  | lineBreak (inside : lexer.measures = false) (broken : Cursor.lineBreak lexer.here.rest ≠ []) :
      Emits tabSize lexer
        [take lexer.here
          (if lexer.brackets.isEmpty && lexer.lineHasContent then .newline else .nl)
          (Cursor.lineBreak lexer.here.rest).length]
        { lexer with
          cursor := lexer.here.skip (Cursor.lineBreak lexer.here.rest).length
          atLineStart := lexer.brackets.isEmpty
          lineHasContent :=
            lexer.lineHasContent && !(lexer.brackets.isEmpty && lexer.lineHasContent) }
  | comment (rest : List Char) (inside : lexer.measures = false)
      (next : lexer.here.rest = '#' :: rest) :
      Emits tabSize lexer
        [take lexer.here .comment (lexer.here.rest.takeWhile (!isLineBreak ·)).length]
        { lexer with
          cursor := lexer.here.skip (lexer.here.rest.takeWhile (!isLineBreak ·)).length }
  | lexeme (c : Char) (rest : List Char) (lexeme : Lexeme) (brackets : List Bracket)
      (inside : lexer.measures = false) (next : lexer.here.rest = c :: rest)
      (munched : Lexeme.munch lexer.here = .ok lexeme)
      (updated : Bracket.update c lexer.here.position lexer.brackets = .ok brackets) :
      Emits tabSize lexer [take lexer.here lexeme.kind lexeme.chars.length]
        { lexer with
          cursor := lexer.here.skip lexeme.chars.length
          brackets
          lineHasContent := true }

variable {tabSize : Nat} {lexer next : Lexer} {tokens : List Token}

theorem emits_of_indentStep (measured : lexer.measures = true)
    (h : lexer.indentStep tabSize = .emit tokens next) : Emits tabSize lexer tokens next := by
  unfold indentStep at h
  dsimp only at h
  split at h
  · next hrest =>
    have hrest : lexer.here.rest = [] := hrest
    cases h
    exact .blank measured (by simp [hrest])
  · next c rest hrest =>
    have hrest : lexer.here.rest = c :: rest := hrest
    split at h
    · next hc =>
      cases h
      exact .blank measured (by simpa [hrest] using hc)
    · split at h
      · next hc => cases h; exact .same measured hc
      · next hc => cases h; exact .deeper measured hc
      · next closed remaining hc => cases h; exact .shallower closed remaining measured hc
      all_goals cases h

theorem emits_of_joinStep {rest : List Char} (inside : lexer.measures = false)
    (hrest : lexer.here.rest = '\\' :: rest) (h : lexer.joinStep lexer.here = .emit tokens next) :
    Emits tabSize lexer tokens next := by
  have hnext : lexer.here.next.rest = rest := by rw [Cursor.rest_next, hrest, List.tail_cons]
  unfold joinStep Cursor.eatLineBreak? at h
  rw [hnext] at h
  cases hb : Cursor.lineBreak rest with
  | nil =>
    rw [hb] at h
    simp only at h
    split at h <;> cases h
  | cons c br =>
    rw [hb] at h
    cases h
    have hjoin : Emits tabSize lexer [] _ := .join rest inside hrest (by simp [hb])
    rw [hb, Nat.add_comm] at hjoin
    exact hjoin

theorem emits_of_lexemeStep {c : Char} {rest : List Char} (inside : lexer.measures = false)
    (hrest : lexer.here.rest = c :: rest) (h : lexer.lexemeStep lexer.here c = .emit tokens next) :
    Emits tabSize lexer tokens next := by
  unfold lexemeStep at h
  split at h
  · cases h
  · next lexeme munched =>
    split at h
    · cases h
    · next brackets updated =>
      cases h
      exact .lexeme c rest lexeme brackets inside hrest munched updated

theorem lineBreak_ne_nil {c : Char} (rest : List Char) (h : isLineBreak c = true) :
    Cursor.lineBreak (c :: rest) ≠ [] := by
  simp only [isLineBreak, Bool.or_eq_true, beq_iff_eq] at h
  rcases h with rfl | rfl
  · simp [Cursor.lineBreak]
  · unfold Cursor.lineBreak
    split <;> simp_all

theorem step_eq : lexer.step tabSize =
    if lexer.measures = true then lexer.indentStep tabSize else lexer.contentStep := rfl

/-- There are no other ways to go on. -/
theorem emits_of_step (h : lexer.step tabSize = .emit tokens next) :
    Emits tabSize lexer tokens next := by
  rw [step_eq] at h
  cases measured : lexer.measures with
  | true =>
    rw [if_pos measured] at h
    exact emits_of_indentStep measured h
  | false =>
    rw [if_neg (by simp [measured])] at h
    unfold contentStep at h
    dsimp only at h
    split at h
    · unfold endStep at h
      split at h <;> cases h
    · next c rest hrest =>
      have hrest : lexer.here.rest = c :: rest := hrest
      split at h
      · next hc => subst hc; exact emits_of_joinStep measured hrest h
      · split at h
        · next hc =>
          cases h
          exact .lineBreak measured (hrest ▸ lineBreak_ne_nil rest hc)
        · split at h
          · next hc =>
            subst hc
            cases h
            exact .comment rest measured hrest
          · exact emits_of_lexemeStep measured hrest h

/-- What a step gives at the end of the text: the marks that end the line and the open blocks. -/
structure Finishes (lexer : Lexer) (tokens : List Token) : Prop where
  inside : lexer.measures = false
  rest_eq : lexer.here.rest = []
  brackets_eq : lexer.brackets = []
  tokens_eq : tokens =
    (if lexer.lineHasContent then [mark .newline lexer.here.position] else []) ++
      List.replicate lexer.blocks.length (mark .dedent lexer.here.position) ++
        [mark .endMarker lexer.here.position]

theorem finishes_of_step (h : lexer.step tabSize = .finish tokens) : Finishes lexer tokens := by
  rw [step_eq] at h
  cases measured : lexer.measures with
  | true =>
    rw [if_pos measured] at h
    unfold indentStep at h
    dsimp only at h
    repeat' split at h
    all_goals cases h
  | false =>
    rw [if_neg (by simp [measured])] at h
    unfold contentStep at h
    dsimp only at h
    split at h
    · next hrest =>
      unfold endStep at h
      split at h
      · cases h
      · next hb =>
        cases h
        exact ⟨measured, hrest, hb, rfl⟩
    · unfold joinStep breakStep commentStep lexemeStep at h
      dsimp only at h
      repeat' split at h
      all_goals cases h

/-! ## Progress -/

theorem length_rest_here_le (lexer : Lexer) :
    lexer.here.rest.length ≤ lexer.cursor.rest.length := by
  rw [here, Cursor.eatWhile, Cursor.rest_skip, List.length_drop]
  omega

theorem length_rest_skip_lt {cursor : Cursor} {n : Nat} (hr : cursor.rest ≠ []) (hn : 0 < n) :
    (cursor.skip n).rest.length < cursor.rest.length := by
  have := List.length_pos_iff.2 hr
  rw [Cursor.rest_skip, List.length_drop]
  omega

/-- A step that goes on reads something, or leaves the start of a line. -/
theorem fuel_lt_of_emits (h : Emits tabSize lexer tokens next) : next.fuel < lexer.fuel := by
  have hle := length_rest_here_le lexer
  -- reading inside the line is worth two units, and at most one is given back for a new line
  have inside : ∀ {n : Nat} {cursor : Cursor} {again : Bool}, cursor = lexer.here.skip n →
      lexer.here.rest ≠ [] → 0 < n →
      2 * cursor.rest.length + (if again then 1 else 0) + 1 < lexer.fuel := by
    intro n cursor again hc hr hn
    have hlt := length_rest_skip_lt hr hn
    rw [← hc] at hlt
    unfold fuel
    split <;> split <;> omega
  have start : lexer.measures = true → 2 * lexer.here.rest.length + 1 < lexer.fuel := by
    intro measured
    have ha : lexer.atLineStart = true := (Bool.and_eq_true_iff.1 measured).1
    simp only [fuel, ha, if_true]
    omega
  cases h with
  | blank measured _ => exact start measured
  | same measured _ => exact start measured
  | deeper measured _ => exact start measured
  | shallower _ _ measured _ => exact start measured
  | join rest _ hrest _ => exact inside rfl (by simp [hrest]) (by omega)
  | lineBreak _ broken =>
    refine inside rfl ?_ (List.length_pos_iff.2 broken)
    intro hrest
    exact broken (by rw [hrest]; rfl)
  | comment rest _ hrest => exact inside rfl (by simp [hrest]) (by simp [hrest, isLineBreak])
  | lexeme c rest lexeme _ _ hrest munched _ =>
    exact inside rfl (by simp [hrest])
      (List.length_pos_iff.2 (Lexeme.isContent_of_munch munched).chars_ne_nil)

/-- The stream that a lexer gives, step by step. -/
inductive Lexes (tabSize : Nat) : Lexer → TokenStream → Prop
  | emit {lexer next : Lexer} {tokens : List Token} {stream : TokenStream}
      (emits : Emits tabSize lexer tokens next) (rest : Lexes tabSize next stream) :
      Lexes tabSize lexer ⟨tokens ++ stream.tokens, stream.error⟩
  | finish {lexer : Lexer} {tokens : List Token} (finishes : Finishes lexer tokens) :
      Lexes tabSize lexer ⟨tokens, none⟩
  | fail {lexer : Lexer} {error : LexicalError} (fails : lexer.step tabSize = .fail error) :
      Lexes tabSize lexer ⟨[], some error⟩

theorem lexes_run {fuel : Nat} (h : lexer.fuel ≤ fuel) :
    Lexes tabSize lexer (lexer.run tabSize fuel) := by
  induction fuel generalizing lexer with
  | zero => simp [Lexer.fuel] at h
  | succ fuel ih =>
    unfold run
    split
    · next tokens next hs =>
      have emits := emits_of_step hs
      have hlt := fuel_lt_of_emits emits
      exact .emit emits (ih (by omega))
    · next tokens hs => exact .finish (finishes_of_step hs)
    · next error hs => exact .fail hs

variable {stream : TokenStream} {token : Token} {error : LexicalError}

theorem layout_of_finishes (h : Finishes lexer tokens) (htoken : token ∈ tokens) :
    token.kind.isLayout = true := by
  rw [h.tokens_eq] at htoken
  simp only [List.mem_append, List.mem_replicate, List.mem_singleton] at htoken
  rcases htoken with (hnewline | ⟨_, rfl⟩) | rfl
  · split at hnewline
    · rw [List.mem_singleton.1 hnewline]
      rfl
    · cases hnewline
  · rfl
  · rfl

theorem munch_of_emits (h : Emits tabSize lexer tokens next) (htoken : token ∈ tokens)
    (hlayout : token.kind.isLayout = false) (htrivia : token.kind.isTrivia = false) :
    ∃ lexeme, Lexeme.munch lexer.here = .ok lexeme ∧
      token = take lexer.here lexeme.kind lexeme.chars.length := by
  cases h with
  | blank | same | join => cases htoken
  | deeper =>
    rw [List.mem_singleton.1 htoken] at hlayout
    cases hlayout
  | shallower =>
    rw [(List.mem_replicate.1 htoken).2] at hlayout
    cases hlayout
  | lineBreak =>
    rw [List.mem_singleton.1 htoken] at hlayout htrivia
    dsimp only [take] at hlayout htrivia
    split at hlayout
    · cases hlayout
    · next hinside =>
      rw [if_neg hinside] at htrivia
      cases htrivia
  | comment =>
    rw [List.mem_singleton.1 htoken] at htrivia
    cases htrivia
  | lexeme _ _ lexeme _ _ _ munched _ => exact ⟨lexeme, munched, List.mem_singleton.1 htoken⟩

/-- A token that is no mark of the layout and no trivia is a lexeme. -/
theorem Lexes.exists_munch (h : Lexes tabSize lexer stream) (htoken : token ∈ stream.tokens)
    (hlayout : token.kind.isLayout = false) (htrivia : token.kind.isTrivia = false) :
    ∃ (here : Cursor) (lexeme : Lexeme), Lexeme.munch here = .ok lexeme ∧
      token = take here lexeme.kind lexeme.chars.length := by
  induction h with
  | emit emits _ ih =>
    rcases List.mem_append.1 htoken with htoken | htoken
    · exact ⟨_, munch_of_emits emits htoken hlayout htrivia⟩
    · exact ih htoken
  | finish finishes =>
    rw [layout_of_finishes finishes htoken] at hlayout
    cases hlayout
  | fail => cases htoken

/-- What every step keeps still holds of the lexer that fails. -/
theorem Lexes.exists_fail {P : Lexer → Prop}
    (keeps : ∀ {lexer next : Lexer} {tokens : List Token},
      Emits tabSize lexer tokens next → P lexer → P next)
    (h : Lexes tabSize lexer stream) (hlexer : P lexer) (herror : stream.error = some error) :
    ∃ last : Lexer, P last ∧ last.step tabSize = .fail error := by
  induction h with
  | emit emits _ ih => exact ih (keeps emits hlexer) herror
  | finish => cases herror
  | fail fails =>
    cases herror
    exact ⟨_, hlexer, fails⟩

/-- Brackets fault where they nest, which is no fault of a literal. -/
theorem isOfLiteral_of_update {c : Char} {position : Position} {brackets : List Bracket}
    {fault : LexicalFault} (h : Bracket.update c position brackets = .error fault) :
    fault.isOfLiteral = false := by
  unfold Bracket.update at h
  repeat' split at h
  all_goals cases h
  all_goals rfl

theorem isOfLiteral_of_joinStep {here : Cursor} (h : lexer.joinStep here = .fail error) :
    error.fault.isOfLiteral = false := by
  unfold joinStep at h
  repeat' split at h
  all_goals cases h
  all_goals rfl

/-- What is wrong with a literal is found where its lexeme is read. -/
theorem munch_of_fail (h : lexer.step tabSize = .fail error)
    (hliteral : error.fault.isOfLiteral = true) :
    Lexeme.munch lexer.here = .error error.fault ∧ error.position = lexer.here.position := by
  rw [step_eq] at h
  split at h
  · unfold indentStep at h
    dsimp only at h
    repeat' split at h
    all_goals cases h
    all_goals cases hliteral
  · unfold contentStep at h
    dsimp only at h
    split at h
    · unfold endStep at h
      split at h
      · cases h
        cases hliteral
      · cases h
    · split at h
      · rw [isOfLiteral_of_joinStep h] at hliteral
        cases hliteral
      · unfold breakStep commentStep lexemeStep at h
        dsimp only at h
        split at h
        · cases h
        · split at h
          · cases h
          · split at h
            · next munched =>
              cases h
              exact ⟨munched, rfl⟩
            · split at h
              · next updated =>
                cases h
                rw [isOfLiteral_of_update updated] at hliteral
                cases hliteral
              · cases h

end Lexer

/-- The fuel given to a lexer is enough for its stream. -/
theorem TokenStream.lexes_withTabs (tabSize : Nat) (s : String) :
    (Lexer.ofText s).Lexes tabSize (.withTabs tabSize s) :=
  Lexer.lexes_run (Nat.le_refl _)

end SnippetLint
