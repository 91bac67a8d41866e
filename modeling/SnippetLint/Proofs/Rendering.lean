import Mathlib.Data.List.Find
import SnippetLint.Proofs.Formula
import SnippetLint.Proofs.Numerals

/-!
Texts that are read back into the lexemes they are written from. In a rendered text lexemes stand
one after the other with blanks between them, each is read from its own characters where the rest of
the text follows, and parentheses match: an operator before what makes no longer one of it, a word
and a number before what cannot go on with them. The lexer then gives just these lexemes
(`readBack_ofText`). Brackets nest only so deep, so the stream may end at an opening parenthesis; up
to there it is the same.
-/

namespace SnippetLint

namespace Bracket

def signs : List Char := ['(', ')', '[', ']', '\x7b', '\x7d']

theorem update_of_not_mem {c : Char} (h : c ∉ signs) (position : Position)
    (brackets : List Bracket) : update c position brackets = .ok brackets := by
  simp only [signs, List.mem_cons, List.not_mem_nil, not_or] at h
  simp [update, isOpening, isClosing, h]

end Bracket

namespace Lexeme

/-- The characters with which no rendered lexeme starts: white space, joins, line breaks, comments
and quotes. -/
def foreign : List Char := [' ', '\t', '\x0c', '\\', '\n', '\r', '#', '\x27', '\x22']

/-- A lexeme that is read from its own characters where `rest` follows. -/
structure ReadsBefore (l : Lexeme) (rest : List Char) (c : Char) (cs : List Char) : Prop where
  chars_eq : l.chars = c :: cs
  not_foreign : c ∉ foreign
  munch_eq : ∀ position, munch ⟨l.chars ++ rest, position⟩ = .ok l

variable {l : Lexeme} {sign : Operator} {rest cs : List Char} {c : Char}

theorem ReadsBefore.not_isGap (h : l.ReadsBefore rest c cs) : Indentation.isGap c = false := by
  have hforeign := h.not_foreign
  simp only [foreign, List.mem_cons, List.not_mem_nil, not_or] at hforeign
  simp [Indentation.isGap, hforeign]

/-- Of the rest, a number comes before a word and a word before an operator. -/
theorem munch_cons (h : c ∉ foreign) (cs : List Char) (position : Position) :
    munch ⟨c :: cs, position⟩ =
      if Number.starts (c :: cs) then do return ⟨.number, ← Number.munch (c :: cs)⟩
      else if Word.isStart c then word ⟨c :: cs, position⟩
      else operator (c :: cs) := by
  have hquote : Quotation.isQuote c = false := by
    have hnone : ∀ d, Quotation.isQuote d = true → d ∈ foreign := by
      simp [Quotation.isQuote, foreign]
    exact Bool.eq_false_iff.2 (mt (hnone c) h)
  exact if_neg (by simp [Cursor.peek, hquote])

theorem starts_eq_false (hdigit : Number.isDecimal c = false) (hpoint : c ≠ '.')
    (cs : List Char) : Number.starts (c :: cs) = false := by
  simp [Number.starts, hdigit, hpoint]

/-! ### Operators -/

/-- A character with which operators start, and nothing else. -/
theorem munch_eq_operator (hforeign : c ∉ foreign) (hdigit : Number.isDecimal c = false)
    (hpoint : c ≠ '.') (hword : Word.isStart c = false) (cs : List Char) (position : Position) :
    munch ⟨c :: cs, position⟩ = operator (c :: cs) := by
  rw [munch_cons hforeign, if_neg (by simp [starts_eq_false hdigit hpoint]),
    if_neg (by simp [hword])]

/-- The characters that make another sign of one when they come next. -/
def extensions (spelling : List Char) : List Char :=
  Operator.table.filterMap fun entry =>
    if spelling.isPrefixOf entry.1.toList then entry.1.toList[spelling.length]? else none

theorem isPrefixOf_append {front spelling : List Char}
    (h : front.isPrefixOf spelling = true → ∀ c, spelling[front.length]? = some c →
      rest.head? ≠ some c) :
    spelling.isPrefixOf (front ++ rest) = spelling.isPrefixOf front := by
  induction front generalizing spelling with
  | nil =>
    cases spelling with
    | nil => rfl
    | cons d spelling =>
      cases rest with
      | nil => rfl
      | cons c rest =>
        have hne : d ≠ c := by
          rintro rfl
          exact h rfl d rfl rfl
        rw [List.nil_append, List.isPrefixOf_cons_cons, beq_false_of_ne hne, Bool.false_and]
        rfl
  | cons a front ih =>
    cases spelling with
    | nil => rfl
    | cons d spelling =>
      rw [List.cons_append, List.isPrefixOf_cons_cons, List.isPrefixOf_cons_cons]
      by_cases hd : d = a
      · subst hd
        rw [ih fun hfront => h ?_]
        rwa [List.isPrefixOf_cons_cons, beq_self_eq_true, Bool.true_and]
      · rw [beq_false_of_ne hd, Bool.false_and, Bool.false_and]

theorem operator_append (h : operator cs = .ok l)
    (hrest : ∀ c, rest.head? = some c → c ∉ extensions cs) :
    operator (cs ++ rest) = .ok l := by
  have hfind : (Operator.table.find? fun entry => entry.1.toList.isPrefixOf (cs ++ rest)) =
      Operator.table.find? fun entry => entry.1.toList.isPrefixOf cs := by
    refine List.find?_congr fun entry hentry => isPrefixOf_append ?_
    intro hfront c hc hhead
    exact hrest c hhead (List.mem_filterMap.2 ⟨entry, hentry, by rw [if_pos hfront, hc]⟩)
  unfold operator at *
  rw [hfind]
  split at h
  · next found =>
    simp only [found]
    exact h
  · split at h <;> cases h

theorem readsBefore_operator (hforeign : c ∉ foreign) (hdigit : Number.isDecimal c = false)
    (hpoint : c ≠ '.') (hword : Word.isStart c = false)
    (h : operator (c :: cs) = .ok ⟨.op sign, c :: cs⟩)
    (hrest : ∀ d, rest.head? = some d → d ∉ extensions (c :: cs)) :
    ReadsBefore ⟨.op sign, c :: cs⟩ rest c cs := by
  refine ⟨rfl, hforeign, fun position => ?_⟩
  show munch ⟨c :: (cs ++ rest), position⟩ = _
  rw [munch_eq_operator hforeign hdigit hpoint hword]
  exact operator_append h hrest

theorem readsBefore_leftParen (rest : List Char) : leftParen.ReadsBefore rest '(' [] :=
  ⟨rfl, by decide, fun _ => munch_eq_operator (by decide) (by decide) (by decide) (by decide) _ _⟩

theorem readsBefore_rightParen (rest : List Char) : rightParen.ReadsBefore rest ')' [] :=
  ⟨rfl, by decide, fun _ => munch_eq_operator (by decide) (by decide) (by decide) (by decide) _ _⟩

/-! ### Words -/

theorem isDecimal_of_isStart {c : Char} (h : Word.isStart c = true) :
    Number.isDecimal c = false := by
  have hnone : ∀ n < 58, 48 ≤ n → Word.isStart (Char.ofNat n) = false := by decide
  refine Bool.eq_false_iff.2 fun hdigit => ?_
  have hrange : 48 ≤ c.toNat ∧ c.toNat ≤ 57 := by
    simpa [Number.isDecimal, Char.isDigit, UInt32.le_iff_toNat_le] using hdigit
  have hnot := hnone c.toNat (by omega) hrange.1
  rw [Char.ofNat_toNat, h] at hnot
  cases hnot

/-- No word starts like a string, a comment, a line break or a bracket. -/
theorem not_foreign_of_isStart {c : Char} (h : Word.isStart c = true) :
    c ∉ foreign ∧ c ∉ Bracket.signs := by
  have hother : ∀ d ∈ foreign ++ Bracket.signs, ¬Word.isStart d = true := by decide
  exact not_or.1 (mt List.mem_append.2 fun hc => hother c hc h)

/-- A word is read up to its end, if no quote makes it the mark of a string. -/
theorem munch_word {start : Cursor} (hchars : start.rest = c :: (cs ++ rest))
    (hstart : Word.isStart c = true) (hparts : ∀ d ∈ cs, Word.isPart d = true)
    (hend : rest.head?.any Word.isPart = false)
    (hmark : (Word.isStringMark (c :: cs) && rest.head?.any Quotation.isQuote) = false) :
    munch start = .ok ⟨Word.kind (c :: cs), c :: cs⟩ := by
  obtain ⟨text, position⟩ := start
  obtain rfl : text = c :: (cs ++ rest) := hchars
  have hpoint : c ≠ '.' := by
    rintro rfl
    exact absurd hstart (by decide)
  have hnumber := starts_eq_false (isDecimal_of_isStart hstart) hpoint (cs ++ rest)
  rw [munch_cons (not_foreign_of_isStart hstart).1, if_neg (by simp [hnumber]), if_pos hstart]
  exact word_eq_ok rfl (List.forall_mem_cons.2 ⟨Word.isPart_of_isStart hstart, hparts⟩) hend hmark

theorem readsBefore_word (hstart : Word.isStart c = true)
    (hparts : ∀ d ∈ cs, Word.isPart d = true) (hend : rest.head?.any Word.isPart = false)
    (hquote : rest.head?.any Quotation.isQuote = false) :
    ReadsBefore ⟨Word.kind (c :: cs), c :: cs⟩ rest c cs := by
  refine ⟨rfl, (not_foreign_of_isStart hstart).1, fun position => ?_⟩
  exact munch_word rfl hstart hparts hend (by rw [hquote, Bool.and_false])

/-! ### Numbers -/

theorem not_foreign_of_number (h : Number.isDecimal c = true ∨ c = '.') :
    c ∉ foreign ∧ c ∉ Bracket.signs := by
  have hother : ∀ d ∈ foreign ++ Bracket.signs, ¬(Number.isDecimal d = true ∨ d = '.') := by
    decide
  exact not_or.1 (mt List.mem_append.2 fun hc => hother c hc h)

/-- A number is read before what cannot continue it. -/
theorem readsBefore_number {literal : NumberLiteral} (hchars : literal.chars = c :: cs)
    (hrest : Numerals.Ends rest) : literal.lexeme.ReadsBefore rest c cs := by
  have hstarts := Number.starts_append literal.starts_eq rest
  have hmunch := Numerals.munch_append
    (Numerals.numeral_of_munch literal.starts_eq literal.munch_eq) hrest
  rw [hchars, List.cons_append] at hstarts hmunch
  have hforeign := (not_foreign_of_number (Number.first_of_starts hstarts)).1
  refine ⟨hchars, hforeign, fun position => ?_⟩
  show munch ⟨literal.chars ++ rest, position⟩ = .ok ⟨.number, literal.chars⟩
  rw [hchars, List.cons_append, munch_cons hforeign, if_pos hstarts, hmunch]
  rfl

theorem exists_chars_of_number (literal : NumberLiteral) : ∃ c cs, literal.chars = c :: cs ∧
    (Number.isDecimal c = true ∨ c = '.') := by
  obtain ⟨chars, hstarts, -⟩ := literal
  cases chars with
  | nil => cases hstarts
  | cons c cs => exact ⟨c, cs, rfl, Number.first_of_starts hstarts⟩

end Lexeme

/-! ## Rendered texts -/

def blanks (n : Nat) : List Char := List.replicate n ' '

/-- The characters of lexemes with blanks between them, within so many open parentheses. -/
inductive Rendered : Nat → List Lexeme → List Char → Prop
  | nil : Rendered 0 [] []
  | lexeme {depth n : Nat} {l : Lexeme} {ls : List Lexeme} {c : Char} {cs rest : List Char}
      (reads : l.ReadsBefore (blanks n ++ rest) c cs) (not_bracket : c ∉ Bracket.signs)
      (more : Rendered depth ls rest) : Rendered depth (l :: ls) (l.chars ++ (blanks n ++ rest))
  | leftParen {depth n : Nat} {ls : List Lexeme} {rest : List Char}
      (more : Rendered (depth + 1) ls rest) :
      Rendered depth (.leftParen :: ls) ('(' :: (blanks n ++ rest))
  | rightParen {depth n : Nat} {ls : List Lexeme} {rest : List Char}
      (more : Rendered depth ls rest) :
      Rendered (depth + 1) (.rightParen :: ls) (')' :: (blanks n ++ rest))

/-- A token without its place. -/
def Token.toLexeme (token : Token) : Lexeme := ⟨token.kind, token.lexeme.toList⟩

/-- How a stream is made of lexemes: it has all of them, or those before a parenthesis at which
brackets nest too deeply. -/
inductive Lexed : TokenStream → List Lexeme → Prop
  | whole {tokens : List Token} {ls : List Lexeme}
      (tokens_eq : tokens.map Token.toLexeme = ls ++ [⟨.newline, []⟩, ⟨.endMarker, []⟩]) :
      Lexed ⟨tokens, none⟩ ls
  | cut {tokens : List Token} {front back : List Lexeme} (position : Position)
      (tokens_eq : tokens.map Token.toLexeme = front) :
      Lexed ⟨tokens, some ⟨.tooManyBrackets, position⟩⟩ (front ++ .leftParen :: back)

/-- A stream is made of lexemes that stand within so many parentheses, and has all of them if they
open few enough. -/
structure ReadBack (depth : Nat) (stream : TokenStream) (ls : List Lexeme) : Prop where
  lexed : Lexed stream ls
  whole : depth + ls.count .leftParen ≤ Bracket.maxDepth → stream.error = none

variable {depth : Nat} {l : Lexeme} {ls : List Lexeme} {cs : List Char}

theorem Lexed.cons {stream : TokenStream} (h : Lexed stream ls) (token : Token) :
    Lexed ⟨[token] ++ stream.tokens, stream.error⟩ (token.toLexeme :: ls) := by
  cases h with
  | whole tokens_eq => exact .whole (by simp [tokens_eq])
  | @cut tokens front back position tokens_eq =>
    rw [← List.cons_append]
    exact .cut position (by simp [tokens_eq])

/-- A stream without an error has all of its lexemes. -/
theorem Lexed.tokens_eq {stream : TokenStream} (h : Lexed stream ls)
    (herror : stream.error = none) :
    stream.tokens.map Token.toLexeme = ls ++ [⟨.newline, []⟩, ⟨.endMarker, []⟩] := by
  cases h with
  | whole tokens_eq => exact tokens_eq
  | cut => cases herror

theorem Rendered.exists_readsBefore (h : Rendered depth (l :: ls) cs) :
    ∃ n rest c ds, l.ReadsBefore (blanks n ++ rest) c ds ∧ cs = l.chars ++ (blanks n ++ rest) := by
  cases h with
  | lexeme reads _ _ => exact ⟨_, _, _, _, reads, rfl⟩
  | leftParen _ => exact ⟨_, _, _, _, Lexeme.readsBefore_leftParen _, rfl⟩
  | rightParen _ => exact ⟨_, _, _, _, Lexeme.readsBefore_rightParen _, rfl⟩

theorem Rendered.isContent (h : Rendered depth ls cs) : ∀ l ∈ ls, l.IsContent := by
  have hcontent : ∀ {l rest c cs}, Lexeme.ReadsBefore l rest c cs → l.IsContent := fun hreads =>
    Lexeme.isContent_of_munch (hreads.munch_eq .start)
  induction h with
  | nil => exact fun l hl => nomatch hl
  | lexeme reads _ _ ih => exact List.forall_mem_cons.2 ⟨hcontent reads, ih⟩
  | leftParen _ ih => exact List.forall_mem_cons.2 ⟨hcontent (Lexeme.readsBefore_leftParen []), ih⟩
  | rightParen _ ih =>
    exact List.forall_mem_cons.2 ⟨hcontent (Lexeme.readsBefore_rightParen []), ih⟩

/-- Blanks before a rendered text are passed over, and nothing of the text. -/
theorem Rendered.dropWhile_blanks (h : Rendered depth ls cs) (n : Nat) :
    (blanks n ++ cs).dropWhile Indentation.isGap = cs := by
  have hcs : cs.dropWhile Indentation.isGap = cs := by
    cases ls with
    | nil =>
      cases h
      rfl
    | cons l ls =>
      obtain ⟨n, rest, c, ds, hreads, rfl⟩ := h.exists_readsBefore
      rw [hreads.chars_eq, List.cons_append,
        List.dropWhile_cons_of_neg (by simp [hreads.not_isGap])]
  have hblanks : ∀ c ∈ blanks n, Indentation.isGap c = true := by
    intro c hc
    rw [List.eq_of_mem_replicate hc]
    rfl
  rw [List.dropWhile_append_of_pos hblanks, hcs]

/-! ## Steps of a lexer -/

theorem Cursor.rest_eatWhile (p : Char → Bool) (cursor : Cursor) :
    (cursor.eatWhile p).rest = cursor.rest.dropWhile p := by
  rw [eatWhile, rest_skip]
  generalize cursor.rest = cs
  induction cs with
  | nil => rfl
  | cons c cs ih =>
    by_cases hc : p c = true
    · simp [hc, ih]
    · simp [hc]

namespace Lexer

variable {tabSize fuel : Nat} {lexer next : Lexer}

theorem run_of_emit {tokens : List Token} (h : lexer.step tabSize = .emit tokens next)
    (fuel : Nat) :
    lexer.run tabSize (fuel + 1) =
      ⟨tokens ++ (next.run tabSize fuel).tokens, (next.run tabSize fuel).error⟩ := by
  rw [run, h]

theorem run_of_finish {tokens : List Token} (h : lexer.step tabSize = .finish tokens) (fuel : Nat) :
    lexer.run tabSize (fuel + 1) = ⟨tokens, none⟩ := by
  rw [run, h]

theorem run_of_fail {error : LexicalError} (h : lexer.step tabSize = .fail error) (fuel : Nat) :
    lexer.run tabSize (fuel + 1) = ⟨[], some error⟩ := by
  rw [run, h]

theorem contentStep_nil (h : lexer.here.rest = []) :
    lexer.contentStep = lexer.endStep lexer.here.position := by
  unfold contentStep
  dsimp only
  split
  · rfl
  · next hcons =>
    have hcons : lexer.here.rest = _ :: _ := hcons
    rw [h] at hcons
    cases hcons

/-- What comes next decides how a step goes on. -/
theorem contentStep_cons {c : Char} {rest : List Char} (h : lexer.here.rest = c :: rest) :
    lexer.contentStep =
      if c = '\\' then lexer.joinStep lexer.here
      else if isLineBreak c then lexer.breakStep lexer.here
      else if c = '#' then lexer.commentStep lexer.here
      else lexer.lexemeStep lexer.here c := by
  unfold contentStep
  dsimp only
  split
  · next hnil =>
    have hnil : lexer.here.rest = [] := hnil
    rw [h] at hnil
    cases hnil
  · next d ds hcons =>
    have hcons : lexer.here.rest = d :: ds := hcons
    rw [h] at hcons
    cases hcons
    rfl

/-- A lexer inside a line, before the lexemes of a rendered text. -/
structure Inside (lexer : Lexer) (depth : Nat) (ls : List Lexeme) (cs : List Char) : Prop where
  begun : lexer.atLineStart = false
  blocks_eq : lexer.blocks = []
  signs_eq : ∀ bracket ∈ lexer.brackets, bracket.sign = '('
  depth_eq : lexer.brackets.length = depth
  content : lexer.lineHasContent = true ∨ ls ≠ []
  rest_eq : lexer.here.rest = cs

theorem Inside.measures_eq (h : Inside lexer depth ls cs) : lexer.measures = false := by
  rw [measures, h.begun, Bool.false_and]

/-- The lexer after a lexeme. -/
def after (lexer : Lexer) (l : Lexeme) (brackets : List Bracket) : Lexer :=
  { lexer with cursor := lexer.here.skip l.chars.length, brackets, lineHasContent := true }

section Lexeme

variable {rest ds : List Char} {c : Char}

/-- A step before a lexeme reads it, unless the brackets are at fault. -/
theorem step_of_readsBefore (h : Inside lexer depth (l :: ls) (l.chars ++ rest))
    (hreads : l.ReadsBefore rest c ds) :
    lexer.step tabSize =
      match Bracket.update c lexer.here.position lexer.brackets with
      | .error fault => .fail ⟨fault, lexer.here.position⟩
      | .ok brackets =>
        .emit [take lexer.here l.kind l.chars.length] (lexer.after l brackets) := by
  have hmunch : Lexeme.munch lexer.here = .ok l := by
    have hhere : lexer.here = ⟨l.chars ++ rest, lexer.here.position⟩ := by
      rw [← h.rest_eq]
    rw [hhere]
    exact hreads.munch_eq _
  have hrest : lexer.here.rest = c :: (ds ++ rest) := by
    rw [h.rest_eq, hreads.chars_eq, List.cons_append]
  have hforeign := hreads.not_foreign
  simp only [Lexeme.foreign, List.mem_cons, List.not_mem_nil, not_or] at hforeign
  rw [step_eq, if_neg (by simp [h.measures_eq]), contentStep_cons hrest,
    if_neg (by simp [hforeign]), if_neg (by simp [isLineBreak, hforeign]),
    if_neg (by simp [hforeign])]
  unfold lexemeStep
  rw [hmunch]
  rfl

theorem Inside.after {inner n : Nat} {brackets : List Bracket}
    (h : Inside lexer depth (l :: ls) (l.chars ++ (blanks n ++ rest)))
    (hsigns : ∀ bracket ∈ brackets, bracket.sign = '(') (hdepth : brackets.length = inner)
    (hrest : Rendered inner ls rest) : Inside (lexer.after l brackets) inner ls rest := by
  refine ⟨h.begun, h.blocks_eq, hsigns, hdepth, .inl rfl, ?_⟩
  show ((lexer.here.skip l.chars.length).eatWhile Indentation.isGap).rest = rest
  rw [Cursor.rest_eatWhile, Cursor.rest_skip, h.rest_eq, List.drop_left, hrest.dropWhile_blanks]

/-- A step that reads a lexeme leaves the stream to the lexer after it. -/
theorem readBack_of_update {inner : Nat} {brackets : List Bracket}
    (h : Inside lexer depth (l :: ls) (l.chars ++ rest)) (hreads : l.ReadsBefore rest c ds)
    (hupdate : Bracket.update c lexer.here.position lexer.brackets = .ok brackets)
    (hinner : inner + ls.count .leftParen ≤ depth + (l :: ls).count .leftParen)
    (hfuel : lexer.fuel ≤ fuel)
    (hnext : ∀ fuel, (lexer.after l brackets).fuel ≤ fuel →
      ReadBack inner ((lexer.after l brackets).run tabSize fuel) ls) :
    ReadBack depth (lexer.run tabSize fuel) (l :: ls) := by
  have hstep : lexer.step tabSize = _ := step_of_readsBefore h hreads
  rw [hupdate] at hstep
  have hlt := fuel_lt_of_emits (emits_of_step hstep)
  have htoken : (take lexer.here l.kind l.chars.length).toLexeme = l := by
    simp [take, Token.toLexeme, h.rest_eq]
  cases fuel with
  | zero => simp [Lexer.fuel] at hfuel
  | succ fuel =>
    have hread := hnext fuel (by omega)
    have hcons := hread.lexed.cons (take lexer.here l.kind l.chars.length)
    rw [htoken] at hcons
    rw [run_of_emit hstep]
    exact ⟨hcons, fun hle => hread.whole (by omega)⟩

end Lexeme

theorem step_of_nil (h : Inside lexer 0 [] []) :
    lexer.step tabSize =
      .finish [mark .newline lexer.here.position, mark .endMarker lexer.here.position] := by
  have hbrackets : lexer.brackets = [] := List.length_eq_zero_iff.1 h.depth_eq
  have hcontent : lexer.lineHasContent = true := h.content.resolve_right (fun hne => hne rfl)
  rw [step_eq, if_neg (by simp [h.measures_eq]), contentStep_nil h.rest_eq]
  simp [endStep, hbrackets, hcontent, h.blocks_eq]

/-- The lexemes of a rendered text are read one after the other. -/
theorem readBack_run (hcs : Rendered depth ls cs) (h : Inside lexer depth ls cs)
    (hfuel : lexer.fuel ≤ fuel) : ReadBack depth (lexer.run tabSize fuel) ls := by
  induction hcs generalizing lexer fuel with
  | nil =>
    cases fuel with
    | zero => simp [Lexer.fuel] at hfuel
    | succ fuel =>
      rw [run_of_finish (step_of_nil h)]
      exact ⟨.whole rfl, fun _ => rfl⟩
  | lexeme reads not_bracket more ih =>
    refine readBack_of_update h reads (Bracket.update_of_not_mem not_bracket _ _) ?_ hfuel
      fun fuel => ih (h.after h.signs_eq h.depth_eq more)
    exact Nat.add_le_add_left List.count_le_count_cons _
  | @leftParen depth n ls rest more ih =>
    have hreads := Lexeme.readsBefore_leftParen (blanks n ++ rest)
    by_cases hdeep : Bracket.maxDepth ≤ lexer.brackets.length
    · have hupdate : Bracket.update '(' lexer.here.position lexer.brackets =
          .error .tooManyBrackets := if_pos hdeep
      have hstep : lexer.step tabSize = _ := step_of_readsBefore h hreads
      rw [hupdate] at hstep
      cases fuel with
      | zero => simp [Lexer.fuel] at hfuel
      | succ fuel =>
        rw [run_of_fail hstep]
        refine ⟨?_, fun hle => ?_⟩
        · rw [← List.nil_append (_ :: ls)]
          exact .cut _ rfl
        · rw [List.count_cons_self] at hle
          have hdepth := h.depth_eq
          omega
    · have hsigns : ∀ bracket ∈ ⟨'(', lexer.here.position⟩ :: lexer.brackets,
          bracket.sign = '(' := List.forall_mem_cons.2 ⟨rfl, h.signs_eq⟩
      refine readBack_of_update h hreads (if_neg hdeep) ?_ hfuel
        fun fuel => ih (h.after hsigns (by rw [List.length_cons, h.depth_eq]) more)
      rw [List.count_cons_self]
      omega
  | @rightParen depth n ls rest more ih =>
    obtain ⟨bracket, outer, hbrackets⟩ := List.exists_cons_of_length_eq_add_one h.depth_eq
    have hsigns := h.signs_eq
    have hdepth := h.depth_eq
    rw [hbrackets] at hsigns hdepth
    obtain ⟨hsign, hsigns⟩ := List.forall_mem_cons.1 hsigns
    have hpartner : Bracket.partner bracket.sign = ')' := by
      rw [hsign]
      rfl
    have hupdate : Bracket.update ')' lexer.here.position lexer.brackets = .ok outer := by
      rw [hbrackets]
      exact if_pos hpartner
    refine readBack_of_update h (Lexeme.readsBefore_rightParen _) hupdate ?_ hfuel
      fun fuel => ih (h.after hsigns (Nat.succ.inj hdepth) more)
    rw [List.count_cons_of_ne (by decide)]
    omega

/-- A text that starts with a rendered lexeme has no indentation. -/
theorem step_ofText {s : String} {c : Char} {cs : List Char} (hs : s.toList = c :: cs)
    (hc : c ∉ Lexeme.foreign) :
    (ofText s).step tabSize = .emit [] { ofText s with atLineStart := false } := by
  simp only [Lexeme.foreign, List.mem_cons, List.not_mem_nil, not_or] at hc
  have hgap : (c :: cs).takeWhile Indentation.isGap = [] :=
    List.takeWhile_cons_of_neg (by simp [Indentation.isGap, hc])
  show (ofText s).indentStep tabSize = _
  simp [indentStep, ofText, hgap, hs, hc, Indentation.measure, Indentation.compare,
    Indentation.innermost, Indentation.zero]

end Lexer

/-- The tokens of a rendered text are its lexemes. -/
theorem readBack_ofText {s : String} (h : Rendered 0 (l :: ls) s.toList) :
    ReadBack 0 (.ofText s) (l :: ls) := by
  obtain ⟨n, rest, c, ds, hreads, hs⟩ := h.exists_readsBefore
  rw [hreads.chars_eq] at hs
  have hstep : (Lexer.ofText s).step TokenStream.tabSize = _ :=
    Lexer.step_ofText hs hreads.not_foreign
  have hlt := Lexer.fuel_lt_of_emits (Lexer.emits_of_step hstep)
  have hinside : Lexer.Inside { Lexer.ofText s with atLineStart := false } 0 (l :: ls)
      s.toList := by
    refine ⟨rfl, rfl, (fun _ h => nomatch h), rfl, .inr (List.cons_ne_nil l ls), ?_⟩
    show ((Cursor.ofText s).eatWhile Indentation.isGap).rest = _
    rw [Cursor.rest_eatWhile, Cursor.rest_ofText]
    exact h.dropWhile_blanks 0
  unfold TokenStream.ofText TokenStream.withTabs
  cases hfuel : (Lexer.ofText s).fuel with
  | zero => omega
  | succ fuel =>
    rw [Lexer.run_of_emit hstep]
    exact Lexer.readBack_run h hinside (by omega)

end SnippetLint
