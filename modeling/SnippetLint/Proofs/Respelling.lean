import SnippetLint.Proofs.LineEndings
import SnippetLint.Proofs.Lookahead

/-!
Snippets with names written anew. Each step of a lexer is repeated in front of the new text of what
comes after it, so a snippet in which every name is written as another one of the same length is
read to the same tokens at the same lines and columns. Main statement: `stream_anew`.
-/

namespace SnippetLint.Renaming
open LineEndings Lookahead

/-- A word that is a name and no keyword. -/
def IsName (word : String) : Prop :=
  Word.isIdentifier word = true ∧ Word.kind word.toList = .name

instance (word : String) : Decidable (IsName word) :=
  inferInstanceAs (Decidable (Word.isIdentifier word = true ∧ Word.kind word.toList = .name))

/-- The names of a snippet. -/
def namesOf (source : String) : List String :=
  ((TokenStream.ofText source).tokens.filter (·.kind = .name)).map Token.lexeme

/-- A renaming of the words of a snippet. Those that are known everywhere keep their name; others
get the name of a word that is as long, is not known everywhere and marks no string literal. Other
words do not matter, and no renaming of all of them is injective: there are more letters than
letters that mark no string literal. -/
structure IsRenaming (known : NameSet) (words : List String) (rename : String → String) : Prop where
  injective : ∀ a ∈ words, ∀ b ∈ words, rename a = rename b → a = b
  fixed : ∀ a ∈ words, a ∈ known → rename a = a
  other : ∀ a ∈ words, a ∉ known → IsName (rename a) ∧ rename a ∉ known ∧
    (rename a).length = a.length ∧ Word.isStringMark (rename a).toList = false

/-- A text with other characters between two byte offsets. -/
def splice (text : List Char) (span : Span) (word : String) : List Char :=
  (Text.takeBytes span.start.offset text).getD [] ++ word.toList ++
    (Text.dropBytes span.stop.offset text).getD []

/-- A snippet with every name written anew, from the last one to the first. -/
def renamed (rename : String → String) (source : String) : String :=
  String.ofList <| (TokenStream.ofText source).tokens.foldr
    (fun token text =>
      if token.kind = .name then splice text token.span (rename token.lexeme) else text)
    source.toList

/-! ## Texts -/

section Text

variable (rename : String → String)

/-- The characters of a lexeme, or those of the new name. -/
def respell (kind : TokenKind) (chars : List Char) : List Char :=
  if kind = .name then (rename (String.ofList chars)).toList else chars

/-- The text of tokens and gaps up to the end, with names written anew. -/
inductive Spells : Cursor → List Token → List Char → Prop
  | nil {cursor : Cursor} (atEnd : cursor.rest = []) : Spells cursor [] []
  | gap {cursor : Cursor} {tokens : List Token} {text : List Char} (n : Nat)
      (rest : Spells (cursor.skip n) tokens text) :
      Spells cursor tokens (cursor.rest.take n ++ text)
  | token {cursor : Cursor} {tokens : List Token} {text : List Char} (kind : TokenKind) (n : Nat)
      (rest : Spells (cursor.skip n) tokens text) :
      Spells cursor (Lexer.take cursor kind n :: tokens)
        (respell rename kind (cursor.rest.take n) ++ text)

variable {rename}

theorem splice_append (before lexeme text : List Char) {span : Span} (word : String)
    (hstart : span.start.offset = Text.byteLength before)
    (hstop : span.stop.offset = Text.byteLength (before ++ lexeme)) :
    splice (before ++ lexeme ++ text) span word = before ++ word.toList ++ text := by
  have hfront : Text.takeBytes (Text.byteLength before) (before ++ lexeme ++ text) =
      some before := by
    rw [List.append_assoc, Text.takeBytes_append]
  have hback := Text.dropBytes_append (before ++ lexeme) text
  rw [splice, hstart, hstop, hfront, hback]
  rfl

/-- Writing the names anew one after another gives that text. -/
theorem Spells.foldr_eq {cursor : Cursor} {tokens : List Token} {text : List Char}
    (h : Spells rename cursor tokens text) (before : List Char)
    (hbefore : Text.byteLength before = cursor.position.offset) :
    tokens.foldr (fun token text =>
      if token.kind = .name then splice text token.span (rename token.lexeme) else text)
      (before ++ cursor.rest) = before ++ text := by
  induction h generalizing before with
  | nil atEnd => rw [atEnd, List.foldr_nil]
  | @gap cursor tokens text n rest ih =>
    have hih := ih (before ++ cursor.rest.take n) (by
      rw [Text.byteLength_append, hbefore, Cursor.offset_skip])
    rwa [Cursor.rest_skip, List.append_assoc, List.take_append_drop, List.append_assoc] at hih
  | @token cursor tokens text kind n rest ih =>
    have hbytes : Text.byteLength (before ++ cursor.rest.take n) =
        (cursor.skip n).position.offset := by
      rw [Text.byteLength_append, hbefore, Cursor.offset_skip]
    have hih := ih (before ++ cursor.rest.take n) hbytes
    rw [Cursor.rest_skip, List.append_assoc, List.take_append_drop] at hih
    rw [List.foldr_cons, hih]
    unfold respell
    split
    · next hname =>
      have hname : kind = .name := hname
      rw [if_pos hname, splice_append before _ text _ hbefore.symm hbytes.symm, List.append_assoc]
      rfl
    · next hname =>
      have hname : kind ≠ .name := hname
      rw [if_neg hname, List.append_assoc]

end Text

/-! ## Reading -/

/-- The same character, or two that are parts of words. -/
def CharLike (c d : Char) : Prop := d = c ∨ Word.isPart c = true ∧ Word.isPart d = true

theorem CharLike.eq {c d : Char} (h : CharLike c d) (hpart : Word.isPart c = false) : d = c := by
  rcases h with heq | ⟨hc, _⟩
  · exact heq
  · rw [hpart] at hc
    cases hc

/-- What no part of a word is, is the same character in both. -/
theorem CharLike.eq_iff {c d e : Char} (h : CharLike c d) (he : Word.isPart e = false) :
    d = e ↔ c = e := by
  constructor
  · rintro rfl
    rcases h with heq | ⟨_, hd⟩
    · exact heq.symm
    · rw [he] at hd
      cases hd
  · rintro rfl
    exact h.eq he

theorem charLike_refl (cs : List Char) : List.Forall₂ CharLike cs cs :=
  List.forall₂_same.2 fun _ _ => .inl rfl

/-- A cursor, and one before `text` where names are written anew. -/
structure CursorLike (text : List Char) (a b : Cursor) : Prop where
  rest : b.rest = text
  chars : List.Forall₂ CharLike a.rest text
  place : SamePlace a.position b.position

section Cursor

variable {a b : Cursor} {text : List Char}

theorem head?_iff_of_like {cs ds : List Char} (h : List.Forall₂ CharLike cs ds) {e : Char}
    (he : Word.isPart e = false) : ds.head? = some e ↔ cs.head? = some e := by
  cases h with
  | nil => exact Iff.rfl
  | cons hchar _ =>
    rw [List.head?_cons, List.head?_cons, Option.some_inj, Option.some_inj]
    exact hchar.eq_iff he

theorem cursorLike_next {d : Char} (h : CursorLike (d :: text) a b) :
    CursorLike text a.next b.next := by
  cases hrest : a.rest with
  | nil =>
    have hchars := h.chars
    rw [hrest] at hchars
    cases hchars
  | cons c rest =>
    have hchars := h.chars
    rw [hrest] at hchars
    cases hchars with
    | cons hchar hlater =>
      rw [next_eq hrest, next_eq h.rest]
      refine ⟨rfl, hlater, ?_⟩
      have hfeed := hchar.eq_iff (e := '\n') (by decide)
      have hreturn := hchar.eq_iff (e := '\r') (by decide)
      have hpair := head?_iff_of_like hlater (e := '\n') (by decide)
      unfold Position.after
      simp only [hfeed, hreturn, hpair]
      split
      · exact ⟨congrArg (· + 1) h.place.line, rfl⟩
      · split
        · split
          · exact ⟨h.place.line, h.place.column⟩
          · exact ⟨congrArg (· + 1) h.place.line, rfl⟩
        · exact ⟨h.place.line, congrArg (· + 1) h.place.column⟩

theorem cursorLike_skip {front : List Char} (h : CursorLike (front ++ text) a b) :
    CursorLike text (a.skip front.length) (b.skip front.length) := by
  induction front generalizing a b with
  | nil => exact h
  | cons c front ih => exact ih (cursorLike_next h)

end Cursor

/-! ## Tokens -/

/-- A token, and the same token with names written anew. -/
structure TokenAnew (rename : String → String) (words : List String) (a b : Token) : Prop where
  kind : b.kind = a.kind
  lexeme : a.kind ≠ .name → b.lexeme = a.lexeme
  name : a.kind = .name → a.lexeme ∈ words ∧ IsName a.lexeme ∧ b.lexeme = rename a.lexeme
  start : SamePlace a.span.start b.span.start
  stop : SamePlace a.span.stop b.span.stop

/-- A lexer, and one at the same place before `text` where names are written anew. -/
inductive LexerLike (text : List Char) : Lexer → Lexer → Prop
  | intro {c d : Cursor} {brackets brackets' : List Bracket} (cursor : CursorLike text c d)
    (bracketsAnew : List.Forall₂ BracketAnew brackets brackets') (blocks : List Indentation)
    (atLineStart lineHasContent : Bool) :
    LexerLike text ⟨c, blocks, brackets, atLineStart, lineHasContent⟩
      ⟨d, blocks, brackets', atLineStart, lineHasContent⟩

/-- What a step gives, unless it fails, and what the step of the other lexer gives, after which
`text` is left. -/
inductive StepLike (rename : String → String) (words : List String) (text : List Char) :
    Lexer.Step → Lexer.Step → Prop
  | emit {tokens tokens' : List Token} {next next' : Lexer}
    (tokensAnew : List.Forall₂ (TokenAnew rename words) tokens tokens')
    (nextLike : LexerLike text next next') :
    StepLike rename words text (.emit tokens next) (.emit tokens' next')
  | finish {tokens tokens' : List Token}
    (tokensAnew : List.Forall₂ (TokenAnew rename words) tokens tokens') :
    StepLike rename words text (.finish tokens) (.finish tokens')
  | fail (error : LexicalError) (other : Lexer.Step) :
    StepLike rename words text (.fail error) other

section Token

variable {rename : String → String} {words : List String} {a b : Cursor} {text : List Char}

theorem mark_anew {kind : TokenKind} (hkind : kind ≠ .name) {p q : Position} (h : SamePlace p q) :
    TokenAnew rename words (Lexer.mark kind p) (Lexer.mark kind q) :=
  ⟨rfl, fun _ => rfl, fun hname => absurd hname hkind, h, h⟩

theorem marks_anew {kind : TokenKind} (hkind : kind ≠ .name) {p q : Position} (h : SamePlace p q)
    (n : Nat) : List.Forall₂ (TokenAnew rename words) (List.replicate n (Lexer.mark kind p))
      (List.replicate n (Lexer.mark kind q)) := by
  induction n with
  | zero => exact .nil
  | succ n ih => exact .cons (mark_anew hkind h) ih

/-- A token that is no name has the same text. -/
theorem take_anew {front : List Char} (h : CursorLike (front ++ text) a b)
    (hfront : front <+: a.rest) {kind : TokenKind} (hkind : kind ≠ .name) :
    TokenAnew rename words (Lexer.take a kind front.length) (Lexer.take b kind front.length) := by
  have hskip := cursorLike_skip h
  refine ⟨rfl, fun _ => ?_, fun hname => absurd hname hkind, h.place, hskip.place⟩
  unfold Lexer.take
  rw [h.rest, List.take_left, ← List.prefix_iff_eq_take.1 hfront]

end Token

/-! ## Steps -/

section Step

variable {rename : String → String} {words : List String} {a b : Lexer} {here here' : Cursor}
  {all text : List Char}

theorem takeWhile_like {p : Char → Bool} (hp : ∀ c, Word.isPart c = true → p c = false)
    {cs ds : List Char} (h : List.Forall₂ CharLike cs ds) : ds.takeWhile p = cs.takeWhile p := by
  induction h with
  | nil => rfl
  | @cons c d cs ds hchar _ ih =>
    rw [List.takeWhile_cons, List.takeWhile_cons, ih]
    rcases hchar with rfl | ⟨hc, hd⟩
    · rfl
    · rw [hp c hc, hp d hd, if_neg Bool.false_ne_true, if_neg Bool.false_ne_true]

theorem not_isGap (c : Char) (h : Word.isPart c = true) : Indentation.isGap c = false := by
  refine Bool.eq_false_iff.2 fun hgap => ?_
  simp only [Indentation.isGap, Bool.or_eq_true, beq_iff_eq] at hgap
  rcases hgap with (rfl | rfl) | rfl <;> exact absurd h (by decide)

theorem indentStep_like (tabSize : Nat) {gap : List Char} (h : LexerLike (gap ++ text) a b)
    (hgap : a.cursor.rest.takeWhile Indentation.isGap = gap) :
    StepLike rename words text (a.indentStep tabSize) (b.indentStep tabSize) := by
  cases h with
  | @intro c d brackets brackets' cursor hbrackets blocks atLineStart lineHasContent =>
    dsimp only at hgap
    have hgap' : d.rest.takeWhile Indentation.isGap = gap := by
      rw [cursor.rest, takeWhile_like not_isGap cursor.chars, hgap]
    have hhere := cursorLike_skip cursor
    have hindent : TokenAnew rename words (Lexer.take c .indent gap.length)
        (Lexer.take d .indent gap.length) :=
      take_anew cursor (hgap ▸ List.takeWhile_prefix _) (by decide)
    unfold Lexer.indentStep
    dsimp only
    rw [hgap, hgap']
    generalize Cursor.skip gap.length c = here at hhere ⊢
    generalize Cursor.skip gap.length d = here' at hhere ⊢
    have hsame : ∀ blocks, LexerLike text ⟨here, blocks, brackets, false, lineHasContent⟩
        ⟨here', blocks, brackets', false, lineHasContent⟩ := fun blocks =>
      .intro hhere hbrackets blocks false lineHasContent
    have hchars := hhere.chars
    rw [hhere.rest]
    generalize here.rest = rest at hchars ⊢
    cases hchars with
    | nil => exact .emit .nil (hsame blocks)
    | cons hchar _ =>
      dsimp only
      simp only [hchar.eq_iff (e := '#') (by decide), hchar.eq_iff (e := '\n') (by decide),
        hchar.eq_iff (e := '\r') (by decide)]
      split
      · exact .emit .nil (hsame blocks)
      · split
        · exact .emit .nil (hsame blocks)
        · exact .emit (.cons hindent .nil) (hsame _)
        · next closed remaining _ =>
          exact .emit (marks_anew (by decide) hhere.place closed) (hsame remaining)
        · exact .fail _ _
        · exact .fail _ _
        · exact .fail _ _

theorem endStep_like (h : LexerLike all a b) {p q : Position} (hplace : SamePlace p q) :
    StepLike rename words text (a.endStep p) (b.endStep q) := by
  cases h with
  | intro _ hbrackets blocks _ lineHasContent =>
    unfold Lexer.endStep
    cases hbrackets with
    | cons _ _ => exact .fail _ _
    | nil =>
      refine .finish (List.rel_append (List.rel_append ?_ ?_) ?_)
      · dsimp only
        split
        · exact .cons (mark_anew (by decide) hplace) .nil
        · exact .nil
      · exact marks_anew (by decide) hplace blocks.length
      · exact .cons (mark_anew (by decide) hplace) .nil

theorem lineBreak_like {cs ds : List Char} (h : List.Forall₂ CharLike cs ds) :
    Cursor.lineBreak ds = Cursor.lineBreak cs := by
  have htail : List.Forall₂ CharLike cs.tail ds.tail := by
    cases h with
    | nil => exact .nil
    | cons _ hrest => exact hrest
  rw [lineBreak_eq, lineBreak_eq]
  simp only [head?_iff_of_like h (e := '\r') (by decide),
    head?_iff_of_like h (e := '\n') (by decide), head?_iff_of_like htail (e := '\n') (by decide)]

theorem breakStep_like {br : List Char} (h : LexerLike all a b)
    (hhere : CursorLike (br ++ text) here here') (hbr : Cursor.lineBreak here.rest = br) :
    StepLike rename words text (a.breakStep here) (b.breakStep here') := by
  cases h with
  | intro _ hbrackets blocks _ lineHasContent =>
    have hbr' : Cursor.lineBreak here'.rest = br := by
      rw [hhere.rest, lineBreak_like hhere.chars, hbr]
    have hfront : br <+: here.rest := hbr ▸ List.prefix_iff_eq_take.2 (take_lineBreak _).symm
    unfold Lexer.breakStep
    dsimp only
    rw [hbr, hbr', ← Likeness.isEmpty_eq hbrackets]
    refine .emit (.cons (take_anew hhere hfront ?_) .nil)
      (.intro (cursorLike_skip hhere) hbrackets blocks _ _)
    split <;> decide

theorem joinStep_like {br : List Char} (h : LexerLike all a b)
    (hnext : CursorLike (br ++ text) here.next here'.next)
    (hbr : Cursor.lineBreak here.next.rest = br) :
    StepLike rename words text (a.joinStep here) (b.joinStep here') := by
  cases h with
  | intro _ hbrackets blocks atLineStart lineHasContent =>
    have hbr' : Cursor.lineBreak here'.next.rest = br := by
      rw [hnext.rest, lineBreak_like hnext.chars, hbr]
    unfold Lexer.joinStep Cursor.eatLineBreak?
    rw [hbr, hbr']
    cases br with
    | nil =>
      dsimp only
      split <;> exact .fail _ _
    | cons c br =>
      exact .emit .nil (.intro (cursorLike_skip hnext) hbrackets blocks atLineStart lineHasContent)

theorem isLineBreak_of_isPart {c : Char} (h : Word.isPart c = true) :
    Lexer.isLineBreak c = false := by
  refine Bool.eq_false_iff.2 fun hbreak => ?_
  simp only [Lexer.isLineBreak, Bool.or_eq_true, beq_iff_eq] at hbreak
  rcases hbreak with rfl | rfl <;> exact absurd h (by decide)

/-- A comment goes as far, whatever is written in it. -/
theorem length_comment {cs ds : List Char} (h : List.Forall₂ CharLike cs ds) :
    (ds.takeWhile (!Lexer.isLineBreak ·)).length =
      (cs.takeWhile (!Lexer.isLineBreak ·)).length := by
  induction h with
  | nil => rfl
  | @cons c d cs ds hchar _ ih =>
    have heq : Lexer.isLineBreak d = Lexer.isLineBreak c := by
      rcases hchar with rfl | ⟨hc, hd⟩
      · rfl
      · rw [isLineBreak_of_isPart hc, isLineBreak_of_isPart hd]
    rw [List.takeWhile_cons, List.takeWhile_cons, heq]
    split
    · exact congrArg (· + 1) ih
    · rfl

theorem commentStep_like {comment : List Char} (h : LexerLike all a b)
    (hhere : CursorLike (comment ++ text) here here')
    (hcomment : here.rest.takeWhile (!Lexer.isLineBreak ·) = comment) :
    StepLike rename words text (a.commentStep here) (b.commentStep here') := by
  cases h with
  | intro _ hbrackets blocks atLineStart lineHasContent =>
    have hlength := length_comment hhere.chars
    rw [← hhere.rest, hcomment] at hlength
    have hfront : comment <+: here.rest := hcomment ▸ List.takeWhile_prefix _
    unfold Lexer.commentStep
    dsimp only
    rw [hlength, hcomment]
    exact .emit (.cons (take_anew hhere hfront (by decide)) .nil)
      (.intro (cursorLike_skip hhere) hbrackets blocks atLineStart lineHasContent)

theorem lexemeStep_like {lexeme lexeme' : Lexeme} {c d : Char} (h : LexerLike all a b)
    (hhere : CursorLike (lexeme'.chars ++ text) here here')
    (hmunch : Lexeme.munch here = .ok lexeme) (hmunch' : Lexeme.munch here' = .ok lexeme')
    (hlength : lexeme'.chars.length = lexeme.chars.length)
    (htoken : TokenAnew rename words (Lexer.take here lexeme.kind lexeme.chars.length)
      (Lexer.take here' lexeme'.kind lexeme'.chars.length))
    (hupdate : Recoding.Paired (List.Forall₂ BracketAnew)
      (Bracket.update c here.position a.brackets) (Bracket.update d here'.position b.brackets)) :
    StepLike rename words text (a.lexemeStep here c) (b.lexemeStep here' d) := by
  cases h with
  | intro _ _ blocks atLineStart lineHasContent =>
    unfold Lexer.lexemeStep
    rw [hmunch, hmunch']
    dsimp only at hupdate ⊢
    generalize Bracket.update c here.position _ = left at hupdate ⊢
    generalize Bracket.update d here'.position _ = right at hupdate ⊢
    cases hupdate with
    | error e e' => exact .fail _ _
    | ok houter =>
      have hskip := cursorLike_skip hhere
      rw [hlength] at hskip
      exact .emit (.cons htoken .nil) (.intro (hlength ▸ hskip) houter blocks atLineStart true)

end Step

/-! ## Names -/

/-- A name that is read, and the text after it. -/
structure ReadsName (a : Cursor) (word rest : List Char) : Prop where
  rest_eq : a.rest = word ++ rest
  first : word.head?.any Word.isStart = true
  parts : ∀ c ∈ word, Word.isPart c = true
  kind : Word.kind word = .name
  after : rest.head?.any Word.isPart = false
  unmarked : (Word.isStringMark word && rest.head?.any Quotation.isQuote) = false

section Name

variable {a b : Cursor} {word rest : List Char}

theorem readsName_of_munch {lexeme : Lexeme} (h : Lexeme.munch a = .ok lexeme)
    (hkind : lexeme.kind = .name) (ha : a.rest = lexeme.chars ++ rest) :
    ReadsName a lexeme.chars rest := by
  cases Lexeme.accepted h with
  | string kind_eq => cases kind_eq.symm.trans hkind
  | number kind_eq => cases kind_eq.symm.trans hkind
  | operator _ kind_eq => cases kind_eq.symm.trans hkind
  | word kind_eq more whole first parts after unmarked =>
    obtain rfl := List.append_cancel_left (whole.symm.trans ha)
    exact ⟨ha, first, parts, kind_eq.symm.trans hkind, after, unmarked⟩

theorem ReadsName.munch_eq (h : ReadsName a word rest) :
    Lexeme.munch a = .ok ⟨.name, word⟩ := by
  obtain ⟨c, hc, hstart⟩ := Option.any_eq_true _ _ |>.1 h.first
  obtain ⟨cs, rfl⟩ := List.head?_eq_some_iff.1 hc
  have hmunch := Lexeme.munch_word h.rest_eq hstart (List.forall_mem_cons.1 h.parts).2 h.after
    h.unmarked
  rwa [h.kind] at hmunch

theorem ReadsName.word_eq (h : ReadsName a word rest) : Word.munch a.rest = word := by
  rw [h.rest_eq, Word.munch_append h.parts h.after]

theorem ReadsName.signs_eq (h : ReadsName a word rest) : a.rest.takeWhile isSign = [] := by
  obtain ⟨c, hc, hstart⟩ := Option.any_eq_true _ _ |>.1 h.first
  obtain ⟨cs, rfl⟩ := List.head?_eq_some_iff.1 hc
  rw [h.rest_eq, List.cons_append, List.takeWhile_cons, if_neg]
  intro hsign
  have hpart := isPart_of_isSign hsign
  rw [Word.isPart_of_isStart hstart] at hpart
  cases hpart

/-- To what stands before them, all names look the same. -/
theorem ReadsName.follows {word' rest' : List Char} (h : ReadsName a word rest)
    (h' : ReadsName b word' rest') : Follows a.rest b.rest where
  head := by
    have hfirst : ∀ {c : Cursor} {w r : List Char}, ReadsName c w r →
        c.rest.head?.any Word.isStart = true := by
      intro c w r hreads
      obtain ⟨d, hd, hstart⟩ := Option.any_eq_true _ _ |>.1 hreads.first
      obtain ⟨ds, rfl⟩ := List.head?_eq_some_iff.1 hd
      rw [hreads.rest_eq]
      exact hstart
    exact .inr ⟨hfirst h, hfirst h'⟩
  word hne := by
    rw [h.word_eq] at hne
    exact absurd h.kind hne
  signs := by rw [h'.signs_eq]; exact List.nil_prefix

/-- Another name in its place is read as well, unless it marks the string that follows. -/
theorem ReadsName.anew {text : List Char} (h : ReadsName a word rest) {name : String}
    (hname : IsName name) (hmark : Word.isStringMark name.toList = false ∨ name.toList = word)
    (hf : Follows rest text) (hb : b.rest = name.toList ++ text) :
    ReadsName b name.toList text := by
  have hhead := hf.head_eq (any_isStart_eq_false h.after)
  obtain ⟨hident, hkind⟩ := hname
  unfold Word.isIdentifier at hident
  split at hident
  · cases hident
  · next c cs hchars =>
    obtain ⟨hstart, hall⟩ := Bool.and_eq_true_iff.1 hident
    refine ⟨hb, by rwa [hchars], ?_, hkind, hhead ▸ h.after, ?_⟩
    · rw [hchars]
      exact List.forall_mem_cons.2 ⟨Word.isPart_of_isStart hstart, List.all_eq_true.1 hall⟩
    · rcases hmark with hmark | hsame
      · rw [hmark, Bool.false_and]
      · rw [hsame, hhead]
        exact h.unmarked

theorem ReadsName.isName (h : ReadsName a word rest) : IsName (String.ofList word) := by
  obtain ⟨c, hc, hstart⟩ := Option.any_eq_true _ _ |>.1 h.first
  obtain ⟨cs, rfl⟩ := List.head?_eq_some_iff.1 hc
  refine ⟨?_, by rw [String.toList_ofList]; exact h.kind⟩
  unfold Word.isIdentifier
  rw [String.toList_ofList]
  exact Bool.and_eq_true_iff.2 ⟨hstart, List.all_eq_true.2 fun d hd =>
    h.parts d (List.mem_cons_of_mem c hd)⟩

theorem ReadsName.not_bracket {c : Char} (h : ReadsName a word rest) (hc : word.head? = some c) :
    c ∉ Bracket.signs := by
  have hstart := h.first
  rw [hc] at hstart
  exact (Lexeme.not_foreign_of_isStart hstart).2

theorem take_name_anew {rename : String → String} {words : List String} {text : List Char}
    {name : String} (h : ReadsName a word rest) (hlike : CursorLike (name.toList ++ text) a b)
    (hlength : name.toList.length = word.length) (hword : String.ofList word ∈ words)
    (hname : rename (String.ofList word) = name) :
    TokenAnew rename words (Lexer.take a .name word.length)
      (Lexer.take b .name name.toList.length) := by
  have hskip := cursorLike_skip hlike
  rw [hlength] at hskip ⊢
  refine ⟨rfl, fun hne => absurd rfl hne, fun _ => ?_, hlike.place, hskip.place⟩
  have hleft : (Lexer.take a .name word.length).lexeme = String.ofList word := by
    unfold Lexer.take
    rw [h.rest_eq, List.take_left]
  have hright : (Lexer.take b .name word.length).lexeme = name := by
    unfold Lexer.take
    rw [hlike.rest, ← hlength, List.take_left, String.ofList_toList]
  rw [hleft, hright]
  exact ⟨hword, h.isName, hname.symm⟩

/-- What is known of the new name of a word. -/
theorem IsRenaming.spelling {known : NameSet} {words : List String} {rename : String → String}
    (h : IsRenaming known words rename) {word : String} (hword : word ∈ words)
    (hname : IsName word) : IsName (rename word) ∧ (rename word).length = word.length ∧
      (Word.isStringMark (rename word).toList = false ∨ rename word = word) := by
  by_cases hknown : word ∈ known
  · rw [h.fixed word hword hknown]
    exact ⟨hname, rfl, .inr rfl⟩
  · obtain ⟨hnew, _, hlength, hmark⟩ := h.other word hword hknown
    exact ⟨hnew, hlength, .inl hmark⟩

theorem charLike_of_parts {cs ds : List Char} (hlength : ds.length = cs.length)
    (hcs : ∀ c ∈ cs, Word.isPart c = true) (hds : ∀ d ∈ ds, Word.isPart d = true) :
    List.Forall₂ CharLike cs ds := by
  induction cs generalizing ds with
  | nil =>
    rw [List.length_eq_zero_iff.1 hlength]
    exact .nil
  | cons c cs ih =>
    obtain ⟨d, ds, rfl⟩ := List.exists_cons_of_length_eq_add_one hlength
    exact .cons (.inr ⟨hcs c List.mem_cons_self, hds d List.mem_cons_self⟩)
      (ih (Nat.succ.inj hlength) (fun c hc => hcs c (List.mem_cons_of_mem _ hc))
        fun d hd => hds d (List.mem_cons_of_mem _ hd))

end Name

/-! ## Runs -/

/-- What a step reads, and what is read in its place where names are written anew and `text` is
left after it. -/
structure StepAnew (rename : String → String) (words : List String) (tabSize : Nat) (a : Lexer)
    (tokens : List Token) (next : Cursor) (text whole : List Char) : Prop where
  spells : ∀ {later : List Token}, Spells rename next later text →
    Spells rename a.cursor (tokens ++ later) whole
  follows : Follows a.cursor.rest whole
  chars : List.Forall₂ CharLike a.cursor.rest whole
  like : ∀ {b : Lexer}, LexerLike whole a b →
    StepLike rename words text (a.step tabSize) (b.step tabSize)

section Run

variable {known : NameSet} {rename : String → String} {words : List String} {tabSize : Nat}
  {a b : Lexer} {tokens : List Token} {next : Cursor} {all text whole : List Char}

theorem chars_gap (h : List.Forall₂ CharLike a.here.rest whole) :
    List.Forall₂ CharLike a.cursor.rest (gap a ++ whole) := by
  rw [gap_append]
  exact List.rel_append (charLike_refl _) h

theorem here_like (h : LexerLike (gap a ++ whole) a b) : CursorLike whole a.here b.here := by
  cases h with
  | @intro c d _ _ cursor _ _ _ _ =>
    have hgap : d.rest.takeWhile Indentation.isGap = c.rest.takeWhile Indentation.isGap := by
      rw [cursor.rest, takeWhile_like not_isGap cursor.chars]
    have hskip := cursorLike_skip cursor
    unfold Lexer.here Cursor.eatWhile
    dsimp only
    rw [hgap]
    exact hskip

theorem measures_like (h : LexerLike all a b) : b.measures = a.measures := by
  cases h with
  | intro _ hbrackets _ _ _ => exact congrArg (_ && ·) (Likeness.isEmpty_eq hbrackets).symm

/-- A step at the start of a line. -/
theorem stepAnew_start (measured : a.measures = true) (hfollows : Follows a.here.rest text)
    (hchars : List.Forall₂ CharLike a.here.rest text)
    (hspells : ∀ {later : List Token}, Spells rename next later text →
      Spells rename a.cursor (tokens ++ later) (gap a ++ text)) :
    StepAnew rename words tabSize a tokens next text (gap a ++ text) where
  spells := hspells
  follows := follows_gap hfollows
  chars := chars_gap hchars
  like h := by
    rw [Lexer.step_eq, Lexer.step_eq, measures_like h, if_pos measured, if_pos measured]
    exact indentStep_like tabSize h rfl

/-- A step inside a line. -/
theorem stepAnew_inside (inside : a.measures = false) (hfollows : Follows a.here.rest whole)
    (hchars : List.Forall₂ CharLike a.here.rest whole)
    (hspells : ∀ {later : List Token}, Spells rename next later text →
      Spells rename a.here (tokens ++ later) whole)
    (hlike : ∀ {b : Lexer}, LexerLike (gap a ++ whole) a b → CursorLike whole a.here b.here →
      StepLike rename words text a.contentStep b.contentStep) :
    StepAnew rename words tabSize a tokens next text (gap a ++ whole) where
  spells h := by
    have hgap : Spells rename a.cursor _ _ := .gap (gap a).length (hspells h)
    rwa [gap, ← List.prefix_iff_eq_take.1 (List.takeWhile_prefix _)] at hgap
  follows := follows_gap hfollows
  chars := chars_gap hchars
  like h := by
    have hinside := Bool.eq_false_iff.1 inside
    rw [Lexer.step_eq, Lexer.step_eq, measures_like h, if_neg hinside, if_neg hinside]
    exact hlike h (here_like h)

/-- A step past `n` characters, none of which belongs to a name. -/
theorem stepAnew_past (inside : a.measures = false) {n : Nat} {c : Char} {rest : List Char}
    (hrest : a.here.rest.take n = c :: rest) (hc : Word.isPart c = false)
    (hfollows : Follows (a.here.skip n).rest text)
    (hchars : List.Forall₂ CharLike (a.here.skip n).rest text)
    (hspells : ∀ {later : List Token}, Spells rename (a.here.skip n) later text →
      Spells rename a.here (tokens ++ later) (a.here.rest.take n ++ text))
    (hlike : ∀ {b : Lexer} {rest' : List Char}, LexerLike (gap a ++ (c :: rest ++ text)) a b →
      CursorLike (c :: rest ++ text) a.here b.here → a.here.rest = c :: rest' →
      b.here.rest = c :: (rest ++ text) → StepLike rename words text a.contentStep b.contentStep) :
    StepAnew rename words tabSize a tokens (a.here.skip n) text
      (gap a ++ (a.here.rest.take n ++ text)) := by
  have hwhole : a.here.rest = a.here.rest.take n ++ (a.here.skip n).rest := by
    rw [Cursor.rest_skip, List.take_append_drop]
  rw [hrest] at hwhole
  refine stepAnew_inside inside ?_ ?_ hspells ?_
  · rw [hrest, hwhole]
    exact hfollows.append (.inl ⟨c, List.mem_cons_self, hc⟩)
  · rw [hrest, hwhole]
    exact List.rel_append (charLike_refl _) hchars
  · rw [hrest]
    exact fun h hhere => hlike h hhere hwhole hhere.rest

theorem stepAnew_join {rest : List Char} (inside : a.measures = false)
    (hrest : a.here.rest = '\\' :: rest)
    (hnext : next = a.here.skip (1 + (Cursor.lineBreak rest).length))
    (hfollows : Follows next.rest text) (hchars : List.Forall₂ CharLike next.rest text) :
    ∃ whole, StepAnew rename words tabSize a [] next text whole := by
  subst hnext
  have htake : a.here.rest.take (1 + (Cursor.lineBreak rest).length) =
      '\\' :: Cursor.lineBreak rest := by
    rw [hrest, Nat.add_comm, List.take_succ_cons, take_lineBreak]
  refine ⟨_, stepAnew_past inside htake (by decide) hfollows hchars (fun h => .gap _ h) ?_⟩
  intro b _ h hhere _ hrest'
  rw [Lexer.contentStep_cons hrest, Lexer.contentStep_cons hrest', if_pos rfl, if_pos rfl]
  have hbr : Cursor.lineBreak a.here.next.rest = Cursor.lineBreak rest := by
    rw [Cursor.rest_next, hrest, List.tail_cons]
  exact joinStep_like h (cursorLike_next hhere) hbr

theorem stepAnew_lineBreak {kind : TokenKind} (inside : a.measures = false)
    (hbroken : Cursor.lineBreak a.here.rest ≠ []) (hkind : kind ≠ .name)
    (hnext : next = a.here.skip (Cursor.lineBreak a.here.rest).length)
    (hfollows : Follows next.rest text) (hchars : List.Forall₂ CharLike next.rest text) :
    ∃ whole, StepAnew rename words tabSize a
      [Lexer.take a.here kind (Cursor.lineBreak a.here.rest).length] next text whole := by
  subst hnext
  obtain ⟨c, br, hbr, hc⟩ := exists_lineBreak hbroken
  have htake : a.here.rest.take (Cursor.lineBreak a.here.rest).length = c :: br :=
    (take_lineBreak _).trans hbr
  refine ⟨_, stepAnew_past inside htake (isPart_of_isLineBreak hc) hfollows hchars ?_ ?_⟩
  · intro later h
    have htoken : Spells rename a.here _ _ := .token kind _ h
    rwa [respell, if_neg hkind] at htoken
  · intro b rest h hhere hrest hrest'
    have hslash : c ≠ '\\' := by
      rintro rfl
      cases hc
    rw [Lexer.contentStep_cons hrest, Lexer.contentStep_cons hrest', if_neg hslash, if_neg hslash,
      if_pos hc, if_pos hc]
    exact breakStep_like h hhere hbr

theorem stepAnew_comment {rest : List Char} (inside : a.measures = false)
    (hrest : a.here.rest = '#' :: rest)
    (hnext : next = a.here.skip (a.here.rest.takeWhile (!Lexer.isLineBreak ·)).length)
    (hfollows : Follows next.rest text) (hchars : List.Forall₂ CharLike next.rest text) :
    ∃ whole, StepAnew rename words tabSize a
      [Lexer.take a.here .comment (a.here.rest.takeWhile (!Lexer.isLineBreak ·)).length]
      next text whole := by
  subst hnext
  have hcomment : a.here.rest.takeWhile (!Lexer.isLineBreak ·) =
      '#' :: rest.takeWhile (!Lexer.isLineBreak ·) := by
    rw [hrest]
    rfl
  have htake : a.here.rest.take (a.here.rest.takeWhile (!Lexer.isLineBreak ·)).length =
      '#' :: rest.takeWhile (!Lexer.isLineBreak ·) := by
    rw [← List.prefix_iff_eq_take.1 (List.takeWhile_prefix _), hcomment]
  refine ⟨_, stepAnew_past inside htake (by decide) hfollows hchars (fun h => .token _ _ h) ?_⟩
  intro b _ h hhere _ hrest'
  have hcontent : ∀ {l : Lexer} {cs : List Char}, l.here.rest = '#' :: cs →
      l.contentStep = l.commentStep l.here := fun h => by
    rw [Lexer.contentStep_cons h, if_neg (by decide), if_neg (by decide), if_pos rfl]
  rw [hcontent hrest, hcontent hrest']
  exact commentStep_like h hhere hcomment

theorem stepAnew_lexeme {lexeme : Lexeme} (lexeme' : Lexeme) (inside : a.measures = false)
    (hmunch : Lexeme.munch a.here = .ok lexeme) (hnext : next = a.here.skip lexeme.chars.length)
    (hrest : a.here.rest = lexeme.chars ++ next.rest)
    (hspell : respell rename lexeme.kind lexeme.chars = lexeme'.chars)
    (hlike : List.Forall₂ CharLike lexeme.chars lexeme'.chars)
    (hread : ∀ {b : Cursor}, b.rest = lexeme'.chars ++ text →
      Lexeme.munch b = .ok lexeme' ∧ Follows a.here.rest b.rest)
    (htoken : ∀ {here' : Cursor}, CursorLike (lexeme'.chars ++ text) a.here here' →
      TokenAnew rename words (Lexer.take a.here lexeme.kind lexeme.chars.length)
        (Lexer.take here' lexeme'.kind lexeme'.chars.length))
    (hupdate : ∀ {c d : Char}, lexeme.chars.head? = some c → lexeme'.chars.head? = some d →
      d = c ∨ c ∉ Bracket.signs ∧ d ∉ Bracket.signs)
    (hchars : List.Forall₂ CharLike next.rest text) :
    ∃ whole, StepAnew rename words tabSize a
      [Lexer.take a.here lexeme.kind lexeme.chars.length] next text whole := by
  have hthere : Lexeme.munch ⟨lexeme'.chars ++ text, a.here.position⟩ = .ok lexeme' ∧
      Follows a.here.rest (lexeme'.chars ++ text) := hread rfl
  have hfollows := hthere.2
  refine ⟨_, stepAnew_inside inside hfollows ?_ ?_ ?_⟩
  · rw [hrest]
    exact List.rel_append hlike hchars
  · intro later h
    have hspells : Spells rename a.here _ _ := .token lexeme.kind lexeme.chars.length (hnext ▸ h)
    rwa [hrest, List.take_left, hspell] at hspells
  · intro b h hhere
    have hmunch' := (hread hhere.rest).1
    obtain ⟨c, cs, hc⟩ := List.exists_cons_of_ne_nil (Lexeme.isContent_of_munch hmunch).chars_ne_nil
    obtain ⟨d, ds, hd⟩ := List.exists_cons_of_ne_nil
      (Lexeme.isContent_of_munch hmunch').chars_ne_nil
    have hleft : a.here.rest = c :: (cs ++ next.rest) := by rw [hrest, hc, List.cons_append]
    have hright : b.here.rest = d :: (ds ++ text) := by rw [hhere.rest, hd, List.cons_append]
    rw [contentStep_of_canStart hleft (canStart_of_munch hmunch hleft),
      contentStep_of_canStart hright (canStart_of_munch hmunch' hright)]
    refine lexemeStep_like h hhere hmunch hmunch' hlike.length_eq.symm (htoken hhere) ?_
    have hbrackets : List.Forall₂ BracketAnew a.brackets b.brackets := by
      cases h with
      | intro _ hbrackets _ _ _ => exact hbrackets
    rcases hupdate (by rw [hc]; rfl) (by rw [hd]; rfl) with rfl | ⟨hc, hd⟩
    · exact update_like hhere.place hbrackets
    · rw [Bracket.update_of_not_mem hc, Bracket.update_of_not_mem hd]
      exact .ok hbrackets

theorem rest_eq_of_munch {lexeme : Lexeme} (hmunch : Lexeme.munch a.here = .ok lexeme)
    (hnext : next = a.here.skip lexeme.chars.length) :
    a.here.rest = lexeme.chars ++ next.rest := by
  rw [hnext, Cursor.rest_skip]
  exact List.prefix_append_drop (Places.taken_munch hmunch).front

theorem stepAnew_other {lexeme : Lexeme} (inside : a.measures = false)
    (hmunch : Lexeme.munch a.here = .ok lexeme) (hkind : lexeme.kind ≠ .name)
    (hnext : next = a.here.skip lexeme.chars.length) (hfollows : Follows next.rest text)
    (hchars : List.Forall₂ CharLike next.rest text) :
    ∃ whole, StepAnew rename words tabSize a
      [Lexer.take a.here lexeme.kind lexeme.chars.length] next text whole := by
  have hrest := rest_eq_of_munch hmunch hnext
  refine stepAnew_lexeme lexeme inside hmunch hnext hrest (if_neg hkind) (charLike_refl _)
    (fun hb => munch_follows hmunch hrest hb hfollows)
    (fun h => take_anew h (Places.taken_munch hmunch).front hkind) ?_ hchars
  intro c d hc hd
  rw [hc] at hd
  exact .inl (Option.some.inj hd).symm

theorem stepAnew_name {lexeme : Lexeme} (hrename : IsRenaming known words rename)
    (hword : String.ofList lexeme.chars ∈ words) (inside : a.measures = false)
    (hmunch : Lexeme.munch a.here = .ok lexeme) (hkind : lexeme.kind = .name)
    (hnext : next = a.here.skip lexeme.chars.length) (hfollows : Follows next.rest text)
    (hchars : List.Forall₂ CharLike next.rest text) :
    ∃ whole, StepAnew rename words tabSize a
      [Lexer.take a.here lexeme.kind lexeme.chars.length] next text whole := by
  have hrest := rest_eq_of_munch hmunch hnext
  have hreads := readsName_of_munch hmunch hkind hrest
  obtain ⟨hname, hlength, hmark⟩ := hrename.spelling hword hreads.isName
  rw [String.length_ofList] at hlength
  have hmark := hmark.imp_right fun hsame => (congrArg String.toList hsame).trans
    String.toList_ofList
  generalize hnew : rename (String.ofList lexeme.chars) = name at hname hlength hmark
  have hagain : ∀ {b : Cursor}, b.rest = name.toList ++ text → ReadsName b name.toList text :=
    fun hb => hreads.anew hname hmark hfollows hb
  have hthere : ReadsName ⟨name.toList ++ text, a.here.position⟩ name.toList text := hagain rfl
  have hspell : respell rename lexeme.kind lexeme.chars = name.toList := by
    rw [respell, if_pos hkind, hnew]
  refine stepAnew_lexeme ⟨.name, name.toList⟩ inside hmunch hnext hrest hspell
    (charLike_of_parts hlength hreads.parts hthere.parts)
    (fun hb => ⟨(hagain hb).munch_eq, hreads.follows (hagain hb)⟩) (fun h => ?_)
    (fun hc hd => .inr ⟨hreads.not_bracket hc, hthere.not_bracket hd⟩) hchars
  rw [hkind]
  exact take_name_anew hreads h hlength hword hnew

theorem spells_marks {kind : TokenKind} (hkind : kind ≠ .name) {cursor : Cursor}
    {later : List Token} (h : Spells rename cursor later text) (n : Nat) :
    Spells rename cursor (List.replicate n (Lexer.mark kind cursor.position) ++ later) text := by
  induction n with
  | zero => exact h
  | succ n ih =>
    have hspells : Spells rename cursor _ _ := .token kind 0 ih
    rw [respell, if_neg hkind] at hspells
    exact hspells

theorem spells_gap {later : List Token} (h : Spells rename a.here later text) :
    Spells rename a.cursor later (gap a ++ text) := by
  have hspells : Spells rename a.cursor _ _ := .gap (gap a).length h
  rwa [gap, ← List.prefix_iff_eq_take.1 (List.takeWhile_prefix _)] at hspells

/-- Each step is written anew in front of what comes after it. -/
theorem stepAnew_of_emits {next : Lexer} (hrename : IsRenaming known words rename)
    (h : Lexer.Emits tabSize a tokens next)
    (hwords : ∀ token ∈ tokens, token.kind = .name → token.lexeme ∈ words)
    (hfollows : Follows next.cursor.rest text)
    (hchars : List.Forall₂ CharLike next.cursor.rest text) :
    ∃ whole, StepAnew rename words tabSize a tokens next.cursor text whole := by
  cases h with
  | blank measured _ | same measured _ =>
    exact ⟨_, stepAnew_start measured hfollows hchars spells_gap⟩
  | deeper measured _ =>
    refine ⟨_, stepAnew_start measured hfollows hchars fun h => ?_⟩
    have hspells : Spells rename a.cursor _ _ := .token .indent (gap a).length h
    rw [respell, if_neg (by decide), gap,
      ← List.prefix_iff_eq_take.1 (List.takeWhile_prefix _)] at hspells
    exact hspells
  | shallower closed _ measured _ =>
    refine ⟨_, stepAnew_start measured hfollows hchars fun h => ?_⟩
    exact spells_gap (spells_marks (by decide) h closed)
  | join rest inside hrest _ => exact stepAnew_join inside hrest rfl hfollows hchars
  | lineBreak inside broken =>
    exact stepAnew_lineBreak inside broken (by split <;> decide) rfl hfollows hchars
  | comment rest inside hrest => exact stepAnew_comment inside hrest rfl hfollows hchars
  | lexeme c rest lexeme brackets inside _ munched _ =>
    by_cases hkind : lexeme.kind = .name
    · have hword := hwords _ List.mem_cons_self hkind
      rw [Lexer.take, (rest_eq_of_munch munched rfl : a.here.rest = _), List.take_left] at hword
      exact stepAnew_name hrename hword inside munched hkind rfl hfollows hchars
    · exact stepAnew_other inside munched hkind rfl hfollows hchars

/-- At the end nothing is written anew. -/
theorem spells_of_finishes (h : Lexer.Finishes a tokens) :
    Spells rename a.cursor tokens a.cursor.rest := by
  rw [gap_append, h.rest_eq, h.tokens_eq]
  refine spells_gap ?_
  have hmark : Spells rename a.here [Lexer.mark .endMarker a.here.position] [] :=
    spells_marks (by decide) (.nil h.rest_eq) 1
  have hdedent : TokenKind.dedent ≠ .name := by decide
  have hnewline : TokenKind.newline ≠ .name := by decide
  have hmarks := spells_marks hdedent hmark a.blocks.length
  rw [List.append_assoc]
  split
  · exact spells_marks hnewline hmarks 1
  · exact hmarks

theorem finish_like (h : Lexer.Finishes a tokens) (hb : LexerLike a.cursor.rest a b) :
    StepLike rename words [] (a.step tabSize) (b.step tabSize) := by
  rw [gap_append, h.rest_eq] at hb
  have hhere := here_like hb
  have hinside := Bool.eq_false_iff.1 h.inside
  rw [Lexer.step_eq, Lexer.step_eq, measures_like hb, if_neg hinside, if_neg hinside,
    Lexer.contentStep_nil h.rest_eq, Lexer.contentStep_nil hhere.rest]
  exact endStep_like hb hhere.place

theorem run_anew (hrename : IsRenaming known words rename) {fuel : Nat} (hfuel : a.fuel ≤ fuel)
    (herror : (a.run tabSize fuel).error = none)
    (hwords : ∀ token ∈ (a.run tabSize fuel).tokens, token.kind = .name → token.lexeme ∈ words) :
    ∃ whole, Spells rename a.cursor (a.run tabSize fuel).tokens whole ∧
      Follows a.cursor.rest whole ∧ List.Forall₂ CharLike a.cursor.rest whole ∧
      ∀ {b : Lexer} {fuel' : Nat}, LexerLike whole a b → b.fuel ≤ fuel' →
        List.Forall₂ (TokenAnew rename words) (a.run tabSize fuel).tokens
          (b.run tabSize fuel').tokens ∧ (b.run tabSize fuel').error = none := by
  induction fuel generalizing a with
  | zero => simp [Lexer.fuel] at hfuel
  | succ fuel ih =>
    cases hstep : a.step tabSize with
    | fail error =>
      rw [Lexer.run, hstep] at herror
      cases herror
    | finish tokens =>
      have hfinishes := Lexer.finishes_of_step hstep
      rw [Lexer.run_of_finish hstep]
      refine ⟨a.cursor.rest, spells_of_finishes hfinishes, Follows.refl _, charLike_refl _, ?_⟩
      intro b fuel' hb hfuel'
      have hlike : StepLike rename words [] (a.step tabSize) (b.step tabSize) :=
        finish_like hfinishes hb
      rw [hstep] at hlike
      cases fuel' with
      | zero => simp [Lexer.fuel] at hfuel'
      | succ fuel' =>
        generalize hright : b.step tabSize = right at hlike
        cases hlike with
        | finish htokens =>
          rw [Lexer.run_of_finish hright]
          exact ⟨htokens, rfl⟩
    | emit tokens next =>
      have hemits := Lexer.emits_of_step hstep
      have hlt := Lexer.fuel_lt_of_emits hemits
      rw [Lexer.run_of_emit hstep] at herror hwords ⊢
      obtain ⟨text, hspells, hfollows, hchars, hrun⟩ := ih (by omega) herror
        fun token htoken => hwords token (List.mem_append_right _ htoken)
      obtain ⟨whole, hanew⟩ := stepAnew_of_emits hrename hemits
        (fun token htoken => hwords token (List.mem_append_left _ htoken)) hfollows hchars
      refine ⟨whole, hanew.spells hspells, hanew.follows, hanew.chars, ?_⟩
      intro b fuel' hb hfuel'
      have hlike := hanew.like hb
      rw [hstep] at hlike
      cases fuel' with
      | zero => simp [Lexer.fuel] at hfuel'
      | succ fuel' =>
        generalize hright : b.step tabSize = right at hlike
        cases hlike with
        | emit htokens hnext =>
          have hlt' := Lexer.fuel_lt_of_emits (Lexer.emits_of_step hright)
          rw [Lexer.run_of_emit hright]
          obtain ⟨hrest, hnone⟩ := hrun hnext (by omega : _ ≤ fuel')
          exact ⟨List.rel_append htokens hrest, hnone⟩

/-- A snippet and its other form have the same tokens at the same places, but for the names. -/
theorem stream_anew {source : String} (hrename : IsRenaming known (namesOf source) rename)
    (hlex : (TokenStream.ofText source).error = none) :
    List.Forall₂ (TokenAnew rename (namesOf source)) (TokenStream.ofText source).tokens
      (TokenStream.ofText (renamed rename source)).tokens ∧
      (TokenStream.ofText (renamed rename source)).error = none := by
  have hwords : ∀ token ∈ (TokenStream.ofText source).tokens, token.kind = .name →
      token.lexeme ∈ namesOf source := fun token htoken hkind =>
    List.mem_map_of_mem (List.mem_filter.2 ⟨htoken, decide_eq_true hkind⟩)
  obtain ⟨whole, hspells, _, hchars, hrun⟩ := run_anew hrename (Nat.le_refl _) hlex hwords
  have htext : renamed rename source = String.ofList whole := congrArg String.ofList
    (hspells.foldr_eq [] rfl)
  rw [htext]
  have hcursor : CursorLike whole (.ofText source) (.ofText (.ofList whole)) :=
    ⟨String.toList_ofList, hchars, rfl, rfl⟩
  have hlexer : LexerLike whole (.ofText source) (.ofText (.ofList whole)) := by
    unfold Lexer.ofText
    exact .intro hcursor .nil [] true false
  exact hrun hlexer (Nat.le_refl _)

end Run

end SnippetLint.Renaming
