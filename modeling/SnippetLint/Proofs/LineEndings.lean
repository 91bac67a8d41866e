import SnippetLint.Proofs.KnownNames
import SnippetLint.Proofs.PairingStatement
import SnippetLint.Proofs.Recoding

/-!
Line endings do not matter. Two lexers, one over a text with line feeds and one over the same text
with other line breaks, go step by step through the same lines and columns (`step_like`), so their
streams are alike; the grammar reads alike streams alike, and the scan reports the same about them.
Main statement: `line_endings_do_not_matter`.
-/

namespace SnippetLint.LineEndings
open Recoding

/-! ## Reading -/

/-- Two positions in the same line and column. -/
structure SamePlace (p q : Position) : Prop where
  line : q.line = p.line
  column : q.column = p.column

/-- A cursor, and one at the same place of the text with other line breaks. -/
structure CursorLike (br : List Char) (a b : Cursor) : Prop where
  rest : b.rest = recode br a.rest
  plain : '\r' ∉ a.rest
  place : SamePlace a.position b.position

section Cursor

variable {br : List Char} [hbr : IsBreak br] {a b : Cursor}

theorem next_eq {c : Char} {rest : List Char} (h : a.rest = c :: rest) :
    a.next = ⟨rest, a.position.after c rest⟩ := by
  unfold Cursor.next
  rw [h]

/-- Either line break goes on to the start of the next line. -/
theorem samePlace_break {rest : List Char} (hrest : b.rest = br ++ rest)
    (hhead : rest.head? ≠ some '\n') {p : Position} (h : SamePlace p b.position)
    (after : List Char) : (b.skip br.length).rest = rest ∧
      SamePlace (p.after '\n' after) (b.skip br.length).position := by
  have hline : ∀ ds, p.after '\n' ds = ⟨p.line + 1, 0, p.offset + 1⟩ := fun _ => rfl
  rcases hbr.cases with rfl | rfl
  · have hnext : b.next = ⟨rest, b.position.after '\r' rest⟩ := next_eq hrest
    rw [Position.after, if_neg (by decide), if_pos rfl, if_neg hhead] at hnext
    rw [List.length_singleton, Cursor.skip, Cursor.skip, hnext, hline]
    exact ⟨rfl, congrArg (· + 1) h.line, rfl⟩
  · have hfirst : b.next = ⟨'\n' :: rest, b.position.after '\r' ('\n' :: rest)⟩ := next_eq hrest
    rw [Position.after, if_neg (by decide), if_pos rfl, if_pos List.head?_cons] at hfirst
    have hsecond := next_eq (congrArg Cursor.rest hfirst)
    rw [hfirst, Position.after, if_pos rfl] at hsecond
    rw [List.length_cons, List.length_singleton, Cursor.skip, Cursor.skip, Cursor.skip, hfirst,
      hsecond, hline]
    exact ⟨rfl, congrArg (· + 1) h.line, rfl⟩

theorem cursorLike_next {c : Char} {rest : List Char} (h : CursorLike br a b)
    (hrest : a.rest = c :: rest) : CursorLike br a.next (b.skip (recode br [c]).length) := by
  have hanew := h.rest
  have hplain := h.plain
  rw [hrest] at hanew hplain
  have hplain' : '\r' ∉ rest := fun h => hplain (List.mem_cons_of_mem c h)
  rw [next_eq hrest]
  by_cases hc : c = '\n'
  · subst hc
    rw [recode_break] at hanew
    obtain ⟨hskip, hplace⟩ := samePlace_break hanew (head?_recode_ne br rest) h.place rest
    rw [recode_break, recode_nil, List.append_nil]
    exact ⟨hskip, hplain', hplace⟩
  · have hret : c ≠ '\r' := fun h => hplain (h ▸ List.mem_cons_self)
    rw [recode_cons br hc] at hanew
    rw [recode_cons br hc, recode_nil, List.length_singleton, Cursor.skip, Cursor.skip,
      next_eq hanew]
    refine ⟨rfl, hplain', ?_⟩
    rw [Position.after, if_neg hc, if_neg hret, Position.after, if_neg hc, if_neg hret]
    exact ⟨h.place.line, congrArg (· + 1) h.place.column⟩

theorem cursorLike_skip (h : CursorLike br a b) (n : Nat) :
    CursorLike br (a.skip n) (b.skip (recode br (a.rest.take n)).length) := by
  induction n generalizing a b with
  | zero => exact h
  | succ n ih =>
    cases hrest : a.rest with
    | nil =>
      rw [Cursor.skip_of_rest_eq_nil hrest]
      exact h
    | cons c rest =>
      have hnext := ih (cursorLike_next h hrest)
      rw [Cursor.skip_skip, Cursor.rest_next, hrest, List.tail_cons] at hnext
      rwa [List.take_succ_cons, ← List.singleton_append, recode_append, List.length_append]

/-- Past what holds no line break. -/
theorem cursorLike_skip_plain (h : CursorLike br a b) {front : List Char}
    (hfront : front <+: a.rest) (hplain : '\n' ∉ front) :
    CursorLike br (a.skip front.length) (b.skip front.length) := by
  have hskip := cursorLike_skip h front.length
  rwa [← List.prefix_iff_eq_take.1 hfront, recode_of_not_mem br hplain] at hskip

end Cursor

/-! ## Tokens -/

/-- A token, and the same token with other line breaks. -/
structure TokenAnew (br : List Char) (a b : Token) : Prop where
  kind : b.kind = a.kind
  lexeme : b.lexeme.toList = recode br a.lexeme.toList
  plain : a.kind ≠ .string → a.kind ≠ .newline → a.kind ≠ .nl → '\n' ∉ a.lexeme.toList
  isBytes : a.kind = .string →
    Quotation.isBytes b.lexeme.toList = Quotation.isBytes a.lexeme.toList
  start : SamePlace a.span.start b.span.start
  stop : SamePlace a.span.stop b.span.stop

/-- What is wrong with a text, and what is wrong with it when it has other line breaks. -/
structure ErrorAnew (a b : LexicalError) : Prop where
  isIndentation : b.fault.isIndentation = a.fault.isIndentation
  place : SamePlace a.position b.position

structure BracketAnew (a b : Bracket) : Prop where
  sign : b.sign = a.sign
  place : SamePlace a.position b.position

/-- A lexer, and one at the same place of the text with other line breaks. -/
inductive LexerLike (br : List Char) : Lexer → Lexer → Prop
  | intro {c d : Cursor} {brackets brackets' : List Bracket} (cursor : CursorLike br c d)
    (bracketsAnew : List.Forall₂ BracketAnew brackets brackets') (blocks : List Indentation)
    (atLineStart lineHasContent : Bool) :
    LexerLike br ⟨c, blocks, brackets, atLineStart, lineHasContent⟩
      ⟨d, blocks, brackets', atLineStart, lineHasContent⟩

/-- What a step gives, with either kind of line break. -/
inductive StepLike (br : List Char) : Lexer.Step → Lexer.Step → Prop
  | emit {tokens tokens' : List Token} {next next' : Lexer}
    (tokensAnew : List.Forall₂ (TokenAnew br) tokens tokens') (nextLike : LexerLike br next next') :
    StepLike br (.emit tokens next) (.emit tokens' next')
  | finish {tokens tokens' : List Token} (tokensAnew : List.Forall₂ (TokenAnew br) tokens tokens') :
    StepLike br (.finish tokens) (.finish tokens')
  | fail {error error' : LexicalError} (errorAnew : ErrorAnew error error') :
    StepLike br (.fail error) (.fail error')

section Token

variable {br : List Char} [hbr : IsBreak br] {a b : Cursor}

omit hbr in
theorem mark_anew (kind : TokenKind) {p q : Position} (h : SamePlace p q) :
    TokenAnew br (Lexer.mark kind p) (Lexer.mark kind q) where
  kind := rfl
  lexeme := rfl
  plain _ _ _ := by simp [Lexer.mark]
  isBytes _ := rfl
  start := h
  stop := h

omit hbr in
theorem marks_anew (kind : TokenKind) {p q : Position} (h : SamePlace p q) (n : Nat) :
    List.Forall₂ (TokenAnew br) (List.replicate n (Lexer.mark kind p))
      (List.replicate n (Lexer.mark kind q)) := by
  induction n with
  | zero => exact .nil
  | succ n ih => exact .cons (mark_anew kind h) ih

/-- The token of a number of characters, all of them written anew. -/
theorem take_anew (h : CursorLike br a b) (kind : TokenKind) (n : Nat)
    (plain : kind ≠ .string → kind ≠ .newline → kind ≠ .nl → '\n' ∉ a.rest.take n)
    (isBytes : kind = .string →
      Quotation.isBytes (recode br (a.rest.take n)) = Quotation.isBytes (a.rest.take n)) :
    TokenAnew br (Lexer.take a kind n) (Lexer.take b kind (recode br (a.rest.take n)).length) := by
  have htake : b.rest.take (recode br (a.rest.take n)).length = recode br (a.rest.take n) := by
    rw [h.rest]
    refine (List.prefix_iff_eq_take.1 ?_).symm
    rw [← List.take_append_drop n a.rest, recode_append, List.take_append_drop]
    exact List.prefix_append _ _
  have hskip := cursorLike_skip h n
  constructor
  · rfl
  · simp only [Lexer.take, htake, String.toList_ofList]
  · simpa only [Lexer.take, String.toList_ofList] using plain
  · simpa only [Lexer.take, htake, String.toList_ofList] using isBytes
  · exact h.place
  · exact hskip.place

end Token

/-! ## Steps -/

section Step

variable {br : List Char} [hbr : IsBreak br] {a b : Lexer} {here here' : Cursor}

/-- The same number of characters ahead, if none of them is a line break. -/
theorem skip_like (h : CursorLike br here here') (p : Char → Bool) [hp : Inline p] :
    CursorLike br (here.skip (here.rest.takeWhile p).length)
      (here'.skip (here.rest.takeWhile p).length) := by
  refine cursorLike_skip_plain h (List.takeWhile_prefix p) fun hmem => ?_
  have hbreak := List.mem_takeWhile_imp hmem
  rw [hp.newline] at hbreak
  cases hbreak

/-- The token of the characters ahead that are no line breaks. -/
theorem takeWhile_anew (h : CursorLike br here here') (p : Char → Bool) [hp : Inline p]
    {kind : TokenKind} (hkind : kind ≠ .string) :
    TokenAnew br (Lexer.take here kind (here.rest.takeWhile p).length)
      (Lexer.take here' kind (here.rest.takeWhile p).length) := by
  have hplain : '\n' ∉ here.rest.takeWhile p := fun hmem => by
    have hbreak := List.mem_takeWhile_imp hmem
    rw [hp.newline] at hbreak
    cases hbreak
  have htake := (List.prefix_iff_eq_take.1 (List.takeWhile_prefix p (l := here.rest))).symm
  have hanew := take_anew h kind (here.rest.takeWhile p).length
    (fun _ _ _ => htake.symm ▸ hplain) fun heq => absurd heq hkind
  rwa [htake, recode_of_not_mem br hplain] at hanew

theorem indentStep_like (tabSize : Nat) (h : LexerLike br a b) :
    StepLike br (a.indentStep tabSize) (b.indentStep tabSize) := by
  cases h with
  | @intro c d brackets brackets' cursor hbrackets blocks atLineStart lineHasContent =>
    have hgap : d.rest.takeWhile Indentation.isGap = c.rest.takeWhile Indentation.isGap := by
      rw [cursor.rest, takeWhile_recode]
    have hhere := skip_like cursor Indentation.isGap
    have hindent : TokenAnew br (Lexer.take c .indent _) (Lexer.take d .indent _) :=
      takeWhile_anew cursor Indentation.isGap (by decide)
    unfold Lexer.indentStep
    dsimp only
    rw [hgap]
    generalize Cursor.skip (c.rest.takeWhile Indentation.isGap).length c = here at hhere ⊢
    generalize Cursor.skip (c.rest.takeWhile Indentation.isGap).length d = here' at hhere ⊢
    have hsame : ∀ blocks, LexerLike br ⟨here, blocks, brackets, false, lineHasContent⟩
        ⟨here', blocks, brackets', false, lineHasContent⟩ := fun blocks =>
      .intro hhere hbrackets blocks false lineHasContent
    have hblank : StepLike br (.emit [] ⟨here, blocks, brackets, false, lineHasContent⟩)
        (.emit [] ⟨here', blocks, brackets', false, lineHasContent⟩) := .emit .nil (hsame blocks)
    rcases recode_cases br here.rest with hnil | ⟨e, rest, heq, he, hrecode⟩ |
      ⟨rest, tail, heq, hrecode⟩
    · rw [hhere.rest, hnil]
      exact hblank
    · rw [hhere.rest, hrecode, heq]
      dsimp only
      split
      · exact hblank
      · split
        · exact hblank
        · exact .emit (.cons hindent .nil) (hsame _)
        · next closed remaining _ =>
          exact .emit (marks_anew .dedent hhere.place closed) (hsame remaining)
        · exact .fail ⟨rfl, hhere.place⟩
        · exact .fail ⟨rfl, hhere.place⟩
        · exact .fail ⟨rfl, hhere.place⟩
    · rw [hhere.rest, hrecode, heq]
      dsimp only
      rw [if_pos (.inr (.inl rfl)), if_pos (.inr (.inr rfl))]
      exact hblank

omit hbr in
theorem endStep_like (h : LexerLike br a b) {p q : Position} (hplace : SamePlace p q) :
    StepLike br (a.endStep p) (b.endStep q) := by
  cases h with
  | intro _ hbrackets blocks _ lineHasContent =>
    unfold Lexer.endStep
    cases hbrackets with
    | cons hbracket _ => exact .fail ⟨rfl, hbracket.place⟩
    | nil =>
      refine .finish (List.rel_append (List.rel_append ?_ ?_) ?_)
      · dsimp only
        split
        · exact .cons (mark_anew .newline hplace) .nil
        · exact .nil
      · exact marks_anew .dedent hplace blocks.length
      · exact .cons (mark_anew .endMarker hplace) .nil

/-- A line break, written anew, is the line break of the text written anew. -/
theorem lineBreak_recode {cs : List Char} (h : '\r' ∉ cs) :
    Cursor.lineBreak (recode br cs) = recode br (Cursor.lineBreak cs) := by
  cases cs with
  | nil => rfl
  | cons c rest =>
    by_cases hc : c = '\n'
    · subst hc
      have hhead := head?_recode_ne br rest
      have hone : Cursor.lineBreak ('\n' :: rest) = ['\n'] := by rw [Cursor.lineBreak]
      rw [hone, recode_break, recode_break, recode_nil, List.append_nil]
      rcases hbr.cases with rfl | rfl
      · rw [List.singleton_append, Cursor.lineBreak]
        intro ds hds
        exact hhead (by rw [hds]; rfl)
      · rfl
    · have hret : c ≠ '\r' := fun heq => h (heq ▸ List.mem_cons_self)
      have hnone : ∀ ds, Cursor.lineBreak (c :: ds) = [] := by
        intro ds
        unfold Cursor.lineBreak
        split <;> simp_all
      rw [recode_cons br hc, hnone, hnone, recode_nil]

theorem take_lineBreak (cs : List Char) :
    cs.take (Cursor.lineBreak cs).length = Cursor.lineBreak cs := by
  unfold Cursor.lineBreak
  split
  all_goals rfl

theorem skip_lineBreak (h : CursorLike br here here') :
    CursorLike br (here.skip (Cursor.lineBreak here.rest).length)
      (here'.skip (Cursor.lineBreak here'.rest).length) := by
  have hskip := cursorLike_skip h (Cursor.lineBreak here.rest).length
  rwa [take_lineBreak, ← lineBreak_recode h.plain, ← h.rest] at hskip

theorem lineBreak_anew (h : CursorLike br here here') {kind : TokenKind}
    (hkind : kind = .newline ∨ kind = .nl) :
    TokenAnew br (Lexer.take here kind (Cursor.lineBreak here.rest).length)
      (Lexer.take here' kind (Cursor.lineBreak here'.rest).length) := by
  have hanew := take_anew h kind (Cursor.lineBreak here.rest).length
    (fun _ hnewline hnl => absurd hkind (by simp [hnewline, hnl]))
    (by rintro rfl; simp at hkind)
  rwa [take_lineBreak, ← lineBreak_recode h.plain, ← h.rest] at hanew

theorem breakStep_like (h : LexerLike br a b) (hhere : CursorLike br here here') :
    StepLike br (a.breakStep here) (b.breakStep here') := by
  cases h with
  | intro _ hbrackets blocks _ lineHasContent =>
    unfold Lexer.breakStep
    dsimp only
    rw [← Likeness.isEmpty_eq hbrackets]
    refine .emit (.cons (lineBreak_anew hhere ?_) .nil)
      (.intro (skip_lineBreak hhere) hbrackets blocks _ _)
    split
    · exact .inl rfl
    · exact .inr rfl

theorem joinStep_like (h : LexerLike br a b) (hhere : CursorLike br here here')
    (hnext : CursorLike br here.next here'.next) :
    StepLike br (a.joinStep here) (b.joinStep here') := by
  cases h with
  | intro _ hbrackets blocks atLineStart lineHasContent =>
    have hskip := skip_lineBreak hnext
    have hbreak : Cursor.lineBreak (recode br _) = _ := lineBreak_recode hnext.plain
    rw [← hnext.rest] at hbreak
    unfold Lexer.joinStep Cursor.eatLineBreak? Cursor.atEnd
    cases hcs : Cursor.lineBreak here.next.rest with
    | cons c cs =>
      obtain ⟨d, ds, hds⟩ := List.exists_cons_of_ne_nil (recode_ne_nil br c cs)
      rw [hcs, hds] at hbreak
      rw [hcs, hbreak] at hskip
      rw [hbreak]
      exact .emit .nil (.intro hskip hbrackets blocks atLineStart lineHasContent)
    | nil =>
      rw [hcs, recode_nil] at hbreak
      rw [hbreak, hnext.rest]
      dsimp only
      cases hrest : here.next.rest with
      | nil => exact .fail ⟨rfl, hnext.place⟩
      | cons c cs =>
        obtain ⟨d, ds, hds⟩ := List.exists_cons_of_ne_nil (recode_ne_nil br c cs)
        rw [hds]
        exact .fail ⟨rfl, hhere.place⟩

instance : Inline (!Lexer.isLineBreak ·) := ⟨rfl, rfl⟩

theorem commentStep_like (h : LexerLike br a b) (hhere : CursorLike br here here') :
    StepLike br (a.commentStep here) (b.commentStep here') := by
  cases h with
  | intro _ hbrackets blocks atLineStart lineHasContent =>
    have hlength : here'.rest.takeWhile (!Lexer.isLineBreak ·) =
        here.rest.takeWhile (!Lexer.isLineBreak ·) := by
      rw [hhere.rest]
      exact takeWhile_recode br here.rest
    unfold Lexer.commentStep
    rw [hlength]
    exact .emit (.cons (takeWhile_anew hhere (!Lexer.isLineBreak ·) (by decide)) .nil)
      (.intro (skip_like hhere (!Lexer.isLineBreak ·)) hbrackets blocks atLineStart lineHasContent)

/-- Brackets open and close alike. -/
theorem update_like {c : Char} {p q : Position} (hplace : SamePlace p q) {as bs : List Bracket}
    (h : List.Forall₂ BracketAnew as bs) :
    Paired (List.Forall₂ BracketAnew) (Bracket.update c p as) (Bracket.update c q bs) := by
  unfold Bracket.update
  rw [h.length_eq]
  split
  · split
    · exact .error _ _
    · exact .ok (.cons ⟨rfl, hplace⟩ h)
  · split
    · cases h with
      | nil => exact .error _ _
      | cons htop houter =>
        dsimp only
        rw [htop.sign]
        split
        · exact .ok houter
        · exact .error _ _
    · exact .ok h

theorem isIndentation_of_update {c : Char} {p : Position} {brackets : List Bracket}
    {fault : LexicalFault} (h : Bracket.update c p brackets = .error fault) :
    fault.isIndentation = false := by
  unfold Bracket.update at h
  split at h
  · split at h
    · cases h
      rfl
    · cases h
  · split at h
    · split at h
      · cases h
        rfl
      · split at h
        · cases h
        · cases h
          rfl
    · cases h

theorem isIndentation_of_quotation {marks cs : List Char} {fault : LexicalFault}
    (h : Lexeme.quotation here marks cs = .error fault) : fault.isIndentation = false := by
  have hcheck : ∀ lexeme fault, Quotation.check lexeme = .error fault →
      fault.isIndentation = false := by
    intro lexeme fault h
    unfold Quotation.check at h
    split at h
    · cases h
    · split at h
      · cases h
        rfl
      · split at h
        · next parts _ _ _ =>
          cases htemplate : Template.check (parts.hasMark 'r') parts.body with
          | error e =>
            rw [htemplate] at h
            cases h
            rfl
          | ok _ =>
            rw [htemplate] at h
            cases h
        · cases h
  unfold Lexeme.quotation at h
  split at h
  · cases h
    rfl
  · cases h
    rfl
  · next quoted _ =>
    cases hquoted : Quotation.check (marks ++ quoted) with
    | error e =>
      rw [hquoted] at h
      cases h
      exact hcheck _ _ hquoted
    | ok _ =>
      rw [hquoted] at h
      cases h

/-- What is wrong with a lexeme is no matter of the layout. -/
theorem isIndentation_of_munch {fault : LexicalFault} (h : Lexeme.munch here = .error fault) :
    fault.isIndentation = false := by
  cases Lexeme.munched here with
  | literal _ _ _ _ _ _ munch_eq => exact isIndentation_of_quotation (munch_eq.symm.trans h)
  | number _ _ _ munch_eq => cases munch_eq.symm.trans h
  | word _ _ _ _ _ _ _ munch_eq => cases munch_eq.symm.trans h
  | operator _ _ munch_eq => cases munch_eq.symm.trans h
  | stray _ isStray munch_eq =>
    cases munch_eq.symm.trans h
    cases fault <;> first | rfl | cases isStray

theorem lexemeStep_like (h : LexerLike br a b) (hhere : CursorLike br here here') {c : Char}
    {rest : List Char} (hrest : here.rest = c :: rest) (hc : c ≠ '\n') :
    StepLike br (a.lexemeStep here c) (b.lexemeStep here' c) := by
  cases h with
  | @intro _ _ brackets brackets' _ hbrackets blocks atLineStart lineHasContent =>
    have hmunch := munch_recode br hrest hhere.rest hc hhere.plain
    have hupdate := update_like (c := c) hhere.place hbrackets
    unfold Lexer.lexemeStep
    cases hlexeme : Lexeme.munch here with
    | error fault =>
      rw [hlexeme] at hmunch
      cases hlexeme' : Lexeme.munch here' with
      | ok lexeme => rw [hlexeme'] at hmunch; cases hmunch
      | error fault' =>
        exact .fail ⟨(isIndentation_of_munch hlexeme').trans (isIndentation_of_munch hlexeme).symm,
          hhere.place⟩
    | ok lexeme =>
      rw [hlexeme] at hmunch
      cases hlexeme' : Lexeme.munch here' with
      | error fault' => rw [hlexeme'] at hmunch; cases hmunch
      | ok lexeme' =>
        rw [hlexeme'] at hmunch
        cases hmunch with
        | ok hlike =>
          have htake : here.rest.take lexeme.chars.length = lexeme.chars :=
            (List.prefix_iff_eq_take.1 (Places.taken_munch hlexeme).front).symm
          have hskip := cursorLike_skip hhere lexeme.chars.length
          have htoken := take_anew hhere lexeme.kind lexeme.chars.length
            (fun h _ _ => htake.symm ▸ hlike.plain h)
            (fun _ => by rw [htake, ← hlike.chars, hlike.isBytes])
          rw [htake, ← hlike.chars] at hskip htoken
          dsimp only
          rw [hlike.kind]
          generalize hleft : Bracket.update c here.position brackets = left at hupdate ⊢
          generalize hright : Bracket.update c here'.position brackets' = right at hupdate ⊢
          cases hupdate with
          | error e e' =>
            exact .fail ⟨(isIndentation_of_update hright).trans
              (isIndentation_of_update hleft).symm, hhere.place⟩
          | ok houter =>
            exact .emit (.cons htoken .nil) (.intro hskip houter blocks atLineStart true)

theorem contentStep_like (h : LexerLike br a b) : StepLike br a.contentStep b.contentStep := by
  have hhere : CursorLike br (a.cursor.eatWhile Indentation.isGap)
      (b.cursor.eatWhile Indentation.isGap) := by
    cases h with
    | @intro c d _ _ cursor _ _ _ _ =>
      have hskip := skip_like cursor Indentation.isGap
      unfold Cursor.eatWhile
      dsimp only
      rwa [cursor.rest, takeWhile_recode]
  unfold Lexer.contentStep
  dsimp only
  generalize a.cursor.eatWhile Indentation.isGap = here at hhere ⊢
  generalize b.cursor.eatWhile Indentation.isGap = here' at hhere ⊢
  rcases recode_cases br here.rest with hnil | ⟨c, rest, hrest, hc, hrecode⟩ |
    ⟨rest, tail, hrest, hrecode⟩
  · rw [hhere.rest, hnil]
    exact endStep_like h hhere.place
  · have hrest' := hhere.rest
    rw [hrecode] at hrest'
    rw [hrest, hrest']
    dsimp only
    split
    · next hslash =>
      have hnext := cursorLike_next hhere hrest
      rw [recode_cons br hc] at hnext
      exact joinStep_like h hhere hnext
    · split
      · exact breakStep_like h hhere
      · split
        · exact commentStep_like h hhere
        · exact lexemeStep_like h hhere hrest hc
  · rw [hhere.rest, hrecode, hrest]
    exact breakStep_like h hhere

theorem step_like (tabSize : Nat) (h : LexerLike br a b) :
    StepLike br (a.step tabSize) (b.step tabSize) := by
  have hcontent := contentStep_like h
  have hindent := indentStep_like tabSize h
  unfold Lexer.step
  cases h with
  | intro _ hbrackets blocks atLineStart lineHasContent =>
    dsimp only
    rw [← Likeness.isEmpty_eq hbrackets]
    split
    · exact hindent
    · exact hcontent

/-- A stream, and the stream of the same text with other line breaks. -/
structure StreamLike (br : List Char) (a b : TokenStream) : Prop where
  tokens : List.Forall₂ (TokenAnew br) a.tokens b.tokens
  error : Option.Rel ErrorAnew a.error b.error

theorem run_like {tabSize fuel fuel' : Nat} (h : LexerLike br a b) (hfuel : a.fuel ≤ fuel)
    (hfuel' : b.fuel ≤ fuel') : StreamLike br (a.run tabSize fuel) (b.run tabSize fuel') := by
  induction fuel generalizing a b fuel' with
  | zero => simp [Lexer.fuel] at hfuel
  | succ fuel ih =>
    cases fuel' with
    | zero => simp [Lexer.fuel] at hfuel'
    | succ fuel' =>
      have hstep := step_like tabSize h
      unfold Lexer.run
      generalize hleft : a.step tabSize = left at hstep ⊢
      generalize hright : b.step tabSize = right at hstep ⊢
      cases hstep with
      | emit htokens hnext =>
        have hlt := Lexer.fuel_lt_of_emits (Lexer.emits_of_step hleft)
        have hlt' := Lexer.fuel_lt_of_emits (Lexer.emits_of_step hright)
        have hrest := ih hnext (by omega) (by omega : _ ≤ fuel')
        exact ⟨List.rel_append htokens hrest.tokens, hrest.error⟩
      | finish htokens => exact ⟨htokens, .none⟩
      | fail herror => exact ⟨.nil, .some herror⟩

end Step

/-- A snippet with every line feed written as another line break. -/
def rebreak (br : List Char) (source : String) : String := String.ofList (recode br source.toList)

/-- A snippet and its other form have the same tokens in the same lines and columns. -/
theorem stream_like (br : List Char) [IsBreak br] {source : String} (h : '\r' ∉ source.toList) :
    StreamLike br (.ofText source) (.ofText (rebreak br source)) := by
  have hcursor : CursorLike br (.ofText source) (.ofText (rebreak br source)) :=
    ⟨String.toList_ofList, h, rfl, rfl⟩
  have hlexer : LexerLike br (.ofText source) (.ofText (rebreak br source)) := by
    unfold Lexer.ofText
    exact .intro hcursor .nil [] true false
  exact run_like hlexer (Nat.le_refl _) (Nat.le_refl _)

/-! ## Trees -/

/-- What does not depend on line endings: lines, columns and names, but no text of a string. -/
def likeness : Likeness where
  place := SamePlace
  line m n := n = m
  name := Eq
  literal a b := Quotation.isBytes a.toList = Quotation.isBytes b.toList
  text _ _ := True
  lexical a b := b.isIndentation = a.isIndentation
  line_of_place h := h.line
  name_fixed := by
    rintro _ _ rfl _ _
    exact Iff.rfl
  name_star := rfl
  name_dotted h := congrArg _ (List.forall₂_eq_eq_eq ▸ h)
  literal_isBytes h := h
  text_joined _ := trivial

section Tree

variable {br : List Char} {a b : Token}

theorem TokenAnew.lexeme_eq (h : TokenAnew br a b) (hplain : '\n' ∉ a.lexeme.toList) :
    a.lexeme = b.lexeme := by
  have hlist := h.lexeme
  rw [recode_of_not_mem br hplain] at hlist
  exact (String.toList_injective hlist).symm

theorem TokenAnew.like (h : TokenAnew br a b) : Pairing.TokenLike likeness a b where
  kind := h.kind.symm
  word := by
    have hplain := h.plain
    have hisBytes := h.isBytes
    cases hkind : a.kind with
    | name => exact h.lexeme_eq (hplain (by simp [hkind]) (by simp [hkind]) (by simp [hkind]))
    | number => exact h.lexeme_eq (hplain (by simp [hkind]) (by simp [hkind]) (by simp [hkind]))
    | string => exact (hisBytes hkind).symm
    | _ => trivial
  start := h.start
  stop := h.stop

/-- The grammar sees the same of both streams. -/
theorem StreamLike.seen {s t : TokenStream} (h : StreamLike br s t) :
    Pairing.StreamLike likeness s t := by
  refine Pairing.streamLike_of_tokens ⟨rfl, rfl⟩ (h.tokens.imp fun _ _ h => h.like) ?_
  have herror := h.error
  generalize s.error = e at herror ⊢
  generalize t.error = e' at herror ⊢
  cases herror with
  | none => exact .none
  | some herror => exact .some ⟨herror.place, .some herror.isIndentation⟩

theorem tree_like (br : List Char) [IsBreak br] {source : String} (h : '\r' ∉ source.toList) :
    Likeness.ResultLike likeness (Likeness.TreeLike likeness) (Module.parse source)
      (Module.parse (rebreak br source)) :=
  Pairing.ofStream_like (stream_like br h).seen

end Tree

/-! ## Names -/

section Names

open Likeness

theorem flatMap_eq {α β γ : Type} {R : α → β → Prop} {as : List α} {bs : List β} {f : α → List γ}
    {g : β → List γ} (h : List.Forall₂ R as bs) (hfg : ∀ a b, R a b → f a = g b) :
    as.flatMap f = bs.flatMap g := by
  induction h with
  | nil => rfl
  | cons hab _ ih => rw [List.flatMap_cons, List.flatMap_cons, hfg _ _ hab, ih]

theorem asName_eq {a b : Option String} (h : Option.Rel likeness.name a b) : a = b := by
  cases h with
  | none => rfl
  | some h => exact congrArg some h

theorem ofKind_eq {k l : NodeKind} (h : KindLike likeness k l) :
    Bound.ofKind k = Bound.ofKind l := by
  cases h with
  | plain _ => rfl
  | functionDef h _ => exact congrArg ([·]) h
  | classDef h => exact congrArg ([·]) h
  | parameter h _ => exact congrArg ([·]) h
  | typeParam h => exact congrArg ([·]) h
  | matchAs h => exact congrArg ([·]) h
  | exceptHandler h => exact congrArg Option.toList (asName_eq h)
  | importStmt h =>
    refine flatMap_eq h fun a b hab => ?_
    have hname : a.name = b.name := hab.name
    rw [Bound.ofImport, Bound.ofImport, hname, asName_eq hab.asName]
  | importFrom _ _ h =>
    refine flatMap_eq h fun a b hab => ?_
    have hname : a.name = b.name := hab.name
    rw [Bound.ofImportFrom, Bound.ofImportFrom, hname, asName_eq hab.asName]
  | globalStmt _ => rfl
  | nonlocalStmt _ => rfl
  | keyword _ => rfl
  | string _ => rfl
  | attr _ _ => rfl
  | @name a b h context =>
    have hname : a = b := h
    rw [hname]

/-- Alike trees bind the same names. -/
theorem knownNames_eq (settings : Settings) {t u : Tree} (h : TreeLike likeness t u) :
    Analysis.knownNames settings t = Analysis.knownNames settings u := by
  have hnames := flatMap_eq (within_like (nodes_like 1 h) RootedArena.maxDepth)
    fun m n hmn => ofKind_eq hmn.2
  rw [Analysis.knownNames, Analysis.knownNames, Bound.collect, Bound.collect,
    KnownNames.ofWalk_ofTree, KnownNames.ofWalk_ofTree, hnames]

end Names

/-! ## Reports -/

/-- A diagnostic without its wording. -/
def unworded (d : Diagnostic) : Diagnostic := { d with message := "" }

section Reports

variable {br : List Char} [hbr : IsBreak br]

/-- A word without a line break is the text of both tokens or of neither. -/
theorem TokenAnew.lexeme_iff {a b : Token} (h : TokenAnew br a b) {word : String}
    (hword : '\n' ∉ word.toList) (hword' : '\r' ∉ word.toList) :
    a.lexeme = word ↔ b.lexeme = word := by
  by_cases hplain : '\n' ∈ a.lexeme.toList
  · have hret : '\r' ∈ b.lexeme.toList := by
      obtain ⟨tail, htail, _⟩ := exists_break br
      rw [h.lexeme, recode, List.mem_flatMap]
      exact ⟨'\n', hplain, by rw [if_pos rfl, htail]; exact List.mem_cons_self⟩
    constructor
    · rintro rfl
      exact absurd hplain hword
    · rintro rfl
      exact absurd hret hword'
  · rw [h.lexeme_eq hplain]

theorem contains_eq {a b : Token} (h : TokenAnew br a b) {words : List String}
    (hwords : ∀ word ∈ words, '\n' ∉ word.toList ∧ '\r' ∉ word.toList) :
    words.contains b.lexeme = words.contains a.lexeme := by
  rw [Bool.eq_iff_iff, List.contains_iff_mem, List.contains_iff_mem]
  constructor
  · intro hmem
    obtain ⟨hword, hword'⟩ := hwords _ hmem
    rwa [(h.lexeme_iff hword hword').2 rfl]
  · intro hmem
    obtain ⟨hword, hword'⟩ := hwords _ hmem
    rwa [(h.lexeme_iff hword hword').1 rfl]

/-- What is written next to a name says the same about it. -/
theorem any_contains_eq {x y : Option Token} (h : Option.Rel (TokenAnew br) x y)
    {words : List String} (hwords : ∀ word ∈ words, '\n' ∉ word.toList ∧ '\r' ∉ word.toList) :
    y.any (words.contains ·.lexeme) = x.any (words.contains ·.lexeme) := by
  cases h with
  | none => rfl
  | some h => exact contains_eq h hwords

theorem window_eq {previous previous' next next' : Option Token}
    (hprevious : Option.Rel (TokenAnew br) previous previous')
    (hnext : Option.Rel (TokenAnew br) next next') :
    BindingRule.window previous' next' = BindingRule.window previous next :=
  congrArg₂ or (any_contains_eq hprevious (by decide)) (any_contains_eq hnext (by decide))

/-- The scan reports the same about the same tokens. -/
theorem scan_eq (width : Nat) {tokens tokens' : List Token}
    (h : List.Forall₂ (TokenAnew br) tokens tokens') {previous previous' : Option Token}
    (hprevious : Option.Rel (TokenAnew br) previous previous') (names : NameSet) (expected : Int) :
    Scan.tokens width .window names expected previous' tokens' =
      Scan.tokens width .window names expected previous tokens := by
  induction h generalizing previous previous' names expected with
  | nil => rfl
  | @cons a b rest rest' hab hrest ih =>
    have hnext : Option.Rel (TokenAnew br) rest.head? rest'.head? := by
      cases hrest with
      | nil => exact .none
      | cons h _ => exact .some h
    have hmore := ih (.some hab)
    have hplain := hab.plain
    have hkind := hab.kind
    unfold Scan.tokens
    rw [hkind]
    cases ha : a.kind with
    | indent =>
      have hlexeme := hab.lexeme_eq (hplain (by simp [ha]) (by simp [ha]) (by simp [ha]))
      have hreport : ∀ expected, Scan.unexpectedIndent width b expected =
          Scan.unexpectedIndent width a expected := by
        intro expected
        simp only [Scan.unexpectedIndent, Diagnostic.placeAt, hab.start.line, hab.start.column]
      dsimp only
      rw [hmore, hreport, hlexeme]
    | dedent => exact hmore names _
    | name =>
      have hlexeme := hab.lexeme_eq (hplain (by simp [ha]) (by simp [ha]) (by simp [ha]))
      have hreport : Scan.undefinedName b = Scan.undefinedName a := by
        simp only [Scan.undefinedName, Diagnostic.placeAt, hab.start.line, hab.start.column,
          hlexeme]
      dsimp only
      rw [hmore, hmore, hreport, hlexeme, window_eq hprevious hnext]
    | _ => exact hmore names expected

theorem unworded_tokenError {e e' : LexicalError} (h : ErrorAnew e e') :
    unworded (Scan.tokenError e') = unworded (Scan.tokenError e) := by
  simp only [unworded, Scan.tokenError, Diagnostic.suggest, Diagnostic.place, h.place.line]
  rfl

theorem stream_eq (width : Nat) (names : NameSet) {s t : TokenStream} (h : StreamLike br s t) :
    (Scan.stream width .window names t).diagnostics.map unworded =
      (Scan.stream width .window names s).diagnostics.map unworded := by
  have herror := h.error
  have hmap : (t.error.toList.map Scan.tokenError).map unworded =
      (s.error.toList.map Scan.tokenError).map unworded := by
    generalize s.error = e at herror ⊢
    generalize t.error = e' at herror ⊢
    cases herror with
    | none => rfl
    | some h => exact congrArg ([·]) (unworded_tokenError h)
  unfold Scan.stream
  dsimp only
  rw [List.map_append, List.map_append, hmap, scan_eq width h.tokens .none]

/-- Reports are put in order by where they stand. -/
theorem aggregate_unworded (policy : LinePolicy) (ds : List Diagnostic) :
    (Diagnostic.aggregate policy ds).map unworded =
      Diagnostic.aggregate policy (ds.map unworded) := by
  have hsorted : (Diagnostic.sorted ds).map unworded = Diagnostic.sorted (ds.map unworded) :=
    List.map_mergeSort fun _ _ _ _ => rfl
  have hother : ∀ ds line, (Diagnostic.otherLines line ds).map unworded =
      Diagnostic.otherLines line (ds.map unworded) := by
    intro ds
    induction ds with
    | nil => exact fun _ => rfl
    | cons d ds ih =>
      intro line
      have hline : (unworded d).line = d.line := rfl
      rw [Diagnostic.otherLines, List.map_cons, Diagnostic.otherLines, hline]
      split
      · exact ih line
      · rw [List.map_cons, ih]
  have hfirst : ∀ ds, (Diagnostic.firstPerLine ds).map unworded =
      Diagnostic.firstPerLine (ds.map unworded) := by
    rintro (_ | ⟨d, ds⟩)
    · rfl
    · exact congrArg (unworded d :: ·) (hother ds d.line)
  unfold Diagnostic.aggregate
  cases policy with
  | keepAll => exact hsorted
  | firstPerLine =>
    dsimp only
    rw [hfirst, hsorted]

theorem isIndentation_eq {a b : GrammarFault} (h : Likeness.FaultLike likeness a b) :
    b.isIndentation = a.isIndentation := by
  cases h with
  | same => rfl
  | missingIndentedBlock => rfl
  | lexical h => exact h

theorem unworded_error {e e' : ParseError} (h : Likeness.ErrorLike likeness e e') :
    unworded (Analysis.ofParseError e') = unworded (Analysis.ofParseError e) := by
  have hplace : SamePlace e.position e'.position := h.position
  unfold Analysis.ofParseError
  rw [isIndentation_eq h.fault]
  split
  all_goals
    simp only [unworded, Diagnostic.suggest, Diagnostic.placeAt, Diagnostic.place, hplace.line,
      hplace.column]
    rfl

end Reports

/-- **Line endings do not matter.** Written with other line breaks, a snippet gets the same
diagnostics: as many, in the same order, and each the same but for its wording. -/
theorem line_endings_do_not_matter (settings : Settings) {source : String}
    (h : '\r' ∉ source.toList) {br : List Char} (hbr : br = ['\r'] ∨ br = ['\r', '\n']) :
    (Analysis.diagnostics settings (rebreak br source)).map unworded =
      (Analysis.diagnostics settings source).map unworded := by
  have : IsBreak br := ⟨hbr⟩
  have htree := tree_like br h
  unfold Analysis.diagnostics Analysis.tree
  generalize Module.parse source = result at htree ⊢
  generalize Module.parse (rebreak br source) = result' at htree ⊢
  cases htree with
  | error herror => exact congrArg ([·]) (unworded_error herror)
  | ok htree =>
    dsimp only [Except.mapError]
    rw [← knownNames_eq settings htree, aggregate_unworded, aggregate_unworded]
    exact congrArg _ (stream_eq _ _ (stream_like br h))

/-- A string with a protected line break in it, and an unknown name below. -/
theorem protected_break_does_not_matter :
    '\r' ∉ "x = 'a\\\nb'\ny\n".toList ∧
    rebreak ['\r', '\n'] "x = 'a\\\nb'\ny\n" = "x = 'a\\\r\nb'\r\ny\r\n" ∧
    (Analysis.diagnostics .standard "x = 'a\\\r\nb'\r\ny\r\n").map unworded =
      (Analysis.diagnostics .standard "x = 'a\\\nb'\ny\n").map unworded := by
  have hplain : '\r' ∉ "x = 'a\\\nb'\ny\n".toList := by decide
  have hrebreak : rebreak ['\r', '\n'] "x = 'a\\\nb'\ny\n" = "x = 'a\\\r\nb'\r\ny\r\n" := by
    decide
  exact ⟨hplain, hrebreak, hrebreak ▸ line_endings_do_not_matter .standard hplain (.inr rfl)⟩

end SnippetLint.LineEndings
