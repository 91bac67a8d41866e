import SnippetLint.Proofs.Concatenation

/-!
A lexer before another text. Where what comes after a step looks the same to the step, the lexer
takes the same step, so that a change of the text is seen first where it stands. Main statement:
`step_before`.
-/

namespace SnippetLint

open Lookahead Places

theorem Lookahead.Follows.isCut {cs ds taken : List Char} (h : Follows cs ds)
    (hcut : IsCut taken cs) : IsCut taken ds := by
  rintro ⟨hlast, hfeed⟩
  refine hcut ⟨hlast, ?_⟩
  rcases h.head with heq | ⟨_, hstart⟩
  · rw [← heq, hfeed]
  · rw [hfeed] at hstart
    exact absurd hstart (by decide)

/-- What belongs to no word comes next in both texts or in neither. -/
theorem Lookahead.Follows.any_other {cs ds : List Char} (h : Follows cs ds) {p : Char → Bool}
    (hp : ∀ c, p c = true → Word.isPart c = false) : ds.head?.any p = cs.head?.any p :=
  h.any_head fun c hc => Bool.eq_false_iff.2 fun htrue => by
    have hpart := hp c htrue
    rw [Word.isPart_of_isStart hc] at hpart
    cases hpart

namespace Cursor

/-- The same cursor before another text. -/
def before (text : List Char) (c : Cursor) : Cursor := ⟨text, c.position⟩

variable {c : Cursor} {taken rest rest' : List Char}

theorem after_eq {ch : Char} {cs ds : List Char}
    (h : ch = '\r' → (ds.head? = some '\n' ↔ cs.head? = some '\n')) (p : Position) :
    p.after ch ds = p.after ch cs := by
  by_cases hreturn : ch = '\r'
  · simp [Position.after, hreturn, h hreturn]
  · simp [Position.after, hreturn]

theorem next_of_cons {ch : Char} {cs : List Char} (h : c.rest = ch :: cs) :
    c.next = ⟨cs, c.position.after ch cs⟩ := by
  unfold next
  rw [h]

/-- The place after what has been taken does not depend on what is left. -/
theorem skip_before (h : c.rest = taken ++ rest) (hcut : IsCut taken rest)
    (hcut' : IsCut taken rest') :
    (c.before (taken ++ rest')).skip taken.length = (c.skip taken.length).before rest' := by
  induction taken generalizing c with
  | nil => rfl
  | cons ch taken ih =>
    have hfeed : ch = '\r' →
        ((taken ++ rest').head? = some '\n' ↔ (taken ++ rest).head? = some '\n') := by
      rintro rfl
      cases taken with
      | nil => exact iff_of_false (fun hhead => hcut' ⟨rfl, hhead⟩) fun hhead => hcut ⟨rfl, hhead⟩
      | cons d taken => exact Iff.rfl
    have hnext := next_of_cons h
    have hnext' : (c.before (ch :: taken ++ rest')).next = c.next.before (taken ++ rest') := by
      rw [next_of_cons rfl, hnext]
      exact congrArg (Cursor.mk _) (after_eq hfeed _)
    rw [List.length_cons, skip, skip, hnext']
    exact ih (by rw [hnext]; rfl) (isCut_cons hcut) (isCut_cons hcut')

end Cursor

namespace Lexer

/-- The same lexer before another text. -/
def before (text : List Char) (lexer : Lexer) : Lexer :=
  { lexer with cursor := lexer.cursor.before text }

variable {a next : Lexer} {c : Cursor} {tokens : List Token} {tabSize : Nat}
  {taken rest rest' : List Char}

theorem take_before (h : c.rest = taken ++ rest) (hcut : IsCut taken rest)
    (hcut' : IsCut taken rest') (kind : TokenKind) :
    take (c.before (taken ++ rest')) kind taken.length = take c kind taken.length := by
  unfold take
  rw [Cursor.skip_before h hcut hcut', h]
  simp [Cursor.before, Cursor.spanFrom]

theorem isCut_gap (a : Lexer) (cs : List Char) : IsCut (gap a) cs :=
  isCut_of_last (taken_takeWhile (by decide) _).last cs

theorem gap_before {cs : List Char} (h : cs.head?.any Indentation.isGap = false) :
    gap (a.before (gap a ++ cs)) = gap a :=
  takeWhile_front (fun _ hc => List.mem_takeWhile_imp hc) h

theorem here_before {cs : List Char} (h : cs.head?.any Indentation.isGap = false) :
    (a.before (gap a ++ cs)).here = a.here.before cs := by
  show (a.cursor.before (gap a ++ cs)).skip (gap (a.before (gap a ++ cs))).length = _
  rw [gap_before h]
  exact Cursor.skip_before (gap_append a) (isCut_gap a _) (isCut_gap a _)

/-- White space that does not come next does not come next in a text that looks the same. -/
theorem any_isGap_of_follows (h : Follows a.here.rest rest') :
    rest'.head?.any Indentation.isGap = false := by
  rw [h.any_other solid_isPart]
  exact any_isGap_here a

/-- A line stays bare, or stays one with tokens. -/
theorem bare_iff {cs ds : List Char} (h : Follows cs ds) :
    (∀ c ∈ ds.head?, c = '#' ∨ c = '\n' ∨ c = '\r') ↔
      ∀ c ∈ cs.head?, c = '#' ∨ c = '\n' ∨ c = '\r' := by
  rcases h.head with heq | ⟨hstart, hstart'⟩
  · rw [heq]
  · have hword : ∀ x : Option Char, x.any Word.isStart = true →
        ¬ ∀ c ∈ x, c = '#' ∨ c = '\n' ∨ c = '\r' := by
      rintro (_ | c) hc hbare
      · cases hc
      · rcases hbare c rfl with rfl | rfl | rfl
        all_goals exact absurd hc (by decide)
    exact iff_of_false (hword _ hstart') (hword _ hstart)

/-- The start of a line is the same as long as the line goes on in the same way. -/
theorem indentStep_before (h : a.indentStep tabSize = .emit tokens next)
    (hf : Follows next.cursor.rest rest') :
    next.cursor = a.here ∧
      (a.before (gap a ++ rest')).indentStep tabSize = .emit tokens (next.before rest') := by
  by_cases hbare : ∀ c ∈ a.here.rest.head?, c = '#' ∨ c = '\n' ∨ c = '\r'
  · rw [indentStep_of_bare hbare] at h
    cases h
    have hhere := here_before (a := a) (any_isGap_of_follows hf)
    refine ⟨rfl, ?_⟩
    rw [indentStep_of_bare, hhere]
    · rfl
    · rw [hhere]
      exact (bare_iff hf).2 hbare
  · rw [indentStep_of_not_bare hbare] at h
    have hnext : next.cursor = a.here := by
      unfold changeStep at h
      split at h <;> cases h <;> rfl
    rw [hnext] at hf
    have hgap := any_isGap_of_follows hf
    have hhere := here_before (a := a) hgap
    have hindentation : (a.before (gap a ++ rest')).indentation tabSize = a.indentation tabSize :=
      congrArg (Indentation.measure tabSize) (gap_before hgap)
    have htake : take (a.before (gap a ++ rest')).cursor .indent
        (gap (a.before (gap a ++ rest'))).length = take a.cursor .indent (gap a).length := by
      rw [gap_before hgap]
      exact take_before (gap_append a) (isCut_gap a _) (isCut_gap a _) _
    refine ⟨hnext, ?_⟩
    rw [indentStep_of_not_bare (hhere ▸ mt (bare_iff hf).1 hbare), hindentation]
    change changeStep tabSize _ ((a.indentation tabSize).compare a.blocks) = _
    unfold changeStep at h ⊢
    rw [hhere, hindentation]
    split at h
    · cases h
      rfl
    · cases h
      exact congrArg (fun token => Step.emit [token] _) htake
    · cases h
      rfl
    all_goals cases h

/-- What a step inside a line does is decided by what comes next. -/
theorem contentStep_before {ch : Char} (hrest : a.here.rest = ch :: rest) (text : List Char) :
    (a.before (gap a ++ ch :: text)).contentStep =
      if ch = '\\' then (a.before (gap a ++ ch :: text)).joinStep (a.here.before (ch :: text))
      else if isLineBreak ch then
        (a.before (gap a ++ ch :: text)).breakStep (a.here.before (ch :: text))
      else if ch = '#' then
        (a.before (gap a ++ ch :: text)).commentStep (a.here.before (ch :: text))
      else (a.before (gap a ++ ch :: text)).lexemeStep (a.here.before (ch :: text)) ch := by
  have hgap : (ch :: text).head?.any Indentation.isGap = false := by
    have hnone := any_isGap_here a
    rwa [hrest] at hnone
  have hhere := here_before (a := a) hgap
  have hrest' : (a.before (gap a ++ ch :: text)).here.rest = ch :: text := by
    rw [hhere]
    rfl
  rw [contentStep_cons hrest', hhere]

/-- What a step takes inside a line, and that it takes the same before another text. -/
structure Past (a : Lexer) (tokens : List Token) (next : Lexer) (rest' taken : List Char) :
    Prop where
  whole : a.here.rest = taken ++ next.cursor.rest
  follows : Follows a.here.rest (taken ++ rest')
  step : (a.before (gap a ++ (taken ++ rest'))).contentStep = .emit tokens (next.before rest')

theorem lineBreak_append_drop (cs : List Char) :
    cs = Cursor.lineBreak cs ++ cs.drop (Cursor.lineBreak cs).length := by
  conv_lhs => rw [← List.take_append_drop (Cursor.lineBreak cs).length cs]
  rw [LineEndings.take_lineBreak]

/-- A line break ends where it did, as long as no line feed comes to stand next to it. -/
theorem isCut_lineBreak {cs : List Char}
    (hf : Follows (cs.drop (Cursor.lineBreak cs).length) rest') :
    IsCut (Cursor.lineBreak cs) (cs.drop (Cursor.lineBreak cs).length) ∧
      IsCut (Cursor.lineBreak cs) rest' := by
  have hcut := taken_lineBreak cs
  rw [LineEndings.take_lineBreak] at hcut
  exact ⟨hcut, hf.isCut hcut⟩

theorem joinStep_of_break {lexer : Lexer} (h : Cursor.lineBreak c.next.rest ≠ []) :
    lexer.joinStep c = .emit []
      { lexer with cursor := c.next.skip (Cursor.lineBreak c.next.rest).length } := by
  unfold joinStep Cursor.eatLineBreak?
  cases hbreak : Cursor.lineBreak c.next.rest with
  | nil => exact absurd hbreak h
  | cons ch br => rfl

theorem past_join (hrest : a.here.rest = '\\' :: rest) (hne : Cursor.lineBreak rest ≠ [])
    (hf : Follows (a.here.skip (1 + (Cursor.lineBreak rest).length)).rest rest') :
    Past a [] { a with cursor := a.here.skip (1 + (Cursor.lineBreak rest).length) } rest'
      ('\\' :: Cursor.lineBreak rest) := by
  have hslash : ∀ cs, IsCut ['\\'] cs := isCut_of_last (by decide)
  have hone : a.here.rest = ['\\'] ++ rest := hrest
  have hnext : a.here.next.rest = rest := by rw [Cursor.rest_next, hrest, List.tail_cons]
  have hskip : a.here.skip (1 + (Cursor.lineBreak rest).length) =
      a.here.next.skip (Cursor.lineBreak rest).length := (Cursor.skip_skip 1 _ _).symm
  rw [hskip, Cursor.rest_skip, hnext] at hf
  have hall := lineBreak_append_drop rest
  obtain ⟨hcut, hcut'⟩ := isCut_lineBreak hf
  have hagain := lineBreak_again hne hcut'
  rw [hskip]
  refine ⟨?_, ?_, ?_⟩
  · rw [Cursor.rest_skip, hnext, List.cons_append, ← hall, hrest]
  · rw [hrest]
    conv_lhs => rw [hall]
    exact follows_of_apart (List.cons_ne_nil _ _) (.inl ⟨'\\', List.mem_cons_self, by decide⟩)
      hf.signs
  · have hback : (a.here.before ('\\' :: (Cursor.lineBreak rest ++ rest'))).next =
        a.here.next.before (Cursor.lineBreak rest ++ rest') :=
      Cursor.skip_before hone (hslash _) (hslash _)
    have hback' : (a.here.before ('\\' :: (Cursor.lineBreak rest ++ rest'))).next.rest =
        Cursor.lineBreak rest ++ rest' := by
      rw [hback]
      rfl
    rw [List.cons_append, contentStep_before hrest, if_pos rfl,
      joinStep_of_break (by rw [hback', hagain]; exact hne), hback', hagain, hback,
      Cursor.skip_before (hnext.trans hall) hcut hcut']
    rfl

theorem past_lineBreak (hne : Cursor.lineBreak a.here.rest ≠ [])
    (hf : Follows (a.here.skip (Cursor.lineBreak a.here.rest).length).rest rest') :
    Past a
      [take a.here (if a.brackets.isEmpty && a.lineHasContent then .newline else .nl)
        (Cursor.lineBreak a.here.rest).length]
      { a with
        cursor := a.here.skip (Cursor.lineBreak a.here.rest).length
        atLineStart := a.brackets.isEmpty
        lineHasContent := a.lineHasContent && !(a.brackets.isEmpty && a.lineHasContent) }
      rest' (Cursor.lineBreak a.here.rest) := by
  have hall := lineBreak_append_drop a.here.rest
  rw [Cursor.rest_skip] at hf
  obtain ⟨hcut, hcut'⟩ := isCut_lineBreak hf
  obtain ⟨ch, br, hbr, hch⟩ := exists_lineBreak hne
  refine ⟨?_, ?_, ?_⟩
  · rw [Cursor.rest_skip, ← hall]
  · conv_lhs => rw [hall]
    exact hf.append (.inl ⟨ch, hbr ▸ List.mem_cons_self, isPart_of_isLineBreak hch⟩)
  · have hslash : ch ≠ '\\' := by
      rintro rfl
      cases hch
    have hrest : a.here.rest =
        ch :: (br ++ a.here.rest.drop (Cursor.lineBreak a.here.rest).length) := by
      rw [← List.cons_append, ← hbr]
      exact hall
    have htext : Cursor.lineBreak a.here.rest ++ rest' = ch :: (br ++ rest') := by
      rw [hbr, List.cons_append]
    have hsame : Cursor.lineBreak (a.here.before (Cursor.lineBreak a.here.rest ++ rest')).rest =
        Cursor.lineBreak a.here.rest := lineBreak_again hne hcut'
    rw [htext, contentStep_before hrest, if_neg hslash, if_pos hch, ← htext]
    unfold breakStep
    dsimp only
    rw [hsame, take_before hall hcut hcut', Cursor.skip_before hall hcut hcut']
    rfl

theorem past_comment (hrest : a.here.rest = '#' :: rest)
    (hf : Follows (a.here.skip (a.here.rest.takeWhile (!isLineBreak ·)).length).rest rest') :
    Past a [take a.here .comment (a.here.rest.takeWhile (!isLineBreak ·)).length]
      { a with cursor := a.here.skip (a.here.rest.takeWhile (!isLineBreak ·)).length } rest'
      (a.here.rest.takeWhile (!isLineBreak ·)) := by
  have hcut := isCut_of_last (taken_takeWhile (p := (!isLineBreak ·)) (by decide) a.here.rest).last
  have hskip : (a.here.skip (a.here.rest.takeWhile (!isLineBreak ·)).length).rest =
      a.here.rest.dropWhile (!isLineBreak ·) := Cursor.rest_eatWhile _ _
  have hall : a.here.rest = a.here.rest.takeWhile (!isLineBreak ·) ++
      (a.here.skip (a.here.rest.takeWhile (!isLineBreak ·)).length).rest := by
    rw [hskip, List.takeWhile_append_dropWhile]
  have hend : (a.here.skip (a.here.rest.takeWhile (!isLineBreak ·)).length).rest.head?.any
      (!isLineBreak ·) = false := hskip ▸ head?_dropWhile _ _
  have hfront : ∀ ch ∈ a.here.rest.takeWhile (!isLineBreak ·), (!isLineBreak ch) = true :=
    fun _ hch => List.mem_takeWhile_imp (p := (!isLineBreak ·)) hch
  obtain ⟨more, hmore⟩ : ∃ more, a.here.rest.takeWhile (!isLineBreak ·) = '#' :: more := by
    rw [hrest]
    exact ⟨_, List.takeWhile_cons_of_pos (by decide)⟩
  clear hskip
  generalize a.here.rest.takeWhile (!isLineBreak ·) = comment at *
  have hstart : (a.here.skip comment.length).rest.head?.any Word.isStart = false := by
    refine any_isStart_eq_false ?_
    cases hhead : (a.here.skip comment.length).rest.head? with
    | none => rfl
    | some d =>
      rw [hhead] at hend
      exact isPart_of_isLineBreak (by simpa using hend)
  refine ⟨hall, ?_, ?_⟩
  · conv_lhs => rw [hall]
    exact hf.append (.inl ⟨'#', hmore ▸ List.mem_cons_self, by decide⟩)
  · have htext : comment ++ rest' = '#' :: (more ++ rest') := by rw [hmore, List.cons_append]
    have hsame : (a.here.before (comment ++ rest')).rest.takeWhile (!isLineBreak ·) = comment :=
      takeWhile_front hfront (hf.head_eq hstart ▸ hend)
    rw [htext, contentStep_before hrest, if_neg (by decide), if_neg (by decide), if_pos rfl,
      ← htext]
    unfold commentStep
    dsimp only
    rw [hsame, take_before hall (hcut _) (hcut _), Cursor.skip_before hall (hcut _) (hcut _)]
    rfl

/-- A lexeme is the same before a text that looks the same, and also before white space. -/
theorem past_lexeme {ch : Char} {lexeme : Lexeme} {brackets : List Bracket}
    (hrest : a.here.rest = ch :: rest) (hmunch : Lexeme.munch a.here = .ok lexeme)
    (hupdate : Bracket.update ch a.here.position a.brackets = .ok brackets)
    (hsteady : Steady (a.here.skip lexeme.chars.length).rest rest') :
    Past a [take a.here lexeme.kind lexeme.chars.length]
      { a with
        cursor := a.here.skip lexeme.chars.length
        brackets
        lineHasContent := true }
      rest' lexeme.chars := by
  have htaken := taken_munch hmunch
  have hcut := isCut_of_last htaken.last
  have hall : a.here.rest = lexeme.chars ++ (a.here.skip lexeme.chars.length).rest := by
    rw [Cursor.rest_skip]
    exact List.prefix_append_drop htaken.front
  obtain ⟨hagain, hfollows⟩ :=
    munch_steady (b := a.here.before (lexeme.chars ++ rest')) hmunch hall rfl hsteady
  obtain ⟨more, hmore⟩ : ∃ more, lexeme.chars = ch :: more := by
    obtain ⟨d, more, hmore⟩ :=
      List.exists_cons_of_ne_nil (Lexeme.isContent_of_munch hmunch).chars_ne_nil
    rw [hrest, hmore] at hall
    exact ⟨more, (List.cons.inj hall).1 ▸ hmore⟩
  refine ⟨hall, hfollows, ?_⟩
  have hgap : (lexeme.chars ++ rest').head?.any Indentation.isGap = false := by
    have hnone := any_isGap_here a
    rw [hrest] at hnone
    rwa [hmore]
  have hhere := here_before (a := a) hgap
  have hupdate' : Bracket.update ch (a.here.before (lexeme.chars ++ rest')).position
      (a.before (gap a ++ (lexeme.chars ++ rest'))).brackets = .ok brackets := hupdate
  rw [contentStep_of_canStart (c := ch) (by rw [hhere, hmore]; rfl)
      (canStart_of_munch hmunch hrest),
    hhere]
  unfold lexemeStep
  rw [hagain]
  dsimp only
  rw [hupdate']
  dsimp only
  rw [take_before hall (hcut _) (hcut _), Cursor.skip_before hall (hcut _) (hcut _)]
  rfl

/-- A step inside a line before another text. -/
theorem step_of_past (inside : a.measures = false) (h : Past a tokens next rest' taken) :
    a.cursor.rest = gap a ++ taken ++ next.cursor.rest ∧
      Follows a.cursor.rest (gap a ++ taken ++ rest') ∧
        (a.before (gap a ++ taken ++ rest')).step tabSize = .emit tokens (next.before rest') := by
  have hmeasures : ∀ text, (a.before text).measures = a.measures := fun _ => rfl
  rw [List.append_assoc, List.append_assoc]
  refine ⟨?_, follows_gap h.follows, ?_⟩
  · rw [← h.whole]
    exact gap_append a
  · rw [step_eq, hmeasures, if_neg (Bool.eq_false_iff.1 inside), h.step]

/-- Where what comes after a step looks the same to the step, a lexer takes the same step. -/
theorem step_before (h : a.step tabSize = .emit tokens next)
    (hf : Follows next.cursor.rest rest') :
    ∃ taken, a.cursor.rest = taken ++ next.cursor.rest ∧ Follows a.cursor.rest (taken ++ rest') ∧
      (a.before (taken ++ rest')).step tabSize = .emit tokens (next.before rest') := by
  have hmeasures : ∀ text, (a.before text).measures = a.measures := fun _ => rfl
  cases measures : a.measures with
  | true =>
    rw [step_eq, if_pos measures] at h
    obtain ⟨hnext, hstep⟩ := indentStep_before h hf
    rw [hnext] at hf ⊢
    refine ⟨gap a, gap_append a, follows_gap hf, ?_⟩
    rw [step_eq, hmeasures, if_pos measures, hstep]
  | false =>
    suffices ∃ taken, Past a tokens next rest' taken by
      obtain ⟨taken, hpast⟩ := this
      exact ⟨gap a ++ taken, step_of_past measures hpast⟩
    cases emits_of_step h with
    | blank measured | same measured | deeper measured | shallower _ _ measured =>
      rw [measures] at measured
      cases measured
    | join rest _ hrest broken => exact ⟨_, past_join hrest broken hf⟩
    | lineBreak _ broken => exact ⟨_, past_lineBreak broken hf⟩
    | comment rest _ hrest => exact ⟨_, past_comment hrest hf⟩
    | lexeme ch rest lexeme brackets _ hrest munched updated =>
      exact ⟨_, past_lexeme hrest munched updated (.inl hf)⟩

end Lexer

end SnippetLint
