import SnippetLint.Proofs.Lexing

/-!
Nothing is lost between the text and its tokens. Tokens stand in the text in order, each lexeme is
the text of its span, and what stands between two tokens is a gap: blanks and joined lines. Main
statement: `tokens_cover_source`.
-/

namespace SnippetLint.Coverage

/-- What may stand between two tokens: blanks, and line breaks after a backslash. -/
inductive IsGap : List Char → Prop
  | nil : IsGap []
  | blank {c : Char} {cs : List Char} (space : c = ' ' ∨ c = '\t' ∨ c = '\x0c') (rest : IsGap cs) :
      IsGap (c :: cs)
  | join {br cs : List Char} (broken : br = ['\n'] ∨ br = ['\r', '\n'] ∨ br = ['\r'])
      (rest : IsGap cs) : IsGap ('\\' :: (br ++ cs))

theorem IsGap.append {a b : List Char} (ha : IsGap a) (hb : IsGap b) : IsGap (a ++ b) := by
  induction ha with
  | nil => exact hb
  | blank space _ ih => exact .blank space ih
  | join broken _ ih =>
    rw [List.cons_append, List.append_assoc]
    exact .join broken ih

theorem isGap_takeWhile (cs : List Char) : IsGap (cs.takeWhile Indentation.isGap) := by
  induction cs with
  | nil => exact .nil
  | cons c cs ih =>
    rw [List.takeWhile_cons]
    split
    · next hc =>
      exact .blank (by simpa [Indentation.isGap, or_assoc] using hc) ih
    · exact .nil

/-- A line break is what stands at the front of the text, in one of its three forms. -/
theorem lineBreak_cases {cs : List Char} (h : Cursor.lineBreak cs ≠ []) :
    (Cursor.lineBreak cs = ['\n'] ∨ Cursor.lineBreak cs = ['\r', '\n'] ∨
      Cursor.lineBreak cs = ['\r']) ∧
    cs.take (Cursor.lineBreak cs).length = Cursor.lineBreak cs := by
  revert h
  unfold Cursor.lineBreak
  split <;> simp

theorem isGap_join {cs : List Char} (h : Cursor.lineBreak cs ≠ []) :
    IsGap (('\\' :: cs).take (1 + (Cursor.lineBreak cs).length)) := by
  obtain ⟨hforms, htake⟩ := lineBreak_cases h
  rw [Nat.add_comm, List.take_succ_cons, htake, ← List.append_nil (Cursor.lineBreak cs)]
  exact .join hforms .nil

/-! ## Along the cursor -/

/-- The tokens read between two places, with gaps anywhere around them. -/
inductive Tiles : Cursor → List Token → Cursor → Prop
  | nil (cursor : Cursor) : Tiles cursor [] cursor
  | gap {cursor stop : Cursor} {tokens : List Token} (n : Nat)
      (isGap : IsGap (cursor.rest.take n)) (rest : Tiles (cursor.skip n) tokens stop) :
      Tiles cursor tokens stop
  | token {cursor stop : Cursor} {tokens : List Token} (kind : TokenKind) (n : Nat)
      (rest : Tiles (cursor.skip n) tokens stop) :
      Tiles cursor (Lexer.take cursor kind n :: tokens) stop

theorem Tiles.append {a b c : Cursor} {ts us : List Token} (h : Tiles a ts b) (k : Tiles b us c) :
    Tiles a (ts ++ us) c := by
  induction h with
  | nil => exact k
  | gap n isGap _ ih => exact .gap n isGap (ih k)
  | token kind n _ ih => exact .token kind n (ih k)

/-- A mark is a token of no characters. -/
theorem take_zero (cursor : Cursor) (kind : TokenKind) :
    Lexer.take cursor kind 0 = Lexer.mark kind cursor.position := by
  simp [Lexer.take, Lexer.mark, Cursor.spanFrom, Span.point]

theorem tiles_mark (cursor : Cursor) (kind : TokenKind) :
    Tiles cursor [Lexer.mark kind cursor.position] cursor := by
  rw [← take_zero]
  exact .token kind 0 (.nil cursor)

theorem tiles_marks (cursor : Cursor) (kind : TokenKind) (k : Nat) :
    Tiles cursor (List.replicate k (Lexer.mark kind cursor.position)) cursor := by
  induction k with
  | zero => exact .nil cursor
  | succ k ih => exact (tiles_mark cursor kind).append ih

theorem tiles_here {lexer : Lexer} {tokens : List Token} {stop : Cursor}
    (h : Tiles lexer.here tokens stop) : Tiles lexer.cursor tokens stop := by
  refine .gap (lexer.cursor.rest.takeWhile Indentation.isGap).length ?_ h
  have htake : lexer.cursor.rest.take (lexer.cursor.rest.takeWhile Indentation.isGap).length =
      lexer.cursor.rest.takeWhile Indentation.isGap :=
    List.prefix_iff_eq_take.1 (List.takeWhile_prefix _) |>.symm
  rw [htake]
  exact isGap_takeWhile _

/-- A step reads exactly what its tokens and the gaps before them show. -/
theorem tiles_of_emits {tabSize : Nat} {lexer next : Lexer} {tokens : List Token}
    (h : lexer.Emits tabSize tokens next) : Tiles lexer.cursor tokens next.cursor := by
  cases h with
  | blank _ _ => exact tiles_here (.nil _)
  | same _ _ => exact tiles_here (.nil _)
  | deeper _ _ => exact .token .indent _ (.nil _)
  | shallower closed _ _ _ => exact tiles_here (tiles_marks _ _ closed)
  | join rest _ hrest broken =>
    exact tiles_here (.gap _ (by rw [hrest]; exact isGap_join broken) (.nil _))
  | lineBreak _ _ => exact tiles_here (.token _ _ (.nil _))
  | comment _ _ _ => exact tiles_here (.token _ _ (.nil _))
  | lexeme _ _ _ _ _ _ _ _ => exact tiles_here (.token _ _ (.nil _))

theorem tiles_of_finishes {lexer : Lexer} {tokens : List Token} (h : lexer.Finishes tokens) :
    Tiles lexer.cursor tokens lexer.here := by
  rw [h.tokens_eq]
  refine tiles_here (Tiles.append (Tiles.append ?_ (tiles_marks _ _ _)) (tiles_mark _ _))
  split
  · exact tiles_mark _ _
  · exact .nil _

/-- A stream covers the text up to some place. Without an error that is the end of the text, and
the last token is the mark of the end there. -/
theorem tiles_of_lexes {tabSize : Nat} {lexer : Lexer} {stream : TokenStream}
    (h : lexer.Lexes tabSize stream) :
    ∃ stop, Tiles lexer.cursor stream.tokens stop ∧
      (stream.error = none → stop.rest = [] ∧
        ∃ init, stream.tokens = init ++ [Lexer.mark .endMarker stop.position]) := by
  induction h with
  | emit emits _ ih =>
    obtain ⟨stop, htiles, hend⟩ := ih
    refine ⟨stop, (tiles_of_emits emits).append htiles, fun hnone => ?_⟩
    obtain ⟨hrest, init, hinit⟩ := hend hnone
    exact ⟨hrest, _, by rw [hinit, ← List.append_assoc]⟩
  | finish finishes =>
    exact ⟨_, tiles_of_finishes finishes, fun _ => ⟨finishes.rest_eq, _, finishes.tokens_eq⟩⟩
  | fail _ => exact ⟨_, .nil _, fun hnone => by cases hnone⟩

/-! ## In the text -/

/-- The tokens of a text that starts at a byte offset: each after a gap, with its lexeme between the
offsets of its span. What follows the last of them is left open. -/
inductive Covers : Nat → List Char → List Token → Prop
  | nil (offset : Nat) (text : List Char) : Covers offset text []
  | cons {offset : Nat} {gap text : List Char} {token : Token} {tokens : List Token}
      (isGap : IsGap gap) (starts : token.span.start.offset = offset + Text.byteLength gap)
      (stops : token.span.stop.offset =
        token.span.start.offset + Text.byteLength token.lexeme.toList)
      (rest : Covers token.span.stop.offset text tokens) :
      Covers offset (gap ++ (token.lexeme.toList ++ text)) (token :: tokens)

theorem Covers.gap {offset : Nat} {gap text : List Char} {tokens : List Token} (isGap : IsGap gap)
    (h : Covers (offset + Text.byteLength gap) text tokens) :
    Covers offset (gap ++ text) tokens := by
  cases h with
  | nil => exact .nil _ _
  | cons inner starts stops rest =>
    rw [← List.append_assoc]
    exact .cons (isGap.append inner) (by simp [starts, Nat.add_assoc]) stops rest

theorem covers_of_tiles {cursor stop : Cursor} {tokens : List Token}
    (h : Tiles cursor tokens stop) : Covers cursor.position.offset cursor.rest tokens := by
  induction h with
  | nil => exact .nil _ _
  | @gap cursor _ _ n isGap _ ih =>
    rw [Cursor.offset_skip, Cursor.rest_skip] at ih
    have h := Covers.gap isGap ih
    rwa [List.take_append_drop] at h
  | @token cursor _ tokens kind n _ ih =>
    have stops : (Lexer.take cursor kind n).span.stop.offset =
        (Lexer.take cursor kind n).span.start.offset +
          Text.byteLength (Lexer.take cursor kind n).lexeme.toList := by
      simp [Lexer.take, Cursor.spanFrom, Cursor.offset_skip]
    rw [Cursor.rest_skip] at ih
    have h : Covers cursor.position.offset _ (Lexer.take cursor kind n :: tokens) :=
      .cons .nil rfl stops ih
    simpa [Lexer.take] using h

/-- Where the last of some tokens ends, or where they start if there are none. -/
def stopAfter (offset : Nat) : List Token → Nat
  | [] => offset
  | token :: tokens => stopAfter token.span.stop.offset tokens

/-- How a token stands in a text when the tokens before it end at the offset `previous`. -/
structure Placed (text : List Char) (previous : Nat) (token : Token) : Prop where
  after : previous ≤ token.span.start.offset
  forward : token.span.start.offset ≤ token.span.stop.offset
  lexeme : Text.sliceBytes text token.span.start.offset token.span.stop.offset =
    some token.lexeme.toList
  gap : ∃ gap, IsGap gap ∧ Text.sliceBytes text previous token.span.start.offset = some gap

theorem placed_of_covers {offset : Nat} {rest : List Char} {tokens : List Token}
    (h : Covers offset rest tokens) (before : List Char)
    (hoffset : Text.byteLength before = offset) :
    ∀ earlier token later, tokens = earlier ++ token :: later →
      Placed (before ++ rest) (stopAfter offset earlier) token := by
  induction h generalizing before with
  | nil => simp
  | @cons offset gap text first tokens isGap starts stops _ ih =>
    intro earlier token later heq
    have hlexeme := Text.sliceBytes_append (before ++ gap) first.lexeme.toList text
    have hgap := Text.sliceBytes_append before gap (first.lexeme.toList ++ text)
    rw [Text.byteLength_append, hoffset, ← starts, ← stops] at hlexeme
    rw [hoffset, ← starts] at hgap
    cases earlier with
    | nil =>
      obtain ⟨rfl, rfl⟩ : first = token ∧ tokens = later := by simpa using heq
      exact ⟨by rw [starts]; exact Nat.le_add_right _ _, by rw [stops]; exact Nat.le_add_right _ _,
        by simpa using hlexeme, gap, isGap, by simpa [stopAfter] using hgap⟩
    | cons head earlier =>
      obtain ⟨rfl, rfl⟩ : first = head ∧ tokens = earlier ++ token :: later := by simpa using heq
      have hb : Text.byteLength (before ++ gap ++ first.lexeme.toList) =
          first.span.stop.offset := by
        simp [stops, starts, hoffset, Nat.add_assoc]
      simpa [stopAfter] using ih _ hb earlier token later rfl

theorem pieces_of_covers {offset : Nat} {text : List Char} {tokens : List Token}
    (h : Covers offset text tokens) :
    ∃ gaps rest, gaps.length = tokens.length ∧ (∀ gap ∈ gaps, IsGap gap) ∧
      text = (List.zipWith (fun gap token => gap ++ token.lexeme.toList) gaps tokens).flatten ++
        rest ∧
      offset + Text.byteLength text = stopAfter offset tokens + Text.byteLength rest := by
  induction h with
  | nil offset text => exact ⟨[], text, rfl, by simp, rfl, rfl⟩
  | @cons offset gap text token tokens isGap starts stops _ ih =>
    obtain ⟨gaps, rest, hlength, hgaps, htext, hstop⟩ := ih
    refine ⟨gap :: gaps, rest, by simp [hlength], ?_, ?_, ?_⟩
    · intro other hother
      rcases List.mem_cons.1 hother with rfl | hother
      · exact isGap
      · exact hgaps other hother
    · simp only [List.zipWith_cons_cons, List.flatten_cons, List.append_assoc]
      rw [← htext]
    · rw [stopAfter, ← hstop, stops, starts]
      simp [Nat.add_assoc]

theorem stopAfter_concat (offset : Nat) (tokens : List Token) (last : Token) :
    stopAfter offset (tokens ++ [last]) = last.span.stop.offset := by
  induction tokens generalizing offset with
  | nil => rfl
  | cons token tokens ih => exact ih _

theorem Tiles.exists_skip {a b : Cursor} {tokens : List Token} (h : Tiles a tokens b) :
    ∃ n, b = a.skip n := by
  induction h with
  | nil cursor => exact ⟨0, rfl⟩
  | gap n _ _ ih | token _ n _ ih =>
    obtain ⟨m, hm⟩ := ih
    exact ⟨n + m, by rw [hm, Cursor.skip_skip]⟩

theorem eq_nil_of_byteLength {text : List Char} (h : Text.byteLength text = 0) : text = [] := by
  cases text with
  | nil => rfl
  | cons c text =>
    have := c.utf8Size_pos
    rw [Text.byteLength] at h
    omega

/-- **Lossless lexing.** Every token of a snippet stands where its span says, after the token before
it and a gap. If the text can be read to its end, the last token marks that end, and gaps and
lexemes together are the text. -/
theorem tokens_cover_source (source : String) :
    (∀ earlier token later, (TokenStream.ofText source).tokens = earlier ++ token :: later →
      Placed source.toList (stopAfter 0 earlier) token) ∧
    ((TokenStream.ofText source).error = none →
      (∃ init last, (TokenStream.ofText source).tokens = init ++ [last] ∧
        last.kind = .endMarker ∧ last.lexeme = "" ∧
        last.span = .point (Cursor.ofText source).toEnd.position ∧
        last.span.start.offset = Text.byteLength source.toList) ∧
      ∃ gaps, gaps.length = (TokenStream.ofText source).tokens.length ∧
        (∀ gap ∈ gaps, IsGap gap) ∧
        source.toList = (List.zipWith (fun gap token => gap ++ token.lexeme.toList) gaps
          (TokenStream.ofText source).tokens).flatten) := by
  obtain ⟨stop, htiles, hend⟩ :=
    tiles_of_lexes (TokenStream.lexes_withTabs TokenStream.tabSize source)
  have hcovers : Covers 0 source.toList (TokenStream.ofText source).tokens := covers_of_tiles htiles
  refine ⟨placed_of_covers hcovers [] rfl, fun hnone => ?_⟩
  obtain ⟨hrest, init, hinit⟩ := hend hnone
  have hinit : (TokenStream.ofText source).tokens = init ++ [Lexer.mark .endMarker stop.position] :=
    hinit
  have hstop : stop = (Cursor.ofText source).toEnd := by
    obtain ⟨n, rfl⟩ := htiles.exists_skip
    exact Cursor.skip_eq_toEnd hrest
  have hoffset : stop.position.offset = Text.byteLength source.toList := by
    rw [hstop, Cursor.toEnd, Cursor.offset_skip]
    simp
  refine ⟨⟨init, _, hinit, rfl, rfl, by rw [← hstop]; rfl, hoffset⟩, ?_⟩
  obtain ⟨gaps, rest, hlength, hgaps, htext, hbytes⟩ := pieces_of_covers hcovers
  have hnil : rest = [] := by
    apply eq_nil_of_byteLength
    rw [hinit, stopAfter_concat] at hbytes
    have : (Lexer.mark .endMarker stop.position).span.stop.offset = stop.position.offset := rfl
    omega
  exact ⟨gaps, hlength, hgaps, by rw [hnil, List.append_nil] at htext; exact htext⟩

end SnippetLint.Coverage
