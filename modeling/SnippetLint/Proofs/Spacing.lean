import SnippetLint.Proofs.Insertion

/-!
White space after a token. No lexeme reaches past its own text into white space, so that more of it
between two tokens of a line changes none of them, and none of the tokens before or after. Main
statement: `space_after_token_does_not_matter`.
-/

namespace SnippetLint

open Lookahead Places

/-- Names, literals, keywords, operators and delimiters. -/
def TokenKind.isContent : TokenKind → Bool
  | .name | .number | .string | .keyword _ | .op _ => true
  | _ => false

namespace Lexer

variable {a b next : Lexer} {stream : TokenStream} {tokens : List Token} {token : Token}
  {tabSize fuel fuel' : Nat} {taken front rest white : List Char}

/-- A line whose indentation is still to be measured starts outside brackets. -/
def Settled (lexer : Lexer) : Prop := lexer.atLineStart = true → lexer.brackets = []

theorem settled_of_emits (h : Emits tabSize a tokens next) (ha : a.Settled) : next.Settled := by
  have inside : a.measures = false → a.atLineStart = false := by
    intro hinside
    refine Bool.eq_false_iff.2 fun hline => ?_
    rw [measures, hline, ha hline] at hinside
    cases hinside
  cases h with
  | blank | same | deeper | shallower => exact fun hline => absurd hline Bool.false_ne_true
  | join | comment => exact ha
  | lineBreak => exact fun hline => List.isEmpty_iff.1 hline
  | lexeme _ _ _ _ hinside =>
    intro hline
    have hline : a.atLineStart = true := hline
    rw [inside hinside] at hline
    cases hline

/-- How far a step has moved. -/
theorem offset_of_emits (h : Emits tabSize a tokens next)
    (hrest : a.cursor.rest = taken ++ next.cursor.rest) :
    next.cursor.position.offset = a.cursor.position.offset + Text.byteLength taken := by
  obtain ⟨⟨n, hnext⟩, _⟩ := moves_of_emits h
  have htake : a.cursor.rest.take n ++ next.cursor.rest = taken ++ next.cursor.rest := by
    rw [← hrest, hnext, Cursor.rest_skip, List.take_append_drop]
  rw [hnext, Cursor.offset_skip, List.append_cancel_right htake]

/-- White space in front of a lexer inside a line may as well have been skipped. -/
theorem run_here (inside : a.measures = false) (fuel : Nat) :
    ({ a with cursor := a.here } : Lexer).run tabSize fuel = a.run tabSize fuel := by
  cases fuel with
  | zero => rfl
  | succ fuel =>
    have hhere : ({ a with cursor := a.here } : Lexer).here = a.here :=
      here_eq_cursor (any_isGap_here a)
    have hstep : ({ a with cursor := a.here } : Lexer).step tabSize = a.step tabSize := by
      have inside' : ({ a with cursor := a.here } : Lexer).measures = false := inside
      rw [step_eq, step_eq, if_neg (Bool.eq_false_iff.1 inside'),
        if_neg (Bool.eq_false_iff.1 inside)]
      cases hrest : a.here.rest with
      | nil =>
        rw [contentStep_nil hrest, contentStep_nil ((congrArg Cursor.rest hhere).trans hrest),
          hhere]
        rfl
      | cons c cs =>
        rw [contentStep_cons hrest, contentStep_cons ((congrArg Cursor.rest hhere).trans hrest),
          hhere]
        rfl
    rw [run, run, hstep]

theorem fuel_here_le (a : Lexer) : ({ a with cursor := a.here } : Lexer).fuel ≤ a.fuel := by
  have hle := length_rest_here_le a
  simp only [fuel]
  omega

/-- Inside a line more white space does not matter. -/
theorem run_white (inside : a.measures = false) (hwhite : ∀ c ∈ white, Indentation.isGap c = true)
    (hfuel : a.fuel ≤ fuel) (hfuel' : (a.before (white ++ a.cursor.rest)).fuel ≤ fuel') :
    SameStream (a.run tabSize fuel) ((a.before (white ++ a.cursor.rest)).run tabSize fuel') := by
  have hrest : (a.before (white ++ a.cursor.rest)).here.rest = a.here.rest := by
    rw [here, here, Cursor.rest_eatWhile, Cursor.rest_eatWhile]
    exact List.dropWhile_append_of_pos hwhite
  have inside' : (a.before (white ++ a.cursor.rest)).measures = false := inside
  have htwin : Twin [] { a with cursor := a.here }
      { a.before (white ++ a.cursor.rest) with
        cursor := (a.before (white ++ a.cursor.rest)).here } :=
    ⟨hrest, (List.append_nil _).symm, rfl, rfl, rfl⟩
  rw [← run_here inside, ← run_here inside']
  exact run_twin htwin ((fuel_here_le _).trans hfuel) ((fuel_here_le _).trans hfuel')

/-- Where white space is inserted between two parts of a text, its tokens stay the same. -/
structure Spaced (tabSize : Nat) (white : List Char) (a : Lexer) (stream : TokenStream)
    (front rest : List Char) : Prop where
  whole : a.cursor.rest = front ++ rest
  follows : Follows a.cursor.rest (front ++ (white ++ rest))
  run : ∀ {fuel : Nat}, (a.before (front ++ (white ++ rest))).fuel ≤ fuel →
    SameStream stream ((a.before (front ++ (white ++ rest))).run tabSize fuel)

/-- A step before the place of the insertion. -/
theorem Spaced.emit (h : Spaced tabSize white next stream front rest)
    (hstep : a.step tabSize = .emit tokens next) :
    ∃ taken, a.cursor.rest = taken ++ next.cursor.rest ∧
      Spaced tabSize white a ⟨tokens ++ stream.tokens, stream.error⟩ (taken ++ front) rest := by
  obtain ⟨taken, hwhole, hfollows, hbefore⟩ := step_before hstep h.follows
  refine ⟨taken, hwhole, ?_, ?_, fun {fuel} hfuel => ?_⟩
  · rw [hwhole, h.whole, List.append_assoc]
  · rwa [List.append_assoc]
  · rw [List.append_assoc] at hfuel ⊢
    have hlt := fuel_lt_of_emits (emits_of_step hbefore)
    obtain ⟨fuel, rfl⟩ := Nat.exists_eq_add_of_lt (Nat.lt_of_lt_of_le hlt hfuel)
    rw [run_of_emit hbefore]
    exact (h.run (Nat.le_add_right _ fuel)).append (same_refl tokens)

theorem steady_white (hwhite : ∀ c ∈ white, Indentation.isGap c = true) (rest : List Char) :
    Steady rest (white ++ rest) := by
  cases white with
  | nil => exact .inl (.refl rest)
  | cons c white => exact .inr (hwhite c List.mem_cons_self)

/-- A step that gives a token with text of its own is the step of a lexeme. -/
theorem lexeme_of_isContent (h : Emits tabSize a tokens next) (htoken : token ∈ tokens)
    (hkind : token.kind.isContent = true) (rest' : List Char)
    (hsteady : Steady next.cursor.rest rest') :
    a.measures = false ∧ next.atLineStart = a.atLineStart ∧
      ∃ taken, Past a tokens next rest' taken := by
  cases h with
  | blank | same | join => cases htoken
  | deeper | comment =>
    rw [List.mem_singleton.1 htoken] at hkind
    cases hkind
  | shallower =>
    rw [(List.mem_replicate.1 htoken).2] at hkind
    cases hkind
  | lineBreak =>
    rw [List.mem_singleton.1 htoken] at hkind
    simp only [take] at hkind
    split at hkind <;> cases hkind
  | lexeme c cs lexeme brackets inside hrest munched updated =>
    exact ⟨inside, rfl, _, past_lexeme hrest munched updated hsteady⟩

/-- The step of the token that white space is inserted after. -/
theorem spaced_of_lexeme (hsettled : a.Settled) (hstep : a.step tabSize = .emit tokens next)
    (htoken : token ∈ tokens) (hkind : token.kind.isContent = true)
    (hwhite : ∀ c ∈ white, Indentation.isGap c = true) (hfuel : next.fuel ≤ fuel) :
    ∃ front, a.cursor.rest = front ++ next.cursor.rest ∧
      Spaced tabSize white a
        ⟨tokens ++ (next.run tabSize fuel).tokens, (next.run tabSize fuel).error⟩ front
        next.cursor.rest := by
  have hemits := emits_of_step hstep
  obtain ⟨inside, hline, taken, hpast⟩ :=
    lexeme_of_isContent hemits htoken hkind _ (steady_white hwhite next.cursor.rest)
  obtain ⟨hwhole, hfollows, hbefore⟩ := @step_of_past _ _ _ tabSize _ _ inside hpast
  have inside' : next.measures = false := by
    refine Bool.eq_false_iff.2 fun hmeasures => ?_
    have hstart : a.atLineStart = true := hline ▸ (Bool.and_eq_true_iff.1 hmeasures).1
    rw [measures, hstart, hsettled hstart] at inside
    cases inside
  refine ⟨gap a ++ taken, hwhole, hwhole, hfollows, fun {fuel'} hfuel' => ?_⟩
  have hlt := fuel_lt_of_emits (emits_of_step hbefore)
  obtain ⟨fuel', rfl⟩ := Nat.exists_eq_add_of_lt (Nat.lt_of_lt_of_le hlt hfuel')
  rw [run_of_emit hbefore]
  exact (run_white inside' hwhite hfuel (Nat.le_add_right _ fuel')).append (same_refl tokens)

theorem not_isContent_of_finishes (h : Finishes a tokens) (htoken : token ∈ tokens) :
    token.kind.isContent = false := by
  have hlayout := layout_of_finishes h htoken
  cases hkind : token.kind <;> rw [hkind] at hlayout <;> first | rfl | cases hlayout

/-- White space may be inserted after every token that has text of its own. -/
theorem spaced_of_run (hsettled : a.Settled) (hfuel : a.fuel ≤ fuel)
    (htoken : token ∈ (a.run tabSize fuel).tokens)
    (hkind : token.kind.isContent = true) (hwhite : ∀ c ∈ white, Indentation.isGap c = true) :
    ∃ front rest,
      token.span.stop.offset = a.cursor.position.offset + Text.byteLength front ∧
        Spaced tabSize white a (a.run tabSize fuel) front rest := by
  induction fuel generalizing a with
  | zero => simp [Lexer.fuel] at hfuel
  | succ fuel ih =>
    cases hstep : a.step tabSize with
    | fail error =>
      rw [run, hstep] at htoken
      cases htoken
    | finish tokens =>
      rw [run_of_finish hstep] at htoken
      rw [not_isContent_of_finishes (finishes_of_step hstep) htoken] at hkind
      cases hkind
    | emit tokens next =>
      have hemits := emits_of_step hstep
      have hlt := fuel_lt_of_emits hemits
      rw [run_of_emit hstep] at htoken ⊢
      rcases List.mem_append.1 htoken with htoken | htoken
      · have hnext : next.fuel ≤ fuel := by omega
        obtain ⟨front, hwhole, hspaced⟩ :=
          spaced_of_lexeme hsettled hstep htoken hkind hwhite hnext
        refine ⟨front, _, ?_, hspaced⟩
        rw [(moves_of_emits hemits).2 token htoken, offset_of_emits hemits hwhole]
      · obtain ⟨front, rest, hstop, hspaced⟩ :=
          ih (settled_of_emits hemits hsettled) (by omega) htoken
        obtain ⟨taken, hwhole, hspaced⟩ := hspaced.emit hstep
        refine ⟨taken ++ front, rest, ?_, hspaced⟩
        rw [hstop, offset_of_emits hemits hwhole, Text.byteLength_append, Nat.add_assoc]

end Lexer

/-- A text with more text at an offset in bytes. There is none inside a character or past the
end. -/
def Text.insertAt? (offset : Nat) (more source : String) : Option String :=
  (takeBytes offset source.toList).bind fun front =>
    (dropBytes offset source.toList).map fun rest =>
      String.ofList (front ++ (more.toList ++ rest))

theorem Text.insertAt?_append {source : String} {front rest : List Char}
    (h : source.toList = front ++ rest) (more : String) :
    insertAt? (byteLength front) more source =
      some (String.ofList (front ++ (more.toList ++ rest))) := by
  rw [insertAt?, h, takeBytes_append, dropBytes_append]
  rfl

namespace Spacing

/-- **White space after a token does not matter.** Spaces, tabs and form feeds that are inserted
where a name, a literal, a keyword or an operator of an accepted snippet ends leave a snippet that
is accepted too, with the same tokens but for their places. -/
theorem space_after_token_does_not_matter {source white : String} {token : Token}
    (herror : (TokenStream.ofText source).error = none)
    (htoken : token ∈ (TokenStream.ofText source).tokens) (hkind : token.kind.isContent = true)
    (hwhite : ∀ c ∈ white.toList, Indentation.isGap c = true) :
    ∃ spaced, Text.insertAt? token.span.stop.offset white source = some spaced ∧
      (TokenStream.ofText spaced).error = none ∧
      List.Forall₂ Lexer.SameToken (TokenStream.ofText source).tokens
        (TokenStream.ofText spaced).tokens := by
  have hsettled : (Lexer.ofText source).Settled := fun _ => rfl
  obtain ⟨front, rest, hstop, hspaced⟩ :=
    Lexer.spaced_of_run hsettled (Nat.le_refl _) htoken hkind hwhite
  have hstop : token.span.stop.offset = Text.byteLength front := by
    rw [hstop]
    exact Nat.zero_add _
  refine ⟨String.ofList (front ++ (white.toList ++ rest)), ?_, ?_⟩
  · rw [hstop]
    exact Text.insertAt?_append hspaced.whole white
  · have hbefore : Lexer.ofText (String.ofList (front ++ (white.toList ++ rest))) =
        (Lexer.ofText source).before (front ++ (white.toList ++ rest)) := by
      unfold Lexer.ofText Cursor.ofText
      rw [String.toList_ofList]
      rfl
    unfold TokenStream.ofText TokenStream.withTabs
    rw [hbefore]
    have hsame := hspaced.run (Nat.le_refl _)
    exact ⟨hsame.error_eq_none herror, hsame.tokens⟩

/-- White space between a number and the keyword that follows it. -/
theorem space_after_number_before_keyword :
    ∃ token ∈ (TokenStream.ofText "f(1if x else.5)\n").tokens, token.lexeme = "1" ∧
      ∃ spaced, Text.insertAt? token.span.stop.offset " \t" "f(1if x else.5)\n" = some spaced ∧
        (TokenStream.ofText spaced).error = none ∧
        List.Forall₂ Lexer.SameToken (TokenStream.ofText "f(1if x else.5)\n").tokens
          (TokenStream.ofText spaced).tokens := by
  have hfound : ∃ token ∈ (TokenStream.ofText "f(1if x else.5)\n").tokens,
      token.lexeme = "1" ∧ token.kind.isContent = true := by decide +kernel
  obtain ⟨token, htoken, hlexeme, hkind⟩ := hfound
  have hwhite : ∀ c ∈ " \t".toList, Indentation.isGap c = true := by simp [Indentation.isGap]
  exact ⟨token, htoken, hlexeme,
    space_after_token_does_not_matter (by decide +kernel) htoken hkind hwhite⟩

end Spacing

end SnippetLint
