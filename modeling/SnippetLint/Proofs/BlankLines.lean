import SnippetLint.Proofs.Composition
import SnippetLint.Proofs.Discipline

/-!
Blank lines and lines that hold a comment only. Where such a line stands between two others, outside
brackets, its tokens are ones that the grammar does not see, and behind it the lexer stands as it
did before it, whatever white space the line starts with. Main statement:
`blank_lines_are_invisible`.
-/

namespace SnippetLint

open Lookahead

namespace Lexer

variable {a next : Lexer} {tokens : List Token} {tabSize fuel : Nat} {position : Position}
  {blocks : List Indentation}

/-- A lexer gives some tokens on its way to another one. -/
def Reaches (tabSize : Nat) (a : Lexer) (tokens : List Token) (b : Lexer) : Prop :=
  ∀ fuel, a.fuel ≤ fuel → ∃ fuel', b.fuel ≤ fuel' ∧ a.run tabSize fuel =
    ⟨tokens ++ (b.run tabSize fuel').tokens, (b.run tabSize fuel').error⟩

theorem reaches_refl (a : Lexer) : Reaches tabSize a [] a :=
  fun _ hfuel => ⟨_, hfuel, rfl⟩

theorem reaches_of_step (h : a.step tabSize = .emit tokens next) :
    Reaches tabSize a tokens next := by
  intro fuel hfuel
  have hlt := fuel_lt_of_emits (emits_of_step h)
  obtain ⟨fuel, rfl⟩ := Nat.exists_eq_add_of_lt (Nat.lt_of_lt_of_le hlt hfuel)
  exact ⟨_, Nat.le_add_right _ fuel, run_of_emit h _⟩

theorem Reaches.trans {b : Lexer} {more : List Token} (h : Reaches tabSize a tokens b)
    (h' : Reaches tabSize b more next) : Reaches tabSize a (tokens ++ more) next := by
  intro fuel hfuel
  obtain ⟨middle, hmiddle, hrun⟩ := h fuel hfuel
  obtain ⟨last, hlast, hrun'⟩ := h' middle hmiddle
  exact ⟨last, hlast, by rw [hrun, hrun', List.append_assoc]⟩

/-! ## The text before the line -/

/-- The token of a line break outside brackets leaves a lexer at the start of a line. -/
theorem fresh_of_closes {token : Token} (h : Emits tabSize a tokens next) (htoken : token ∈ tokens)
    (hends : isLineEnd token.kind = true) (hbrackets : a.brackets = []) :
    next = fresh next.cursor.rest next.cursor.position next.blocks := by
  refine fresh_of_emits h ⟨token, htoken, hends⟩ ?_
  cases h with
  | lexeme _ _ _ _ _ _ munched _ =>
    rw [List.mem_singleton.1 htoken] at hends
    have hcontent := isLineEnd_of_content (Lexeme.isContent_of_munch munched)
    exact absurd (hcontent.symm.trans hends) Bool.false_ne_true
  | _ => exact hbrackets

/-- Only one token of a step ends a line, and it is the first one. -/
theorem eq_nil_of_isLineEnd {before after : List Token} {token : Token}
    (h : Emits tabSize a (before ++ token :: after) next) (hends : isLineEnd token.kind = true) :
    before = [] := by
  generalize htokens : before ++ token :: after = tokens at h
  have hmem : token ∈ tokens := htokens ▸ List.mem_append_right _ List.mem_cons_self
  cases h with
  | blank | same | join => cases hmem
  | shallower =>
    rw [(List.mem_replicate.1 hmem).2] at hends
    cases hends
  | deeper | lineBreak | comment | lexeme =>
    have hlength := congrArg List.length htokens
    simp only [List.length_append, List.length_cons, List.length_nil] at hlength
    exact List.eq_nil_of_length_eq_zero (by omega)

/-- An element of two lists after one another is in the second one, or in the first one. -/
theorem split_append {before after first second : List Token} {token : Token}
    (h : first ++ second = before ++ token :: after) :
    (∃ later, before = first ++ later ∧ second = later ++ token :: after) ∨
      ∃ later, first = before ++ token :: later := by
  rcases List.append_eq_append_iff.1 h with ⟨later, hbefore, hsecond⟩ | ⟨later, hfirst, hrest⟩
  · exact .inl ⟨later, hbefore, hsecond⟩
  · cases later with
    | nil => exact .inl ⟨[], by simpa using hfirst.symm, hrest.symm⟩
    | cons t later =>
      obtain ⟨rfl, _⟩ := List.cons.inj hrest
      exact .inr ⟨later, hfirst⟩

/-- A line break that ends the text outside brackets is followed by nothing but the marks of the
end. -/
theorem error_of_closes {before after : List Token} {token : Token} {stop : Nat}
    (hfuel : a.fuel ≤ fuel) (hopened : Discipline.Opened a)
    (hstop : stop = a.cursor.position.offset + Text.byteLength a.cursor.rest)
    (htokens : (a.run tabSize fuel).tokens = before ++ token :: after)
    (hcloses : ClosesAt stop token)
    (hdepth : (a.brackets.length : Int) + Discipline.openBrackets before = 0) :
    (a.run tabSize fuel).error = none := by
  induction fuel generalizing a before with
  | zero => simp [Lexer.fuel] at hfuel
  | succ fuel ih =>
    cases hstep : a.step tabSize with
    | fail error =>
      rw [run, hstep] at htokens
      cases before <;> cases htokens
    | finish tokens => rw [run_of_finish hstep]
    | emit tokens next =>
      have hemits := emits_of_step hstep
      have hlt := fuel_lt_of_emits hemits
      have hnext : next.fuel ≤ fuel := by omega
      obtain ⟨⟨n, hskip⟩, hstops⟩ := moves_of_emits hemits
      have hstop' : stop = next.cursor.position.offset + Text.byteLength next.cursor.rest := by
        rw [hstop, hskip, Cursor.offset_skip, Cursor.rest_skip, Nat.add_assoc,
          ← Text.byteLength_append, List.take_append_drop]
      rw [run_of_emit hstep] at htokens ⊢
      rcases split_append htokens with ⟨later, rfl, hlater⟩ | ⟨later, rfl⟩
      · obtain ⟨hruns, hopened'⟩ := Discipline.runs_of_emits hemits hopened
        have hopen := hruns.openBrackets_eq
        simp only [Discipline.standing, List.length_map] at hopen
        rw [Discipline.openBrackets_append] at hdepth
        exact ih hnext hopened' hstop' hlater (by omega)
      · have hmem : token ∈ before ++ token :: later :=
          List.mem_append_right _ List.mem_cons_self
        have hrest : next.cursor.rest = [] := by
          by_contra hne
          have hpos := byteLength_pos hne
          have hstopped := hcloses.stop_eq
          rw [hstops token hmem] at hstopped
          omega
        obtain rfl := eq_nil_of_isLineEnd hemits hcloses.ends
        have hbrackets : a.brackets = [] := List.eq_nil_of_length_eq_zero (by
          simpa [Discipline.openBrackets] using hdepth)
        have hfresh := fresh_of_closes hemits hmem hcloses.ends hbrackets
        rw [hrest] at hfresh
        rw [hfresh] at hnext ⊢
        rw [run_fresh_nil hnext]

end Lexer

/-- A snippet that ends with a line feed, where a line ends outside brackets. -/
def EndsOutside (source : String) : Prop :=
  EndsLine source.toList ∧ ∃ i : Fin (TokenStream.ofText source).tokens.length,
    Lexer.ClosesAt (Text.byteLength source.toList) ((TokenStream.ofText source).tokens.get i) ∧
      Discipline.openBrackets ((TokenStream.ofText source).tokens.take i) = 0

instance (source : String) : Decidable (EndsOutside source) := inferInstanceAs (Decidable (_ ∧ _))

/-- White space and then, perhaps, a comment, up to a line feed. -/
structure BlankLine (line : String) : Prop where
  parts : ∃ white comment, line.toList = white ++ comment ++ ['\n'] ∧
    (∀ c ∈ white, Indentation.isGap c = true) ∧ (∀ c ∈ comment.head?, c = '#') ∧
    ∀ c ∈ comment, Lexer.isLineBreak c = false

namespace Lexer

variable {a next : Lexer} {tokens : List Token} {tabSize fuel : Nat} {position : Position}
  {blocks : List Indentation} {white comment text : List Char}

/-! ## The line -/

/-- A lexer that has measured a line which has no tokens yet. -/
def waiting (text : List Char) (position : Position) (blocks : List Indentation) : Lexer :=
  ⟨⟨text, position⟩, blocks, [], false, false⟩

theorem dropWhile_white (hwhite : ∀ c ∈ white, Indentation.isGap c = true)
    (hbare : ∀ c ∈ text.head?, c = '#' ∨ c = '\n' ∨ c = '\r') :
    (white ++ text).dropWhile Indentation.isGap = text := by
  rw [List.dropWhile_append_of_pos hwhite]
  cases text with
  | nil => rfl
  | cons c text =>
    refine List.dropWhile_cons_of_neg ?_
    rcases hbare c rfl with rfl | rfl | rfl
    all_goals decide

/-- White space in front of a line without tokens is not measured. -/
theorem step_white (hwhite : ∀ c ∈ white, Indentation.isGap c = true)
    (hbare : ∀ c ∈ text.head?, c = '#' ∨ c = '\n' ∨ c = '\r') :
    ∃ position', (fresh (white ++ text) position blocks).step tabSize =
      .emit [] (waiting text position' blocks) := by
  have hrest : (fresh (white ++ text) position blocks).here.rest = text := by
    rw [here, Cursor.rest_eatWhile]
    exact dropWhile_white hwhite hbare
  have hstep : (fresh (white ++ text) position blocks).step tabSize =
      .emit [] { fresh (white ++ text) position blocks with
        cursor := (fresh (white ++ text) position blocks).here
        atLineStart := false } := by
    have hmeasures : (fresh (white ++ text) position blocks).measures = true := rfl
    rw [step_eq, if_pos hmeasures, indentStep_of_bare]
    rwa [hrest]
  generalize (fresh (white ++ text) position blocks).here = here at hrest hstep
  obtain ⟨rest, position'⟩ := here
  subst hrest
  exact ⟨position', hstep⟩

theorem step_comment (hhead : comment.head? = some '#')
    (hplain : ∀ c ∈ comment, isLineBreak c = false) :
    ∃ token position', token.kind = .comment ∧
      (waiting (comment ++ '\n' :: text) position blocks).step tabSize =
        .emit [token] (waiting ('\n' :: text) position' blocks) := by
  obtain ⟨comment, rfl⟩ := List.head?_eq_some_iff.1 hhead
  let cursor : Cursor := ⟨'#' :: comment ++ '\n' :: text, position⟩
  let lexer := waiting ('#' :: comment ++ '\n' :: text) position blocks
  have hrest : lexer.here.rest = '#' :: (comment ++ '\n' :: text) := rfl
  have hmeasures : ¬ lexer.measures = true := Bool.false_ne_true
  have htake : cursor.rest.takeWhile (!isLineBreak ·) = '#' :: comment :=
    takeWhile_front (fun c hc => by simp [hplain c hc]) rfl
  have hskip : (cursor.skip ('#' :: comment).length).rest = '\n' :: text := by
    rw [Cursor.rest_skip]
    exact List.drop_left
  have hstep : lexer.step tabSize =
      .emit [take cursor .comment ('#' :: comment).length]
        { lexer with cursor := cursor.skip ('#' :: comment).length } := by
    rw [step_eq, if_neg hmeasures, contentStep_cons hrest, if_neg (by decide), if_neg (by decide),
      if_pos rfl, ← htake]
    rfl
  generalize cursor.skip ('#' :: comment).length = here at hskip hstep
  obtain ⟨rest, position'⟩ := here
  subst hskip
  exact ⟨_, position', rfl, hstep⟩

theorem step_feed : ∃ token position', token.kind = .nl ∧
    (waiting ('\n' :: text) position blocks).step tabSize =
      .emit [token] (fresh text position' blocks) :=
  ⟨_, _, rfl, rfl⟩

/-- The tokens that are no comments and end no empty line. -/
def visible (tokens : List Token) : List Token := tokens.filter (!·.kind.isTrivia)

theorem visible_append (front rest : List Token) :
    visible (front ++ rest) = visible front ++ visible rest := List.filter_append ..

theorem visible_of_isTrivia {token : Token} (h : token.kind.isTrivia = true) :
    visible [token] = [] := List.filter_singleton.trans (by rw [h]; rfl)

theorem visible_same {tokens tokens' : List Token} (h : List.Forall₂ SameToken tokens tokens') :
    List.Forall₂ SameToken (visible tokens) (visible tokens') := by
  refine List.rel_filter ?_ h
  intro token token' h
  dsimp only
  rw [h.kind]

theorem reaches_comment (hhead : ∀ c ∈ comment.head?, c = '#')
    (hplain : ∀ c ∈ comment, isLineBreak c = false) :
    ∃ tokens position', visible tokens = [] ∧
      Reaches tabSize (waiting (comment ++ '\n' :: text) position blocks) tokens
        (waiting ('\n' :: text) position' blocks) := by
  cases hcomment : comment.head? with
  | none =>
    rw [List.head?_eq_none_iff.1 hcomment]
    exact ⟨[], position, rfl, reaches_refl _⟩
  | some c =>
    obtain rfl := hhead c hcomment
    obtain ⟨token, position', hkind, hstep⟩ := step_comment hcomment hplain
    exact ⟨[token], position', visible_of_isTrivia (hkind ▸ rfl), reaches_of_step hstep⟩

/-- Behind a blank line a lexer stands at the start of the next one, with the same blocks, and has
given no token that the grammar sees. -/
theorem reaches_blankLine {line : String} (hline : BlankLine line) (text : List Char)
    (position : Position) (blocks : List Indentation) :
    ∃ tokens position', visible tokens = [] ∧
      Reaches tabSize (fresh (line.toList ++ text) position blocks) tokens
        (fresh text position' blocks) := by
  obtain ⟨white, comment, hparts, hwhite, hhead, hplain⟩ := hline.parts
  have htext : line.toList ++ text = white ++ (comment ++ '\n' :: text) := by simp [hparts]
  have hbare : ∀ c ∈ (comment ++ '\n' :: text).head?, c = '#' ∨ c = '\n' ∨ c = '\r' := by
    cases comment with
    | nil => exact fun c hc => .inr (.inl (Option.some.inj hc).symm)
    | cons d comment => exact fun c hc => .inl (hhead c hc)
  obtain ⟨position', hstart⟩ := step_white hwhite hbare
  obtain ⟨tokens, middle, hvisible, hcomment⟩ := reaches_comment hhead hplain
  obtain ⟨token, last, hkind, hfeed⟩ := step_feed
  refine ⟨[] ++ tokens ++ [token], last, ?_, ?_⟩
  · rw [visible_append, List.nil_append, hvisible, visible_of_isTrivia (hkind ▸ rfl)]
    rfl
  · rw [htext]
    exact ((reaches_of_step hstart).trans hcomment).trans (reaches_of_step hfeed)

end Lexer

/-! ## Both snippets -/

section Both

open Lexer

variable {a : String}

/-- Behind a text that is empty or ends outside brackets a lexer stands at the start of a line, in
the same way whatever text comes next. -/
theorem reaches_next_line (ha : a = "" ∨ EndsOutside a) :
    ∃ front position blocks, ∀ text : String,
      Reaches TokenStream.tabSize (Lexer.ofText (a ++ text)) front
        (fresh text.toList position blocks) := by
  rcases ha with rfl | ⟨hline, ⟨i, hi⟩, hcloses, hdepth⟩
  · refine ⟨[], .start, [], fun text => ?_⟩
    rw [String.empty_append]
    exact reaches_refl _
  · have hstop : Text.byteLength a.toList = (Lexer.ofText a).cursor.position.offset +
        Text.byteLength (Lexer.ofText a).cursor.rest := (Nat.zero_add _).symm
    have htokens := (List.take_append_drop i (TokenStream.ofText a).tokens).symm
    rw [List.drop_eq_getElem_cons hi] at htokens
    have herror : (TokenStream.ofText a).error = none :=
      error_of_closes (Nat.le_refl _) (fun _ h => absurd h List.not_mem_nil) hstop htokens hcloses
        ((Int.zero_add _).trans hdepth)
    obtain ⟨front, position, blocks, hfronts⟩ := fronts_of_run (Nat.le_refl _) hline herror hstop
      ⟨_, List.getElem_mem hi, hcloses⟩
    refine ⟨front, position, blocks, fun text => ?_⟩
    have hmore : (Lexer.ofText a).more text.toList = Lexer.ofText (a ++ text) := by
      unfold Lexer.ofText Cursor.ofText Lexer.more Cursor.more
      rw [String.toList_append]
    rw [← hmore]
    exact fun fuel => hfronts.more text.toList

/-- Two streams of which the grammar sees the same, but for places. -/
structure SameText (first second : TokenStream) : Prop where
  tokens : List.Forall₂ SameToken (visible first.tokens) (visible second.tokens)
  error : second.error.map (·.fault.unlined) = first.error.map (·.fault.unlined)

/-- Without the line both texts go on in the same way. -/
theorem sameText_of_blankLine {line : String} (ha : a = "" ∨ EndsOutside a)
    (hline : BlankLine line) (b : String) :
    SameText (.ofText (a ++ b)) (.ofText (a ++ line ++ b)) := by
  obtain ⟨front, position, blocks, hreaches⟩ := reaches_next_line ha
  obtain ⟨tokens, position', hvisible, hblank⟩ :=
    reaches_blankLine hline b.toList position blocks
  have hlong : (Lexer.ofText (a ++ line ++ b)).Reaches TokenStream.tabSize (front ++ tokens)
      (fresh b.toList position' blocks) := by
    have hfront := hreaches (line ++ b)
    rw [String.toList_append] at hfront
    rw [String.append_assoc]
    exact hfront.trans hblank
  obtain ⟨fuel, hfuel, hrun⟩ := hreaches b _ (Nat.le_refl _)
  obtain ⟨fuel', hfuel', hrun'⟩ := hlong _ (Nat.le_refl _)
  have htwin : Twin [] (fresh b.toList position blocks) (fresh b.toList position' blocks) :=
    ⟨rfl, (List.append_nil _).symm, rfl, rfl, rfl⟩
  have hsame := @run_twin _ _ TokenStream.tabSize _ _ htwin hfuel hfuel'
  unfold TokenStream.ofText TokenStream.withTabs
  rw [hrun, hrun']
  refine ⟨?_, hsame.error⟩
  rw [visible_append, visible_append, visible_append, hvisible, List.append_nil]
  exact List.rel_append (same_refl _) (visible_same hsame.tokens)

theorem SameText.streamLike {first second : TokenStream} (h : SameText first second) :
    Pairing.StreamLike Composition.placeless first second := by
  have hsignificant : ∀ stream : TokenStream, Module.significant stream =
      (visible stream.tokens).filter (·.kind != .endMarker) := fun stream => by
    rw [Module.significant, visible, List.filter_filter]
    exact List.filter_congr fun _ _ => Bool.and_comm _ _
  refine ⟨?_, trivial, ?_⟩
  · rw [hsignificant, hsignificant]
    refine (List.rel_filter ?_ h.tokens).imp fun _ _ => Composition.tokenLike_of_same
    intro token token' h
    dsimp only
    rw [h.kind]
  · rw [Agreement.fault_endingOf, Agreement.fault_endingOf]
    have herror := h.error
    cases hfirst : first.error with
    | none =>
      rw [hfirst] at herror
      rw [Option.map_eq_none_iff.1 herror]
      exact .none
    | some error =>
      rw [hfirst] at herror
      obtain ⟨error', hsecond, hfault⟩ := Option.map_eq_some_iff.1 herror
      rw [hsecond]
      exact .some hfault

end Both

namespace BlankLines

/-- **Blank lines and comment lines are invisible.** A line of white space, perhaps with a comment,
that is put where a snippet begins or where a line of it ends outside brackets changes neither the
tokens that the grammar sees, but for their places, nor the lexical error, but for the lines that it
names. The snippet has a tree if it had one, and the same tree but for where it stands. -/
theorem blank_lines_are_invisible {a line : String} (ha : a = "" ∨ EndsOutside a)
    (hline : BlankLine line) (b : String) :
    List.Forall₂ Lexer.SameToken (Lexer.visible (TokenStream.ofText (a ++ b)).tokens)
        (Lexer.visible (TokenStream.ofText (a ++ line ++ b)).tokens) ∧
      (TokenStream.ofText (a ++ line ++ b)).error.map (·.fault.unlined) =
        (TokenStream.ofText (a ++ b)).error.map (·.fault.unlined) ∧
      (Module.parse (a ++ line ++ b)).toOption.map Tree.unplaced =
        (Module.parse (a ++ b)).toOption.map Tree.unplaced := by
  have hsame := sameText_of_blankLine ha hline b
  refine ⟨hsame.tokens, hsame.error, ?_⟩
  have hresult := Pairing.ofStream_like hsame.streamLike
  unfold Module.parse
  generalize Module.ofStream (.ofText (a ++ b)) = first at hresult ⊢
  generalize Module.ofStream (.ofText (a ++ line ++ b)) = second at hresult ⊢
  cases hresult with
  | ok htree => exact congrArg some (Composition.unplaced_tree htree)
  | error => rfl

/-- A comment that stands between a block and the line that ends it, and is indented in its own
way. -/
theorem comment_before_dedent :
    EndsOutside "if x:\n  y\n" ∧ BlankLine " \t# z\n" ∧
      List.Forall₂ Lexer.SameToken
        (Lexer.visible (TokenStream.ofText ("if x:\n  y\n" ++ "z\n")).tokens)
        (Lexer.visible
          (TokenStream.ofText ("if x:\n  y\n" ++ " \t# z\n" ++ "z\n")).tokens) ∧
      (TokenStream.ofText ("if x:\n  y\n" ++ " \t# z\n" ++ "z\n")).error.map
          (·.fault.unlined) =
        (TokenStream.ofText ("if x:\n  y\n" ++ "z\n")).error.map (·.fault.unlined) ∧
      (Module.parse ("if x:\n  y\n" ++ " \t# z\n" ++ "z\n")).toOption.map Tree.unplaced =
        (Module.parse ("if x:\n  y\n" ++ "z\n")).toOption.map Tree.unplaced := by
  have hends : EndsOutside "if x:\n  y\n" := by decide +kernel
  have hline : BlankLine " \t# z\n" := ⟨[' ', '\t'], ['#', ' ', 'z'],
    rfl, by simp [Indentation.isGap], by simp, by simpa using ⟨rfl, rfl, rfl⟩⟩
  exact ⟨hends, hline, blank_lines_are_invisible (.inr hends) hline "z\n"⟩

end BlankLines

end SnippetLint
