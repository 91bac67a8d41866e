import SnippetLint.Proofs.Lexing

/-!
The distance of tab stops does not decide what an accepted layout means. Open blocks are indented
further and further by both measures (`nested_of_emits`), so where the measures agree about a line
they agree about every block around it (`compare_even`). A lexer that counts a tab as one column
then goes through the same steps. Main statement: `accepted_layout_ignores_tab_size`.
-/

namespace SnippetLint

namespace Indentation

/-! ## The plain measure -/

/-- The indentation as it is measured if every tab is one column. -/
def even (indentation : Indentation) : Indentation :=
  ⟨indentation.plainWidth, indentation.plainWidth⟩

theorem extend_even (tabSize : Nat) (indentation : Indentation) (c : Char) :
    extend 1 indentation.even c = (extend tabSize indentation c).even := by
  unfold extend
  split
  · rfl
  · split
    · simp [even]
    · rfl

theorem measure_one (tabSize : Nat) (gap : List Char) :
    measure 1 gap = (measure tabSize gap).even := by
  have hfold : ∀ start : Indentation,
      gap.foldl (extend 1) start.even = (gap.foldl (extend tabSize) start).even := by
    induction gap with
    | nil => exact fun _ => rfl
    | cons c gap ih =>
      intro start
      rw [List.foldl_cons, List.foldl_cons, extend_even tabSize, ih]
  exact hfold zero

theorem innermost_even (blocks : List Indentation) :
    innermost (blocks.map even) = (innermost blocks).even := by
  cases blocks with
  | nil => rfl
  | cons block blocks => rfl

/-! ## Nested blocks -/

/-- One block is indented further than another one, by both measures. -/
structure Further (inner outer : Indentation) : Prop where
  width : outer.width < inner.width
  plainWidth : outer.plainWidth < inner.plainWidth

/-- Each block, innermost first, is indented further than those around it and than no block. -/
def Nested (blocks : List Indentation) : Prop := (blocks ++ [zero]).Pairwise Further

/-- The blocks that stay open at an indentation. -/
def remaining (here : Indentation) (blocks : List Indentation) : List Indentation :=
  blocks.dropWhile fun block => here.width < block.width

theorem remaining_cons_of_lt {here top : Indentation} (blocks : List Indentation)
    (h : here.width < top.width) : remaining here (top :: blocks) = remaining here blocks :=
  List.dropWhile_cons_of_pos (by simpa using h)

theorem remaining_cons_of_not_lt {here top : Indentation} (blocks : List Indentation)
    (h : ¬ here.width < top.width) : remaining here (top :: blocks) = top :: blocks :=
  List.dropWhile_cons_of_neg (by simpa using h)

theorem innermost_mem (blocks : List Indentation) : innermost blocks ∈ blocks ++ [zero] := by
  cases blocks with
  | nil => exact List.mem_singleton_self _
  | cons block blocks => exact List.mem_cons_self

section Nested

variable {here top : Indentation} {blocks : List Indentation}

theorem Nested.suffix {outer : List Indentation} (h : Nested blocks) (hsuffix : outer <:+ blocks) :
    Nested outer := by
  obtain ⟨inner, rfl⟩ := hsuffix
  unfold Nested at h
  rw [List.append_assoc] at h
  exact (List.pairwise_append.1 h).2.1

/-- A block that is indented further than the innermost one is indented further than all. -/
theorem Nested.cons (h : Nested blocks) (hfurther : Further here (innermost blocks)) :
    Nested (here :: blocks) := by
  refine List.pairwise_cons.2 ⟨fun block hblock => ?_, h⟩
  cases blocks with
  | nil =>
    obtain rfl := List.mem_singleton.1 hblock
    exact hfurther
  | cons top blocks =>
    rcases List.mem_cons.1 hblock with rfl | hblock
    · exact hfurther
    · have htop : Further top block := (List.pairwise_cons.1 h).1 block hblock
      exact ⟨Nat.lt_trans htop.width hfurther.width,
        Nat.lt_trans htop.plainWidth hfurther.plainWidth⟩

/-- A block is indented further than whatever stays open when it has ended. -/
theorem Nested.further (h : Nested (top :: blocks)) :
    Further top (innermost (remaining here blocks)) := by
  have hsuffix : remaining here blocks ++ [zero] <:+ blocks ++ [zero] :=
    (List.suffix_append_inj_of_length_eq rfl).2 ⟨List.dropWhile_suffix _, rfl⟩
  exact (List.pairwise_cons.1 h).1 _ (hsuffix.subset (innermost_mem _))

/-- A line that ends the innermost block is indented less than it, by either measure. -/
theorem Nested.further_innermost (h : Nested blocks) (hends : here.width < (innermost blocks).width)
    (hlevel : here = innermost (remaining here blocks)) : Further (innermost blocks) here := by
  cases blocks with
  | nil => exact absurd hends (Nat.not_lt_zero _)
  | cons top blocks =>
    have hends : here.width < top.width := hends
    rw [remaining_cons_of_lt blocks hends] at hlevel
    rw [hlevel]
    exact h.further

/-- Blocks that end by one measure end by the other one too, if both agree about what remains. -/
theorem remaining_even (h : Nested blocks) (hlevel : here = innermost (remaining here blocks)) :
    remaining here.even (blocks.map even) = (remaining here blocks).map even := by
  induction blocks with
  | nil => rfl
  | cons top blocks ih =>
    rw [List.map_cons]
    by_cases hends : here.width < top.width
    · have hfurther : Further top here := h.further_innermost hends hlevel
      rw [remaining_cons_of_lt blocks hends] at hlevel ⊢
      rw [remaining_cons_of_lt _ hfurther.plainWidth]
      exact ih (h.suffix (List.suffix_cons top blocks)) hlevel
    · rw [remaining_cons_of_not_lt blocks hends] at hlevel ⊢
      obtain rfl : here = top := hlevel
      exact remaining_cons_of_not_lt _ (Nat.lt_irrefl _)

end Nested

/-! ## Accepted lines -/

/-- The ways in which a line is accepted, with the change that it makes. -/
inductive Accepts (here : Indentation) (blocks : List Indentation) : Change → Prop
  | same (level : here = innermost blocks) : Accepts here blocks .same
  | deeper (further : Further here (innermost blocks)) (room : blocks.length < maxBlocks) :
      Accepts here blocks .deeper
  | shallower (ends : here.width < (innermost blocks).width)
      (level : here = innermost (remaining here blocks)) :
      Accepts here blocks
        (.shallower (blocks.length - (remaining here blocks).length) (remaining here blocks))

theorem ext_of_eq {a b : Indentation} (hwidth : ¬ a.width ≠ b.width)
    (hplain : ¬ a.plainWidth ≠ b.plainWidth) : a = b := by
  obtain ⟨_, _⟩ := a
  obtain rfl := Decidable.not_not.1 hwidth
  obtain rfl := Decidable.not_not.1 hplain
  rfl

section Accepts

variable {here : Indentation} {blocks : List Indentation} {change : Change}

theorem accepts_of_compare (h : compare here blocks = .ok change) : Accepts here blocks change := by
  unfold compare at h
  dsimp only at h
  split at h
  · next hwidth =>
    split at h
    · cases h
    · next hplain =>
      split at h
      · cases h
      · next hroom =>
        cases h
        exact .deeper ⟨hwidth, Nat.lt_of_not_le hplain⟩ (Nat.lt_of_not_le hroom)
  · next hwidth =>
    split at h
    · next hends =>
      split at h
      · cases h
      · next hwidth =>
        split at h
        · cases h
        · next hplain =>
          cases h
          exact .shallower hends (ext_of_eq hwidth hplain)
    · next hends =>
      split at h
      · cases h
      · next hplain =>
        cases h
        exact .same (ext_of_eq (by omega) hplain)

theorem compare_of_accepts (h : Accepts here blocks change) : compare here blocks = .ok change := by
  unfold compare
  cases h with
  | same level => simp [← level]
  | deeper further room =>
    simp [further.width, Nat.not_le.2 further.plainWidth, Nat.not_le.2 room]
  | shallower ends level =>
    have level : here = innermost (blocks.dropWhile fun block => here.width < block.width) := level
    simp [Nat.lt_asymm ends, ends, ← level, remaining]

end Accepts

/-- The change of the same blocks, measured with tabs of one column. -/
def Change.even : Change → Change
  | same => same
  | deeper => deeper
  | shallower closed remaining => shallower closed (remaining.map Indentation.even)

/-- What is accepted by both measures is accepted, and means the same, by the plain one alone. -/
theorem compare_even {here : Indentation} {blocks : List Indentation} {change : Change}
    (hnested : Nested blocks) (h : compare here blocks = .ok change) :
    compare here.even (blocks.map even) = .ok change.even := by
  apply compare_of_accepts
  cases accepts_of_compare h with
  | same level =>
    refine .same ?_
    rw [innermost_even, ← level]
  | deeper further room =>
    refine .deeper ?_ (by rwa [List.length_map])
    rw [innermost_even]
    exact ⟨further.plainWidth, further.plainWidth⟩
  | shallower ends level =>
    have hremaining := remaining_even hnested level
    have hends : here.even.width < (innermost (blocks.map even)).width := by
      rw [innermost_even]
      exact (hnested.further_innermost ends level).plainWidth
    have hlevel : here.even = innermost (remaining here.even (blocks.map even)) := by
      rw [hremaining, innermost_even, ← level]
    have haccepts := Accepts.shallower hends hlevel
    rwa [hremaining, List.length_map, List.length_map] at haccepts

end Indentation

namespace Lexer

/-! ## Steps -/

/-- The lexer whose blocks are measured with tabs of one column. -/
def even (lexer : Lexer) : Lexer := { lexer with blocks := lexer.blocks.map Indentation.even }

/-- The same step of a lexer whose blocks are measured with tabs of one column. -/
def Step.even : Step → Step
  | emit tokens next => emit tokens next.even
  | finish tokens => finish tokens
  | fail error => fail error

/-- The blocks of a lexer stay nested. -/
theorem nested_of_emits {tabSize : Nat} {lexer next : Lexer} {tokens : List Token}
    (hnested : Indentation.Nested lexer.blocks) (h : Emits tabSize lexer tokens next) :
    Indentation.Nested next.blocks := by
  cases h with
  | deeper _ compared =>
    cases Indentation.accepts_of_compare compared with
    | deeper further _ => exact hnested.cons further
  | shallower _ _ _ compared =>
    cases Indentation.accepts_of_compare compared with
    | shallower _ _ => exact hnested.suffix (List.dropWhile_suffix _)
  | _ => exact hnested

/-- A line that is accepted is accepted, with the same tokens, if every tab is one column. -/
theorem indentStep_even {tabSize : Nat} {lexer : Lexer}
    (hnested : Indentation.Nested lexer.blocks)
    (h : ∀ error, lexer.indentStep tabSize ≠ .fail error) :
    lexer.even.indentStep 1 = (lexer.indentStep tabSize).even := by
  unfold indentStep at h ⊢
  simp only [even, Indentation.measure_one tabSize] at h ⊢
  split
  · rfl
  · next hrest =>
    simp only [hrest] at h
    split
    · rfl
    · next hcontent =>
      simp only [if_neg hcontent] at h
      cases hcompare : Indentation.compare _ lexer.blocks with
      | error fault =>
        simp only [hcompare] at h
        cases fault <;> exact absurd rfl (h _)
      | ok change =>
        rw [Indentation.compare_even hnested hcompare]
        cases change <;> rfl

theorem endStep_even (lexer : Lexer) (position : Position) :
    lexer.even.endStep position = (lexer.endStep position).even := by
  unfold endStep
  simp only [even, List.length_map]
  cases lexer.brackets <;> rfl

theorem joinStep_even (lexer : Lexer) (here : Cursor) :
    lexer.even.joinStep here = (lexer.joinStep here).even := by
  unfold joinStep
  cases here.next.eatLineBreak? with
  | some cursor => rfl
  | none =>
    dsimp only
    cases here.next.atEnd <;> rfl

theorem lexemeStep_even (lexer : Lexer) (here : Cursor) (c : Char) :
    lexer.even.lexemeStep here c = (lexer.lexemeStep here c).even := by
  unfold lexemeStep
  cases Lexeme.munch here with
  | error fault => rfl
  | ok lexeme =>
    dsimp only [even]
    cases Bracket.update c here.position lexer.brackets <;> rfl

/-- Inside a line only the number of open blocks matters. -/
theorem contentStep_even (lexer : Lexer) : lexer.even.contentStep = lexer.contentStep.even := by
  have hcursor : lexer.even.cursor = lexer.cursor := rfl
  unfold contentStep
  dsimp only
  rw [hcursor]
  split
  · exact endStep_even lexer _
  · next c _ _ =>
    by_cases hjoin : c = '\\'
    · rw [if_pos hjoin, if_pos hjoin]
      exact joinStep_even lexer _
    rw [if_neg hjoin, if_neg hjoin]
    by_cases hbreak : isLineBreak c = true
    · rw [if_pos hbreak, if_pos hbreak]
      rfl
    rw [if_neg hbreak, if_neg hbreak]
    by_cases hcomment : c = '#'
    · rw [if_pos hcomment, if_pos hcomment]
      rfl
    rw [if_neg hcomment, if_neg hcomment]
    exact lexemeStep_even lexer _ c

theorem step_even {tabSize : Nat} {lexer : Lexer} (hnested : Indentation.Nested lexer.blocks)
    (h : ∀ error, lexer.step tabSize ≠ .fail error) :
    lexer.even.step 1 = (lexer.step tabSize).even := by
  have hmeasures : lexer.even.measures = lexer.measures := rfl
  rw [step_eq, step_eq, hmeasures]
  rw [step_eq] at h
  split
  · next hmeasured =>
    simp only [if_pos hmeasured] at h
    exact indentStep_even hnested h
  · exact contentStep_even lexer

/-- As long as a lexer does not fail, it gives the same tokens if every tab is one column. -/
theorem run_even {tabSize fuel : Nat} {lexer : Lexer} (hnested : Indentation.Nested lexer.blocks)
    (h : (lexer.run tabSize fuel).error = none) :
    lexer.even.run 1 fuel = lexer.run tabSize fuel := by
  induction fuel generalizing lexer with
  | zero => rfl
  | succ fuel ih =>
    unfold run at h ⊢
    cases hstep : lexer.step tabSize with
    | fail error =>
      rw [hstep] at h
      cases h
    | finish tokens =>
      have hanew : lexer.even.step 1 = (lexer.step tabSize).even :=
        step_even hnested (by simp [hstep])
      rw [hanew, hstep]
      rfl
    | emit tokens next =>
      rw [hstep] at h
      have hanew : lexer.even.step 1 = (lexer.step tabSize).even :=
        step_even hnested (by simp [hstep])
      rw [hanew, hstep]
      have hrest := ih (nested_of_emits hnested (emits_of_step hstep)) h
      simp only [Step.even, hrest]

end Lexer

namespace TabSize

/-- **Accepted layout does not depend on the tab size.** A snippet that is read without an error
has the same tokens, indents and dedents and places included, if every tab is one column. -/
theorem accepted_layout_ignores_tab_size (source : String)
    (h : (TokenStream.ofText source).error = none) :
    TokenStream.withTabs 1 source = TokenStream.ofText source := by
  have hnested : Indentation.Nested (Lexer.ofText source).blocks :=
    List.pairwise_singleton _ Indentation.zero
  exact Lexer.run_even hnested h

/-- Blocks indented by a tab, by a tab with spaces and by two tabs, and then two of them closed at
once. -/
theorem mixed_blocks_ignore_tab_size :
    (TokenStream.ofText "if a:\n\tif b:\n\t  if c:\n\t  \td\n\te\n").error = none ∧
    TokenStream.withTabs 1 "if a:\n\tif b:\n\t  if c:\n\t  \td\n\te\n" =
      TokenStream.ofText "if a:\n\tif b:\n\t  if c:\n\t  \td\n\te\n" := by
  have haccepted :
      (TokenStream.ofText "if a:\n\tif b:\n\t  if c:\n\t  \td\n\te\n").error = none := by decide
  exact ⟨haccepted, accepted_layout_ignores_tab_size _ haccepted⟩

end TabSize

end SnippetLint
