import SnippetLint.CommandLine
import SnippetLint.Proofs.Places

/-!
Where the excerpt of a diagnostic starts. A place is turned back into a number of characters by
lines that end in line feeds only, while the lexer lets a carriage return end a line as well. The
two agree as long as every carriage return before the place has a line feed after it, and a place
that is followed by text is found just then: `charOffset_eq` and `charOffset_ne`. Main statement:
`excerpts_start_at_their_places`.
-/

namespace SnippetLint.Excerpts
open SnippetLint.Places SnippetLint.Text

/-- The number of carriage returns that no line feed follows. -/
def loneReturns : List Char → Nat
  | [] => 0
  | '\r' :: '\n' :: cs => loneReturns cs
  | c :: cs => if c = '\r' then loneReturns cs + 1 else loneReturns cs

/-! ## Lines -/

/-- A text that consists of whole lines. -/
def IsWhole (cs : List Char) : Prop := cs = [] ∨ cs.getLast? = some '\n'

/-- The length of the first line. -/
def firstWidth (cs : List Char) : Nat := ((linesOf cs).head?.map List.length).getD 0

theorem linesOf_cons_feed (cs : List Char) : linesOf ('\n' :: cs) = ['\n'] :: linesOf cs := by
  rw [linesOf, if_pos rfl]

theorem linesOf_cons {c : Char} (hc : c ≠ '\n') (cs : List Char) :
    linesOf (c :: cs) = (c :: (linesOf cs).head?.getD []) :: (linesOf cs).tail := by
  rw [linesOf, if_neg hc]
  cases linesOf cs <;> rfl

theorem flatten_linesOf (cs : List Char) : (linesOf cs).flatten = cs := by
  induction cs with
  | nil => rfl
  | cons c cs ih =>
    by_cases hc : c = '\n'
    · rw [hc, linesOf_cons_feed, List.flatten_cons, ih, List.singleton_append]
    · rw [linesOf_cons hc]
      cases hlines : linesOf cs with
      | nil =>
        rw [hlines] at ih
        rw [← ih]
        rfl
      | cons line lines =>
        rw [hlines] at ih
        rw [← ih]
        rfl

theorem IsWhole.tail {c : Char} {cs : List Char} (h : IsWhole (c :: cs)) : IsWhole cs := by
  cases cs with
  | nil => exact .inl rfl
  | cons d cs => exact .inr (h.resolve_left (List.cons_ne_nil _ _))

theorem IsWhole.ne_nil {c : Char} {cs : List Char} (h : IsWhole (c :: cs)) (hc : c ≠ '\n') :
    cs ≠ [] := by
  rintro rfl
  exact hc (Option.some.inj (h.resolve_left (List.cons_ne_nil _ _)))

theorem linesOf_ne_nil {cs : List Char} (h : cs ≠ []) : linesOf cs ≠ [] := by
  intro hnil
  have hflatten := flatten_linesOf cs
  rw [hnil] at hflatten
  exact h hflatten.symm

/-- What follows whole lines has lines of its own. -/
theorem linesOf_append {front : List Char} (h : IsWhole front) (rest : List Char) :
    linesOf (front ++ rest) = linesOf front ++ linesOf rest := by
  induction front with
  | nil => rfl
  | cons c front ih =>
    rw [List.cons_append]
    by_cases hc : c = '\n'
    · rw [hc, linesOf_cons_feed, linesOf_cons_feed, ih h.tail, List.cons_append]
    · obtain ⟨line, lines, hlines⟩ := List.exists_cons_of_ne_nil (linesOf_ne_nil (h.ne_nil hc))
      rw [linesOf_cons hc, linesOf_cons hc, ih h.tail, hlines]
      rfl

theorem length_linesOf {front : List Char} (h : IsWhole front) :
    (linesOf front).length = front.count '\n' := by
  induction front with
  | nil => rfl
  | cons c front ih =>
    by_cases hc : c = '\n'
    · rw [hc, linesOf_cons_feed, List.length_cons, ih h.tail, List.count_cons_self]
    · have hpos := List.length_pos_iff.2 (linesOf_ne_nil (h.ne_nil hc))
      rw [linesOf_cons hc, List.count_cons_of_ne hc, ← ih h.tail, List.length_cons,
        List.length_tail]
      omega

theorem firstWidth_append {part : List Char} (h : '\n' ∉ part) (rest : List Char) :
    firstWidth (part ++ rest) = part.length + firstWidth rest := by
  induction part with
  | nil => rw [List.nil_append, List.length_nil, Nat.zero_add]
  | cons c part ih =>
    obtain ⟨hc, hpart⟩ : '\n' ≠ c ∧ '\n' ∉ part := by simpa using h
    have hfirst := ih hpart
    unfold firstWidth at hfirst ⊢
    rw [List.cons_append, linesOf_cons (Ne.symm hc), List.length_cons]
    cases hlines : linesOf (part ++ rest) with
    | nil =>
      rw [hlines] at hfirst
      simp at hfirst ⊢
      omega
    | cons line lines =>
      rw [hlines] at hfirst
      simp at hfirst ⊢
      omega

theorem firstWidth_pos {rest : List Char} (h : rest ≠ []) : 0 < firstWidth rest := by
  obtain ⟨c, rest, rfl⟩ := List.exists_cons_of_ne_nil h
  unfold firstWidth
  by_cases hc : c = '\n'
  · rw [hc, linesOf_cons_feed]
    exact Nat.one_pos
  · rw [linesOf_cons hc]
    exact Nat.succ_pos _

/-- A text is whole lines and the beginning of one more. -/
theorem exists_lastLine (cs : List Char) :
    ∃ front part, cs = front ++ part ∧ IsWhole front ∧ '\n' ∉ part := by
  induction cs with
  | nil => exact ⟨[], [], rfl, .inl rfl, List.not_mem_nil⟩
  | cons c cs ih =>
    obtain ⟨front, part, rfl, hfront, hpart⟩ := ih
    by_cases hc : c = '\n' ∨ front ≠ []
    · refine ⟨c :: front, part, rfl, .inr ?_, hpart⟩
      rcases hfront with rfl | hlast
      · rw [hc.resolve_right (· rfl)]
        rfl
      · rw [List.getLast?_cons, hlast, Option.getD_some]
    · push Not at hc
      obtain ⟨hfeed, rfl⟩ := hc
      exact ⟨[], c :: part, rfl, .inl rfl, by simp [hpart, Ne.symm hfeed]⟩

/-! ## Lines and carriage returns -/

theorem breaks_eq (cs : List Char) : breaks cs = cs.count '\n' + loneReturns cs := by
  induction cs using breaks.induct with
  | case1 => rfl
  | case2 cs ih =>
    rw [breaks, loneReturns, ih]
    simp
    omega
  | case3 c cs hpair hc ih =>
    rw [breaks, loneReturns, if_pos hc, ih]
    · rcases hc with rfl | rfl
      · simp
        omega
      · simp
        omega
    all_goals exact hpair
  | case4 c cs hpair hc ih =>
    push Not at hc
    rw [breaks, loneReturns, if_neg (by simp [hc]), ih, List.count_cons_of_ne hc.1, if_neg hc.2]
    all_goals exact hpair

/-- Where no carriage return is alone, a line feed follows each of them. -/
theorem head_of_loneReturns {cs : List Char} (h : loneReturns cs = 0) :
    ∀ before after, cs = before ++ '\r' :: after → after.head? = some '\n' := by
  induction cs using loneReturns.induct with
  | case1 => simp
  | case2 cs ih =>
    intro before after heq
    rw [loneReturns] at h
    match before with
    | [] =>
      cases heq
      rfl
    | [c] => cases heq
    | c :: d :: before =>
      obtain ⟨_, heq⟩ := List.cons.inj heq
      obtain ⟨_, heq⟩ := List.cons.inj heq
      exact ih h before after heq
  | case3 cs hpair ih =>
    rw [loneReturns, if_pos rfl] at h
    · cases h
    · exact hpair
  | case4 c cs hpair hc ih =>
    intro before after heq
    rw [loneReturns, if_neg hc] at h
    · cases before with
      | nil => exact absurd (List.cons.inj heq).1 hc
      | cons d before => exact ih h before after (List.cons.inj heq).2
    · exact hpair

/-- The column of a place is what stands before it in its line. -/
theorem column_eq {front part : List Char} (hfront : IsWhole front) (hpart : '\n' ∉ part)
    (h : loneReturns (front ++ part) = 0) : column (front ++ part) = part.length := by
  have hreturn : '\r' ∉ part := by
    intro hmem
    obtain ⟨before, after, rfl⟩ := List.append_of_mem hmem
    have hhead := head_of_loneReturns h (front ++ before) after (by rw [List.append_assoc])
    exact hpart (List.mem_append_right _ (List.mem_cons_of_mem _ (List.mem_of_head? hhead)))
  have hzero : column front = 0 := by
    rcases hfront with rfl | hlast
    · rfl
    · obtain ⟨before, rfl⟩ := List.getLast?_eq_some_iff.1 hlast
      exact column_concat before '\n'
  rw [column_append, hzero, Nat.zero_add]
  intro c hc
  rw [Lexer.isLineBreak, Bool.or_eq_false_iff, beq_eq_false_iff_ne, beq_eq_false_iff_ne]
  exact ⟨fun heq => hpart (heq ▸ hc), fun heq => hreturn (heq ▸ hc)⟩

/-! ## Places found again -/

section Found

variable {source : String} {before after : List Char}

/-- The offset of a column of the line that follows whole lines. -/
theorem charOffset_whole {front rest : List Char} (htext : source.toList = front ++ rest)
    (hfront : IsWhole front) (column : Nat) :
    charOffset source (1 + front.count '\n') column =
      some (front.length + min column (firstWidth rest)) := by
  have hlength := length_linesOf hfront
  unfold charOffset
  dsimp only
  rw [htext, linesOf_append hfront, Nat.add_sub_cancel_left, ← hlength,
    if_pos (by rw [List.length_append]; exact Nat.le_add_right _ _), List.take_left,
    flatten_linesOf, List.getElem?_append_right (Nat.le_refl _), Nat.sub_self,
    ← List.head?_eq_getElem?]
  rfl

/-- Further lines have larger offsets. -/
theorem le_of_charOffset {front rest : List Char} (htext : source.toList = front ++ rest)
    (hfront : IsWhole front) {lines column offset : Nat} (hlines : front.count '\n' < lines)
    (h : charOffset source (1 + lines) column = some offset) :
    front.length + firstWidth rest ≤ offset := by
  obtain ⟨more, rfl⟩ := Nat.exists_eq_add_of_lt hlines
  have hlength := length_linesOf hfront
  unfold charOffset at h
  dsimp only at h
  split at h
  · rw [htext, linesOf_append hfront, Nat.add_sub_cancel_left, ← hlength, Nat.add_assoc,
      List.take_length_add_append, List.flatten_append, flatten_linesOf, List.length_append] at h
    refine Nat.le_trans (Nat.add_le_add_left ?_ _)
      (Nat.le_trans (Nat.le_add_right _ _) (Nat.le_of_eq (Option.some.inj h)))
    unfold firstWidth
    cases linesOf rest with
    | nil => exact Nat.zero_le _
    | cons line lines =>
      rw [List.take_succ_cons, List.flatten_cons, List.length_append]
      exact Nat.le_add_right _ _
  · cases h

/-- A place with no lone carriage return before it is found again. -/
theorem charOffset_eq (htext : source.toList = before ++ after) (h : loneReturns before = 0) :
    charOffset source (placeAfter before).line (placeAfter before).column =
      some before.length := by
  have hbreaks := breaks_eq before
  obtain ⟨front, part, rfl, hfront, hpart⟩ := exists_lastLine before
  rw [h, Nat.add_zero, List.count_append, List.count_eq_zero.2 hpart, Nat.add_zero] at hbreaks
  rw [List.append_assoc] at htext
  unfold placeAfter
  dsimp only
  rw [hbreaks, column_eq hfront hpart h, charOffset_whole htext hfront, firstWidth_append hpart,
    Nat.min_eq_left (Nat.le_add_right _ _), List.length_append]

/-- A place that text follows is not found after a lone carriage return. -/
theorem charOffset_ne (htext : source.toList = before ++ after) (hafter : after ≠ [])
    (h : loneReturns before ≠ 0) :
    charOffset source (placeAfter before).line (placeAfter before).column ≠
      some before.length := by
  have hbreaks := breaks_eq before
  obtain ⟨front, part, rfl, hfront, hpart⟩ := exists_lastLine before
  rw [List.count_append, List.count_eq_zero.2 hpart, Nat.add_zero] at hbreaks
  rw [List.append_assoc] at htext
  intro hfound
  have hle := le_of_charOffset htext hfront (by omega) hfound
  have hpos := firstWidth_pos hafter
  rw [firstWidth_append hpart, List.length_append] at hle
  omega

theorem charOffset_iff (htext : source.toList = before ++ after) (hafter : after ≠ []) :
    charOffset source (placeAfter before).line (placeAfter before).column =
      some before.length ↔ loneReturns before = 0 :=
  ⟨fun hfound => not_not.1 fun h => charOffset_ne htext hafter h hfound, charOffset_eq htext⟩

/-- Only a place that text follows has an excerpt. -/
theorem placeOf_iff (htext : source.toList = before ++ after) {d : Diagnostic}
    (hline : d.line = (placeAfter before).line) (hcolumn : d.column = (placeAfter before).column) :
    CommandLine.placeOf d source = some before.length ↔
      after ≠ [] ∧ loneReturns before = 0 := by
  have hlength : before.length < source.length ↔ after ≠ [] := by
    rw [← String.length_toList, htext, List.length_append, ← List.length_pos_iff]
    omega
  unfold CommandLine.placeOf
  rw [hline, hcolumn, Option.filter_eq_some_iff, decide_eq_true_iff, hlength]
  constructor
  · rintro ⟨hfound, hafter⟩
    exact ⟨hafter, (charOffset_iff htext hafter).1 hfound⟩
  · rintro ⟨hafter, h⟩
    exact ⟨charOffset_eq htext h, hafter⟩

end Found

/-- **Excerpts start at their places.** The characters before a token are found again by its line
and column if none of them is a lone carriage return, and if text follows, only then. So a
diagnostic of an analysis that stands at a character of the text has its excerpt there exactly if no
lone carriage return comes before it. -/
theorem excerpts_start_at_their_places (settings : Settings) (source : String) :
    (∀ token ∈ (TokenStream.ofText source).tokens, ∃ before,
      takeBytes token.span.start.offset source.toList = some before ∧
      (loneReturns before = 0 →
        charOffset source token.span.start.line token.span.start.column = some before.length) ∧
      (before.length < source.length →
        charOffset source token.span.start.line token.span.start.column = some before.length →
          loneReturns before = 0)) ∧
    ∀ d ∈ Analysis.diagnostics settings source, ∃ before after,
      source.toList = before ++ after ∧ IsCut before after ∧
      d.line = (placeAfter before).line ∧ d.column = (placeAfter before).column ∧
      (CommandLine.placeOf d source = some before.length ↔
        after ≠ [] ∧ loneReturns before = 0) := by
  constructor
  · intro token htoken
    obtain ⟨before, after, htext, _, hstart⟩ := ((exact_of_stream source).1 token htoken).1
    rw [hstart]
    refine ⟨before, htext ▸ takeBytes_append before after, charOffset_eq htext,
      fun hlength => (charOffset_iff htext ?_).1⟩
    rintro rfl
    rw [← String.length_toList, htext, List.append_nil] at hlength
    exact Nat.lt_irrefl _ hlength
  · intro d hd
    obtain ⟨position, ⟨before, after, htext, hcut, rfl⟩, hline, hcolumn⟩ :=
      pointsInto_of_diagnostics hd
    exact ⟨before, after, htext, hcut, hline, hcolumn, placeOf_iff htext hline hcolumn⟩

/-- A name after a line break of two characters. -/
theorem name_after_pair_is_found :
    ∃ token ∈ (TokenStream.ofText "x = 1\r\nprint(y)\n").tokens, token.lexeme = "y" ∧
      loneReturns "x = 1\r\nprint(".toList = 0 ∧
      charOffset "x = 1\r\nprint(y)\n" token.span.start.line token.span.start.column = some 13 := by
  have hname : ∃ token ∈ (TokenStream.ofText "x = 1\r\nprint(y)\n").tokens, token.lexeme = "y" ∧
      takeBytes token.span.start.offset "x = 1\r\nprint(y)\n".toList =
        some "x = 1\r\nprint(".toList := by decide +kernel
  obtain ⟨token, htoken, hlexeme, htake⟩ := hname
  obtain ⟨before, hbefore, hfound, _⟩ :=
    (excerpts_start_at_their_places .standard "x = 1\r\nprint(y)\n").1 token htoken
  rw [htake] at hbefore
  cases hbefore
  exact ⟨token, htoken, hlexeme, by decide, hfound (by decide)⟩

/-- After a carriage return that stands alone, the unknown name in the second line is looked for in
the third one. -/
theorem lone_return_moves_excerpt :
    (∃ token ∈ (TokenStream.ofText "x = 1\rprint(y)\nx = 2 + 3\n").tokens,
      (takeBytes token.span.start.offset "x = 1\rprint(y)\nx = 2 + 3\n".toList).map List.length =
        some 12 ∧
      charOffset "x = 1\rprint(y)\nx = 2 + 3\n" token.span.start.line token.span.start.column =
        some 21) ∧
    ((Scan.source 4 .window .empty "x = 1\rprint(y)\nx = 2 + 3\n").diagnostics.map fun d =>
      (d.line, d.column, CommandLine.placeOf d "x = 1\rprint(y)\nx = 2 + 3\n")) =
        [(2, 6, some 21)] := by
  decide +kernel

end SnippetLint.Excerpts
