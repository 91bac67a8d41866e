import SnippetLint.Proofs.Reports

/-!
Ordering and thinning. The order of reports is stable, so leaving some of them out before or after
ordering is the same (`filter_sorted`), and the first report of an ordered list is the earliest of
the smallest ones (`head?_mergeSort_iff`). Thinning keeps a report on every line that has one
(`exists_mem_firstPerLine`), which in an ordered list is the first of its line
(`mem_firstPerLine_iff`). Main statement: `aggregation_sorts_and_selects`.
-/

namespace SnippetLint.Aggregation

/-! ## Stable order -/

section Stable

variable {α : Type} {le : α → α → Bool}

/-- Where the elements that follow `a` come after those that do not, the first of them can be
found again. -/
theorem takeWhile_cut {a : α} {before after : List α} (hbefore : ∀ b ∈ before, le a b = false)
    (hafter : ∀ b ∈ after, le a b = true) :
    (before ++ after).takeWhile (fun b => !le a b) = before := by
  rw [List.takeWhile_append_of_pos fun b hb => by simp [hbefore b hb]]
  cases after with
  | nil => simp
  | cons b after => simp [hafter b List.mem_cons_self]

variable (trans : ∀ a b c, le a b = true → le b c = true → le a c = true)
  (total : ∀ a b, (le a b || le b a) = true)
include trans total

/-- What follows an element in a sorted list does not stand before it. -/
theorem le_of_mergeSort_eq {l before after : List α} {a : α}
    (h : l.mergeSort le = before ++ a :: after) : ∀ b ∈ after, le a b = true := by
  have hsorted := List.pairwise_mergeSort trans total l
  rw [h] at hsorted
  exact (List.pairwise_cons.1 (List.pairwise_append.1 hsorted).2.1).1

/-- Sorting what is kept of a list is keeping it of the sorted list. -/
theorem filter_mergeSort (keep : α → Bool) (l : List α) :
    (l.filter keep).mergeSort le = (l.mergeSort le).filter keep := by
  induction l with
  | nil => simp
  | cons a l ih =>
    -- the new element goes between what is smaller and the rest, in both lists
    obtain ⟨before, after, hsorted, hrest, hbefore⟩ := List.mergeSort_cons trans total a l
    have hafter := le_of_mergeSort_eq trans total hsorted
    rw [hrest, List.filter_append] at ih
    rw [hsorted, List.filter_append]
    cases hkeep : keep a with
    | false => rw [List.filter_cons_of_neg (by simp [hkeep]), ih,
        List.filter_cons_of_neg (by simp [hkeep])]
    | true =>
      obtain ⟨earlier, later, hkept, hparts, hearlier⟩ :=
        List.mergeSort_cons trans total a (l.filter keep)
      have hlater := le_of_mergeSort_eq trans total hkept
      rw [hparts] at ih
      have hearlier := takeWhile_cut (fun b hb => by simpa using hearlier b hb) hlater
      have hbefore : (before.filter keep ++ after.filter keep).takeWhile (fun b => !le a b) =
          before.filter keep :=
        takeWhile_cut (fun b hb => by simpa using hbefore b (List.mem_filter.1 hb).1)
          fun b hb => hafter b (List.mem_filter.1 hb).1
      rw [ih, hbefore] at hearlier
      rw [← hearlier, List.append_cancel_left_eq] at ih
      rw [List.filter_cons_of_pos hkeep, List.filter_cons_of_pos hkeep, hkept, ← hearlier, ih]

/-- First in a sorted list is what follows nothing that stands before it and is followed by all that
stands after it: of the smallest elements the earliest. -/
theorem head?_mergeSort_iff {l : List α} {a : α} :
    (l.mergeSort le).head? = some a ↔ ∃ before after, l = before ++ a :: after ∧
      (∀ b ∈ before, le b a = false) ∧ ∀ b ∈ after, le a b = true := by
  induction l with
  | nil => simp
  | cons b l ih =>
    obtain ⟨front, back, hsorted, hrest, hfront⟩ := List.mergeSort_cons trans total b l
    have hback := le_of_mergeSort_eq trans total hsorted
    have hmem : ∀ c, c ∈ front ++ back ↔ c ∈ l := fun c => by rw [← hrest, List.mem_mergeSort]
    rw [hrest] at ih
    rw [hsorted]
    cases front with
    | nil =>
      constructor
      · intro h
        obtain rfl : b = a := by simpa using h
        exact ⟨[], l, rfl, by simp, fun c hc => hback c ((hmem c).2 hc)⟩
      · rintro ⟨before, after, heq, hbefore, hafter⟩
        cases before with
        | nil =>
          obtain ⟨rfl, -⟩ := List.cons.inj heq
          rfl
        | cons c before =>
          obtain ⟨rfl, rfl⟩ := List.cons.inj heq
          -- the element put in front is not larger than what stood there
          have hle := hback a ((hmem a).2 (by simp))
          rw [hbefore b List.mem_cons_self] at hle
          cases hle
    | cons c front =>
      have hc : le b c = false := by simpa using hfront c List.mem_cons_self
      constructor
      · intro h
        obtain rfl : c = a := by simpa using h
        obtain ⟨before, after, rfl, hbefore, hafter⟩ := ih.1 rfl
        exact ⟨b :: before, after, rfl, List.forall_mem_cons.2 ⟨hc, hbefore⟩, hafter⟩
      · rintro ⟨before, after, heq, hbefore, hafter⟩
        cases before with
        | nil =>
          obtain ⟨rfl, rfl⟩ := List.cons.inj heq
          rw [hafter c ((hmem c).1 List.mem_cons_self)] at hc
          cases hc
        | cons d before =>
          obtain ⟨rfl, rfl⟩ := List.cons.inj heq
          exact ih.2 ⟨before, after, rfl, (List.forall_mem_cons.1 hbefore).2, hafter⟩

end Stable

/-! ## Reports -/

theorem before_trans (a b c : Diagnostic) (hab : a.before b = true) (hbc : b.before c = true) :
    a.before c = true := by
  simp only [Diagnostic.before, Bool.or_eq_true, Bool.and_eq_true, decide_eq_true_eq,
    beq_iff_eq] at *
  omega

theorem before_total (a b : Diagnostic) : (a.before b || b.before a) = true := by
  simp only [Diagnostic.before, Bool.or_eq_true, Bool.and_eq_true, decide_eq_true_eq, beq_iff_eq]
  omega

/-- Reports may be left out before they are put in order. -/
theorem filter_sorted (keep : Diagnostic → Bool) (ds : List Diagnostic) :
    Diagnostic.sorted (ds.filter keep) = (Diagnostic.sorted ds).filter keep :=
  filter_mergeSort before_trans before_total keep ds

theorem exists_mem_otherLines {d : Diagnostic} {line : Nat} {ds : List Diagnostic} (h : d ∈ ds)
    (hline : d.line ≠ line) : ∃ e ∈ Diagnostic.otherLines line ds, e.line = d.line := by
  induction ds generalizing line with
  | nil => cases h
  | cons first rest ih =>
    unfold Diagnostic.otherLines
    rcases List.mem_cons.1 h with rfl | h
    · rw [if_neg hline]
      exact ⟨d, List.mem_cons_self, rfl⟩
    · split
      · exact ih h hline
      · by_cases hfirst : d.line = first.line
        · exact ⟨first, List.mem_cons_self, hfirst.symm⟩
        · obtain ⟨e, he, heq⟩ := ih h hfirst
          exact ⟨e, List.mem_cons_of_mem _ he, heq⟩

/-- Thinning leaves a report on every line that has one. -/
theorem exists_mem_firstPerLine {d : Diagnostic} {ds : List Diagnostic} (h : d ∈ ds) :
    ∃ e ∈ Diagnostic.firstPerLine ds, e.line = d.line := by
  cases ds with
  | nil => cases h
  | cons first rest =>
    unfold Diagnostic.firstPerLine
    rcases List.mem_cons.1 h with rfl | h
    · exact ⟨d, List.mem_cons_self, rfl⟩
    · by_cases hfirst : d.line = first.line
      · exact ⟨first, List.mem_cons_self, hfirst.symm⟩
      · obtain ⟨e, he, heq⟩ := exists_mem_otherLines h hfirst
        exact ⟨e, List.mem_cons_of_mem _ he, heq⟩

/-! ## Thinning an ordered list -/

theorem firstPerLine_sublist (ds : List Diagnostic) : (Diagnostic.firstPerLine ds).Sublist ds := by
  suffices hothers : ∀ (line : Nat) (ds : List Diagnostic),
      (Diagnostic.otherLines line ds).Sublist ds by
    cases ds with
    | nil => exact .slnil
    | cons first rest => exact (hothers first.line rest).cons_cons first
  intro line ds
  induction ds generalizing line with
  | nil => exact .slnil
  | cons first rest ih =>
    unfold Diagnostic.otherLines
    split
    · exact (ih line).cons first
    · exact (ih first.line).cons_cons first

/-- A report that is left is the first one, or the first of a line that comes after. -/
theorem mem_cons_otherLines_iff {d first : Diagnostic} {rest : List Diagnostic}
    (hrest : d ∈ Diagnostic.otherLines first.line rest ↔
      d.line ≠ first.line ∧ rest.find? (·.line = d.line) = some d) :
    d ∈ first :: Diagnostic.otherLines first.line rest ↔
      (first :: rest).find? (·.line = d.line) = some d := by
  rw [List.mem_cons, hrest]
  by_cases hsame : first.line = d.line
  · rw [List.find?_cons_of_pos (by simpa using hsame), Option.some_inj]
    exact ⟨fun h => h.elim Eq.symm fun h => absurd hsame.symm h.1, fun h => .inl h.symm⟩
  · rw [List.find?_cons_of_neg (by simpa using hsame)]
    refine ⟨fun h => h.elim ?_ And.right, fun hfind => .inr ⟨Ne.symm hsame, hfind⟩⟩
    rintro rfl
    exact absurd rfl hsame

theorem mem_otherLines_iff {d : Diagnostic} {line : Nat} {ds : List Diagnostic}
    (hordered : ds.Pairwise fun a b => a.line ≤ b.line) (hline : ∀ e ∈ ds, line ≤ e.line) :
    d ∈ Diagnostic.otherLines line ds ↔
      d.line ≠ line ∧ ds.find? (·.line = d.line) = some d := by
  induction ds generalizing line with
  | nil => simp [Diagnostic.otherLines]
  | cons first rest ih =>
    obtain ⟨hfirst, hrest⟩ := List.pairwise_cons.1 hordered
    obtain ⟨hle, hlater⟩ := List.forall_mem_cons.1 hline
    unfold Diagnostic.otherLines
    split
    · next heq =>
      rw [ih hrest hlater]
      refine and_congr_right fun hne => ?_
      rw [List.find?_cons_of_neg]
      simpa [heq] using Ne.symm hne
    · next hne =>
      rw [mem_cons_otherLines_iff (ih hrest hfirst)]
      refine ⟨fun hfind => ⟨?_, hfind⟩, And.right⟩
      -- no report goes back to the line that is left out
      rcases List.mem_cons.1 (List.mem_of_find?_eq_some hfind) with rfl | hmem
      · exact hne
      · have hlt := hfirst d hmem
        omega

/-- What is left of an ordered list is the first report of each of its lines. -/
theorem mem_firstPerLine_iff {d : Diagnostic} {ds : List Diagnostic}
    (hordered : ds.Pairwise fun a b => a.line ≤ b.line) :
    d ∈ Diagnostic.firstPerLine ds ↔ ds.find? (·.line = d.line) = some d := by
  cases ds with
  | nil => simp [Diagnostic.firstPerLine]
  | cons first rest =>
    obtain ⟨hfirst, hrest⟩ := List.pairwise_cons.1 hordered
    exact mem_cons_otherLines_iff (mem_otherLines_iff hrest hfirst)

/-- No two reports that are left of an ordered list stand on one line. -/
theorem pairwise_firstPerLine {ds : List Diagnostic}
    (hordered : ds.Pairwise fun a b => a.line ≤ b.line) :
    (Diagnostic.firstPerLine ds).Pairwise fun a b => a.line < b.line := by
  suffices hothers : ∀ (line : Nat) {ds : List Diagnostic},
      (ds.Pairwise fun a b => a.line ≤ b.line) → (∀ e ∈ ds, line ≤ e.line) →
        (∀ e ∈ Diagnostic.otherLines line ds, line < e.line) ∧
          (Diagnostic.otherLines line ds).Pairwise fun a b => a.line < b.line by
    cases ds with
    | nil => exact .nil
    | cons first rest =>
      obtain ⟨hfirst, hrest⟩ := List.pairwise_cons.1 hordered
      obtain ⟨hlater, hothers⟩ := hothers first.line hrest hfirst
      exact .cons hlater hothers
  intro line ds hordered hline
  induction ds generalizing line with
  | nil => exact ⟨List.forall_mem_nil _, .nil⟩
  | cons first rest ih =>
    obtain ⟨hfirst, hrest⟩ := List.pairwise_cons.1 hordered
    obtain ⟨hle, hlater⟩ := List.forall_mem_cons.1 hline
    unfold Diagnostic.otherLines
    split
    · exact ih line hrest hlater
    · next hne =>
      obtain ⟨habove, hothers⟩ := ih first.line hrest hfirst
      have hlt : line < first.line := by omega
      refine ⟨List.forall_mem_cons.2 ⟨hlt, fun e he => ?_⟩, .cons habove hothers⟩
      exact Nat.lt_trans hlt (habove e he)

theorem otherLines_eq_self {line : Nat} {ds : List Diagnostic} (hline : ∀ d ∈ ds, line < d.line)
    (h : ds.Pairwise fun a b => a.line < b.line) : Diagnostic.otherLines line ds = ds := by
  induction ds generalizing line with
  | nil => rfl
  | cons first rest ih =>
    obtain ⟨hfirst, hrest⟩ := List.pairwise_cons.1 h
    have hlt := hline first List.mem_cons_self
    rw [Diagnostic.otherLines, if_neg (by omega), ih hfirst hrest]

/-- Where no two reports stand on one line, thinning changes nothing. -/
theorem firstPerLine_eq_self {ds : List Diagnostic} (h : ds.Pairwise fun a b => a.line < b.line) :
    Diagnostic.firstPerLine ds = ds := by
  cases ds with
  | nil => rfl
  | cons first rest =>
    obtain ⟨hfirst, hrest⟩ := List.pairwise_cons.1 h
    rw [Diagnostic.firstPerLine, otherLines_eq_self hfirst hrest]

/-! ## Aggregation -/

/-- Whether a report stands at a place. -/
def standsAt (line column : Nat) (d : Diagnostic) : Bool := d.line == line && d.column == column

/-- How a report comes to stand for its line: none reported before it stands on the line at its
column or further left, and none reported after it further left. -/
def Represents (ds : List Diagnostic) (d : Diagnostic) : Prop :=
  ∃ earlier later, ds = earlier ++ d :: later ∧
    (∀ e ∈ earlier, e.line = d.line → d.column < e.column) ∧
    ∀ e ∈ later, e.line = d.line → d.column ≤ e.column

theorem before_iff {a b : Diagnostic} :
    a.before b = true ↔ a.line < b.line ∨ a.line = b.line ∧ a.column ≤ b.column := by
  simp [Diagnostic.before]

theorem before_of_same_line {a b : Diagnostic} (h : a.line = b.line) :
    a.before b = decide (a.column ≤ b.column) := by
  simp [Diagnostic.before, h]

theorem pairwise_sorted (ds : List Diagnostic) :
    (Diagnostic.sorted ds).Pairwise fun a b =>
      a.line < b.line ∨ a.line = b.line ∧ a.column ≤ b.column :=
  (List.pairwise_mergeSort before_trans before_total ds).imp before_iff.1

theorem lines_sorted (ds : List Diagnostic) :
    (Diagnostic.sorted ds).Pairwise fun a b => a.line ≤ b.line :=
  (pairwise_sorted ds).imp fun h => by omega

theorem sorted_eq_self {ds : List Diagnostic} (h : ds.Pairwise fun a b => a.before b = true) :
    Diagnostic.sorted ds = ds := List.mergeSort_of_pairwise h

theorem sorted_sorted (ds : List Diagnostic) :
    Diagnostic.sorted (Diagnostic.sorted ds) = Diagnostic.sorted ds :=
  sorted_eq_self (List.pairwise_mergeSort before_trans before_total ds)

/-- Reports at one place stay as they were reported. -/
theorem filter_standsAt_sorted (line column : Nat) (ds : List Diagnostic) :
    (Diagnostic.sorted ds).filter (standsAt line column) = ds.filter (standsAt line column) := by
  rw [← filter_sorted]
  refine sorted_eq_self (List.pairwise_of_forall_mem_list fun a ha b hb => ?_)
  have hplace : ∀ d ∈ ds.filter (standsAt line column), d.line = line ∧ d.column = column := by
    simp [standsAt]
  obtain ⟨haline, hacolumn⟩ := hplace a ha
  obtain ⟨hbline, hbcolumn⟩ := hplace b hb
  exact before_iff.2 (by omega)

/-- The reports of a line alone tell which one stands for it. -/
theorem represents_iff_filter {ds : List Diagnostic} {d : Diagnostic} :
    Represents ds d ↔ ∃ before after, ds.filter (·.line = d.line) = before ++ d :: after ∧
      (∀ e ∈ before, e.before d = false) ∧ ∀ e ∈ after, d.before e = true := by
  constructor
  · rintro ⟨earlier, later, rfl, hearlier, hlater⟩
    refine ⟨earlier.filter (·.line = d.line), later.filter (·.line = d.line), by simp, ?_, ?_⟩
    · intro e he
      obtain ⟨hmem, hline⟩ := List.mem_filter.1 he
      rw [before_of_same_line (by simpa using hline), decide_eq_false_iff_not, Nat.not_le]
      exact hearlier e hmem (by simpa using hline)
    · intro e he
      obtain ⟨hmem, hline⟩ := List.mem_filter.1 he
      rw [before_of_same_line (Eq.symm (by simpa using hline)), decide_eq_true_eq]
      exact hlater e hmem (by simpa using hline)
  · rintro ⟨before, after, hfilter, hbefore, hafter⟩
    obtain ⟨front, back, rfl, rfl, hback⟩ := List.filter_eq_append_iff.1 hfilter
    obtain ⟨between, later, rfl, hbetween, -, rfl⟩ := List.filter_eq_cons_iff.1 hback
    refine ⟨front ++ between, later, by simp, ?_, ?_⟩
    · intro e he hline
      rcases List.mem_append.1 he with he | he
      · have hnot := hbefore e (List.mem_filter.2 ⟨he, by simpa using hline⟩)
        rw [before_of_same_line hline, decide_eq_false_iff_not] at hnot
        omega
      · exact absurd (by simpa using hline) (hbetween e he)
    · intro e he hline
      have hbefore := hafter e (List.mem_filter.2 ⟨he, by simpa using hline⟩)
      rwa [before_of_same_line hline.symm, decide_eq_true_eq] at hbefore

theorem mem_firstPerLine_sorted_iff {ds : List Diagnostic} {d : Diagnostic} :
    d ∈ Diagnostic.firstPerLine (Diagnostic.sorted ds) ↔ Represents ds d := by
  rw [mem_firstPerLine_iff (lines_sorted ds), ← List.head?_filter, ← filter_sorted,
    represents_iff_filter]
  exact head?_mergeSort_iff before_trans before_total

/-- **Aggregation sorts and selects.** Keeping everything gives the same reports in the order of
their places, those at one place as they were reported. Keeping one report for each line gives
strictly increasing lines, just those on which something was reported, and for each of them the
earliest report of those in its smallest column. Neither changes what it has given once more, and
thinning gives the same if everything has been put in order before. -/
theorem aggregation_sorts_and_selects (ds : List Diagnostic) :
    ((Diagnostic.aggregate .keepAll ds).Perm ds ∧
      ((Diagnostic.aggregate .keepAll ds).Pairwise fun a b =>
        a.line < b.line ∨ a.line = b.line ∧ a.column ≤ b.column) ∧
      (∀ line column, (Diagnostic.aggregate .keepAll ds).filter (standsAt line column) =
        ds.filter (standsAt line column)) ∧
      Diagnostic.aggregate .keepAll (Diagnostic.aggregate .keepAll ds) =
        Diagnostic.aggregate .keepAll ds) ∧
    ((Diagnostic.aggregate .firstPerLine ds).Pairwise (fun a b => a.line < b.line) ∧
      (∀ line, (∃ d ∈ Diagnostic.aggregate .firstPerLine ds, d.line = line) ↔
        ∃ d ∈ ds, d.line = line) ∧
      (∀ d, d ∈ Diagnostic.aggregate .firstPerLine ds ↔ Represents ds d) ∧
      Diagnostic.aggregate .firstPerLine (Diagnostic.aggregate .firstPerLine ds) =
        Diagnostic.aggregate .firstPerLine ds ∧
      Diagnostic.aggregate .firstPerLine (Diagnostic.aggregate .keepAll ds) =
        Diagnostic.aggregate .firstPerLine ds) := by
  have hlines : (Diagnostic.aggregate .firstPerLine ds).Pairwise fun a b => a.line < b.line :=
    pairwise_firstPerLine (lines_sorted ds)
  refine ⟨⟨List.mergeSort_perm ds _, pairwise_sorted ds,
    fun line column => filter_standsAt_sorted line column ds, sorted_sorted ds⟩,
    hlines, fun line => ⟨?_, ?_⟩, fun d => mem_firstPerLine_sorted_iff, ?_, ?_⟩
  · rintro ⟨d, hd, hline⟩
    exact ⟨d, Reports.mem_of_mem_aggregate hd, hline⟩
  · rintro ⟨d, hd, rfl⟩
    exact exists_mem_firstPerLine (List.mem_mergeSort.2 hd)
  · have hsorted := sorted_eq_self (hlines.imp fun h => before_iff.2 (.inl h))
    show Diagnostic.firstPerLine (Diagnostic.sorted _) = _
    rw [hsorted, firstPerLine_eq_self hlines]
  · show Diagnostic.firstPerLine (Diagnostic.sorted (Diagnostic.sorted ds)) = _
    rw [sorted_sorted]
    rfl

end SnippetLint.Aggregation
