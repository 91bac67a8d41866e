import SnippetLint.Proofs.Aggregation
import SnippetLint.Proofs.Places

/-!
A scan reports in order. Places in a text are ordered by line and column just as they are by offset
(`earlier_of_offset_lt`), tokens do not overlap, and whatever is reported is a token with text; so
each report of a scan that meets no lexical error stands after the one before it. Main statement:
`scans_report_in_order`.
-/

namespace SnippetLint.ReportOrder
open SnippetLint.Places

/-- Whether a line and column stand before another line and column. -/
def Earlier (line column line' column' : Nat) : Prop :=
  line < line' ∨ line = line' ∧ column < column'

/-- Whether a diagnostic stands strictly before another one. -/
def Precedes (a b : Diagnostic) : Prop := Earlier a.line a.column b.line b.column

/-! ## Places -/

theorem breaks_pos {c : Char} {cs : List Char} (hmem : c ∈ cs) (hc : Lexer.isLineBreak c = true) :
    0 < breaks cs := by
  induction cs using breaks.induct with
  | case1 => cases hmem
  | case2 cs _ => simp [breaks]
  | case3 d cs hpair hd _ =>
    rw [breaks, if_pos hd]
    · omega
    · exact hpair
  | case4 d cs hpair hd ih =>
    rw [breaks, if_neg hd]
    · rcases List.mem_cons.1 hmem with rfl | hmem
      · exact absurd (by simpa [Lexer.isLineBreak] using hc) hd
      · exact ih hmem
    · exact hpair

/-- More text means a later line, or a later column. -/
theorem earlier_placeAfter {before text : List Char} (hcut : IsCut before text) (hne : text ≠ []) :
    Earlier (placeAfter before).line (placeAfter before).column
      (placeAfter (before ++ text)).line (placeAfter (before ++ text)).column := by
  have hbreaks := breaks_append hcut
  by_cases hplain : ∀ c ∈ text, Lexer.isLineBreak c = false
  · have hlength := List.length_pos_iff.2 hne
    have hcolumn := column_append before hplain
    have hle : breaks before ≤ breaks (before ++ text) := by omega
    rcases Nat.lt_or_eq_of_le hle with hlt | heq
    · exact .inl (Nat.add_lt_add_left hlt 1)
    · refine .inr ⟨congrArg (1 + ·) heq, ?_⟩
      show column before < column (before ++ text)
      omega
  · push Not at hplain
    obtain ⟨c, hmem, hc⟩ := hplain
    have hpos := breaks_pos hmem (by simpa using hc)
    refine .inl ?_
    show 1 + breaks before < 1 + breaks (before ++ text)
    omega

/-- Exact places are ordered by line and column as they are by offset. -/
theorem earlier_of_offset_lt {text : List Char} {p q : Position} (hp : Exact text p)
    (hq : Exact text q) (hlt : p.offset < q.offset) : Earlier p.line p.column q.line q.column := by
  obtain ⟨before, after, htext, hcut, rfl⟩ := hp
  obtain ⟨before', after', htext', _, rfl⟩ := hq
  have hlt : Text.byteLength before < Text.byteLength before' := hlt
  rcases List.prefix_or_prefix_of_prefix ⟨after, htext.symm⟩ ⟨after', htext'.symm⟩ with
    ⟨middle, rfl⟩ | ⟨middle, rfl⟩
  · have hne : middle ≠ [] := by
      rintro rfl
      rw [List.append_nil] at hlt
      exact Nat.lt_irrefl _ hlt
    refine earlier_placeAfter ?_ hne
    rw [htext, List.append_assoc, List.append_cancel_left_eq] at htext'
    rw [htext'] at hcut
    rintro ⟨hreturn, hfeed⟩
    exact hcut ⟨hreturn, by rw [List.head?_append, hfeed, Option.some_or]⟩
  · rw [Text.byteLength_append] at hlt
    omega

/-! ## Tokens -/

/-- A token ends before the tokens after it start. -/
theorem pairwise_of_covers {offset : Nat} {text : List Char} {tokens : List Token}
    (h : Coverage.Covers offset text tokens) :
    (∀ token ∈ tokens, offset ≤ token.span.start.offset) ∧
      tokens.Pairwise fun a b =>
        a.span.start.offset + Text.byteLength a.lexeme.toList ≤ b.span.start.offset := by
  induction h with
  | nil => exact ⟨List.forall_mem_nil _, .nil⟩
  | cons _ starts stops _ ih =>
    obtain ⟨hlater, hpairwise⟩ := ih
    refine ⟨List.forall_mem_cons.2 ⟨starts ▸ Nat.le_add_right _ _, fun token htoken => ?_⟩,
      .cons (fun token htoken => stops ▸ hlater token htoken) hpairwise⟩
    have hle := hlater token htoken
    omega

/-- Tokens of which a scan may speak. -/
def isScanned (kind : TokenKind) : Bool := kind == .name || kind == .indent

theorem ne_nil_of_deeper {tabSize : Nat} {gap : List Char} {blocks : List Indentation}
    (h : (Indentation.measure tabSize gap).compare blocks = .ok .deeper) : gap ≠ [] := by
  rintro rfl
  unfold Indentation.compare at h
  dsimp only at h
  split at h
  · next hlt => exact Nat.not_lt_zero _ hlt
  · split at h
    · split at h
      · cases h
      · split at h <;> cases h
    · split at h <;> cases h

theorem lexeme_ne_nil_of_emits {tabSize : Nat} {lexer next : Lexer} {tokens : List Token}
    (h : lexer.Emits tabSize tokens next) :
    ∀ token ∈ tokens, isScanned token.kind = true → token.lexeme.toList ≠ [] := by
  cases h with
  | blank _ _ | same _ _ | join _ _ _ _ => exact List.forall_mem_nil _
  | deeper _ compared =>
    refine List.forall_mem_singleton.2 fun _ => ?_
    have hgap := ne_nil_of_deeper compared
    simp only [Lexer.take, String.toList_ofList]
    rwa [← List.prefix_iff_eq_take.1 (List.takeWhile_prefix _)]
  | shallower _ _ _ _ =>
    intro token htoken hkind
    rw [List.eq_of_mem_replicate htoken] at hkind
    cases hkind
  | lineBreak _ _ =>
    refine List.forall_mem_singleton.2 fun hkind => ?_
    revert hkind
    simp only [Lexer.take]
    split <;> exact fun hkind => by cases hkind
  | comment _ _ _ => exact List.forall_mem_singleton.2 fun hkind => by cases hkind
  | lexeme c rest lexeme _ _ hrest munched _ =>
    refine List.forall_mem_singleton.2 fun _ => ?_
    have hlength := List.length_pos_iff.2 (Lexeme.isContent_of_munch munched).chars_ne_nil
    simp only [Lexer.take, String.toList_ofList, hrest]
    rw [ne_eq, List.take_eq_nil_iff]
    simp only [List.cons_ne_nil, or_false]
    omega

/-- Names and indents have text. -/
theorem lexeme_ne_nil_of_lexes {tabSize : Nat} {lexer : Lexer} {stream : TokenStream}
    (h : lexer.Lexes tabSize stream) :
    ∀ token ∈ stream.tokens, isScanned token.kind = true → token.lexeme.toList ≠ [] := by
  induction h with
  | emit emits _ ih => exact List.forall_mem_append.2 ⟨lexeme_ne_nil_of_emits emits, ih⟩
  | finish finishes =>
    intro token htoken hkind
    rw [finishes.tokens_eq, List.mem_append, List.mem_append] at htoken
    rcases htoken with (hnewline | hdedent) | hend
    · split at hnewline
      · rw [List.mem_singleton.1 hnewline] at hkind
        cases hkind
      · cases hnewline
    · rw [List.eq_of_mem_replicate hdedent] at hkind
      cases hkind
    · rw [List.mem_singleton.1 hend] at hkind
      cases hkind
  | fail _ => exact List.forall_mem_nil _

/-- A token of which a scan may speak starts at an earlier place than every token after it. -/
theorem earlier_of_lt {source : String} {i j : Nat} {token other : Token}
    (hi : (TokenStream.ofText source).tokens[i]? = some token)
    (hj : (TokenStream.ofText source).tokens[j]? = some other) (hlt : i < j)
    (hkind : isScanned token.kind = true) :
    Earlier token.span.start.line token.span.start.column
      other.span.start.line other.span.start.column := by
  have hlexes : (Lexer.ofText source).Lexes TokenStream.tabSize (.ofText source) :=
    TokenStream.lexes_withTabs TokenStream.tabSize source
  obtain ⟨stop, htiles, _⟩ := Coverage.tiles_of_lexes hlexes
  obtain ⟨hi', rfl⟩ := List.getElem?_eq_some_iff.1 hi
  obtain ⟨hj', rfl⟩ := List.getElem?_eq_some_iff.1 hj
  have hle := List.pairwise_iff_getElem.1 (pairwise_of_covers (Coverage.covers_of_tiles htiles)).2
    i j hi' hj' hlt
  have hexact := (exact_of_stream source).1
  have htext := lexeme_ne_nil_of_lexes hlexes _ (List.getElem_mem hi') hkind
  have hpos := Nat.pos_of_ne_zero fun hzero => htext (Coverage.eq_nil_of_byteLength hzero)
  exact earlier_of_offset_lt (hexact _ (List.getElem_mem hi')).1
    (hexact _ (List.getElem_mem hj')).1 (Nat.lt_of_lt_of_le (Nat.lt_add_of_pos_right hpos) hle)

/-! ## Reports -/

/-- A finding stands at its token. -/
theorem token_of_findingAt {width : Nat} {rule : BindingRule} {known : NameSet}
    {all : List Token} {i : Nat} {d : Diagnostic}
    (h : Findings.findingAt width rule known all i = some d) :
    ∃ token, all[i]? = some token ∧ isScanned token.kind = true ∧
      d.line = token.span.start.line ∧ d.column = token.span.start.column := by
  obtain ⟨token, htoken, h⟩ := Option.bind_eq_some_iff.1 h
  refine ⟨token, htoken, ?_⟩
  unfold Findings.findingOf at h
  split at h
  · next hkind =>
    split at h <;> cases h
    exact ⟨by rw [hkind]; rfl, rfl, rfl⟩
  · next hkind =>
    split at h <;> cases h
    exact ⟨by rw [hkind]; rfl, rfl, rfl⟩
  · cases h

theorem pairwise_source {source : String} {t : Tree} (h : Module.parse source = .ok t)
    (width : Nat) (rule : BindingRule) (known : NameSet) :
    (Scan.source width rule known source).diagnostics.Pairwise Precedes := by
  -- what has a tree has no lexical error, the only report that is put at column zero
  have herror := Agreement.error_eq_none_of_ofStream h
  rw [Findings.source_diagnostics, herror, Option.map_none, Option.toList_none, List.append_nil]
  refine List.Pairwise.filterMap _ ?_ List.pairwise_lt_range
  intro i j hlt d hd e he
  obtain ⟨token, htoken, hkind, hline, hcolumn⟩ := token_of_findingAt hd
  obtain ⟨other, hother, _, hline', hcolumn'⟩ := token_of_findingAt he
  unfold Precedes
  rw [hline, hcolumn, hline', hcolumn']
  exact earlier_of_lt htoken hother hlt hkind

theorem before_of_precedes {a b : Diagnostic} (h : Precedes a b) : a.before b = true := by
  unfold Precedes Earlier at h
  simp only [Diagnostic.before, Bool.or_eq_true, Bool.and_eq_true, decide_eq_true_eq, beq_iff_eq]
  omega

theorem sorted_eq_self {ds : List Diagnostic} (h : ds.Pairwise Precedes) :
    Diagnostic.sorted ds = ds :=
  Aggregation.sorted_eq_self (h.imp before_of_precedes)

theorem line_le_of_precedes {a b : Diagnostic} (h : Precedes a b) : a.line ≤ b.line := by
  rcases h with hlt | ⟨heq, _⟩ <;> omega

/-- What the scan in the analysis of a snippet with this tree reports. -/
def reports (settings : Settings) (source : String) (t : Tree) : List Diagnostic :=
  (Scan.source settings.indentWidth .window (Analysis.knownNames settings t) source).diagnostics

/-- **A scan reports in order.** Each report of a scan of a snippet that has a tree stands strictly
after the one before it. So an analysis that keeps all reports gives just those of its scan, no two
of them at one place; and one that keeps the first of each line gives a part of them, in the same
order and on strictly increasing lines, in which a report stands exactly if it is the first one of
its line. -/
theorem scans_report_in_order {source : String} {t : Tree} (h : Module.parse source = .ok t)
    (settings : Settings) :
    (∀ width rule known, (Scan.source width rule known source).diagnostics.Pairwise Precedes) ∧
    (settings.policy = .keepAll →
      Analysis.diagnostics settings source = reports settings source t ∧
      ((Analysis.diagnostics settings source).map fun d => (d.line, d.column)).Nodup) ∧
    (settings.policy = .firstPerLine →
      (Analysis.diagnostics settings source).Sublist (reports settings source t) ∧
      (∀ d, d ∈ Analysis.diagnostics settings source ↔
        (reports settings source t).find? (·.line = d.line) = some d) ∧
      (Analysis.diagnostics settings source).Pairwise fun a b => a.line < b.line) := by
  have hordered : (reports settings source t).Pairwise Precedes := pairwise_source h _ _ _
  have hdiagnostics : Analysis.diagnostics settings source =
      Diagnostic.aggregate settings.policy (reports settings source t) :=
    Reports.diagnostics_of_ok h
  rw [hdiagnostics]
  refine ⟨pairwise_source h, fun hpolicy => ?_, fun hpolicy => ?_⟩
  · rw [hpolicy, Diagnostic.aggregate, sorted_eq_self hordered]
    refine ⟨rfl, List.pairwise_map.2 (hordered.imp fun {a b} hab heq => ?_)⟩
    obtain ⟨hline, hcolumn⟩ := Prod.mk.inj heq
    unfold Precedes Earlier at hab
    omega
  · rw [hpolicy, Diagnostic.aggregate, sorted_eq_self hordered]
    have hlines := hordered.imp line_le_of_precedes
    exact ⟨Aggregation.firstPerLine_sublist _, fun d => Aggregation.mem_firstPerLine_iff hlines,
      Aggregation.pairwise_firstPerLine hlines⟩

/-- A block that is not indented as it should be, and two unknown names on its first line: the
report about the block comes first, at a place of its own. -/
theorem block_stands_before_its_names :
    ((Scan.source 4 .window .empty "if 1:\n   a + b\nc\n").diagnostics.map fun d =>
      (d.line, d.column)) = [(2, 0), (2, 3), (2, 7), (3, 0)] ∧
    ∃ t, Module.parse "if 1:\n   a + b\nc\n" = .ok t ∧
      (Scan.source 4 .window .empty "if 1:\n   a + b\nc\n").diagnostics.Pairwise Precedes ∧
      Analysis.diagnostics ⟨4, [], .keepAll⟩ "if 1:\n   a + b\nc\n" =
        reports ⟨4, [], .keepAll⟩ "if 1:\n   a + b\nc\n" t ∧
      (Analysis.diagnostics ⟨4, [], .firstPerLine⟩ "if 1:\n   a + b\nc\n").Pairwise
        fun a b => a.line < b.line := by
  have hplaces : ((Scan.source 4 .window .empty "if 1:\n   a + b\nc\n").diagnostics.map fun d =>
      (d.line, d.column)) = [(2, 0), (2, 3), (2, 7), (3, 0)] := by decide +kernel
  have hparses : (Module.parse "if 1:\n   a + b\nc\n").toBool = true := by decide +kernel
  refine ⟨hplaces, ?_⟩
  cases hparse : Module.parse "if 1:\n   a + b\nc\n" with
  | error error =>
    rw [hparse] at hparses
    cases hparses
  | ok t =>
    obtain ⟨hpairwise, hkeep, _⟩ := scans_report_in_order hparse ⟨4, [], .keepAll⟩
    obtain ⟨_, _, hthin⟩ := scans_report_in_order hparse ⟨4, [], .firstPerLine⟩
    exact ⟨t, rfl, hpairwise _ _ _, (hkeep rfl).1, (hthin rfl).2.2⟩

end SnippetLint.ReportOrder
