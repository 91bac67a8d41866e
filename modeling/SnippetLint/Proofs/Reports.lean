import SnippetLint.Analysis
import SnippetLint.Proofs.Findings

/-!
Where the reports of an analysis come from. Ordering and thinning add nothing, and what a scan
reports is an undefined name, a wrong indentation or the lexical error. Main statement:
`mem_diagnostics`.
-/

namespace SnippetLint.Reports

/-! ## Ordering and thinning -/

theorem mem_of_mem_otherLines {d : Diagnostic} {line : Nat} {ds : List Diagnostic}
    (h : d ∈ Diagnostic.otherLines line ds) : d ∈ ds := by
  induction ds generalizing line with
  | nil => exact h
  | cons first rest ih =>
    unfold Diagnostic.otherLines at h
    split at h
    · exact List.mem_cons_of_mem _ (ih h)
    · rcases List.mem_cons.1 h with rfl | h
      · exact List.mem_cons_self
      · exact List.mem_cons_of_mem _ (ih h)

theorem mem_of_mem_firstPerLine {d : Diagnostic} {ds : List Diagnostic}
    (h : d ∈ Diagnostic.firstPerLine ds) : d ∈ ds := by
  cases ds with
  | nil => exact h
  | cons first rest =>
    rcases List.mem_cons.1 h with rfl | h
    · exact List.mem_cons_self
    · exact List.mem_cons_of_mem _ (mem_of_mem_otherLines h)

/-- No policy adds a diagnostic. -/
theorem mem_of_mem_aggregate {d : Diagnostic} {policy : LinePolicy} {ds : List Diagnostic}
    (h : d ∈ Diagnostic.aggregate policy ds) : d ∈ ds := by
  cases policy with
  | keepAll => exact List.mem_mergeSort.1 h
  | firstPerLine => exact List.mem_mergeSort.1 (mem_of_mem_firstPerLine h)

/-! ## What a scan can report -/

/-- The three ways to come to a report. -/
inductive Reported (width : Nat) (known : NameSet) (stream : TokenStream) : Diagnostic → Prop
  | undefinedName {token : Token} (unknown : token.lexeme ∉ known) :
      Reported width known stream (Scan.undefinedName token)
  | unexpectedIndent (token : Token) (expected : Int) :
      Reported width known stream (Scan.unexpectedIndent width token expected)
  | tokenError {error : LexicalError} (fails : stream.error = some error) :
      Reported width known stream (Scan.tokenError error)

theorem reported_of_findingOf {width : Nat} {rule : BindingRule} {known : NameSet}
    {stream : TokenStream} {i : Nat} {token : Token} {d : Diagnostic}
    (h : Findings.findingOf width rule known stream.tokens i token = some d) :
    Reported width known stream d := by
  unfold Findings.findingOf at h
  split at h
  · split at h
    · next hname => cases h; exact .undefinedName hname.1
    · cases h
  · split at h
    · cases h; exact .unexpectedIndent token _
    · cases h
  · cases h

theorem reported_of_mem_source {width : Nat} {rule : BindingRule} {known : NameSet}
    {source : String} {d : Diagnostic}
    (h : d ∈ (Scan.source width rule known source).diagnostics) :
    Reported width known (.ofText source) d := by
  rw [Findings.source_diagnostics, List.mem_append] at h
  rcases h with h | h
  · obtain ⟨i, _, hfinding⟩ := List.mem_filterMap.1 h
    obtain ⟨token, _, hof⟩ := Option.bind_eq_some_iff.1 hfinding
    exact reported_of_findingOf hof
  · obtain ⟨error, herror, rfl⟩ := Option.map_eq_some_iff.1 (Option.mem_toList.1 h)
    exact .tokenError herror

/-! ## The two outcomes of an analysis -/

theorem diagnostics_of_error {settings : Settings} {source : String} {error : ParseError}
    (h : Module.parse source = .error error) :
    Analysis.diagnostics settings source = [Analysis.ofParseError error] := by
  have htree : Analysis.tree source = .error (Analysis.ofParseError error) := by
    unfold Analysis.tree
    rw [h]
    rfl
  unfold Analysis.diagnostics
  rw [htree]

theorem diagnostics_of_ok {settings : Settings} {source : String} {t : Tree}
    (h : Module.parse source = .ok t) :
    Analysis.diagnostics settings source =
      Diagnostic.aggregate settings.policy (Scan.source settings.indentWidth .window
        (Analysis.knownNames settings t) source).diagnostics := by
  have htree : Analysis.tree source = .ok t := by
    unfold Analysis.tree
    rw [h]
    rfl
  unfold Analysis.diagnostics
  rw [htree]

/-- What is said of a snippet with a tree was reported by the scan of its tokens. -/
theorem mem_diagnostics {settings : Settings} {source : String} {t : Tree} {d : Diagnostic}
    (h : Module.parse source = .ok t) (hd : d ∈ Analysis.diagnostics settings source) :
    Reported settings.indentWidth (Analysis.knownNames settings t) (.ofText source) d := by
  rw [diagnostics_of_ok h] at hd
  exact reported_of_mem_source (mem_of_mem_aggregate hd)

end SnippetLint.Reports
