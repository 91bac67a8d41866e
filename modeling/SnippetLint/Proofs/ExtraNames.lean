import SnippetLint.Proofs.Aggregation
import SnippetLint.Proofs.Agreement
import SnippetLint.Proofs.KnownNames

/-!
More names to be taken as known only remove name errors. A scan that knows more names at its start
finds the same at every token, but for the names in question (`findingOf_of_more`), and ordering
and thinning keep to that. Main statement: `more_names_only_remove`.
-/

namespace SnippetLint.ExtraNames

/-- Whether a report says that one of these names is not defined. -/
def isAbout (names : List String) (d : Diagnostic) : Bool :=
  d.kind == .nameError &&
    names.any fun name => d.message == "NameError: name '" ++ name ++ "' is not defined"

theorem isAbout_undefinedName {names : List String} {token : Token} :
    isAbout names (Scan.undefinedName token) = true ↔ token.lexeme ∈ names := by
  have hmessage : (Scan.undefinedName token).message =
      "NameError: name '" ++ token.lexeme ++ "' is not defined" := rfl
  have hkind : (Scan.undefinedName token).kind = .nameError := rfl
  simp only [isAbout, hkind, hmessage, beq_self_eq_true, Bool.true_and, List.any_eq_true,
    beq_iff_eq]
  constructor
  · rintro ⟨name, hname, heq⟩
    have hsame : token.lexeme = name :=
      String.append_right_inj _ |>.1 (String.append_left_inj _ |>.1 heq)
    exact hsame ▸ hname
  · intro hname
    exact ⟨_, hname, rfl⟩

section Scan

variable {width : Nat} {rule : BindingRule} {known larger : NameSet} {more : List String}

/-- Where more names are known, the same is found at a token, but for those names. -/
theorem findingOf_of_more (hmore : ∀ name, name ∈ larger ↔ name ∈ known ∨ name ∈ more)
    (tokens : List Token) (i : Nat) (token : Token) :
    Findings.findingOf width rule larger tokens i token =
      (Findings.findingOf width rule known tokens i token).filter (!isAbout more ·) := by
  unfold Findings.findingOf
  split
  · by_cases hreported :
        token.lexeme ∉ known ∧ ∀ j ≤ i, ¬ Findings.BindsAt rule tokens token.lexeme j
    · rw [if_pos hreported]
      by_cases hname : token.lexeme ∈ more
      · have hlarger : token.lexeme ∈ larger := (hmore _).2 (.inr hname)
        rw [if_neg (fun h => h.1 hlarger), Option.filter_some_neg]
        simpa using isAbout_undefinedName.2 hname
      · have hlarger : token.lexeme ∉ larger := by
          rw [hmore]
          exact not_or.2 ⟨hreported.1, hname⟩
        rw [if_pos ⟨hlarger, hreported.2⟩, Option.filter_some_pos]
        rw [Bool.not_eq_true', Bool.eq_false_iff]
        exact fun habout => hname (isAbout_undefinedName.1 habout)
    · rw [if_neg hreported, if_neg, Option.filter_none]
      exact fun h => hreported ⟨fun hknown => h.1 ((hmore _).2 (.inl hknown)), h.2⟩
  · split <;> rfl
  · rfl

/-- The reports of a whole scan that knows more names. -/
theorem source_of_more (width : Nat) (rule : BindingRule)
    (hmore : ∀ name, name ∈ larger ↔ name ∈ known ∨ name ∈ more)
    (source : String) :
    (Scan.source width rule larger source).diagnostics =
      (Scan.source width rule known source).diagnostics.filter (!isAbout more ·) := by
  have herror : ∀ error, (!isAbout more (Scan.tokenError error)) = true := fun _ => rfl
  have hfindings : ∀ tokens i, Findings.findingAt width rule larger tokens i =
      (Findings.findingAt width rule known tokens i).filter (!isAbout more ·) := by
    intro tokens i
    unfold Findings.findingAt
    cases tokens[i]? with
    | none => rfl
    | some token => exact findingOf_of_more hmore tokens i token
  rw [Findings.source_diagnostics, Findings.source_diagnostics, List.filter_append,
    List.filter_filterMap]
  congr 1
  · exact congrArg (List.filterMap · _) (funext (hfindings _))
  · cases (TokenStream.ofText source).error with
    | none => rfl
    | some error => simp [herror error]

end Scan

section Settings

variable {first second : Settings}

/-- The names known under settings that take more names as known. -/
theorem mem_knownNames_of_more (hmore : first.extraBuiltins ⊆ second.extraBuiltins) (t : Tree)
    (name : String) :
    name ∈ Analysis.knownNames second t ↔
      name ∈ Analysis.knownNames first t ∨ name ∈ second.extraBuiltins := by
  rw [KnownNames.mem_knownNames_iff, KnownNames.mem_knownNames_iff, KnownNames.Seeded,
    KnownNames.Seeded]
  constructor
  · rintro ((hseed | hextra) | hbound)
    · exact .inl (.inl (.inl hseed))
    · exact .inr hextra
    · exact .inl (.inr hbound)
  · rintro (((hseed | hextra) | hbound) | hextra)
    · exact .inl (.inl hseed)
    · exact .inl (.inr (hmore hextra))
    · exact .inr hbound
    · exact .inl (.inr hextra)

theorem not_isAbout_ofParseError (names : List String) (error : ParseError) :
    isAbout names (Analysis.ofParseError error) = false := by
  unfold isAbout
  rcases Agreement.kind_ofParseError error with hkind | hkind <;> rw [hkind] <;> rfl

/-- **More known names only remove name errors.** Where settings differ only in the names to be
taken as known, and the second settings have all of the first, keeping everything reports what the
first settings report without the name errors about names of the second. Keeping one report for each
line flags no line that the first settings do not flag. -/
theorem more_names_only_remove (first second : Settings) (source : String)
    (hwidth : second.indentWidth = first.indentWidth) (hpolicy : second.policy = first.policy)
    (hmore : first.extraBuiltins ⊆ second.extraBuiltins) :
    (first.policy = .keepAll → Analysis.diagnostics second source =
      (Analysis.diagnostics first source).filter (!isAbout second.extraBuiltins ·)) ∧
    (first.policy = .firstPerLine → ∀ d ∈ Analysis.diagnostics second source,
      ∃ e ∈ Analysis.diagnostics first source, e.line = d.line) := by
  cases hparse : Module.parse source with
  | error error =>
    rw [Reports.diagnostics_of_error hparse, Reports.diagnostics_of_error hparse]
    refine ⟨fun _ => ?_, fun _ d hd => ⟨d, hd, rfl⟩⟩
    simp [not_isAbout_ofParseError]
  | ok t =>
    have hscan := source_of_more first.indentWidth .window (mem_knownNames_of_more hmore t) source
    rw [Reports.diagnostics_of_ok hparse, Reports.diagnostics_of_ok hparse, hwidth, hpolicy, hscan]
    constructor
    · intro hkeep
      rw [hkeep]
      exact Aggregation.filter_sorted _ _
    · intro hthin d hd
      rw [hthin] at hd ⊢
      have hmem := Reports.mem_of_mem_aggregate hd
      refine Aggregation.exists_mem_firstPerLine (List.mem_mergeSort.2 ?_)
      exact (List.mem_filter.1 hmem).1

/-- Two unknown names on a line: once `x` is known, what is said is what was said before without the
reports about `x`, and the line of what is kept was flagged before. -/
theorem second_name_of_line_remains :
    ([] : List String) ⊆ ["x"] ∧
    (Analysis.diagnostics ⟨4, ["x"], .keepAll⟩ "x + y\n" =
      (Analysis.diagnostics ⟨4, [], .keepAll⟩ "x + y\n").filter (!isAbout ["x"] ·)) ∧
    ∀ d ∈ Analysis.diagnostics ⟨4, ["x"], .firstPerLine⟩ "x + y\n",
      ∃ e ∈ Analysis.diagnostics ⟨4, [], .firstPerLine⟩ "x + y\n", e.line = d.line := by
  have hmore : ([] : List String) ⊆ ["x"] := List.nil_subset _
  refine ⟨hmore, ?_, ?_⟩
  · exact (more_names_only_remove ⟨4, [], .keepAll⟩ ⟨4, ["x"], .keepAll⟩ "x + y\n" rfl rfl hmore).1
      rfl
  · exact (more_names_only_remove ⟨4, [], .firstPerLine⟩ ⟨4, ["x"], .firstPerLine⟩ "x + y\n" rfl rfl
      hmore).2 rfl

end Settings

end SnippetLint.ExtraNames
