import SnippetLint.Proofs.Blocks
import SnippetLint.Scan

/-!
What a scan reports, said of the whole token stream at once. A name is reported where it is neither
known before nor bound at one of its occurrences up to there, an indent where its text is not as
long as the open blocks ask for, and a lexical error at the end. Main statement:
`source_reports_exactly`; it rests on `tokens_eq_findings`, an induction along the tokens whose
invariant is `Reached`.
-/

namespace SnippetLint.Findings

open Blocks

instance (name : String) (names : NameSet) : Decidable (name ∈ names) :=
  inferInstanceAs (Decidable (name ∈ names.toList))

/-- The token before an index. -/
def tokenBefore (tokens : List Token) : Nat → Option Token
  | 0 => none
  | j + 1 => tokens[j]?

/-- Whether the token at an index is this name, at a place where the rule takes it as bound. -/
def BindsAt (rule : BindingRule) (tokens : List Token) (name : String) (j : Nat) : Prop :=
  tokens[j]?.any (fun token => token.kind == .name && token.lexeme == name) = true ∧
    rule (tokenBefore tokens j) tokens[j + 1]? = true

instance (rule : BindingRule) (tokens : List Token) (name : String) (j : Nat) :
    Decidable (BindsAt rule tokens name j) :=
  inferInstanceAs (Decidable (_ ∧ _))

/-- What a block's indentation should be after the token at an index. -/
def expectedWidth (width : Nat) (tokens : List Token) (i : Nat) : Int :=
  width * openBlocks (tokens.take (i + 1))

/-- What is to be reported at a token, which has this index. -/
def findingOf (width : Nat) (rule : BindingRule) (known : NameSet) (tokens : List Token) (i : Nat)
    (token : Token) : Option Diagnostic :=
  match token.kind with
  | .name =>
    if token.lexeme ∉ known ∧ ∀ j ≤ i, ¬ BindsAt rule tokens token.lexeme j then
      some (Scan.undefinedName token)
    else none
  | .indent =>
    if (token.lexeme.length : Int) ≠ expectedWidth width tokens i then
      some (Scan.unexpectedIndent width token (expectedWidth width tokens i))
    else none
  | _ => none

/-- What is to be reported at an index. -/
def findingAt (width : Nat) (rule : BindingRule) (known : NameSet) (tokens : List Token) (i : Nat) :
    Option Diagnostic :=
  tokens[i]?.bind (findingOf width rule known tokens i)

/-! ## Along the tokens -/

variable {width : Nat} {rule : BindingRule} {known names : NameSet} {all rest : List Token}
  {token : Token} {i : Nat} {expected : Int} {previous : Option Token}

theorem bindsAt_iff (h : all[i]? = some token) {name : String} :
    BindsAt rule all name i ↔ token.kind = .name ∧ token.lexeme = name ∧
      rule (tokenBefore all i) all[i + 1]? = true := by
  simp [BindsAt, h, and_assoc]

/-- What a scan holds when it has read the tokens before an index: the names known before and those
bound on the way, the width for the open blocks, and the token before. -/
structure Reached (width : Nat) (rule : BindingRule) (known : NameSet) (all : List Token) (i : Nat)
    (names : NameSet) (expected : Int) (previous : Option Token) : Prop where
  mem_names : ∀ name, name ∈ names ↔ name ∈ known ∨ ∃ j < i, BindsAt rule all name j
  expected_eq : expected = width * openBlocks (all.take i)
  previous_eq : previous = tokenBefore all i

theorem reached_zero (width : Nat) (rule : BindingRule) (known : NameSet) (all : List Token) :
    Reached width rule known all 0 known 0 none :=
  ⟨by simp, by simp, rfl⟩

theorem openBlocks_take_succ (h : all[i]? = some token) :
    openBlocks (all.take (i + 1)) = openBlocks (all.take i) + openBlocks [token] := by
  rw [List.take_add_one, h, openBlocks_append]
  rfl

/-- One token more. The names grow exactly when the token is bound there. -/
theorem Reached.succ {grown : NameSet}
    (h : Reached width rule known all i names expected previous) (htoken : all[i]? = some token)
    (hgrown : ∀ name, name ∈ grown ↔ name ∈ names ∨ BindsAt rule all name i) :
    Reached width rule known all (i + 1) grown (expected + width * openBlocks [token])
      (some token) := by
  refine ⟨fun name => ?_, ?_, htoken.symm⟩
  · rw [hgrown, h.mem_names, or_assoc]
    apply or_congr_right
    constructor
    · rintro (⟨j, hj, hb⟩ | hb)
      · exact ⟨j, by omega, hb⟩
      · exact ⟨i, by omega, hb⟩
    · rintro ⟨j, hj, hb⟩
      rcases Nat.lt_succ_iff_lt_or_eq.1 hj with hj | rfl
      · exact Or.inl ⟨j, hj, hb⟩
      · exact Or.inr hb
  · rw [openBlocks_take_succ htoken, h.expected_eq, Int.mul_add]

/-- A token that is bound nowhere new leaves the names as they are. -/
theorem Reached.succ_same (h : Reached width rule known all i names expected previous)
    (htoken : all[i]? = some token) (hold : ∀ name, BindsAt rule all name i → name ∈ names) :
    Reached width rule known all (i + 1) names (expected + width * openBlocks [token])
      (some token) :=
  h.succ htoken fun name => ⟨Or.inl, fun hname => hname.elim id (hold name)⟩

theorem not_bindsAt (htoken : all[i]? = some token) (hkind : token.kind ≠ .name) {name : String} :
    ¬ BindsAt rule all name i := fun hb => hkind ((bindsAt_iff htoken).1 hb).1

/-- A name is to be reported where the scan does not know it and does not see it bound. -/
theorem findingOf_name (h : Reached width rule known all i names expected previous)
    (htoken : all[i]? = some token) (hkind : token.kind = .name) :
    findingOf width rule known all i token =
      if token.lexeme ∈ names ∨ rule previous all[i + 1]? = true then none
      else some (Scan.undefinedName token) := by
  have hiff : (token.lexeme ∉ known ∧ ∀ j ≤ i, ¬ BindsAt rule all token.lexeme j) ↔
      ¬ (token.lexeme ∈ names ∨ rule previous all[i + 1]? = true) := by
    have hhere : BindsAt rule all token.lexeme i ↔ rule previous all[i + 1]? = true := by
      simp [bindsAt_iff htoken, hkind, h.previous_eq]
    rw [h.mem_names, not_or, not_or, ← hhere, and_assoc]
    apply and_congr_right
    intro _
    constructor
    · intro hnone
      exact ⟨fun ⟨j, hj, hb⟩ => hnone j (by omega) hb, hnone i (Nat.le_refl i)⟩
    · rintro ⟨hbefore, hnow⟩ j hj hb
      rcases Nat.lt_or_eq_of_le hj with hj | rfl
      · exact hbefore ⟨j, hj, hb⟩
      · exact hnow hb
  simp only [findingOf, hkind, hiff, ite_not]

theorem findingOf_indent (h : Reached width rule known all i names expected previous)
    (htoken : all[i]? = some token) (hkind : token.kind = .indent) :
    findingOf width rule known all i token =
      if (token.lexeme.length : Int) = expected + width then none
      else some (Scan.unexpectedIndent width token (expected + width)) := by
  have hwidth : expectedWidth width all i = expected + width := by
    rw [expectedWidth, openBlocks_take_succ htoken, openBlocks_indent hkind, h.expected_eq,
      Int.mul_add, Int.mul_one]
  simp only [findingOf, hkind, hwidth, ne_eq, ite_not]

theorem findingOf_other (hname : token.kind ≠ .name) (hindent : token.kind ≠ .indent) :
    findingOf width rule known all i token = none := by
  unfold findingOf
  split
  · next hkind => exact absurd hkind hname
  · next hkind => exact absurd hkind hindent
  · rfl

/-- What one more token adds to the findings. -/
theorem findings_cons (htoken : all[i]? = some token) (n : Nat) :
    (List.range' i (n + 1)).filterMap (findingAt width rule known all) =
      (findingOf width rule known all i token).toList ++
        (List.range' (i + 1) n).filterMap (findingAt width rule known all) := by
  have hfirst : findingAt width rule known all i = findingOf width rule known all i token := by
    rw [findingAt, htoken, Option.bind_some]
  rw [List.range'_succ, List.filterMap_cons, hfirst]
  cases findingOf width rule known all i token <;> rfl

/-- The scan of what is left of a stream says what is to be said of it, and knows in the end what
is bound in the whole of it. -/
theorem tokens_eq_findings (h : Reached width rule known all i names expected previous)
    (hrest : all.drop i = rest) :
    (Scan.tokens width rule names expected previous rest).diagnostics =
      (List.range' i rest.length).filterMap (findingAt width rule known all) ∧
    ∀ name, name ∈ (Scan.tokens width rule names expected previous rest).names ↔
      name ∈ known ∨ ∃ j < i + rest.length, BindsAt rule all name j := by
  induction rest generalizing i names expected previous with
  | nil => exact ⟨rfl, h.mem_names⟩
  | cons token rest ih =>
    have htoken : all[i]? = some token := by
      rw [← List.head?_drop, hrest, List.head?_cons]
    have hdrop : all.drop (i + 1) = rest := by
      rw [← List.tail_drop, hrest, List.tail_cons]
    have hnext : rest.head? = all[i + 1]? := by rw [← hdrop, List.head?_drop]
    have hlength : i + (token :: rest).length = i + 1 + rest.length := by
      rw [List.length_cons]
      omega
    rw [hlength, List.length_cons, findings_cons htoken]
    unfold Scan.tokens
    split
    · next hkind =>
      have hr := h.succ_same htoken fun name hb => absurd hb (not_bindsAt htoken (by simp [hkind]))
      rw [openBlocks_indent hkind, Int.mul_one] at hr
      obtain ⟨hd, hn⟩ := ih hr hdrop
      rw [findingOf_indent h htoken hkind]
      dsimp only
      split
      · exact ⟨hd, hn⟩
      · exact ⟨congrArg (_ :: ·) hd, hn⟩
    · next hkind =>
      have hr := h.succ_same htoken fun name hb => absurd hb (not_bindsAt htoken (by simp [hkind]))
      rw [openBlocks_dedent hkind, Int.mul_neg, Int.mul_one, ← Int.sub_eq_add_neg] at hr
      rw [findingOf_other (by simp [hkind]) (by simp [hkind])]
      exact ih hr hdrop
    · next hkind =>
      have hzero : openBlocks [token] = 0 := openBlocks_other (by simp [hkind]) (by simp [hkind])
      have hbinds : ∀ name, BindsAt rule all name i ↔
          token.lexeme = name ∧ rule previous all[i + 1]? = true := by
        simp [bindsAt_iff htoken, hkind, h.previous_eq]
      rw [findingOf_name h htoken hkind, hnext]
      split
      · next hin =>
        rw [NameSet.contains_iff] at hin
        have hr := h.succ_same htoken fun name hb => ((hbinds name).1 hb).1 ▸ hin
        rw [hzero, Int.mul_zero, Int.add_zero] at hr
        rw [if_pos (Or.inl hin)]
        exact ih hr hdrop
      · next hin =>
        rw [NameSet.contains_iff] at hin
        split
        · next hrule =>
          have hgrown : ∀ name, name ∈ names.insert token.lexeme ↔
              name ∈ names ∨ BindsAt rule all name i := by
            intro name
            rw [NameSet.mem_insert, hbinds, or_comm, eq_comm, and_iff_left hrule]
          have hr := h.succ htoken hgrown
          rw [hzero, Int.mul_zero, Int.add_zero] at hr
          rw [if_pos (Or.inr hrule)]
          exact ih hr hdrop
        · next hrule =>
          have hr := h.succ_same htoken fun name hb => absurd ((hbinds name).1 hb).2 hrule
          rw [hzero, Int.mul_zero, Int.add_zero] at hr
          rw [if_neg (not_or.2 ⟨hin, hrule⟩)]
          obtain ⟨hd, hn⟩ := ih hr hdrop
          exact ⟨congrArg (_ :: ·) hd, hn⟩
    · next hindent hdedent hname =>
      have hr := h.succ_same htoken fun name hb => absurd hb (not_bindsAt htoken hname)
      rw [openBlocks_other hindent hdedent, Int.mul_zero, Int.add_zero] at hr
      rw [findingOf_other hname hindent]
      exact ih hr hdrop

/-! ## Whole snippets -/

/-- What a diagnostic is, where it stands and what it says. -/
structure Says (d : Diagnostic) (kind : DiagnosticKind) (line column : Nat) (message : String) :
    Prop where
  kind_eq : d.kind = kind
  line_eq : d.line = line
  column_eq : d.column = column
  message_eq : d.message = message

theorem says_undefinedName (token : Token) :
    Says (Scan.undefinedName token) .nameError token.span.start.line token.span.start.column
      ("NameError: name '" ++ token.lexeme ++ "' is not defined") :=
  ⟨rfl, rfl, rfl, rfl⟩

theorem says_unexpectedIndent (width : Nat) (token : Token) (expected : Int) :
    Says (Scan.unexpectedIndent width token expected) .indentationError token.span.start.line
      token.span.start.column
      s!"IndentationError: unexpected indent (expected {expected} spaces)" :=
  ⟨rfl, rfl, rfl, rfl⟩

theorem says_tokenError (error : LexicalError) :
    Says (Scan.tokenError error) .tokenError error.position.line 0
      ("TokenError: " ++ error.fault.message) :=
  ⟨rfl, rfl, rfl, rfl⟩

theorem lt_length_of_bindsAt {name : String} {j : Nat} (h : BindsAt rule all name j) :
    j < all.length := by
  obtain ⟨token, htoken, _⟩ := Option.any_eq_true _ _ |>.1 h.1
  exact (List.getElem?_eq_some_iff.1 htoken).1

theorem expectedWidth_nonneg (width : Nat) (source : String) (i : Nat) :
    0 ≤ expectedWidth width (TokenStream.ofText source).tokens i :=
  Int.mul_nonneg (Int.natCast_nonneg width) (openBlocks_take_nonneg source (i + 1))

/-- The reports of a whole snippet are its findings and its lexical error. -/
theorem source_diagnostics (width : Nat) (rule : BindingRule) (known : NameSet) (source : String) :
    (Scan.source width rule known source).diagnostics =
      (List.range (TokenStream.ofText source).tokens.length).filterMap
        (findingAt width rule known (TokenStream.ofText source).tokens) ++
      ((TokenStream.ofText source).error.map Scan.tokenError).toList := by
  have hstart := reached_zero width rule known (TokenStream.ofText source).tokens
  obtain ⟨hdiagnostics, _⟩ := tokens_eq_findings hstart List.drop_zero
  rw [List.range_eq_range', ← hdiagnostics, Option.toList_map]
  rfl

/-- **Scan exactness.** A scan reports, in the order of the tokens, exactly the findings at them,
and then the lexical error if there is one. The widths it names are never negative. Afterwards the
known names are those known before and those with an occurrence that the rule takes as bound. -/
theorem source_reports_exactly (width : Nat) (rule : BindingRule) (known : NameSet)
    (source : String) :
    (Scan.source width rule known source).diagnostics =
      (List.range (TokenStream.ofText source).tokens.length).filterMap
        (findingAt width rule known (TokenStream.ofText source).tokens) ++
      ((TokenStream.ofText source).error.map Scan.tokenError).toList ∧
    (∀ token, Says (Scan.undefinedName token) .nameError
      token.span.start.line token.span.start.column
      ("NameError: name '" ++ token.lexeme ++ "' is not defined")) ∧
    (∀ token expected, Says (Scan.unexpectedIndent width token expected) .indentationError
      token.span.start.line token.span.start.column
      s!"IndentationError: unexpected indent (expected {expected} spaces)") ∧
    (∀ i, 0 ≤ expectedWidth width (TokenStream.ofText source).tokens i) ∧
    (∀ error, Says (Scan.tokenError error) .tokenError error.position.line 0
      ("TokenError: " ++ error.fault.message)) ∧
    ∀ name, name ∈ (Scan.source width rule known source).names ↔
      name ∈ known ∨ ∃ j, BindsAt rule (TokenStream.ofText source).tokens name j := by
  refine ⟨source_diagnostics width rule known source, says_undefinedName,
    says_unexpectedIndent width, expectedWidth_nonneg width source, says_tokenError,
    fun name => ?_⟩
  have hstart := reached_zero width rule known (TokenStream.ofText source).tokens
  obtain ⟨_, hnames⟩ := tokens_eq_findings hstart List.drop_zero
  refine Iff.trans (hnames name) (or_congr_right ⟨?_, ?_⟩)
  · rintro ⟨j, _, hb⟩
    exact ⟨j, hb⟩
  · rintro ⟨j, hb⟩
    exact ⟨j, by simpa using lt_length_of_bindsAt hb, hb⟩

end SnippetLint.Findings
