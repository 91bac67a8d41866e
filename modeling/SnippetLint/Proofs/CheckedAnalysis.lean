import SnippetLint.Analysis
import SnippetLint.Proofs.Checked
import SnippetLint.Proofs.Discipline
import SnippetLint.Proofs.Termination

/-!
The analysis with checks. The stages of the analysis are put together again, each in the form in
which an operation without a result stops it: lexing cuts text by byte offsets and counts with 32
bits, the parser moves an index over a vector of tokens, the entries of a mapping are read by index
and the scan counts columns with 64 bits. Main statement: `checks_never_fail`.
-/

namespace SnippetLint.Checked
open SnippetLint.Parser SnippetLint.Indexed

/-! ## How many tokens there are -/

theorem gap_ne_nil_of_deeper {tabSize : Nat} {lexer : Lexer}
    (h : (lexer.indentation tabSize).compare lexer.blocks = .ok .deeper) :
    lexer.cursor.rest.takeWhile Indentation.isGap ≠ [] := by
  intro hnil
  have hzero : (lexer.indentation tabSize).width = 0 := by rw [Lexer.indentation, hnil]; rfl
  unfold Indentation.compare at h
  dsimp only at h
  rw [hzero] at h
  repeat' split at h
  all_goals cases h
  omega

/-- A step gives a token for a character that it reads or for a block that it closes. -/
theorem length_tokens_of_emits {tabSize : Nat} {lexer next : Lexer} {tokens : List Token}
    (h : lexer.Emits tabSize tokens next) :
    tokens.length + 2 * next.cursor.rest.length + next.blocks.length ≤
      2 * lexer.cursor.rest.length + lexer.blocks.length := by
  have hhere := Lexer.length_rest_here_le lexer
  -- a token inside the line is one of the characters after the white space
  have single : ∀ {token : Token} {n : Nat}, lexer.here.rest ≠ [] → 0 < n →
      [token].length + 2 * (lexer.here.skip n).rest.length + lexer.blocks.length ≤
        2 * lexer.cursor.rest.length + lexer.blocks.length := by
    intro token n hrest hn
    have := Lexer.length_rest_skip_lt hrest hn
    simp only [List.length_singleton]
    omega
  cases h with
  | blank _ _ =>
    simp only [List.length_nil]
    omega
  | same _ _ =>
    simp only [List.length_nil]
    omega
  | deeper _ compared =>
    have hgap := List.length_pos_iff.2 (gap_ne_nil_of_deeper compared)
    have hshorter : lexer.here.rest.length < lexer.cursor.rest.length := by
      refine Lexer.length_rest_skip_lt (fun hnil => ?_) hgap
      rw [hnil] at hgap
      cases hgap
    simp only [List.length_cons, List.length_nil]
    omega
  | shallower closed remaining _ compared =>
    have hclosed := Indentation.closed_add_remaining compared
    simp only [List.length_replicate]
    omega
  | join rest _ hrest _ =>
    have hshorter : (lexer.here.skip (1 + (Cursor.lineBreak rest).length)).rest.length <
        lexer.here.rest.length := Lexer.length_rest_skip_lt (by simp [hrest]) (by omega)
    simp only [List.length_nil]
    omega
  | lineBreak _ broken =>
    refine single (fun hrest => broken ?_) (List.length_pos_iff.2 broken)
    rw [hrest]
    rfl
  | comment rest _ hrest => exact single (by simp [hrest]) (by simp [hrest, Lexer.isLineBreak])
  | lexeme c rest lexeme _ _ hrest munched _ =>
    exact single (by simp [hrest])
      (List.length_pos_iff.2 (Lexeme.isContent_of_munch munched).chars_ne_nil)

theorem length_tokens_of_lexes {tabSize : Nat} {lexer : Lexer} {stream : TokenStream}
    (h : lexer.Lexes tabSize stream) :
    stream.tokens.length ≤ 2 * lexer.cursor.rest.length + lexer.blocks.length + 2 := by
  induction h with
  | emit emits _ ih =>
    have hstep := length_tokens_of_emits emits
    rw [List.length_append]
    omega
  | finish finishes =>
    rw [finishes.tokens_eq]
    simp only [List.length_append, List.length_replicate, List.length_singleton]
    split <;> simp <;> omega
  | fail _ => simp

/-- A snippet has at most two tokens for a byte, and the two that mark its end. -/
theorem length_tokens_le (source : String) :
    (TokenStream.ofText source).tokens.length ≤ 2 * Text.byteLength source.toList + 2 := by
  have hlength := length_tokens_of_lexes (TokenStream.lexes_withTabs TokenStream.tabSize source)
  have hbytes := length_le_byteLength source.toList
  have hrest : (Lexer.ofText source).cursor.rest = source.toList := rfl
  have hblocks : (Lexer.ofText source).blocks = [] := rfl
  rw [hrest, hblocks, List.length_nil] at hlength
  exact Nat.le_trans hlength (by omega)

/-! ## The parser -/

/-- The tokens of a stream behind each other, closed by an end marker if the lexer gave none. -/
def tape (stream : TokenStream) : Tape :=
  let kept := stream.tokens.filter (!·.kind.isTrivia)
  let (tokens, failure) := match stream.error with
    | some error => (kept ++ [Lexer.mark .endMarker error.position], some (kept.length, error))
    | none => (kept, none)
  let closed :=
    if tokens.getLast?.map Token.kind = some .endMarker then tokens
    else tokens ++ [Lexer.mark .endMarker ((tokens.getLast?.map (·.span.stop)).getD .start)]
  ⟨closed, failure, some (2 ^ 32)⟩

/-- The tree of a stream, from the program of a whole snippet. -/
def tree (stream : TokenStream) : Option (Except ParseError Tree) :=
  let tape := tape stream
  let room := tape.tokens.length
  (program room maxNesting (Module.module room) tape .start).result

/-- An end marker, and no other, closes the tokens of a snippet that can be read to its end. -/
theorem end_marker_cases (source : String) :
    ((TokenStream.ofText source).error = none ∧ ∃ init position,
      (TokenStream.ofText source).tokens = init ++ [Lexer.mark .endMarker position] ∧
        ∀ token ∈ init, token.kind ≠ .endMarker) ∨
    ∃ error, (TokenStream.ofText source).error = some error ∧
      ∀ token ∈ (TokenStream.ofText source).tokens, token.kind ≠ .endMarker := by
  obtain ⟨init, _, hruns, ⟨hnone, -, mark, -, htokens⟩ | ⟨hsome, htokens⟩⟩ :=
    Discipline.runs_ofText source
  · obtain ⟨stop, -, hend⟩ :=
      Coverage.tiles_of_lexes (TokenStream.lexes_withTabs TokenStream.tabSize source)
    obtain ⟨-, front, hfront⟩ := hend hnone
    have hsame := hfront.symm.trans htokens
    obtain ⟨rfl, -⟩ := List.append_inj' hsame rfl
    exact .inl ⟨hnone, front, stop.position, hfront, hruns.kind_ne_endMarker⟩
  · obtain ⟨error, herror⟩ := Option.ne_none_iff_exists'.1 hsome
    exact .inr ⟨error, herror, htokens ▸ hruns.kind_ne_endMarker⟩

/-- The vector with numbers of a size. -/
def sized (v : TokenVector) (size : Nat) (h : 3 * v.front.length < size) : TokenVector :=
  { v with
    capacity := some size
    fits := by simpa using h }

theorem significant_eq {tokens : List Token} (h : ∀ token ∈ tokens, token.kind ≠ .endMarker) :
    tokens.filter (fun token => !token.kind.isTrivia && token.kind != .endMarker) =
      tokens.filter (!·.kind.isTrivia) := by
  refine List.filter_congr fun token htoken => ?_
  rw [bne_iff_ne.2 (h token htoken), Bool.and_true]

/-- The tokens that the parser is given end in their only end marker, also after a lexical error. -/
theorem tape_eq (source : String)
    (h : 3 * (TokenVector.ofStream (.ofText source)).front.length < 2 ^ 32) :
    tape (.ofText source) = (sized (.ofStream (.ofText source)) (2 ^ 32) h).tape := by
  show tape (.ofText source) = Tape.mk
    (Module.significant (.ofText source) ++
      [Lexer.mark .endMarker (Module.endingOf (.ofText source)).position])
    ((Module.endingOf (.ofText source)).fault.map fun fault =>
      ((Module.significant (.ofText source)).length,
        ⟨fault, (Module.endingOf (.ofText source)).position⟩)) (some (2 ^ 32))
  unfold tape Module.significant Module.endingOf
  obtain ⟨hnone, init, position, htokens, hinit⟩ | ⟨error, herror, htokens⟩ :=
    end_marker_cases source
  · have hmark : (Lexer.mark .endMarker position).kind.isTrivia = false := rfl
    simp only [hnone, htokens, List.filter_append, significant_eq hinit]
    simp [Lexer.mark, TokenKind.isTrivia, Span.point]
  · simp only [herror, significant_eq htokens]
    simp [Lexer.mark]

/-- The program of a small snippet ends in the result of the parser. -/
theorem tree_eq {source : String} (hsize : Text.byteLength source.toList < 2 ^ 29) :
    tree (.ofText source) = some (Module.parse source) := by
  have hlength := length_tokens_le source
  have hfront : 3 * (TokenVector.ofStream (.ofText source)).front.length < 2 ^ 32 := by
    have hfilter : (Module.significant (.ofText source)).length ≤
        (TokenStream.ofText source).tokens.length := List.length_filter_le _ _
    show 3 * (Module.significant (.ofText source)).length < 2 ^ 32
    omega
  have hstart : Fits ((sized (.ofStream (.ofText source)) (2 ^ 32) hfront).last + 1) maxNesting
      (sized (.ofStream (.ofText source)) (2 ^ 32) hfront) .start :=
    ⟨Nat.zero_le _, by omega, Nat.le_add_left _ _⟩
  unfold tree
  dsimp only
  rw [tape_eq source hfront, TokenVector.length_tokens, (mirrors hstart).result_eq]
  have hstate : (sized (.ofStream (.ofText source)) (2 ^ 32) hfront).state .start =
      Module.initial (.ofText source) := TokenVector.state_start (.ofText source)
  rw [hstate]
  exact congrArg some (Termination.result_module (.ofText source))

/-! ## The scan -/

/-- A number of 64 bits with a sign. -/
def long (n : Int) : Option Int := if -2 ^ 63 ≤ n ∧ n < 2 ^ 63 then some n else none

theorem long_eq {n : Int} (h : n.natAbs < 2 ^ 63) : long n = some n := by
  unfold long
  rw [if_pos (by omega)]

/-- Scans tokens after `previous`, when blocks should be indented by `expected` columns. -/
def scanTokens (width : Nat) (rule : BindingRule) (names : NameSet) (expected : Int)
    (previous : Option Token) : List Token → Option Scan
  | [] => some ⟨[], names⟩
  | token :: rest =>
    match token.kind with
    | .indent => do
      let expected ← long (expected + width)
      let scan ← scanTokens width rule names expected (some token) rest
      if (token.lexeme.length : Int) = expected then return scan
      else return scan.report (Scan.unexpectedIndent width token expected)
    | .dedent => do
      scanTokens width rule names (← long (expected - width)) (some token) rest
    | .name => do
      if names.contains token.lexeme then
        scanTokens width rule names expected (some token) rest
      else if rule previous rest.head? then
        scanTokens width rule (names.insert token.lexeme) expected (some token) rest
      else
        let scan ← scanTokens width rule names expected (some token) rest
        return scan.report (Scan.undefinedName token)
    | _ => scanTokens width rule names expected (some token) rest

/-- Scans a stream. -/
def scanStream (width : Nat) (rule : BindingRule) (names : NameSet) (stream : TokenStream) :
    Option Scan := do
  let scan ← scanTokens width rule names 0 none stream.tokens
  return { scan with
    diagnostics := scan.diagnostics ++ stream.error.toList.map Scan.tokenError }

/-- A token moves the expected column by one step at most. -/
theorem scanTokens_eq {width : Nat} {rule : BindingRule} {tokens : List Token} :
    ∀ {names : NameSet} {expected : Int} {previous : Option Token},
      expected.natAbs + tokens.length * width < 2 ^ 63 →
      scanTokens width rule names expected previous tokens =
        some (Scan.tokens width rule names expected previous tokens) := by
  induction tokens with
  | nil => intros; rfl
  | cons token rest ih =>
    intro names expected previous h
    rw [List.length_cons, Nat.succ_mul] at h
    have hrest : ∀ (names : NameSet) (next : Int), next.natAbs ≤ expected.natAbs + width →
        scanTokens width rule names next (some token) rest =
          some (Scan.tokens width rule names next (some token) rest) :=
      fun names next hnext => ih (by omega)
    unfold scanTokens Scan.tokens
    cases token.kind with
    | indent =>
      dsimp only
      rw [long_eq (by omega)]
      simp only [Option.bind_eq_bind, Option.bind_some, hrest _ (expected + width) (by omega)]
      split <;> rfl
    | dedent =>
      dsimp only
      rw [long_eq (by omega), Option.bind_eq_bind, Option.bind_some, hrest _ _ (by omega)]
    | name =>
      dsimp only
      rw [hrest _ _ (by omega), hrest _ _ (by omega)]
      split
      · rfl
      split <;> rfl
    | _ => exact hrest _ _ (by omega)

/-! ## Entries of a mapping -/

/-- Checks the entries of a mapping pattern from an index on. -/
def entriesFrom (entries : List Tree) (index : Nat) : Option (Except ParseError Unit) :=
  if index < entries.length then do
    match ← entries[index]? with
    | .node .dictUnpack span children =>
      if index + 1 = entries.length && Pattern.startsWithName children &&
          !children.head?.any Pattern.isWildcard then
        entriesFrom entries (index + 1)
      else return Pattern.invalid span.start
    | _ => entriesFrom entries (index + 2)
  else some (.ok ())
termination_by entries.length - index

/-- An entry that spreads nothing is a key, which is skipped together with its value. -/
theorem checkEntries_key {kind : NodeKind} (h : kind ≠ .dictUnpack) (span : Span)
    (children rest : List Tree) :
    Pattern.checkEntries (.node kind span children :: rest) =
      Pattern.checkEntries (rest.drop 1) := by
  cases rest with
  | nil => cases kind <;> first | rfl | exact absurd rfl h
  | cons value rest => cases kind <;> first | rfl | exact absurd rfl h

theorem entriesFrom_eq (entries : List Tree) (index : Nat) :
    entriesFrom entries index = some (Pattern.checkEntries (entries.drop index)) := by
  induction hleft : entries.length - index using Nat.strong_induction_on generalizing index with
  | _ left ih =>
    unfold entriesFrom
    split
    · next hlt =>
      rw [List.drop_eq_getElem_cons hlt, List.getElem?_eq_getElem hlt]
      simp only [Option.bind_eq_bind, Option.bind_some]
      split
      · next span children hentry =>
        rw [hentry, Pattern.checkEntries]
        have hlast : (entries.drop (index + 1)).isEmpty = decide (index + 1 = entries.length) := by
          rw [Bool.eq_iff_iff, List.isEmpty_iff, List.drop_eq_nil_iff, decide_eq_true_eq]
          omega
        rw [hlast]
        split
        · next hsound =>
          have hend : index + 1 = entries.length := by
            simp only [Bool.and_eq_true, decide_eq_true_eq] at hsound
            exact hsound.1.1
          rw [ih (entries.length - (index + 1)) (by omega) _ rfl,
            List.drop_of_length_le (Nat.le_of_eq hend.symm)]
          rfl
        · rfl
      · next hentry =>
        rw [ih (entries.length - (index + 2)) (by omega) _ rfl]
        obtain ⟨kind, span, children, heq⟩ : ∃ kind span children,
            entries[index] = .node kind span children := by
          cases entries[index]
          exact ⟨_, _, _, rfl⟩
        have hkind : kind ≠ .dictUnpack := by
          rintro rfl
          exact hentry span children heq
        rw [heq, checkEntries_key hkind, List.drop_drop]
    · next hge => rw [List.drop_of_length_le (Nat.not_lt.1 hge)]; rfl

/-! ## The analysis -/

/-- The analysis of a snippet, which is lexed once for its tree and once for the scan. -/
def diagnostics (settings : Settings) (source : String) : Option (List Diagnostic) := do
  match ← tree (← stream source) with
  | .error error => return [Analysis.ofParseError error]
  | .ok t =>
    let scan ← scanStream settings.indentWidth .window (Analysis.knownNames settings t)
      (← stream source)
    return Diagnostic.aggregate settings.policy scan.diagnostics

/-- No operation of the analysis of a source of fewer than 2²⁹ bytes is without a result, whatever
the settings: every cut of the text, every index of a token or of an entry and every count is within
its range, and the diagnostics are those of the analysis. -/
theorem checks_never_fail (settings : Settings) (source : String)
    (hwidth : settings.indentWidth < 2 ^ 32) (hsize : Text.byteLength source.toList < 2 ^ 29) :
    diagnostics settings source = some (Analysis.diagnostics settings source) ∧
      ∀ entries : List Tree, entriesFrom entries 0 = some (Pattern.checkEntries entries) := by
  refine ⟨?_, fun entries => entriesFrom_eq entries 0⟩
  have hlength := length_tokens_le source
  have hcolumns : (TokenStream.ofText source).tokens.length * settings.indentWidth < 2 ^ 63 := by
    calc (TokenStream.ofText source).tokens.length * settings.indentWidth
        ≤ 2 ^ 30 * 2 ^ 32 := Nat.mul_le_mul (by omega) (by omega)
      _ < 2 ^ 63 := by decide
  have hscan : ∀ names : NameSet,
      scanStream settings.indentWidth .window names (.ofText source) =
        some (Scan.source settings.indentWidth .window names source) := by
    intro names
    rw [scanStream, scanTokens_eq (by simpa using hcolumns)]
    rfl
  unfold diagnostics Analysis.diagnostics Analysis.tree
  rw [stream_eq hsize]
  simp only [Option.bind_eq_bind, Option.bind_some, tree_eq hsize]
  cases Module.parse source with
  | error error => rfl
  | ok t =>
    simp only [hscan, Option.bind_some]
    rfl

/-- A block behind a tab, under the standard settings. -/
theorem tabbed_block_is_checked :
    Settings.standard.indentWidth < 2 ^ 32 ∧
      Text.byteLength "if x:\n\ty = 1\n".toList < 2 ^ 29 ∧
      diagnostics .standard "if x:\n\ty = 1\n" =
        some (Analysis.diagnostics .standard "if x:\n\ty = 1\n") := by
  have hwidth : Settings.standard.indentWidth < 2 ^ 32 := by decide
  have hsize : Text.byteLength "if x:\n\ty = 1\n".toList < 2 ^ 29 := by decide
  exact ⟨hwidth, hsize, (checks_never_fail _ _ hwidth hsize).1⟩

end SnippetLint.Checked
