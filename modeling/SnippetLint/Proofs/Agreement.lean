import SnippetLint.Proofs.GrammarLaw
import SnippetLint.Proofs.Reports

/-!
Tokens, grammar and analysis agree on failure. A text that cannot be read has no tree, and a lexical
fault comes out of the grammar only where it stands: `honest` is the law of parsers that says so.
Main statement: `stages_agree_on_failure`.
-/

namespace SnippetLint.Agreement
open SnippetLint.Parser

/-- An error speaks of the text only if the text ends in that fault, and then of the place. -/
def Honest (ending : Ending) (error : ParseError) : Prop :=
  ∀ lexical, error.fault = .lexical lexical →
    ending.fault = some lexical ∧ error.position = ending.position

theorem honest_own {ending : Ending} {fault : GrammarFault} (position : Position)
    (hown : fault.IsOwn) : Honest ending ⟨fault, position⟩ := by
  intro lexical hfault
  have hlexical := hown.isLexical_eq
  rw [show fault = .lexical lexical from hfault] at hlexical
  cases hlexical

theorem honest_lexical {ending : Ending} {lexical : LexicalFault}
    (h : ending.fault = some lexical) : Honest ending ⟨.lexical lexical, ending.position⟩ := by
  intro other hother
  cases hother
  exact ⟨h, rfl⟩

/-- Parsers are free in what they do, as long as their errors are honest. -/
def honest : ParserLaw where
  Run _ _ _ := True
  Stop ending _ error _ := Honest ending error
  refl _ _ := trivial
  trans _ _ := trivial
  stop_after _ h := h
  take _ := trivial
  fail position hown _ := honest_own position hown
  fail_lexical _ h := honest_lexical h
  deepen _ _ := trivial
  deepen_stop _ h := h
  capture _ := trivial
  capture_stop h := h

/-! ## Tokens and grammar -/

/-- The last check of the grammar turns down what the text ends in. -/
theorem fault_eq_none_of_module {room : Nat} {ending : Ending} {state next : ParserState} {t : Tree}
    (h : Module.module room ending state = .ok t next) : ending.fault = none := by
  obtain ⟨start, state, _, h⟩ := ParserLaw.bind_eq_ok h
  obtain ⟨statements, state, _, h⟩ := ParserLaw.bind_eq_ok h
  split at h
  · exact absurd h failHere_ne_ok
  · next hfault => simpa using hfault

theorem fault_endingOf (stream : TokenStream) :
    (Module.endingOf stream).fault = stream.error.map LexicalError.fault := by
  unfold Module.endingOf
  split
  · next error herror => rw [herror, Option.map_some]
  · next herror => rw [herror, Option.map_none]

theorem position_endingOf {stream : TokenStream} {error : LexicalError}
    (h : stream.error = some error) : (Module.endingOf stream).position = error.position := by
  unfold Module.endingOf
  rw [h]

/-- What has a tree could be read to its end. -/
theorem error_eq_none_of_ofStream {stream : TokenStream} {t : Tree}
    (h : Module.ofStream stream = .ok t) : stream.error = none := by
  unfold Module.ofStream at h
  dsimp only at h
  split at h
  · next hmodule =>
    have hnone := fault_eq_none_of_module hmodule
    rw [fault_endingOf] at hnone
    simpa using hnone
  · cases h

/-- A lexical fault out of the grammar is the one of the text, at its place. -/
theorem error_of_ofStream_lexical {stream : TokenStream} {lexical : LexicalFault}
    {position : Position} (h : Module.ofStream stream = .error ⟨.lexical lexical, position⟩) :
    stream.error = some ⟨lexical, position⟩ := by
  unfold Module.ofStream at h
  dsimp only at h
  split at h
  · cases h
  · next hmodule =>
    cases h
    obtain ⟨hfault, hposition⟩ := (ParserLaw.follows_module honest _).stop hmodule lexical rfl
    rw [fault_endingOf, Option.map_eq_some_iff] at hfault
    obtain ⟨error, herror, rfl⟩ := hfault
    rw [position_endingOf herror] at hposition
    rw [herror, show position = error.position from hposition]

/-! ## The whole analysis -/

theorem kind_ofParseError (error : ParseError) :
    (Analysis.ofParseError error).kind = .syntaxError ∨
      (Analysis.ofParseError error).kind = .indentationError := by
  unfold Analysis.ofParseError
  by_cases h : error.fault.isIndentation = true
  · rw [if_pos h]
    exact .inr rfl
  · rw [if_neg h]
    exact .inl rfl

/-- Once there is a tree, the scan meets no lexical error. -/
theorem kind_of_mem_diagnostics {settings : Settings} {source : String} {t : Tree} {d : Diagnostic}
    (h : Module.parse source = .ok t) (hd : d ∈ Analysis.diagnostics settings source) :
    d.kind = .nameError ∨ d.kind = .indentationError := by
  cases Reports.mem_diagnostics h hd with
  | undefinedName unknown => exact .inl rfl
  | unexpectedIndent token expected => exact .inr rfl
  | tokenError fails =>
    rw [error_eq_none_of_ofStream h] at fails
    cases fails

/-- **Tokens, grammar and analysis agree on failure.** A text with a lexical error has no tree, a
lexical fault reported by the grammar is that error, and a text with a tree has none. So an analysis
says one thing of a text without a tree, and else speaks of names and indentation only. -/
theorem stages_agree_on_failure (settings : Settings) (source : String) :
    ((TokenStream.ofText source).error ≠ none → ∃ error, Module.parse source = .error error) ∧
    (∀ lexical position, Module.parse source = .error ⟨.lexical lexical, position⟩ →
      (TokenStream.ofText source).error = some ⟨lexical, position⟩) ∧
    (∀ t, Module.parse source = .ok t → (TokenStream.ofText source).error = none) ∧
    ((∃ error d, Module.parse source = .error error ∧
        Analysis.diagnostics settings source = [d] ∧
        (d.kind = .syntaxError ∨ d.kind = .indentationError)) ∨
      ∃ t, Module.parse source = .ok t ∧ ∀ d ∈ Analysis.diagnostics settings source,
        d.kind = .nameError ∨ d.kind = .indentationError) ∧
    ∀ d ∈ Analysis.diagnostics settings source, d.kind ≠ .tokenError := by
  refine ⟨fun hfails => ?_, fun _ _ => error_of_ofStream_lexical,
    fun _ => error_eq_none_of_ofStream, ?_⟩
  · cases hparse : Module.parse source with
    | ok t => exact absurd (error_eq_none_of_ofStream hparse) hfails
    | error error => exact ⟨error, rfl⟩
  · cases hparse : Module.parse source with
    | ok t =>
      refine ⟨.inr ⟨t, rfl, fun d => kind_of_mem_diagnostics hparse⟩, fun d hd => ?_⟩
      rcases kind_of_mem_diagnostics hparse hd with hkind | hkind <;> simp [hkind]
    | error error =>
      have hone : Analysis.diagnostics settings source = [Analysis.ofParseError error] :=
        Reports.diagnostics_of_error hparse
      have hkinds := kind_ofParseError error
      refine ⟨.inl ⟨error, _, rfl, hone, hkinds⟩, fun d hd => ?_⟩
      rw [hone, List.mem_singleton] at hd
      rcases hkinds with hkind | hkind <;> simp [hd, hkind]

end SnippetLint.Agreement
