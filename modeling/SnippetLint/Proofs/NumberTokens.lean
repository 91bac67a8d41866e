import SnippetLint.Proofs.FormulaLexing
import SnippetLint.Proofs.Numerals
import SnippetLint.Proofs.Places

/-!
Texts that are one number. What the token of a number shows is a numeral, since the reader of
numbers takes nothing else; and a numeral is the text of a formula, which is read back. Main
statement: `numeral_is_one_number`.
-/

namespace SnippetLint.Numerals
open Number

variable {cs : List Char}

/-- The literal that a numeral is. -/
def literal (h : Numeral cs) : NumberLiteral where
  chars := cs
  starts_eq := starts_of_numeral h
  munch_eq := by
    have hmunch : munch (cs ++ []) = .ok cs := munch_append h rfl
    rwa [List.append_nil] at hmunch

theorem numeral_of_lexeme {start : Cursor} {lexeme : Lexeme} (h : Lexeme.munch start = .ok lexeme)
    (hkind : lexeme.kind = .number) : Numeral lexeme.chars := by
  cases Lexeme.accepted h with
  | string kind_eq => cases kind_eq.symm.trans hkind
  | operator _ kind_eq => cases kind_eq.symm.trans hkind
  | number _ starts number_eq => exact numeral_of_munch starts number_eq
  | word kind_eq =>
    rcases Word.kind_cases lexeme.chars with hword | ⟨_, hword⟩
    · cases hkind.symm.trans (kind_eq.trans hword)
    · cases hkind.symm.trans (kind_eq.trans hword)

/-- A number token shows a numeral. -/
theorem numeral_of_lexes {tabSize : Nat} {lexer : Lexer} {stream : TokenStream}
    (h : lexer.Lexes tabSize stream) {token : Token} (htoken : token ∈ stream.tokens)
    (hkind : token.kind = .number) : Numeral token.lexeme.toList := by
  obtain ⟨start, lexeme, munched, hsame, hshown⟩ :=
    Places.exists_lexeme h htoken (by rw [hkind]; rfl) (by rw [hkind]; rfl)
  rw [hshown]
  exact numeral_of_lexeme munched (hsame.symm.trans hkind)

/-- A text is read as one number and the end of its line if and only if it is a numeral. -/
theorem numeral_is_one_number (w : String) :
    ((TokenStream.ofText w).error = none ∧
      (TokenStream.ofText w).tokens.map Token.toLexeme =
        [⟨.number, w.toList⟩, ⟨.newline, []⟩, ⟨.endMarker, []⟩]) ↔ Numeral w.toList := by
  constructor
  · rintro ⟨-, htokens⟩
    obtain ⟨token, htoken, heq⟩ : ∃ token ∈ (TokenStream.ofText w).tokens,
        token.toLexeme = ⟨.number, w.toList⟩ := by
      rw [← List.mem_map, htokens]
      exact List.mem_cons_self
    have hnumeral := numeral_of_lexes (TokenStream.lexes_withTabs TokenStream.tabSize w) htoken
      (congrArg Lexeme.kind heq)
    rwa [show token.lexeme.toList = w.toList from congrArg Lexeme.chars heq] at hnumeral
  · intro h
    have hlexed := lexed_ofText (.number (literal h))
    have htext : (Formula.number (literal h)).text = w := by
      show String.ofList ([' '].intercalate [w.toList]) = w
      simp
    rw [htext] at hlexed
    generalize TokenStream.ofText w = stream at *
    generalize hls : (Formula.number (literal h)).lexemes 0 = ls at hlexed
    cases hlexed with
    | whole tokens_eq =>
      subst hls
      exact ⟨rfl, tokens_eq⟩
    | cut =>
      -- a number opens no bracket
      rw [Formula.lexemes_of_le (Nat.zero_le _)] at hls
      have hnone : Lexeme.leftParen ∉ (Formula.number (literal h)).bare := by
        simp [Formula.bare, NumberLiteral.lexeme, Lexeme.leftParen]
      rw [hls] at hnone
      simp at hnone

end SnippetLint.Numerals
