import SnippetLint.Proofs.Lexing

/-!
Blocks of a token stream. Every indent opens a block and every dedent closes one; a lexer gives no
dedent for a block that is not open, so the number of open blocks is never negative
(`openBlocks_take_nonneg`).
-/

namespace SnippetLint.Blocks

/-- Indents less dedents. -/
def openBlocks (tokens : List Token) : Int :=
  tokens.countP (·.kind == .indent) - tokens.countP (·.kind == .dedent)

@[simp] theorem openBlocks_nil : openBlocks [] = 0 := rfl

@[simp] theorem openBlocks_append (ts us : List Token) :
    openBlocks (ts ++ us) = openBlocks ts + openBlocks us := by
  simp only [openBlocks, List.countP_append]
  omega

theorem openBlocks_indent {token : Token} (h : token.kind = .indent) : openBlocks [token] = 1 := by
  simp [openBlocks, h]

theorem openBlocks_dedent {token : Token} (h : token.kind = .dedent) : openBlocks [token] = -1 := by
  simp [openBlocks, h]

theorem openBlocks_other {token : Token} (hi : token.kind ≠ .indent) (hd : token.kind ≠ .dedent) :
    openBlocks [token] = 0 := by
  simp [openBlocks, hi, hd]

theorem openBlocks_dedents (k : Nat) (position : Position) :
    openBlocks (List.replicate k (Lexer.mark .dedent position)) = -k := by
  induction k with
  | zero => rfl
  | succ k ih =>
    rw [List.replicate_succ', openBlocks_append, ih, openBlocks_dedent rfl]
    omega

/-- What holds of the tokens of a step or of a stream when `depth` blocks are open before them: no
prefix closes more than are open. -/
def Enough (depth : Nat) (tokens : List Token) : Prop :=
  ∀ n, 0 ≤ depth + openBlocks (tokens.take n)

theorem Enough.append {depth next : Nat} {ts us : List Token} (hts : Enough depth ts)
    (hnext : (next : Int) = depth + openBlocks ts) (hus : Enough next us) :
    Enough depth (ts ++ us) := by
  intro n
  rw [List.take_append, openBlocks_append]
  rcases Nat.le_total n ts.length with hn | hn
  · have := hts n
    rw [Nat.sub_eq_zero_of_le hn, List.take_zero, openBlocks_nil]
    omega
  · have := hus (n - ts.length)
    rw [List.take_of_length_le hn]
    omega

theorem enough_nil (depth : Nat) : Enough depth [] := by
  intro n
  simp

theorem enough_singleton {depth : Nat} {token : Token} (h : 0 ≤ depth + openBlocks [token]) :
    Enough depth [token] := by
  intro n
  cases n with
  | zero => simp
  | succ n => simpa using h

theorem enough_dedents {depth k : Nat} (position : Position) (h : k ≤ depth) :
    Enough depth (List.replicate k (Lexer.mark .dedent position)) := by
  intro n
  rw [List.take_replicate, openBlocks_dedents]
  omega

/-- A token of the logical line neither opens nor closes a block. -/
theorem openBlocks_take_of_content (cursor : Cursor) {lexeme : Lexeme} (h : lexeme.IsContent)
    (n : Nat) : openBlocks [Lexer.take cursor lexeme.kind n] = 0 := by
  have hl := h.not_layout
  refine openBlocks_other ?_ ?_ <;> intro hk
  · rw [show lexeme.kind = .indent from hk] at hl
    cases hl
  · rw [show lexeme.kind = .dedent from hk] at hl
    cases hl

/-- A step changes the open blocks by what its tokens say, and closes no more than are open. -/
theorem enough_of_emits {tabSize : Nat} {lexer next : Lexer} {tokens : List Token}
    (h : lexer.Emits tabSize tokens next) :
    Enough lexer.blocks.length tokens ∧
      (next.blocks.length : Int) = lexer.blocks.length + openBlocks tokens := by
  -- all that matters of a single token is how many blocks it opens
  have single : ∀ {token : Token} {blocks : List Indentation} {change : Int},
      openBlocks [token] = change → (blocks.length : Int) = lexer.blocks.length + change →
      Enough lexer.blocks.length [token] ∧
        (blocks.length : Int) = lexer.blocks.length + openBlocks [token] := by
    intro token blocks change hchange hlength
    rw [hchange]
    exact ⟨enough_singleton (by omega), hlength⟩
  cases h with
  | blank _ _ => exact ⟨enough_nil _, by simp⟩
  | same _ _ => exact ⟨enough_nil _, by simp⟩
  | deeper _ _ => exact single (openBlocks_indent rfl) (by simp)
  | shallower closed remaining _ compared =>
    have hclosed := Indentation.closed_add_remaining compared
    refine ⟨enough_dedents _ (by omega), ?_⟩
    rw [openBlocks_dedents]
    show (remaining.length : Int) = _
    omega
  | join _ _ _ _ => exact ⟨enough_nil _, by simp⟩
  | lineBreak _ _ =>
    refine single (openBlocks_other ?_ ?_) (by simp) <;>
    · simp only [Lexer.take]
      split <;> simp
  | comment _ _ _ =>
    exact single (openBlocks_other (by simp [Lexer.take]) (by simp [Lexer.take])) (by simp)
  | lexeme _ _ _ _ _ _ munched _ =>
    exact single (openBlocks_take_of_content _ (Lexeme.isContent_of_munch munched) _) (by simp)

theorem enough_of_finishes {lexer : Lexer} {tokens : List Token} (h : lexer.Finishes tokens) :
    Enough lexer.blocks.length tokens := by
  have hline : Enough lexer.blocks.length
      (if lexer.lineHasContent then [Lexer.mark .newline lexer.here.position] else []) ∧
      openBlocks
        (if lexer.lineHasContent then [Lexer.mark .newline lexer.here.position] else []) = 0 := by
    split
    · have hzero : openBlocks [Lexer.mark .newline lexer.here.position] = 0 :=
        openBlocks_other (by simp [Lexer.mark]) (by simp [Lexer.mark])
      exact ⟨enough_singleton (by omega), hzero⟩
    · exact ⟨enough_nil _, rfl⟩
  have hend : openBlocks [Lexer.mark .endMarker lexer.here.position] = 0 :=
    openBlocks_other (by simp [Lexer.mark]) (by simp [Lexer.mark])
  have hdedents : Enough lexer.blocks.length
      (List.replicate lexer.blocks.length (Lexer.mark .dedent lexer.here.position)) :=
    enough_dedents _ (Nat.le_refl _)
  have hall : ((0 : Nat) : Int) = lexer.blocks.length + openBlocks
      ((if lexer.lineHasContent then [Lexer.mark .newline lexer.here.position] else []) ++
        List.replicate lexer.blocks.length (Lexer.mark .dedent lexer.here.position)) := by
    rw [openBlocks_append, hline.2, openBlocks_dedents]
    omega
  rw [h.tokens_eq]
  exact (hline.1.append (by omega) hdedents).append hall (enough_singleton (by omega))

theorem enough_of_lexes {tabSize : Nat} {lexer : Lexer} {stream : TokenStream}
    (h : lexer.Lexes tabSize stream) : Enough lexer.blocks.length stream.tokens := by
  induction h with
  | emit emits _ ih =>
    obtain ⟨henough, hnext⟩ := enough_of_emits emits
    exact henough.append hnext ih
  | finish finishes => exact enough_of_finishes finishes
  | fail _ => exact enough_nil _

/-- Along the tokens of a snippet there are never fewer indents than dedents. -/
theorem openBlocks_take_nonneg (source : String) (n : Nat) :
    0 ≤ openBlocks ((TokenStream.ofText source).tokens.take n) := by
  have h := enough_of_lexes (TokenStream.lexes_withTabs TokenStream.tabSize source) n
  simpa [Lexer.ofText, TokenStream.ofText] using h

end SnippetLint.Blocks
