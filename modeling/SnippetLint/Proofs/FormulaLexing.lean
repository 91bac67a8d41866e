import SnippetLint.Proofs.Rendering

/-!
The text of a formula is read back into its lexemes. A space ends every lexeme, so each of them is
read from its own characters whatever follows: numbers since no part of one takes a space, words
since a space is no part of a word, operators since no spelling holds one. So the text is a rendered
one. Main statement: `lexed_ofText`.
-/

namespace SnippetLint

/-- What may follow a lexeme without changing it: nothing, a space, or the end of a line. -/
inductive Separated : List Char → Prop
  | nil : Separated []
  | space (cs : List Char) : Separated (' ' :: cs)
  | line (cs : List Char) : Separated ('\n' :: cs)

namespace Separated

variable {rest : List Char}

theorem ends (h : Separated rest) : Numerals.Ends rest := by
  cases h <;> rfl

theorem not_isPart (h : Separated rest) : rest.head?.any Word.isPart = false := by
  cases h <;> rfl

theorem not_isQuote (h : Separated rest) : rest.head?.any Quotation.isQuote = false := by
  cases h <;> rfl

end Separated

/-! ## Lexemes -/

namespace Lexeme

/-- A lexeme that is read from its characters, whatever stands after what separates it. -/
structure IsRead (l : Lexeme) (c : Char) (cs : List Char) : Prop where
  chars_eq : l.chars = c :: cs
  not_foreign : c ∉ foreign
  munch_eq : ∀ {rest : List Char} (position : Position), Separated rest →
    munch ⟨l.chars ++ rest, position⟩ = .ok l

/-- A lexeme that is read so and is no bracket. -/
def IsToken (l : Lexeme) : Prop := ∃ c cs, l.IsRead c cs ∧ c ∉ Bracket.signs

variable {l : Lexeme} {c : Char} {cs rest : List Char}

theorem isRead_of_readsBefore (h : ∀ {rest}, Separated rest → l.ReadsBefore rest c cs) :
    l.IsRead c cs :=
  ⟨(h .nil).chars_eq, (h .nil).not_foreign, fun position hrest => (h hrest).munch_eq position⟩

theorem isToken_number (literal : NumberLiteral) : literal.lexeme.IsToken := by
  obtain ⟨c, cs, hchars, hc⟩ := exists_chars_of_number literal
  exact ⟨c, cs, isRead_of_readsBefore fun hrest => readsBefore_number hchars hrest.ends,
    (not_foreign_of_number hc).2⟩

theorem isToken_word (hstart : Word.isStart c = true) (hparts : cs.all Word.isPart = true)
    {kind : TokenKind} (hkind : Word.kind (c :: cs) = kind) : IsToken ⟨kind, c :: cs⟩ := by
  subst hkind
  refine ⟨c, cs, isRead_of_readsBefore fun hrest => ?_, (not_foreign_of_isStart hstart).2⟩
  exact readsBefore_word hstart (List.all_eq_true.1 hparts) hrest.not_isPart hrest.not_isQuote

/-- No spelling of an operator goes on with a separator. -/
theorem not_mem_extensions (hrest : Separated rest) :
    ∀ c, rest.head? = some c → c ∉ extensions cs := by
  have hsolid : ∀ entry ∈ Operator.table, ' ' ∉ entry.1.toList ∧ '\n' ∉ entry.1.toList := by
    decide
  intro c hc hmem
  obtain ⟨entry, hentry, hnext⟩ := List.mem_filterMap.1 hmem
  split at hnext
  · have hin := List.mem_of_getElem? hnext
    cases hrest with
    | nil => cases hc
    | space =>
      cases hc
      exact (hsolid entry hentry).1 hin
    | line =>
      cases hc
      exact (hsolid entry hentry).2 hin
  · cases hnext

/-- What makes characters an operator: how they start, and what the table says. -/
theorem isToken_operator {sign : Operator} (hforeign : c ∉ foreign)
    (hdigit : Number.isDecimal c = false) (hpoint : c ≠ '.') (hword : Word.isStart c = false)
    (h : operator (c :: cs) = .ok ⟨.op sign, c :: cs⟩) (hbracket : c ∉ Bracket.signs) :
    IsToken ⟨.op sign, c :: cs⟩ :=
  ⟨c, cs, isRead_of_readsBefore fun hrest =>
    readsBefore_operator hforeign hdigit hpoint hword h (not_mem_extensions hrest), hbracket⟩

theorem isToken_of_writes {l : Lexeme} (h : Formula.Writes l) : l.IsToken := by
  cases h with
  | name id => exact isToken_word id.isStart_first (List.all_eq_true.2 id.isPart_more) id.kind_eq
  | number literal => exact isToken_number literal
  | unary op =>
    cases op with
    | not => exact isToken_word (by decide) (by decide) (by decide)
    | _ => exact isToken_operator (by decide) (by decide) (by decide) (by decide) rfl (by decide)
  | binary op =>
    cases op <;>
      exact isToken_operator (by decide) (by decide) (by decide) (by decide) rfl (by decide)
  | bool op => cases op <;> exact isToken_word (by decide) (by decide) (by decide)
  | compare op _ mem =>
    cases op with
    | is | isIn =>
      obtain rfl := List.mem_singleton.1 mem
      exact isToken_word (by decide) (by decide) (by decide)
    | isNot | notIn =>
      simp only [CompareOp.signs, List.mem_cons, List.not_mem_nil, or_false] at mem
      rcases mem with rfl | rfl
      all_goals exact isToken_word (by decide) (by decide) (by decide)
    | _ =>
      obtain rfl := List.mem_singleton.1 mem
      exact isToken_operator (by decide) (by decide) (by decide) (by decide) rfl (by decide)
  | ifWord => exact isToken_word (by decide) (by decide) (by decide)
  | elseWord => exact isToken_word (by decide) (by decide) (by decide)

end Lexeme

/-! ## Streams -/

/-- Lexemes with a space before each of them. -/
def spaces (ls : List Lexeme) : List Char := ls.flatMap fun l => ' ' :: l.chars

/-- Lexemes with a space between them. -/
def spaced : List Lexeme → List Char
  | [] => []
  | l :: ls => l.chars ++ spaces ls

theorem intercalate_eq_spaced (ls : List Lexeme) :
    [' '].intercalate (ls.map Lexeme.chars) = spaced ls := by
  cases ls with
  | nil => rfl
  | cons l ls =>
    induction ls generalizing l with
    | nil => simp [spaced, spaces]
    | cons next ls ih =>
      rw [List.map_cons, List.map_cons, List.intercalate_cons_cons, ← List.map_cons, ih]
      simp [spaced, spaces]

theorem separated_spaces (ls : List Lexeme) : Separated (spaces ls) := by
  cases ls with
  | nil => exact .nil
  | cons l ls => exact .space _

/-- In the text of a formula each lexeme is read before the space after it. -/
theorem rendered_spaced {depth : Nat} {ls : List Lexeme} (h : Formula.Balanced depth ls) :
    Rendered depth ls (spaced ls) := by
  have hspaces : ∀ ls : List Lexeme, ∃ n, spaces ls = blanks n ++ spaced ls := by
    intro ls
    cases ls with
    | nil => exact ⟨0, rfl⟩
    | cons l ls => exact ⟨1, rfl⟩
  induction h with
  | nil => exact .nil
  | @lexeme depth l ls writes _ ih =>
    obtain ⟨c, cs, hread, hbracket⟩ := Lexeme.isToken_of_writes writes
    obtain ⟨n, hn⟩ := hspaces ls
    rw [spaced, hn]
    refine .lexeme ⟨hread.chars_eq, hread.not_foreign, fun position => ?_⟩ hbracket ih
    rw [← hn]
    exact hread.munch_eq position (separated_spaces ls)
  | @leftParen depth ls _ ih =>
    obtain ⟨n, hn⟩ := hspaces ls
    rw [spaced, hn]
    exact .leftParen ih
  | @rightParen depth ls _ ih =>
    obtain ⟨n, hn⟩ := hspaces ls
    rw [spaced, hn]
    exact .rightParen ih

/-- The tokens of a formula's text are its lexemes, up to where brackets nest too deeply. -/
theorem lexed_ofText (f : Formula) : Lexed (.ofText f.text) (f.lexemes 0) := by
  obtain ⟨l, ls, hls, -⟩ := f.starts_lexemes 0
  have hrendered : Rendered 0 (l :: ls) f.text.toList := by
    rw [Formula.text, String.toList_ofList, intercalate_eq_spaced, hls]
    exact rendered_spaced (hls ▸ f.balanced_lexemes 0)
  rw [hls]
  exact (readBack_ofText hrendered).lexed

end SnippetLint
