import SnippetLint.Proofs.Places
import SnippetLint.Proofs.Rendering
import SnippetLint.Settings.File

/-!
Names that settings add are spelled as the lexer spells them. One word with nothing around it is one
token and the end of its line, and a token that is a name or a keyword shows one word; so settings
accept just the names that a text can hold. Main statement: `identifiers_are_single_words`.
-/

namespace SnippetLint.Identifiers

/-- A token that is a word: a name or a keyword. -/
def IsWord (kind : TokenKind) : Prop := kind = .name ∨ kind.isKeyword = true

/-- A text that is read, without an error, as one token and the end of its line. -/
structure IsOneToken (text : String) (kind : TokenKind) : Prop where
  error_eq : (TokenStream.ofText text).error = none
  tokens_eq : (TokenStream.ofText text).tokens.map Token.toLexeme =
    [⟨kind, text.toList⟩, ⟨.newline, []⟩, ⟨.endMarker, []⟩]

theorem isIdentifier_iff (s : String) : Word.isIdentifier s = true ↔
    s.toList.head?.any Word.isStart = true ∧ ∀ c ∈ s.toList, Word.isPart c = true := by
  unfold Word.isIdentifier
  cases s.toList with
  | nil => simp
  | cons c cs =>
    simp only [List.head?_cons, Option.any_some, Bool.and_eq_true, List.all_eq_true,
      List.forall_mem_cons]
    constructor
    · rintro ⟨hstart, hparts⟩
      exact ⟨hstart, Word.isPart_of_isStart hstart, hparts⟩
    · rintro ⟨hstart, _, hparts⟩
      exact ⟨hstart, hparts⟩

/-- A word with nothing around it is one token. -/
theorem isOneToken_of_isIdentifier {s : String} (h : Word.isIdentifier s = true) :
    IsOneToken s (Word.kind s.toList) := by
  obtain ⟨hstart, hparts⟩ := (isIdentifier_iff s).1 h
  obtain ⟨c, hhead, hc⟩ := (Option.any_eq_true _ _).1 hstart
  obtain ⟨cs, hs⟩ := List.head?_eq_some_iff.1 hhead
  rw [hs] at hparts
  have hreads : Lexeme.ReadsBefore ⟨Word.kind (c :: cs), c :: cs⟩ [] c cs :=
    Lexeme.readsBefore_word hc (fun d hd => hparts d (List.mem_cons_of_mem c hd)) rfl rfl
  have hrendered : Rendered 0 [⟨Word.kind (c :: cs), c :: cs⟩] (c :: cs ++ []) :=
    .lexeme (n := 0) hreads (Lexeme.not_foreign_of_isStart hc).2 .nil
  rw [List.append_nil, ← hs] at hrendered
  obtain ⟨hlexed, hwhole⟩ := readBack_ofText hrendered
  -- a single word cannot open too many brackets
  have hcount : [⟨Word.kind s.toList, s.toList⟩].count Lexeme.leftParen ≤ 1 :=
    List.count_le_length
  have hroom : 1 ≤ Bracket.maxDepth := by decide
  have herror := hwhole (by omega)
  exact ⟨herror, hlexed.tokens_eq herror⟩

theorem isIdentifier_of_token {source : String} {token : Token}
    (htoken : token ∈ (TokenStream.ofText source).tokens) (hkind : IsWord token.kind) :
    Word.isIdentifier token.lexeme = true := by
  have hlayout : token.kind.isLayout = false ∧ token.kind.isTrivia = false := by
    rcases hkind with hname | hkeyword
    · rw [hname]
      exact ⟨rfl, rfl⟩
    · cases hsame : token.kind <;> rw [hsame] at hkeyword <;> first
        | exact ⟨rfl, rfl⟩
        | cases hkeyword
  obtain ⟨start, lexeme, munched, hsame, hshown⟩ :=
    Places.exists_lexeme (TokenStream.lexes_withTabs TokenStream.tabSize source) htoken
      hlayout.1 hlayout.2
  rw [isIdentifier_iff, hshown]
  exact Lexeme.word_of_munch munched (hsame ▸ hkind)

/-- Settings are accepted, as they are, if blocks have a width and every added name is a word. -/
theorem validate_eq_ok_iff {settings accepted : Settings} :
    settings.validate = .ok accepted ↔ accepted = settings ∧ settings.indentWidth ≠ 0 ∧
      ∀ name ∈ settings.extraBuiltins, Word.isIdentifier name = true := by
  unfold Settings.validate
  split
  · next hzero => simp [hzero]
  · next hwidth =>
    split
    · next name hfound =>
      have hname : Word.isIdentifier name = false := by simpa using List.find?_some hfound
      have hmem := List.mem_of_find?_eq_some hfound
      refine ⟨nofun, fun h => ?_⟩
      rw [h.2.2 name hmem] at hname
      cases hname
    · next hnone =>
      have hall : ∀ name ∈ settings.extraBuiltins, Word.isIdentifier name = true := by
        simpa using hnone
      exact ⟨fun h => ⟨(Except.ok.inj h).symm, hwidth, hall⟩, fun h => h.1 ▸ rfl⟩

/-- A name that settings refuse is no word. -/
theorem isIdentifier_of_validate {settings : Settings} {name : String}
    (h : settings.validate = .error (.invalidBuiltin name)) : Word.isIdentifier name = false := by
  unfold Settings.validate at h
  split at h
  · cases h
  · split at h
    · next hfound =>
      cases h
      simpa using List.find?_some hfound
    · cases h

/-- **Identifiers are single words.** The check of added names accepts a text if and only if it is
read, with nothing left over, as one token that is a name or a keyword. So every name that accepted
settings add and that is no keyword can stand in a text as a name, and settings refuse no name of a
text. -/
theorem identifiers_are_single_words :
    (∀ s : String, Word.isIdentifier s = true ↔ ∃ kind, IsWord kind ∧ IsOneToken s kind) ∧
    (∀ settings accepted : Settings, settings.validate = .ok accepted →
      ∀ name ∈ accepted.extraBuiltins, Keyword.ofWord? name = none → IsOneToken name .name) ∧
    ∀ (source : String), ∀ token ∈ (TokenStream.ofText source).tokens, token.kind = .name →
      ∀ settings : Settings, settings.validate ≠ .error (.invalidBuiltin token.lexeme) := by
  refine ⟨fun s => ⟨fun h => ?_, ?_⟩, ?_, ?_⟩
  · refine ⟨_, ?_, isOneToken_of_isIdentifier h⟩
    rcases Word.kind_cases s.toList with hname | ⟨keyword, hkeyword⟩
    · exact .inl hname
    · exact .inr (by rw [hkeyword]; rfl)
  · rintro ⟨kind, hkind, htoken⟩
    obtain ⟨token, hmem, heq⟩ : ∃ token ∈ (TokenStream.ofText s).tokens,
        token.toLexeme = ⟨kind, s.toList⟩ := by
      rw [← List.mem_map, htoken.tokens_eq]
      exact List.mem_cons_self
    obtain rfl : token.kind = kind := congrArg Lexeme.kind heq
    have hshown : token.lexeme = s := String.toList_inj.1 (congrArg Lexeme.chars heq)
    exact hshown ▸ isIdentifier_of_token hmem hkind
  · intro settings accepted haccepted name hname hkeyword
    obtain ⟨rfl, _, hall⟩ := validate_eq_ok_iff.1 haccepted
    have htoken := isOneToken_of_isIdentifier (hall name hname)
    rwa [Word.kind, String.ofList_toList, hkeyword] at htoken
  · intro source token hmem hkind settings hrefused
    have hfalse := isIdentifier_of_validate hrefused
    rw [isIdentifier_of_token hmem (.inl hkind)] at hfalse
    cases hfalse

end SnippetLint.Identifiers
