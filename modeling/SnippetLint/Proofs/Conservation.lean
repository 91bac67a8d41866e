import SnippetLint.Proofs.Agreement
import SnippetLint.Proofs.Discipline
import SnippetLint.Proofs.LedgerGrammar
import SnippetLint.Proofs.Places

/-!
Words are neither lost nor invented. The identifiers in a tree are the names among the tokens, apart
from the words that introduce a match statement and its cases; its numbers are the numbers among the
tokens; and its strings are the runs of adjacent string literals, each written as one text. Main
statement: `words_are_conserved`.
-/

namespace SnippetLint.Conservation
open SnippetLint.Parser SnippetLint.Ledger

/-- The texts of the tokens of a kind. -/
def textsOf (kind : TokenKind) (tokens : List Token) : List String :=
  (tokens.filter (·.kind = kind)).map Token.lexeme

/-- The maximal runs of adjacent string literals. -/
def stringRuns (tokens : List Token) : List (List Token) :=
  (tokens.splitOnP (·.kind ≠ .string)).filter (· ≠ [])

/-- A run of string literals as one text. -/
def joined (run : List Token) : String := " ".intercalate (run.map Token.lexeme)

/-- The tokens without comments and without line breaks that end no logical line. -/
def visible (tokens : List Token) : List Token := tokens.filter fun token => !token.kind.isTrivia

/-! ## Runs of string literals -/

theorem stringRuns_cons {token : Token} (h : token.kind ≠ .string) (tokens : List Token) :
    stringRuns (token :: tokens) = stringRuns tokens := by
  simp [stringRuns, List.splitOnP_cons_eq_if_modifyHead, h]

theorem stringRuns_append {run rest : List Token} (hne : run ≠ [])
    (hrun : ∀ token ∈ run, token.kind = .string)
    (hend : ∀ token ∈ rest.head?, token.kind ≠ .string) :
    stringRuns (run ++ rest) = run :: stringRuns rest := by
  have hinside : ∀ token ∈ run, (decide (token.kind ≠ .string)) = false :=
    fun token htoken => by simp [hrun token htoken]
  cases rest with
  | nil =>
    rw [List.append_nil, stringRuns, List.splitOnP_eq_singleton hinside]
    simp [stringRuns, hne]
  | cons token rest =>
    have htoken := hend token rfl
    rw [stringRuns_cons htoken, stringRuns,
      List.splitOnP_append_cons_of_forall_mem hinside token (by simpa using htoken)]
    simp [stringRuns, hne]

theorem stringRuns_concat {mark : Token} (h : mark.kind ≠ .string) (tokens : List Token) :
    stringRuns (tokens ++ [mark]) = stringRuns tokens := by
  rw [stringRuns, List.splitOnP_append_cons tokens [] (by simpa using h)]
  simp [stringRuns]

/-! ## Entries -/

/-- The entries for these names, numbers and strings. -/
def post (names numbers strings : Multiset String) : Multiset Entry :=
  names.map .name + numbers.map .number + strings.map .string

theorem post_add (names numbers strings names' numbers' strings' : Multiset String) :
    post names numbers strings + post names' numbers' strings' =
      post (names + names') (numbers + numbers') (strings + strings') := by
  simp only [post, Multiset.map_add]
  abel

/-- Entries of different kinds do not get mixed up. -/
theorem post_inj {names numbers strings names' numbers' strings' : Multiset String}
    (h : post names numbers strings = post names' numbers' strings') :
    names = names' ∧ numbers = numbers' ∧ strings = strings' := by
  have hnames := congrArg (Multiset.filterMap fun
    | .name text => some text
    | _ => none) h
  have hnumbers := congrArg (Multiset.filterMap fun
    | .number text => some text
    | _ => none) h
  have hstrings := congrArg (Multiset.filterMap fun
    | .string text => some text
    | _ => none) h
  have hnone : ∀ texts : Multiset String,
      Multiset.filterMap (fun _ : String => (none : Option String)) texts = 0 := by
    intro texts
    induction texts using Multiset.induction_on with
    | empty => rfl
    | cons text texts ih => rw [Multiset.filterMap_cons_none _ _ rfl, ih]
  simp only [post, Multiset.filterMap_add, Multiset.filterMap_map, Function.comp_def, hnone,
    Multiset.filterMap_some, add_zero, zero_add] at hnames hnumbers hstrings
  exact ⟨hnames, hnumbers, hstrings⟩

theorem textsOf_cons (kind : TokenKind) (token : Token) (tokens : List Token) :
    textsOf kind (token :: tokens) =
      (if token.kind = kind then [token.lexeme] else []) ++ textsOf kind tokens := by
  unfold textsOf
  by_cases h : token.kind = kind <;> simp [h]

theorem textsOf_append_of_ne {kind : TokenKind} {tokens : List Token}
    (h : ∀ token ∈ tokens, token.kind ≠ kind) (rest : List Token) :
    textsOf kind (tokens ++ rest) = textsOf kind rest := by
  induction tokens with
  | nil => rfl
  | cons token tokens ih =>
    rw [List.cons_append, textsOf_cons, if_neg (h token List.mem_cons_self),
      ih fun other hother => h other (List.mem_cons_of_mem _ hother)]
    rfl

theorem entries_of_passes {tokens last : List Token} {entries : Multiset Entry}
    (h : Passes false tokens entries last) (hlast : last = []) :
    entries = post (textsOf .name tokens) (textsOf .number tokens)
      ((stringRuns tokens).map joined) := by
  induction h with
  | refl tokens =>
    rw [hlast]
    rfl
  | @token token rest last entries single _ ih =>
    have hone : tally false token =
        post ↑(if token.kind = .name then [token.lexeme] else [])
          ↑(if token.kind = .number then [token.lexeme] else []) 0 := by
      unfold tally
      split
      next hname => simp [post, hname]
      next hnumber => simp [post, hnumber]
      next hname hnumber => simp [post, if_neg hname, if_neg hnumber]
    rw [ih hlast, hone, post_add, stringRuns_cons single, textsOf_cons, textsOf_cons, zero_add]
    rfl
  | @strings run rest last entries ne_nil isRun ended _ ih =>
    have hname : ∀ token ∈ run, token.kind ≠ .name := fun token htoken => by
      simp [isRun token htoken]
    have hnumber : ∀ token ∈ run, token.kind ≠ .number := fun token htoken => by
      simp [isRun token htoken]
    have hone : {Entry.string (joined run)} = post 0 0 {joined run} := by simp [post]
    rw [stringRuns_append ne_nil isRun ended, textsOf_append_of_ne hname,
      textsOf_append_of_ne hnumber, ih hlast]
    show {Entry.string (joined run)} + _ = _
    rw [hone, post_add, zero_add, zero_add]
    rfl

mutual

theorem gather_entriesOf : ∀ t : Tree, gather entriesOf t =
    post (gather identifiers t + gather softKeywords t) (gather numbers t) (gather texts t)
  | .node kind span children => by
    have hone : (↑(entriesOf kind) : Multiset Entry) =
        post (↑(identifiers kind) + ↑(softKeywords kind)) ↑(numbers kind) ↑(texts kind) := by
      simp [entriesOf, post]
    simp only [gather]
    rw [hone, gatherAll_entriesOf children, post_add]
    congr 1
    abel

theorem gatherAll_entriesOf : ∀ ts : List Tree, gatherAll entriesOf ts =
    post (gatherAll identifiers ts + gatherAll softKeywords ts) (gatherAll numbers ts)
      (gatherAll texts ts)
  | [] => rfl
  | t :: ts => by
    simp only [gatherAll]
    rw [gather_entriesOf t, gatherAll_entriesOf ts, post_add]
    congr 1
    abel

end


/-! ## Names of a stream -/

theorem isSingle_of_all_isPart {cs : List Char} (h : ∀ c ∈ cs, Word.isPart c = true) :
    IsSingle (String.ofList cs) := by
  refine ⟨fun hdot => ?_, fun hstar => ?_⟩
  · rw [String.toList_ofList] at hdot
    exact absurd (h _ hdot) (by decide)
  · have hmem : '*' ∈ cs := by
      rw [← String.toList_ofList (l := cs), hstar]
      decide
    exact absurd (h _ hmem) (by decide)

theorem singleNames_of_lexes {tabSize : Nat} {lexer : Lexer} {stream : TokenStream}
    (h : lexer.Lexes tabSize stream) : SingleNames stream.tokens := by
  intro token htoken hkind
  obtain ⟨start, lexeme, munched, hsame, hshown⟩ :=
    Places.exists_lexeme h htoken (by rw [hkind]; rfl) (by rw [hkind]; rfl)
  have hparts := (Lexeme.word_of_munch munched (.inl (hsame.symm.trans hkind))).2
  rw [← String.ofList_toList (s := token.lexeme), hshown]
  exact isSingle_of_all_isPart hparts

/-! ## Whole snippets -/

/-- Statements are read until no token is left. -/
theorem rest_eq_nil_of_statements {room : Nat} {ending : Ending} {before after : ParserState}
    {ts : List Tree} (h : Module.statements room ending before = .ok ts after) :
    after.rest = [] := by
  obtain ⟨lists, _, hlists, h⟩ := ParserLaw.bind_eq_ok h
  cases h
  unfold many at hlists
  -- every round takes a token, so the rounds do not run out before the tokens do
  have hrounds : ∀ {fuel : Nat} {state : ParserState} {lists : List (List Tree)},
      manyWithin (do if ← atEnd then return none else return some (← Compound.statement room)) fuel
        ending state = .ok lists after → state.left < fuel → after.rest = [] := by
    intro fuel
    induction fuel with
    | zero => intro state lists _ hlt; omega
    | succ fuel ih =>
      intro state lists h hlt
      obtain ⟨found, mid, hitem, h⟩ := ParserLaw.bind_eq_ok h
      obtain ⟨ended, _, hend, hitem⟩ := ParserLaw.bind_eq_ok hitem
      cases hend
      split at hitem
      · next hempty =>
        cases hitem
        cases h
        exact List.isEmpty_iff.1 hempty
      · obtain ⟨ts, _, hstatement, hitem⟩ := ParserLaw.bind_eq_ok hitem
        cases hitem
        obtain ⟨more, _, hmore, h⟩ := ParserLaw.bind_eq_ok h
        cases h
        have hleft := Progress.left_lt_of_statement hstatement
        exact ih hmore (by omega)
  exact hrounds hlists (Nat.lt_succ_self _)

theorem textsOf_significant (kind : TokenKind) (stream : TokenStream)
    (htrivia : kind.isTrivia = false) (hend : kind ≠ .endMarker) :
    textsOf kind (Module.significant stream) = textsOf kind stream.tokens := by
  unfold textsOf Module.significant
  rw [List.filter_filter]
  congr 1
  refine List.filter_congr fun token _ => ?_
  by_cases h : token.kind = kind
  · simp [h, htrivia, hend]
  · simp [h]

/-- What is seen of a text that can be read to its end is what the grammar sees and the mark of the
end. -/
theorem stringRuns_significant {source : String}
    (h : (TokenStream.ofText source).error = none) :
    stringRuns (Module.significant (.ofText source)) =
      stringRuns (visible (TokenStream.ofText source).tokens) := by
  obtain ⟨init, last, hruns, ⟨_, _, mark, hmark, htokens⟩ | ⟨hsome, _⟩⟩ :=
    Discipline.runs_ofText source
  · have hinit : init.filter (fun token => !token.kind.isTrivia && token.kind != .endMarker) =
        visible init := by
      refine List.filter_congr fun token htoken => ?_
      simp [hruns.kind_ne_endMarker token htoken]
    have hvisible : visible (init ++ [mark]) = visible init ++ [mark] := by
      simp [visible, hmark, TokenKind.isTrivia]
    have hsignificant : Module.significant (.ofText source) = visible init := by
      rw [Module.significant, htokens, List.filter_append, hinit]
      simp [hmark]
    rw [htokens, hvisible, stringRuns_concat (by simp [hmark]), hsignificant]
  · exact absurd h hsome

theorem entriesOf_module : entriesOf .module = [] := rfl

/-- What the statements of a snippet hold is what its tokens hold. -/
theorem entries_of_statements {room : Nat} {ending : Ending} {before after : ParserState}
    {ts : List Tree} (hnames : SingleNames before.rest)
    (h : Module.statements room ending before = .ok ts after) :
    gatherAll entriesOf ts = post (textsOf .name before.rest) (textsOf .number before.rest)
      ((stringRuns before.rest).map joined) := by
  obtain ⟨entries, hpasses, htotal⟩ := (settles_statements room).run hnames trivial h
  rw [gatherAll_eq, htotal, zero_add, entries_of_passes hpasses (rest_eq_nil_of_statements h)]

theorem statements_of_ofStream {stream : TokenStream} {t : Tree}
    (h : Module.ofStream stream = .ok t) :
    ∃ ts span after, Module.statements ((Module.initial stream).left + 1) (Module.endingOf stream)
      (Module.initial stream) = .ok ts after ∧ t = .node .module span ts := by
  unfold Module.ofStream at h
  dsimp only at h
  split at h
  · next hmodule =>
    cases h
    obtain ⟨start, _, hhere, hmodule⟩ := ParserLaw.bind_eq_ok hmodule
    cases hhere
    obtain ⟨ts, last, hstatements, hmodule⟩ := ParserLaw.bind_eq_ok hmodule
    split at hmodule
    · exact absurd hmodule failHere_ne_ok
    · cases hmodule
      exact ⟨ts, _, _, hstatements, rfl⟩
  · cases h

theorem statements_of_parse {source : String} {t : Tree} (h : Module.parse source = .ok t) :
    ∃ room ts span after, Module.statements room (Module.endingOf (.ofText source))
      (Module.initial (.ofText source)) = .ok ts after ∧ t = .node .module span ts := by
  obtain ⟨ts, span, after, hstatements, ht⟩ := statements_of_ofStream h
  exact ⟨_, ts, span, after, hstatements, ht⟩

/-- The words, numbers and strings of a text that is read are those of its tree. -/
theorem words_are_conserved {source : String} {t : Tree} (h : Module.parse source = .ok t) :
    let tokens := (TokenStream.ofText source).tokens
    (textsOf .name tokens : Multiset String) = gather identifiers t + gather softKeywords t ∧
      (textsOf .number tokens : Multiset String) = gather numbers t ∧
      ((stringRuns (visible tokens)).map joined : Multiset String) = gather texts t := by
  have hreadable := Agreement.error_eq_none_of_ofStream h
  have hnames : SingleNames (Module.significant (.ofText source)) := fun token htoken =>
    singleNames_of_lexes (TokenStream.lexes_withTabs TokenStream.tabSize source) token
      (List.mem_of_mem_filter htoken)
  have hentries : gather entriesOf t = post (textsOf .name (TokenStream.ofText source).tokens)
      (textsOf .number (TokenStream.ofText source).tokens)
      ((stringRuns (visible (TokenStream.ofText source).tokens)).map joined) := by
    rw [← textsOf_significant .name _ rfl (by decide),
      ← textsOf_significant .number _ rfl (by decide),
      ← stringRuns_significant hreadable]
    obtain ⟨room, ts, span, last, hstatements, rfl⟩ := statements_of_parse h
    have hall := entries_of_statements hnames hstatements
    rwa [gather, entriesOf_module, Multiset.coe_nil, zero_add]
  rw [gather_entriesOf] at hentries
  obtain ⟨hname, hnumber, hstring⟩ := post_inj hentries
  exact ⟨hname.symm, hnumber.symm, hstring.symm⟩

/-- A match statement, its case with a capture, and a string in two parts. -/
theorem words_of_match_are_conserved :
    ∃ t, Module.parse "match a:\n  case b: c = 'd' \"e\", 1\n" = .ok t ∧
      gather identifiers t + gather softKeywords t = ↑["match", "a", "case", "b", "c"] ∧
      gather numbers t = {"1"} ∧ gather texts t = {"'d' \"e\""} := by
  let source := "match a:\n  case b: c = 'd' \"e\", 1\n"
  obtain ⟨t, hparse⟩ : ∃ t, Module.parse source = .ok t := by
    have hok : (Module.parse source).isOk = true := by decide +kernel
    cases h : Module.parse source with
    | ok t => exact ⟨t, rfl⟩
    | error error => rw [h] at hok; cases hok
  obtain ⟨hnames, hnumbers, hstrings⟩ := words_are_conserved hparse
  refine ⟨t, hparse, hnames.symm.trans ?_, hnumbers.symm.trans ?_, hstrings.symm.trans ?_⟩
  · exact congrArg _ (by decide +kernel)
  · exact congrArg _ (by decide +kernel)
  · exact congrArg _ (by decide +kernel)

end SnippetLint.Conservation
