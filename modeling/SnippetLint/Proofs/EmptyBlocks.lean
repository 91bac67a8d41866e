import Mathlib.Data.List.Chain
import SnippetLint.Proofs.Contexts
import SnippetLint.Proofs.Places

/-!
Blocks without statements. An indent opens a block for the line that follows it, and the tokens of
that line come next, unless the line shows nothing: it may be blank after all, where backslashes
join it with what comes below. So a block or a match statement can only be empty where an indented
line shows nothing. Main statement: `blocks_hold_statements`.
-/

namespace SnippetLint.EmptyBlocks
open SnippetLint.Places

/-- Whether a line shows nothing from here on: blanks, line breaks after a backslash, and a comment
if there is one. -/
def isBare : List Char → Bool
  | [] => true
  | '\\' :: '\r' :: '\n' :: cs => isBare cs
  | '\\' :: '\r' :: cs => isBare cs
  | '\\' :: '\n' :: cs => isBare cs
  | c :: cs => if Indentation.isGap c then isBare cs else c == '#' || Lexer.isLineBreak c

/-- Whether the line after an indent shows nothing. -/
def opensBare (text : List Char) (indent : Token) : Bool :=
  (Text.dropBytes indent.span.stop.offset text).any isBare

example : isBare "  # note\n".toList ∧ isBare "\\\n\\\r\n  \n".toList ∧
    ¬ isBare "\\\n x\n".toList := by decide

/-! ## Along the text -/

theorem isBare_gap {c : Char} (hc : Indentation.isGap c = true) (cs : List Char) :
    isBare (c :: cs) = isBare cs := by
  have hne : c ≠ '\\' := by
    rintro rfl
    cases hc
  rw [isBare.eq_def]
  split <;> simp_all

theorem isBare_drop_gap (cs : List Char) :
    isBare (cs.drop (cs.takeWhile Indentation.isGap).length) = isBare cs := by
  induction cs with
  | nil => rfl
  | cons c cs ih =>
    rw [List.takeWhile_cons]
    split
    · next hc => rw [isBare_gap hc, List.length_cons, List.drop_succ_cons, ih]
    · rfl

theorem isBare_here (lexer : Lexer) : isBare lexer.here.rest = isBare lexer.cursor.rest := by
  rw [Lexer.here, Cursor.eatWhile, Cursor.rest_skip]
  exact isBare_drop_gap _

theorem isBare_join (rest : List Char) (h : Cursor.lineBreak rest ≠ []) :
    isBare ('\\' :: rest) = isBare (rest.drop (Cursor.lineBreak rest).length) := by
  revert h
  unfold Cursor.lineBreak
  split
  · simp [isBare]
  · next cs hpair => simp [isBare.eq_3 cs hpair]
  · simp [isBare]
  · simp

theorem isBare_of_break {cs : List Char} (h : Cursor.lineBreak cs ≠ []) : isBare cs = true := by
  revert h
  unfold Cursor.lineBreak
  split <;> simp [isBare, Lexer.isLineBreak, Indentation.isGap]

theorem isBare_comment (cs : List Char) : isBare ('#' :: cs) = true := by
  simp [isBare, Indentation.isGap]

/-! ## Along the tokens -/

/-- A token of a logical line: neither layout nor left out by the grammar. -/
def IsContent (token : Token) : Prop :=
  token.kind.isLayout = false ∧ token.kind.isTrivia = false

/-- Inside a line that shows something, the next token is of that line. -/
theorem content_of_lexes {tabSize : Nat} {lexer : Lexer} {stream : TokenStream}
    (h : lexer.Lexes tabSize stream) (inside : lexer.measures = false)
    (hshows : isBare lexer.cursor.rest = false) :
    ∀ token ∈ stream.tokens.head?, IsContent token := by
  induction h with
  | @emit lexer next tokens stream emits _ ih =>
    rw [← isBare_here] at hshows
    cases emits with
    | blank measured _ | same measured _ | deeper measured _ | shallower _ _ measured _ =>
      rw [measured] at inside
      cases inside
    | join rest _ hrest broken =>
      refine ih inside ?_
      show isBare (lexer.here.skip _).rest = false
      rw [hrest, isBare_join rest broken] at hshows
      rw [Cursor.rest_skip, hrest, Nat.add_comm, List.drop_succ_cons]
      exact hshows
    | lineBreak _ broken =>
      rw [isBare_of_break broken] at hshows
      cases hshows
    | comment rest _ hrest =>
      rw [hrest, isBare_comment] at hshows
      cases hshows
    | lexeme c rest lexeme _ _ _ munched _ =>
      have hcontent := Lexeme.isContent_of_munch munched
      rintro token ⟨⟩
      exact ⟨hcontent.not_layout, hcontent.not_trivia⟩
  | finish finishes =>
    rw [← isBare_here, finishes.rest_eq] at hshows
    cases hshows
  | fail _ => simp

/-- What may follow an indent. -/
def Follows (text : List Char) (first second : Token) : Prop :=
  first.kind = .indent → opensBare text first = true ∨ IsContent second

theorem isChain_of_no_indent {text : List Char} {tokens : List Token}
    (h : ∀ token ∈ tokens, token.kind ≠ .indent) : tokens.IsChain (Follows text) := by
  induction tokens with
  | nil => exact .nil
  | cons first tokens ih =>
    obtain ⟨hfirst, hrest⟩ := List.forall_mem_cons.1 h
    refine List.isChain_cons.2 ⟨fun _ _ hkind => absurd hkind hfirst, ih hrest⟩

theorem opensBare_of_stands {text : List Char} {cursor : Cursor} {indent : Token}
    (h : Stands text cursor) (hstop : indent.span.stop = cursor.position) :
    opensBare text indent = isBare cursor.rest := by
  obtain ⟨before, htext, _, hposition⟩ := h
  unfold opensBare
  rw [hstop, hposition, htext]
  show (Text.dropBytes (Text.byteLength before) _).any _ = _
  rw [Text.dropBytes_append, Option.any_some]

/-- A step gives one indent alone, or none. -/
theorem indent_of_emits {text : List Char} {tabSize : Nat} {lexer next : Lexer}
    {tokens : List Token} (h : lexer.Emits tabSize tokens next) (sound : Sound text lexer) :
    (∀ token ∈ tokens, token.kind ≠ .indent) ∨
      ∃ indent, tokens = [indent] ∧ next.measures = false ∧
        opensBare text indent = isBare next.cursor.rest := by
  cases h with
  | blank _ _ | same _ _ | join _ _ _ _ => exact .inl (by simp)
  | deeper _ _ =>
    exact .inr ⟨_, rfl, rfl, opensBare_of_stands (stands_here sound.stands) rfl⟩
  | shallower closed _ _ _ =>
    refine .inl fun token htoken => ?_
    rw [List.eq_of_mem_replicate htoken]
    simp [Lexer.mark]
  | lineBreak _ _ =>
    refine .inl (List.forall_mem_singleton.2 ?_)
    simp only [Lexer.take]
    split <;> simp
  | comment _ _ _ => exact .inl (List.forall_mem_singleton.2 (by simp [Lexer.take]))
  | lexeme _ _ lexeme _ _ _ munched _ =>
    refine .inl (List.forall_mem_singleton.2 fun hkind => ?_)
    have hlayout := (Lexeme.isContent_of_munch munched).not_layout
    rw [show lexeme.kind = .indent from hkind] at hlayout
    cases hlayout

theorem no_indent_of_finishes {lexer : Lexer} {tokens : List Token} (h : lexer.Finishes tokens) :
    ∀ token ∈ tokens, token.kind ≠ .indent := by
  intro token htoken
  rw [h.tokens_eq, List.mem_append, List.mem_append] at htoken
  rcases htoken with (hnewline | hdedent) | hend
  · split at hnewline
    · rw [List.mem_singleton.1 hnewline]
      simp [Lexer.mark]
    · cases hnewline
  · rw [List.eq_of_mem_replicate hdedent]
    simp [Lexer.mark]
  · rw [List.mem_singleton.1 hend]
    simp [Lexer.mark]

theorem isChain_of_lexes {text : List Char} {tabSize : Nat} {lexer : Lexer} {stream : TokenStream}
    (h : lexer.Lexes tabSize stream) (sound : Sound text lexer) :
    stream.tokens.IsChain (Follows text) := by
  induction h with
  | emit emits rest ih =>
    have hrest := ih (sound_of_emits emits sound).2
    rcases indent_of_emits emits sound with hnone | ⟨indent, rfl, inside, hbare⟩
    · refine List.isChain_append.2 ⟨isChain_of_no_indent hnone, hrest, ?_⟩
      intro last hlast _ _ hkind
      exact absurd hkind (hnone last (List.mem_of_getLast? hlast))
    · refine List.isChain_cons.2 ⟨fun second hsecond _ => ?_, hrest⟩
      rw [hbare]
      cases hshows : isBare _ with
      | true => exact .inl rfl
      | false => exact .inr (content_of_lexes rest inside hshows second hsecond)
  | finish finishes => exact isChain_of_no_indent (no_indent_of_finishes finishes)
  | fail _ => exact .nil

/-- Where the grammar sees an indent and a dedent next to each other, the line after the indent
shows nothing. -/
theorem opensBare_of_hollow {source : String}
    (h : (Provenance.inputOf (.ofText source)).Hollow) :
    ∃ indent ∈ (TokenStream.ofText source).tokens, indent.kind = .indent ∧
      opensBare source.toList indent = true := by
  obtain ⟨before, indent, dedent, after, htokens, hindent, hdedent⟩ := h
  have hchain : (TokenStream.ofText source).tokens.IsChain (Follows source.toList) :=
    isChain_of_lexes (TokenStream.lexes_withTabs TokenStream.tabSize source) (sound_ofText source)
  obtain ⟨front, back, htokens, _, hback⟩ := List.filter_eq_append_iff.1 htokens
  obtain ⟨skipped, rest, rfl, _, _, hrest⟩ := List.filter_eq_cons_iff.1 hback
  rw [htokens] at hchain ⊢
  refine ⟨indent, by simp, hindent, ?_⟩
  cases rest with
  | nil => cases hrest
  | cons second rest =>
    rw [← List.append_assoc] at hchain
    have hpair := (List.isChain_append.1 hchain).2.1
    rcases List.rel_of_isChain_cons_cons hpair hindent with hbare | ⟨hlayout, htrivia⟩
    · exact hbare
    · -- the token after the indent is one that the grammar sees, so it is the dedent itself
      have hkept : second.kind ≠ .endMarker := by
        intro hkind
        rw [hkind] at hlayout
        cases hlayout
      rw [List.filter_cons_of_pos (by simp [htrivia, hkept])] at hrest
      cases hrest
      rw [hdedent] at hlayout
      cases hlayout

/-- **No empty blocks.** In the tree of a snippet in which every indented line shows something, a
block has a statement and a match statement has a case. -/
theorem blocks_hold_statements {source : String} {t part : Tree}
    (h : Module.parse source = .ok t) (hpart : Spans.Part t part)
    (hshown : ∀ token ∈ (TokenStream.ofText source).tokens, token.kind = .indent →
      opensBare source.toList token = false) :
    (part.kind = .block → part.children ≠ []) ∧
      (part.kind = .matchStmt → ∃ child ∈ part.children, child.kind = .matchCase) := by
  have hnode := Provenance.made_of_ofStream h part hpart
  have hfull : ¬ (Provenance.inputOf (.ofText source)).Hollow := by
    intro hhollow
    obtain ⟨indent, hmem, hkind, hbare⟩ := opensBare_of_hollow hhollow
    rw [hshown indent hmem hkind] at hbare
    cases hbare
  refine ⟨fun hkind hnil => hfull (hnode.block hkind hnil), fun hkind => ?_⟩
  by_contra hnone
  refine hfull (hnode.cases hkind fun child hchild hcase => hnone ⟨child, hchild, hcase⟩)

theorem part_of_at? {t part : Tree} {path : List Nat} (h : Contexts.at? t path = some part) :
    Spans.Part t part := by
  induction path generalizing t with
  | nil =>
    cases h
    exact .self _
  | cons i path ih =>
    obtain ⟨child, hchild, h⟩ := Option.bind_eq_some_iff.1 h
    exact .child (List.mem_of_getElem? hchild) (ih h)

/-- A node of a parsed snippet, by its address and by what can be computed of it. -/
theorem exists_at {α : Type} {source : String} (path : List Nat) {view : Tree → α} {a : α}
    (h : ((Module.parse source).toOption.bind (Contexts.at? · path)).map view = some a) :
    ∃ t part, Module.parse source = .ok t ∧ Contexts.at? t path = some part ∧ view part = a := by
  obtain ⟨part, hpart, hview⟩ := Option.map_eq_some_iff.1 h
  obtain ⟨t, ht, hpart⟩ := Option.bind_eq_some_iff.1 hpart
  refine ⟨t, part, ?_, hpart, hview⟩
  cases hparse : Module.parse source with
  | ok u =>
    rw [hparse] at ht
    cases ht
    rfl
  | error error =>
    rw [hparse] at ht
    cases ht

theorem exists_viewed {α : Type} {source : String} (path : List Nat) {view : Tree → α} {a : α}
    (h : ((Module.parse source).toOption.bind (Contexts.at? · path)).map view = some a) :
    ∃ t part, Module.parse source = .ok t ∧ Spans.Part t part ∧ view part = a := by
  obtain ⟨t, part, hparse, hpart, hview⟩ := exists_at path h
  exact ⟨t, part, hparse, part_of_at? hpart, hview⟩

theorem exists_part {source : String} {path : List Nat} {kind : NodeKind} {n : Nat}
    (h : ((Module.parse source).toOption.bind (Contexts.at? · path)).map
      (fun part => (part.kind, part.children.length)) = some (kind, n)) :
    ∃ t part, Module.parse source = .ok t ∧ Spans.Part t part ∧ part.kind = kind ∧
      part.children.length = n := by
  obtain ⟨t, part, hparse, hpart, hview⟩ := exists_viewed path h
  exact ⟨t, part, hparse, hpart, Prod.mk.inj hview⟩

theorem case_of_match : ∃ t part, Module.parse "match x:\n case 1:\n  pass\n" = .ok t ∧
    Spans.Part t part ∧ part.kind = .matchStmt ∧
      ∃ child ∈ part.children, child.kind = .matchCase := by
  have hshape : ((Module.parse "match x:\n case 1:\n  pass\n").toOption.bind
      (Contexts.at? · [0])).map (fun part => (part.kind, part.children.length)) =
        some (.matchStmt, 2) := by decide +kernel
  obtain ⟨t, part, hparse, hpart, hkind, _⟩ := exists_part hshape
  exact ⟨t, part, hparse, hpart, hkind,
    (blocks_hold_statements hparse hpart (by decide +kernel)).2 hkind⟩

/-- A line of blanks that a backslash joins with the end of the text opens a block, which stays
empty. -/
theorem joined_line_opens_empty_block : ∃ t part, Module.parse "if x:\n \\\n" = .ok t ∧
    Spans.Part t part ∧ part.kind = .block ∧ part.children = [] := by
  have hshape : ((Module.parse "if x:\n \\\n").toOption.bind (Contexts.at? · [0, 1])).map
      (fun part => (part.kind, part.children.length)) = some (.block, 0) := by decide +kernel
  obtain ⟨t, part, hparse, hpart, hkind, hlength⟩ := exists_part hshape
  exact ⟨t, part, hparse, hpart, hkind, List.eq_nil_of_length_eq_zero hlength⟩

end SnippetLint.EmptyBlocks
