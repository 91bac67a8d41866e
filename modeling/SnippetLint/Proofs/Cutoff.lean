import SnippetLint.Proofs.FormulaLexing
import SnippetLint.Proofs.GrammarLaw

/-!
What a parser gives on lexemes of which the last ones may be cut off. `Shows` says which lexemes a
state stands before, with those that the lexer never came to; `Gives` says that a parser ends as
asked for, unless something nests too deeply. Once the tokens that there are have been taken, every
parser either stops in the lexical fault or takes nothing more, which is the law `spent`; so what
`Gives` asks for never has to speak of the cut.
-/

namespace SnippetLint

/-- Too many expressions or too many brackets are open. -/
def GrammarFault.IsNesting (fault : GrammarFault) : Prop :=
  fault = .tooDeeplyNested ∨ fault = .lexical .tooManyBrackets

namespace Parser

/-- All tokens before an opening bracket that is one too many have been taken. -/
structure Spent (ending : Ending) (state : ParserState) : Prop where
  rest_eq : state.rest = []
  fault_eq : ending.fault = some .tooManyBrackets

/-- Where all tokens have been taken they stay so, and the only error is the lexical one. -/
def spent : ParserLaw where
  Run ending state next := Spent ending state → Spent ending next
  Stop ending state error _ := Spent ending state → error.fault = .lexical .tooManyBrackets
  refl _ _ h := h
  trans first second h := second (first h)
  stop_after first second h := second (first h)
  take {ending state next} htake h := by
    rw [advance] at htake
    split at htake
    · next hrest =>
      rw [h.rest_eq] at hrest
      cases hrest
    · cases htake
      exact h
  fail _ _ hnot h := by
    rcases hnot with hrest | hfault
    · exact absurd h.rest_eq hrest
    · rw [h.fault_eq] at hfault
      cases hfault
  fail_lexical {ending state lexical} _ hfault h := by
    rw [h.fault_eq] at hfault
    cases hfault
    rfl
  deepen _ hrun h := ⟨(hrun ⟨h.rest_eq, h.fault_eq⟩).rest_eq, h.fault_eq⟩
  deepen_stop _ hstop h := hstop ⟨h.rest_eq, h.fault_eq⟩
  capture hrun h := ⟨(hrun ⟨h.rest_eq, h.fault_eq⟩).rest_eq, h.fault_eq⟩
  capture_stop hstop h := hstop ⟨h.rest_eq, h.fault_eq⟩

/-- A parser ends as asked for, or all tokens have been taken, or something nests too deeply. -/
structure Gives (ending : Ending) (state : ParserState) (p : Parser α)
    (post : α → ParserState → Prop) : Prop where
  ok : ∀ {a next}, p ending state = .ok a next → post a next ∨ Spent ending next
  fail : ∀ {error next}, p ending state = .fail error next → error.fault.IsNesting

variable {ending : Ending} {state next : ParserState} {lost ls : List Lexeme} {l m : Lexeme}

theorem gives_of_spent {p : Parser α} [hp : spent.Follows p] (h : Spent ending state)
    (post : α → ParserState → Prop) : Gives ending state p post :=
  ⟨fun hok => .inr (hp.run hok h), fun hfail => .inr (hp.stop hfail h)⟩

theorem gives_of_ok {p : Parser α} {a : α} {post : α → ParserState → Prop}
    (h : p ending state = .ok a next) (hpost : post a next) : Gives ending state p post := by
  constructor
  · intro b last hok
    rw [h] at hok
    cases hok
    exact .inl hpost
  · intro error last hfail
    rw [h] at hfail
    cases hfail

theorem Gives.mono {p : Parser α} {post post' : α → ParserState → Prop}
    (h : Gives ending state p post) (himp : ∀ a next, post a next → post' a next) :
    Gives ending state p post' := ⟨fun hok => (h.ok hok).imp_left (himp _ _), h.fail⟩

/-- Parsers with the same outcome give the same. -/
theorem Gives.of_eq {p q : Parser α} {post : α → ParserState → Prop}
    (h : Gives ending next q post) (heq : p ending state = q ending next) :
    Gives ending state p post :=
  ⟨fun hok => h.ok (heq ▸ hok), fun hfail => h.fail (heq ▸ hfail)⟩

/-- After a parser whose outcome is known. -/
theorem gives_bind_of_ok {p : Parser α} {f : α → Parser β} {a : α}
    {post : β → ParserState → Prop} (hp : p ending state = .ok a next)
    (h : Gives ending next (f a) post) : Gives ending state (p >>= f) post :=
  h.of_eq (by rw [ParserLaw.bind_eq, hp])

theorem Gives.andThen {p : Parser α} {f : α → Parser β} {post : β → ParserState → Prop}
    (h : Gives ending state p fun a next => Gives ending next (f a) post)
    (hf : ∀ a, spent.Follows (f a)) : Gives ending state (p >>= f) post := by
  cases hp : p ending state with
  | ok a next =>
    refine gives_bind_of_ok hp ?_
    exact (h.ok hp).elim id fun hspent => gives_of_spent hspent post
  | fail error next =>
    have hbind : (p >>= f) ending state = .fail error next := by rw [ParserLaw.bind_eq, hp]
    constructor
    · intro b last hok
      rw [hbind] at hok
      cases hok
    · intro error' last hfail
      rw [hbind] at hfail
      cases hfail
      exact h.fail hp

theorem Gives.bind {p : Parser α} {f : α → Parser β} {post : β → ParserState → Prop}
    [hf : ∀ a, spent.Follows (f a)]
    (h : Gives ending state p fun a next => Gives ending next (f a) post) :
    Gives ending state (p >>= f) post := h.andThen hf

theorem gives_pure {a : α} {post : α → ParserState → Prop} (h : post a state) :
    Gives ending state (pure a) post := gives_of_ok rfl h

/-! ## Lexemes ahead -/

/-- The lexemes before which a state stands: those of its tokens, and those that were cut off. None
of them could name a value or end a header. -/
structure Shows (ending : Ending) (lost : List Lexeme) (state : ParserState) (ls : List Lexeme) :
    Prop where
  tokens_eq : state.rest.map Token.toLexeme ++ lost = ls
  cut : lost = [] ∧ ending.fault = none ∨
    (∃ more, lost = .leftParen :: more) ∧ ending.fault = some .tooManyBrackets
  inPattern_eq : state.inPattern = false
  plain : ∀ l ∈ ls, l.kind ≠ .op .colon ∧ l.kind ≠ .op .colonEqual

namespace Shows

theorem left_add (h : Shows ending lost state ls) : state.left + lost.length = ls.length := by
  rw [← h.tokens_eq, state.left_eq, List.length_append, List.length_map]

theorem deepen (h : Shows ending lost state ls) (depth : Nat) :
    Shows ending lost { state with depth } ls := ⟨h.tokens_eq, h.cut, h.inPattern_eq, h.plain⟩

/-- Where a lexeme is ahead, its token is, or all tokens have been taken. -/
theorem spent_or_exists (h : Shows ending lost state (l :: ls)) :
    Spent ending state ∨ ∃ token rest, state.rest = token :: rest ∧ token.toLexeme = l ∧
      rest.map Token.toLexeme ++ lost = ls := by
  have htokens := h.tokens_eq
  cases hrest : state.rest with
  | nil =>
    rw [hrest, List.map_nil, List.nil_append] at htokens
    rcases h.cut with ⟨hlost, -⟩ | ⟨-, hfault⟩
    · rw [hlost] at htokens
      cases htokens
    · exact .inl ⟨hrest, hfault⟩
  | cons token rest =>
    rw [hrest, List.map_cons, List.cons_append] at htokens
    obtain ⟨hhead, htail⟩ := List.cons.inj htokens
    exact .inr ⟨token, rest, rfl, hhead, htail⟩

/-- So a parser only has to be followed where the token is ahead. -/
theorem gives {p : Parser α} [spent.Follows p] {post : α → ParserState → Prop}
    (h : Shows ending lost state (l :: ls))
    (hgives : state.rest ≠ [] → Gives ending state p post) : Gives ending state p post := by
  rcases h.spent_or_exists with hspent | ⟨token, rest, hrest, -⟩
  · exact gives_of_spent hspent post
  · exact hgives (by rw [hrest]; exact List.cons_ne_nil token rest)

theorem exists_token (h : Shows ending lost state (l :: ls)) (hne : state.rest ≠ []) :
    ∃ token rest, state.rest = token :: rest ∧ token.toLexeme = l ∧
      rest.map Token.toLexeme ++ lost = ls :=
  h.spent_or_exists.resolve_left fun hspent => hne hspent.rest_eq

theorem peek_eq (h : Shows ending lost state (l :: ls)) (hne : state.rest ≠ []) :
    peek ending state = .ok l.kind state := by
  obtain ⟨token, rest, hrest, rfl, -⟩ := h.exists_token hne
  simp [peek, peekAt, hrest, Token.toLexeme]

theorem check_eq (h : Shows ending lost state (l :: ls)) (hne : state.rest ≠ [])
    (kind : TokenKind) : check kind ending state = .ok (l.kind == kind) state := by
  unfold check
  rw [ParserLaw.bind_eq, h.peek_eq hne]
  rfl

theorem lexeme_eq (h : Shows ending lost state (l :: ls)) (hne : state.rest ≠ []) :
    lexeme ending state = .ok (String.ofList l.chars) state := by
  obtain ⟨token, rest, hrest, rfl, -⟩ := h.exists_token hne
  simp [lexeme, hrest, Token.toLexeme]

theorem exists_peekAt_ne (h : Shows ending lost state ls) (n : Nat) :
    ∃ kind, peekAt n ending state = .ok kind state ∧ kind ≠ .op .colonEqual := by
  refine ⟨_, rfl, ?_⟩
  cases hn : state.rest[n]? with
  | none => exact nofun
  | some token =>
    have hmem : token.toLexeme ∈ ls := by
      rw [← h.tokens_eq]
      exact List.mem_append_left _ (List.mem_map_of_mem (List.mem_of_getElem? hn))
    exact (h.plain _ hmem).2

/-- The lexeme after the next one may be cut off, but only if it is a parenthesis. -/
theorem exists_peekAt_eq (h : Shows ending lost state (l :: m :: ls)) (hne : state.rest ≠ []) :
    ∃ kind, peekAt 1 ending state = .ok kind state ∧
      (kind = m.kind ∨ kind = .endMarker ∧ m = .leftParen) := by
  obtain ⟨token, rest, hrest, -, htail⟩ := h.exists_token hne
  cases rest with
  | nil =>
    rw [List.map_nil, List.nil_append] at htail
    refine ⟨.endMarker, by simp [peekAt, hrest], .inr ⟨rfl, ?_⟩⟩
    rcases h.cut with ⟨hlost, -⟩ | ⟨⟨more, hlost⟩, -⟩
    · rw [hlost] at htail
      cases htail
    · rw [hlost] at htail
      cases htail
      rfl
  | cons second rest =>
    rw [List.map_cons, List.cons_append] at htail
    cases htail
    exact ⟨_, by simp [peekAt, hrest, Token.toLexeme], .inl rfl⟩

theorem exists_advance_eq (h : Shows ending lost state (l :: ls)) (hne : state.rest ≠ []) :
    ∃ next, advance ending state = .ok () next ∧ Shows ending lost next ls := by
  obtain ⟨token, rest, hrest, -, htail⟩ := h.exists_token hne
  have hplain := (List.forall_mem_cons.1 h.plain).2
  unfold advance
  split
  · next token' rest' hrest' =>
    rw [hrest] at hrest'
    cases hrest'
    exact ⟨_, rfl, htail, h.cut, h.inPattern_eq, hplain⟩
  · next hnil =>
    rw [hrest] at hnil
    cases hnil

end Shows

/-! ## Looking and taking -/

section Steps

variable {kind : TokenKind}

theorem gives_here {post : Position → ParserState → Prop} (h : ∀ position, post position state) :
    Gives ending state here post := gives_of_ok rfl (h _)

theorem gives_node {nodeKind : NodeKind} {start : Position} {children : List Tree}
    {post : Tree → ParserState → Prop} (h : ∀ span, post (.node nodeKind span children) state) :
    Gives ending state (node nodeKind start children) post := gives_of_ok rfl (h _)

theorem gives_peekAt {n : Nat} {post : TokenKind → ParserState → Prop}
    (h : ∀ kind, post kind state) : Gives ending state (peekAt n) post := gives_of_ok rfl (h _)

theorem gives_peek {post : TokenKind → ParserState → Prop}
    (hs : Shows ending lost state (l :: ls)) (h : post l.kind state) :
    Gives ending state peek post := hs.gives fun hne => gives_of_ok (hs.peek_eq hne) h

theorem gives_check {post : Bool → ParserState → Prop} (hs : Shows ending lost state (l :: ls))
    (h : post (l.kind == kind) state) : Gives ending state (check kind) post :=
  Gives.bind (gives_peek hs (gives_pure h))

theorem gives_check_of_ne {post : Bool → ParserState → Prop}
    (hs : Shows ending lost state (l :: ls)) (hkind : l.kind ≠ kind) (h : post false state) :
    Gives ending state (check kind) post := by
  refine gives_check hs ?_
  rwa [beq_false_of_ne hkind]

theorem gives_advance {post : Unit → ParserState → Prop} (hs : Shows ending lost state (l :: ls))
    (h : ∀ next, Shows ending lost next ls → post () next) : Gives ending state advance post := by
  refine hs.gives fun hne => ?_
  obtain ⟨next, hadvance, hnext⟩ := hs.exists_advance_eq hne
  exact gives_of_ok hadvance (h next hnext)

theorem gives_word {post : String → ParserState → Prop} (hs : Shows ending lost state (l :: ls))
    (h : ∀ next, Shows ending lost next ls → post (String.ofList l.chars) next) :
    Gives ending state word post := by
  refine hs.gives fun hne => ?_
  refine gives_bind_of_ok (hs.lexeme_eq hne) ?_
  exact Gives.bind (gives_advance hs fun next hnext => gives_pure (h next hnext))

theorem gives_eat_of_eq {post : Bool → ParserState → Prop} (hs : Shows ending lost state (l :: ls))
    (hkind : l.kind = kind) (h : ∀ next, Shows ending lost next ls → post true next) :
    Gives ending state (eat kind) post := by
  refine Gives.bind (gives_check hs ?_)
  rw [hkind, beq_self_eq_true]
  exact Gives.bind (gives_advance hs fun next hnext => gives_pure (h next hnext))

theorem gives_eat_of_ne {post : Bool → ParserState → Prop} (hs : Shows ending lost state (l :: ls))
    (hkind : l.kind ≠ kind) (h : post false state) : Gives ending state (eat kind) post := by
  refine Gives.bind (gives_check_of_ne hs hkind ?_)
  exact gives_pure h

theorem gives_require {post : Unit → ParserState → Prop} (hs : Shows ending lost state (l :: ls))
    (hkind : l.kind = kind) (h : ∀ next, Shows ending lost next ls → post () next) :
    Gives ending state (require kind) post :=
  Gives.bind (gives_eat_of_eq hs hkind fun next hnext => gives_pure (h next hnext))

/-! ## Nesting and loops -/

theorem gives_tooDeeplyNested {post : α → ParserState → Prop} (hs : Shows ending lost state ls) :
    Gives ending state (failHere .tooDeeplyNested : Parser α) post := by
  refine gives_bind_of_ok rfl ?_
  constructor
  · exact fun h => absurd h failAt_ne_ok
  · intro error next h
    unfold failAt at h
    split at h
    · next hfault =>
      cases h
      rcases hs.cut with ⟨-, hnone⟩ | ⟨-, hsome⟩
      · rw [hnone] at hfault
        cases hfault
      · rw [hsome] at hfault
        cases hfault
        exact .inr rfl
    · cases h
      exact .inl rfl

theorem gives_nested {p : Parser α} {post : α → ParserState → Prop}
    (hs : Shows ending lost state ls)
    (h : ∀ state, Shows ending lost state ls → Gives ending state p post)
    (hpost : ∀ {a next} depth, post a next → post a { next with depth }) :
    Gives ending state (nested p) post := by
  by_cases hdepth : maxNesting ≤ state.depth
  · exact (gives_tooDeeplyNested hs).of_eq (if_pos hdepth)
  · have hp := h _ (hs.deepen (state.depth + 1))
    constructor
    · intro a next hok
      rw [nested, if_neg hdepth] at hok
      split at hok
      · next b last hlast =>
        cases hok
        exact (hp.ok hlast).imp (hpost _) fun hspent => ⟨hspent.rest_eq, hspent.fault_eq⟩
      · cases hok
    · intro error next hfail
      rw [nested, if_neg hdepth] at hfail
      split at hfail
      · cases hfail
      · next hlast =>
        cases hfail
        exact hp.fail hlast

theorem gives_iterateWithin {step : σ → Parser (σ × Bool)} [hstep : ∀ s, spent.Follows (step s)]
    {fuel : Nat} {s : σ} {post : σ → ParserState → Prop}
    (h : Gives ending state (step s) fun result next =>
      if result.2 then Gives ending next (iterateWithin step fuel result.1) post
      else post result.1 next) :
    Gives ending state (iterateWithin step (fuel + 1) s) post := by
  have hwithin := ParserLaw.follows_iterateWithin spent hstep fuel
  refine (h.mono ?_).andThen fun ⟨s, again⟩ => ?_
  · rintro ⟨s, again⟩ next hnext
    cases again
    · exact gives_pure hnext
    · exact hnext
  · dsimp only
    infer_instance

theorem gives_iterate {step : σ → Parser (σ × Bool)} {s : σ} {post : σ → ParserState → Prop}
    (h : Gives ending state (iterateWithin step (state.left + 1) s) post) :
    Gives ending state (iterate step s) post := h.of_eq rfl

theorem gives_many {item : Parser (Option α)} {post : List α → ParserState → Prop}
    (h : Gives ending state (manyWithin item (state.left + 1)) post) :
    Gives ending state (many item) post := h.of_eq rfl

theorem gives_manyWithin_succ {item : Parser (Option α)} [hitem : spent.Follows item] {fuel : Nat}
    {post : List α → ParserState → Prop}
    (h : Gives ending state item fun result next =>
      match result with
      | some a => Gives ending next (manyWithin item fuel) fun as => post (a :: as)
      | none => post [] next) :
    Gives ending state (manyWithin item (fuel + 1)) post := by
  have hwithin := ParserLaw.follows_manyWithin spent hitem fuel
  refine (h.mono fun result next hnext => ?_).andThen fun result => ?_
  · cases result with
    | none => exact gives_pure hnext
    | some a => exact Gives.bind (hnext.mono fun as last hlast => gives_pure hlast)
  · cases result <;> infer_instance

/-- One item after another, each with what it is written as; then the parser finds none. -/
theorem gives_manyWithin {item : Parser (Option α)} {tail : List Lexeme}
    (Before : List Lexeme → Prop) (f : α → γ) (g : β → γ) {write : β → List Lexeme} {xs : List β}
    (hitem : spent.Follows item)
    (hread : ∀ x ∈ xs, ∀ rest state, Before rest → Shows ending lost state (write x ++ rest) →
      Gives ending state item fun result next =>
        ∃ a, result = some a ∧ f a = g x ∧ Shows ending lost next rest)
    (hbefore : ∀ x ∈ xs, ∀ rest, write x ≠ [] ∧ Before (write x ++ rest)) (htail : Before tail)
    (hstop : ∀ state, Shows ending lost state tail →
      Gives ending state item fun result next => result = none ∧ Shows ending lost next tail)
    {fuel : Nat} (hs : Shows ending lost state (xs.flatMap write ++ tail))
    (hfuel : state.left < fuel) :
    Gives ending state (manyWithin item fuel) fun as next =>
      as.map f = xs.map g ∧ Shows ending lost next tail := by
  induction xs generalizing state fuel with
  | nil =>
    obtain ⟨fuel, rfl⟩ : ∃ n, fuel = n + 1 := ⟨fuel - 1, by omega⟩
    refine gives_manyWithin_succ ((hstop state hs).mono ?_)
    rintro _ next ⟨rfl, hnext⟩
    exact ⟨rfl, hnext⟩
  | cons x xs ih =>
    obtain ⟨fuel, rfl⟩ : ∃ n, fuel = n + 1 := ⟨fuel - 1, by omega⟩
    obtain ⟨hfirst, hmore⟩ := List.forall_mem_cons.1 hread
    obtain ⟨hbefore, hbefores⟩ := List.forall_mem_cons.1 hbefore
    have hrest : Before (xs.flatMap write ++ tail) := by
      cases xs with
      | nil => exact htail
      | cons y ys =>
        rw [List.flatMap_cons, List.append_assoc]
        exact (hbefores y (List.mem_cons_self) _).2
    rw [List.flatMap_cons, List.append_assoc] at hs
    refine gives_manyWithin_succ ((hfirst _ state hrest hs).mono ?_)
    rintro _ next ⟨a, rfl, ha, hnext⟩
    have hlt : next.left < state.left := by
      have hpos := List.length_pos_iff.2 (hbefore []).1
      have hleft := hs.left_add
      have hleft' := hnext.left_add
      rw [List.length_append] at hleft
      omega
    refine (ih hmore hbefores hnext (by omega)).mono ?_
    rintro as last ⟨has, hlast⟩
    exact ⟨by rw [List.map_cons, List.map_cons, ha, has], hlast⟩

end Steps

end Parser

end SnippetLint
