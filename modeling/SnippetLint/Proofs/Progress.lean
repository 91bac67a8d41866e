import SnippetLint.Proofs.DerivationStatement
import SnippetLint.Proofs.ProvenanceGrammar

/-!
Progress. A loop of the grammar goes on only after a token has been taken, so that it has ended
before its rounds run out. `Takes` says that of what a round does; it is a class, so that the search
for instances goes along a round up to the first token that it takes. From there on it is enough
that no token comes back.
-/

namespace SnippetLint.Progress
open SnippetLint.Parser SnippetLint.Derivation

/-! ## Tokens that are known -/

/-- The next tokens are known to be of these kinds. -/
def Knows : List TokenKind → List Token → Prop
  | [], _ => True
  | kind :: known, tokens =>
    (tokens[0]?.map Token.kind).getD .endMarker = kind ∧ Knows known tokens.tail

theorem exists_token {kind : TokenKind} {known : List TokenKind} {tokens : List Token}
    (hknown : Knows (kind :: known) tokens) (hkind : kind ≠ .endMarker) :
    ∃ token rest, tokens = token :: rest ∧ token.kind = kind ∧ Knows known rest := by
  obtain ⟨hfirst, hrest⟩ := hknown
  cases tokens with
  | nil => exact absurd hfirst.symm hkind
  | cons token rest => exact ⟨token, rest, rfl, hfirst, hrest⟩

theorem rest_of_advance {ending : Ending} {before after : ParserState} {token : Token}
    {rest : List Token} (hrest : before.rest = token :: rest)
    (hok : advance ending before = .ok () after) : after.rest = rest := by
  unfold advance at hok
  split at hok
  · next heq =>
    cases hok
    rw [hrest] at heq
    exact (List.cons.inj heq).2.symm
  · next heq =>
    rw [hrest] at heq
    cases heq

theorem word_eq_ok {ending : Ending} {before after : ParserState} {token : Token}
    {rest : List Token} {text : String} (hrest : before.rest = token :: rest)
    (h : word ending before = .ok text after) : text = token.lexeme ∧ after.rest = rest := by
  obtain ⟨_, _, hlexeme, h⟩ := ParserLaw.bind_eq_ok h
  cases hlexeme
  obtain ⟨_, _, hadvance, h⟩ := ParserLaw.bind_eq_ok h
  cases h
  exact ⟨by rw [hrest]; rfl, rest_of_advance hrest hadvance⟩

theorem eat_eq {kind : TokenKind} {ending : Ending} {state : ParserState} :
    eat kind ending state =
      if (state.rest[0]?.map Token.kind).getD .endMarker == kind then
        (advance >>= fun _ => pure true) ending state
      else .ok false state := by
  show (check kind >>= _) ending state = _
  rw [ParserLaw.bind_eq]
  show (if _ then _ else _ : Parser Bool) ending state = _
  split <;> rfl

theorem bind_eat_eq (kind : TokenKind) (f : Bool → Parser β) (ending : Ending)
    (state : ParserState) :
    (eat kind >>= f) ending state =
      if (state.rest[0]?.map Token.kind).getD .endMarker == kind then
        (advance >>= fun _ => f true) ending state
      else f false ending state := by
  rw [ParserLaw.bind_eq, eat_eq]
  by_cases hfound : ((state.rest[0]?.map Token.kind).getD .endMarker == kind) = true
  · rw [if_pos hfound, if_pos hfound]
    exact ParserLaw.bind_assoc advance (fun _ => pure true) f ending state
  · rw [if_neg hfound, if_neg hfound]

/-! ## Rounds -/

/-- A parser that has taken a token whenever `again` holds of its value; if `sure` says so, it is
run where a token is left. -/
class Takes (sure : Bool) (p : Parser α) (again : α → Bool) : Prop where
  run : ∀ {ending before a after}, (sure = true → before.rest ≠ []) →
    p ending before = .ok a after → again a = true → after.left < before.left

/-- A kind of token, not what stands for the end of the tokens. -/
class Real (kind : TokenKind) : Prop where
  ne_end : kind ≠ .endMarker

instance (sign : Operator) : Real (.op sign) := ⟨nofun⟩

instance (word : Keyword) : Real (.keyword word) := ⟨nofun⟩

instance : Real .string := ⟨nofun⟩

instance : Real .newline := ⟨nofun⟩

instance : Real .indent := ⟨nofun⟩

instance : Real .dedent := ⟨nofun⟩

section Sequences

variable {sure : Bool} {α β γ : Type} {again : β → Bool}

instance : Takes sure (pure none : Parser (Option α)) Option.isSome := ⟨fun _ h hagain => by
  cases h
  cases hagain⟩

instance (s : α) : Takes sure (pure (s, false) : Parser (α × Bool)) Prod.snd :=
  ⟨fun _ h hagain => by
    cases h
    cases hagain⟩

instance (fault : GrammarFault) : Takes sure (failHere fault : Parser β) again :=
  ⟨fun _ h => absurd h failHere_ne_ok⟩

instance (fault : GrammarFault) (position : Position) :
    Takes sure (failAt fault position : Parser β) again := ⟨fun _ h => absurd h failAt_ne_ok⟩

instance (c : Prop) [Decidable c] (p q : Parser β) [hp : Takes sure p again]
    [hq : Takes sure q again] : Takes sure (if c then p else q) again := by
  split
  · exact hp
  · exact hq

/-- What comes after a token that has been taken gives none back. -/
theorem takes_bind_of_lt {p : Parser α} {f : α → Parser β}
    (hp : ∀ {ending before a after}, (sure = true → before.rest ≠ []) →
      p ending before = .ok a after → after.left < before.left)
    (hf : ∀ a, moves.Follows (f a)) : Takes sure (p >>= f) again := by
  constructor
  intro ending before b after hsure h _
  obtain ⟨a, mid, hfirst, hsecond⟩ := ParserLaw.bind_eq_ok h
  exact Nat.lt_of_le_of_lt (left_le_of hsecond) (hp hsure hfirst)

/-- A token may also be taken later. -/
theorem takes_bind {p : Parser α} [moves.Follows p] {f : α → Parser β}
    (hf : ∀ a, Takes false (f a) again) : Takes sure (p >>= f) again := by
  constructor
  intro ending before b after _ h hagain
  obtain ⟨a, mid, hfirst, hsecond⟩ := ParserLaw.bind_eq_ok h
  exact Nat.lt_of_lt_of_le ((hf a).run nofun hsecond hagain) (left_le_of hfirst)

theorem takes_bind_looks {p : Parser α} {f : α → Parser β}
    (hp : ∀ ending state, ∃ a, p ending state = .ok a state)
    (hf : ∀ a, Takes sure (f a) again) : Takes sure (p >>= f) again := by
  constructor
  intro ending before b after hsure h hagain
  obtain ⟨a, mid, hfirst, hsecond⟩ := ParserLaw.bind_eq_ok h
  obtain ⟨found, hlook⟩ := hp ending before
  rw [hlook] at hfirst
  cases hfirst
  exact (hf a).run hsure hsecond hagain

instance (priority := low) (p : Parser α) [moves.Follows p] (f : α → Parser β)
    [hf : ∀ a, Takes false (f a) again] : Takes sure (p >>= f) again := takes_bind hf

/-- A rule that takes a token may be the first part of a round. -/
instance (priority := low) (p : Parser α) [hp : Takes true p fun _ => true] (f : α → Parser β)
    [hf : ∀ a, moves.Follows (f a)] : Takes true (p >>= f) again :=
  takes_bind_of_lt (fun hsure h => hp.run hsure h rfl) hf

instance (f : Unit → Parser β) [hf : ∀ u, moves.Follows (f u)] : Takes true (advance >>= f) again :=
  takes_bind_of_lt (fun hrest h => left_lt_of_advance h (hrest rfl)) hf

instance (f : String → Parser β) [hf : ∀ text, moves.Follows (f text)] :
    Takes true (word >>= f) again :=
  takes_bind_of_lt (fun hrest h => left_lt_of_word h (hrest rfl)) hf

instance (f : Position → Parser β) [hf : ∀ position, Takes sure (f position) again] :
    Takes sure (here >>= f) again := takes_bind_looks (fun _ _ => ⟨_, rfl⟩) hf

instance (f : String → Parser β) [hf : ∀ text, Takes sure (f text) again] :
    Takes sure (lexeme >>= f) again := takes_bind_looks (fun _ _ => ⟨_, rfl⟩) hf

/-- A token of a kind that is checked is left. -/
instance (kind : TokenKind) [hkind : Real kind] (p q : Parser β) [hp : Takes true p again]
    [hq : Takes sure q again] :
    Takes sure (check kind >>= fun found => if found = true then p else q) again := by
  constructor
  intro ending before b after hsure h hagain
  obtain ⟨found, mid, hcheck, hsecond⟩ := ParserLaw.bind_eq_ok h
  obtain rfl := eq_of_check hcheck
  split at hsecond
  · next hfound =>
    rw [hfound] at hcheck
    exact hp.run (fun _ => rest_ne_nil_of_check hcheck hkind.ne_end) hsecond hagain
  · exact hq.run hsure hsecond hagain

theorem eq_of_eat {kind : TokenKind} {ending : Ending} {state next : ParserState}
    (h : eat kind ending state = .ok false next) : next = state := by
  obtain ⟨found, _, hcheck, h⟩ := ParserLaw.bind_eq_ok h
  obtain rfl := eq_of_check hcheck
  split at h
  · obtain ⟨_, _, _, h⟩ := ParserLaw.bind_eq_ok h
    cases h
  · cases h
    rfl

theorem takes_bind_eat {kind : TokenKind} [hkind : Real kind] {f : Bool → Parser β}
    (htrue : moves.Follows (f true)) (hfalse : Takes sure (f false) again) :
    Takes sure (eat kind >>= f) again := by
  constructor
  intro ending before b after hsure h hagain
  obtain ⟨found, mid, heat, hsecond⟩ := ParserLaw.bind_eq_ok h
  cases found with
  | true => exact Nat.lt_of_le_of_lt (left_le_of hsecond) (left_lt_of_eat heat hkind.ne_end)
  | false =>
    obtain rfl := eq_of_eat heat
    exact hfalse.run hsure hsecond hagain

instance (kind : TokenKind) [Real kind] (p q : Parser β) [hp : moves.Follows p]
    [hq : Takes sure q again] :
    Takes sure (eat kind >>= fun found => if found = true then p else q) again :=
  takes_bind_eat hp hq

/-- A step that goes on after a token of this kind. -/
instance (kind : TokenKind) [Real kind] (s : α) :
    Takes sure (eat kind >>= fun found => pure (s, found)) Prod.snd :=
  takes_bind_eat inferInstance inferInstance

end Sequences

/-! ## Rounds of the grammar -/

section Rounds

variable (inner : Level) [moves.OfLevel inner] (start : Position) (t : Tree)

/-- A comprehension goes on at one of its keywords. -/
instance : Takes false (do
    if ← Expression.startsComprehension then
      return some (← Expression.comprehensionClause inner)
    else return none) Option.isSome := by
  have hclause : Takes true (do return some (← Expression.comprehensionClause inner))
      Option.isSome := by
    constructor
    intro ending before found after hsure h _
    obtain ⟨clause, last, hclause, h⟩ := ParserLaw.bind_eq_ok h
    cases h
    have htakes : Takes true (Expression.comprehensionClause inner) fun _ => true := by
      unfold Expression.comprehensionClause
      exact takes_bind_looks (fun _ _ => ⟨_, rfl⟩) fun start =>
        takes_bind_eat inferInstance inferInstance
    exact htakes.run hsure hclause rfl
  constructor
  intro ending before found after _ h hagain
  obtain ⟨starts, mid, hstarts, hsecond⟩ := ParserLaw.bind_eq_ok h
  cases starts with
  | false =>
    cases hsecond
    cases hagain
  | true =>
    obtain ⟨isFor, _, hfor, hstarts⟩ := ParserLaw.bind_eq_ok hstarts
    obtain rfl := eq_of_check hfor
    split at hstarts
    · next hfound =>
      rw [hfound] at hfor
      cases hstarts
      exact hclause.run (fun _ => rest_ne_nil_of_check hfor nofun) hsecond hagain
    · obtain ⟨isAsync, _, hasync, hstarts⟩ := ParserLaw.bind_eq_ok hstarts
      obtain rfl := eq_of_check hasync
      obtain ⟨second, _, hsecondKind, hstarts⟩ := ParserLaw.bind_eq_ok hstarts
      obtain rfl := eq_of_peekAt hsecondKind
      obtain ⟨hboth, rfl⟩ := Outcome.ok.inj hstarts
      rw [(Bool.and_eq_true_iff.1 hboth).1] at hasync
      exact hclause.run (fun _ => rest_ne_nil_of_check hasync nofun) hsecond hagain

/-- What can follow an operand takes the tokens that are its sign. -/
instance : Takes false (Expression.trailer inner start t) Prod.snd := by
  constructor
  intro ending before result after _ h hagain
  obtain ⟨kind, mid, hpeek, h⟩ := ParserLaw.bind_eq_ok h
  obtain rfl := eq_of_peek hpeek
  have hsign : ∀ {f : Unit → Parser (Tree × Bool)} [∀ u, moves.Follows (f u)],
      kind ≠ .endMarker → (advance >>= f) ending before = .ok result after →
        after.left < before.left := by
    intro f _ hkind h
    have htakes : Takes true (advance >>= f) Prod.snd := inferInstance
    exact htakes.run (fun _ => rest_ne_nil_of_peek hpeek hkind) h hagain
  split at h
  · exact hsign nofun h
  · exact hsign nofun h
  · exact hsign nofun h
  · cases h
    cases hagain

/-- A loop whose first round gives a value takes a token. -/
theorem left_lt_of_many {item : Parser (Option α)} [moves.Follows item]
    [htakes : Takes false item Option.isSome] {ending : Ending} {before after : ParserState}
    {as : List α} (hfirst : ∀ next, item ending before ≠ .ok none next)
    (h : many item ending before = .ok as after) : after.left < before.left := by
  obtain ⟨found, mid, hitem, h⟩ := ParserLaw.bind_eq_ok h
  cases found with
  | none => exact absurd hitem (hfirst mid)
  | some a =>
    obtain ⟨more, last, hmore, h⟩ := ParserLaw.bind_eq_ok h
    cases h
    have hle := ((ParserLaw.follows_manyWithin moves inferInstance _).run hmore).left_le
    exact Nat.lt_of_le_of_lt hle (htakes.run nofun hitem rfl)

theorem real_of_boolOp {kind : TokenKind} {op : BoolOp} (h : Power.boolOp? kind = some op) :
    Real kind := by
  unfold Power.boolOp? at h
  split at h
  all_goals first | infer_instance | cases h

theorem real_of_compareOp {first second : TokenKind} {op : CompareOp × Nat}
    (h : Power.compareOp? first second = some op) : Real first := by
  unfold Power.compareOp? at h
  split at h
  all_goals first | infer_instance | cases h

theorem real_of_binaryOp {kind : TokenKind} {op : BinaryOp} (h : Power.binaryOp? kind = some op) :
    Real kind := by
  unfold Power.binaryOp? at h
  split at h
  all_goals first | infer_instance | cases h

theorem exists_sign_of_augmentedOp {kind : TokenKind} {op : BinaryOp}
    (h : Power.augmentedOp? kind = some op) : ∃ sign, kind = .op sign := by
  unfold Power.augmentedOp? at h
  split at h
  all_goals first | exact ⟨_, rfl⟩ | cases h

/-- A comparison sign is eaten if the next tokens are one. -/
theorem left_lt_of_eatCompare {ending : Ending} {before after : ParserState} {op : CompareOp}
    (h : Expression.eatCompare ending before = .ok (some op) after) :
    after.left < before.left := by
  obtain ⟨first, _, hfirst, h⟩ := ParserLaw.bind_eq_ok h
  obtain rfl := eq_of_peek hfirst
  obtain ⟨second, _, hsecond, h⟩ := ParserLaw.bind_eq_ok h
  obtain rfl := eq_of_peekAt hsecond
  cases hop : Power.compareOp? first second with
  | none =>
    rw [hop] at h
    cases h
  | some found =>
    rw [hop] at h
    obtain ⟨_, mid, hadvance, h⟩ := ParserLaw.bind_eq_ok h
    have hrest := rest_ne_nil_of_peek hfirst (real_of_compareOp hop).ne_end
    exact Nat.lt_of_le_of_lt (left_le_of h) (left_lt_of_advance hadvance hrest)

instance followsCompared : moves.Follows (do
    match ← Expression.eatCompare with
    | some op => return some (op, ← inner.operand Power.ofCompare.2)
    | none => return none) := by
  refine ParserLaw.follows_bind moves inferInstance fun op => ?_
  split <;> infer_instance

/-- One more comparison of a chain. -/
instance : Takes false (do
    match ← Expression.eatCompare with
    | some op => return some (op, ← inner.operand Power.ofCompare.2)
    | none => return none) Option.isSome := by
  constructor
  intro ending before found after _ h hagain
  obtain ⟨op?, mid, heat, h⟩ := ParserLaw.bind_eq_ok h
  cases op? with
  | none =>
    cases h
    cases hagain
  | some op => exact Nat.lt_of_le_of_lt (left_le_of h) (left_lt_of_eatCompare heat)

theorem left_lt_of_boolChain {kind : TokenKind} [hreal : Real kind] {op : BoolOp} {ending : Ending}
    {before after : ParserState} {u : Tree} (hkind : peek ending before = .ok kind before)
    (h : Expression.boolChain inner op start t ending before = .ok u after) :
    after.left < before.left := by
  obtain ⟨found, _, hfound, h⟩ := ParserLaw.bind_eq_ok h
  rw [hkind] at hfound
  cases hfound
  obtain ⟨operands, _, hoperands, h⟩ := ParserLaw.bind_eq_ok h
  cases h
  exact left_lt_of_many (fun _ => after_ne_none fun _ => eat_ne_false hkind) hoperands

/-- An operator is taken before the operand that comes after it. -/
instance (least : Nat) : Takes false (Expression.extend inner least start t) Prod.snd := by
  constructor
  intro ending before result after _ h hagain
  obtain ⟨kind, _, hkind, h⟩ := ParserLaw.bind_eq_ok h
  obtain rfl := eq_of_peek hkind
  obtain ⟨second, _, hsecond, h⟩ := ParserLaw.bind_eq_ok h
  obtain rfl := eq_of_peekAt hsecond
  cases hbool : Power.boolOp? kind with
  | some op =>
    rw [hbool] at h
    have := real_of_boolOp hbool
    dsimp only at h
    split at h
    · obtain ⟨u, _, hchain, h⟩ := ParserLaw.bind_eq_ok h
      cases h
      exact left_lt_of_boolChain inner start t hkind hchain
    · cases h
      cases hagain
  | none =>
    rw [hbool] at h
    cases hcompare : Power.compareOp? kind second with
    | some found =>
      rw [hcompare] at h
      dsimp only at h
      split at h
      · obtain ⟨u, _, hchain, h⟩ := ParserLaw.bind_eq_ok h
        cases h
        obtain ⟨links, _, hlinks, h⟩ := ParserLaw.bind_eq_ok hchain
        cases h
        refine left_lt_of_many (fun next hnone => ?_) hlinks
        obtain ⟨op?, _, heat, hnone⟩ := ParserLaw.bind_eq_ok hnone
        cases op? with
        | none => exact eatCompare_ne_none hkind hsecond hcompare heat
        | some op =>
          obtain ⟨_, _, _, hnone⟩ := ParserLaw.bind_eq_ok hnone
          cases hnone
      · cases h
        cases hagain
    | none =>
      rw [hcompare] at h
      cases hbinary : Power.binaryOp? kind with
      | some op =>
        rw [hbinary] at h
        dsimp only at h
        split at h
        · obtain ⟨u, _, hsign, h⟩ := ParserLaw.bind_eq_ok h
          cases h
          obtain ⟨_, _, hadvance, hsign⟩ := ParserLaw.bind_eq_ok hsign
          have hrest := rest_ne_nil_of_peek hkind (real_of_binaryOp hbinary).ne_end
          exact Nat.lt_of_le_of_lt (left_le_of hsign) (left_lt_of_advance hadvance hrest)
        · cases h
          cases hagain
      | none =>
        rw [hbinary] at h
        cases h
        cases hagain

end Rounds

/-! ## Statements with blocks -/

section Statements

variable {sure : Bool} {α : Type} {again : α → Bool}

/-- A word that is looked for is left. -/
instance (text : String) (p q : Parser α) [hp : Takes true p again] [hq : Takes sure q again] :
    Takes sure (checkWord text >>= fun found => if found = true then p else q) again := by
  constructor
  intro ending before a after hsure h hagain
  obtain ⟨found, mid, hcheck, h⟩ := ParserLaw.bind_eq_ok h
  obtain ⟨hfound, rfl⟩ := Outcome.ok.inj hcheck
  split at h
  · next htrue =>
    refine hp.run (fun _ hnil => ?_) h hagain
    rw [hnil] at hfound
    rw [← hfound] at htrue
    cases htrue
  · exact hq.run hsure h hagain

theorem left_lt_of_statement {room : Nat} {ending : Ending} {before after : ParserState}
    {ts : List Tree} (h : Compound.statement room ending before = .ok ts after) :
    after.left < before.left := by
  have hne := Provenance.statement_ne_nil h
  exact (yields_statement room h).left_lt (by simpa [all] using hne)

instance (room : Nat) (f : List Tree → Parser α) [hf : ∀ ts, moves.Follows (f ts)] :
    Takes sure (Compound.statement room >>= f) again :=
  takes_bind_of_lt (fun _ => left_lt_of_statement) hf

variable (block : Compound.BlockParser) [∀ construct line, moves.Follows (block construct line)]

/-- A handler starts with its keyword. -/
instance (handlers : Compound.Handlers) :
    Takes true (Compound.handler block handlers) fun _ => true := by
  unfold Compound.handler
  infer_instance

instance : Takes true Compound.decorator fun _ => true := by
  unfold Compound.decorator
  infer_instance

instance : Takes true (Compound.caseClause block) fun _ => true := by
  unfold Compound.caseClause
  infer_instance

end Statements

end SnippetLint.Progress
