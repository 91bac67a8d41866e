import SnippetLint.Proofs.Likeness
import SnippetLint.Proofs.Progress

/-!
Two runs of the grammar side by side. The second run sees tokens that are alike, perhaps with more
of them after the end of the first. Within a logical line both runs do the same, since neither looks
past the end of the line. Where a line has ended the first run may have no token left; there a
success of the first run is still one of the second, if what comes next in the second cannot go on
with a statement.

Pairing is a class, so that the search for instances goes along a rule of the grammar. What it says
about the place before and after a rule is told by two flags: whether the rule has to be run within
a line, and whether it stays there.
-/

namespace SnippetLint.Pairing
open SnippetLint.Parser SnippetLint.Likeness SnippetLint.Progress

/-! ## Values -/

/-- Types of values that two runs can be compared on. -/
class Compared (α : Type) where
  rel : Likeness → α → α → Prop

export Compared (rel)

/-- Types of values that have to be equal. -/
class Exact (α : Type) where

/-- Types of values that may differ. -/
class Loose (α : Type) where

instance : Exact Unit := ⟨⟩

instance : Exact Bool := ⟨⟩

instance : Exact Nat := ⟨⟩

instance : Exact TokenKind := ⟨⟩

instance : Exact CompareOp := ⟨⟩

instance [Exact α] : Compared α := ⟨fun _ => Eq⟩

instance : Compared Position := ⟨Likeness.place⟩

instance : Compared Span := ⟨SpanLike⟩

instance : Compared String := ⟨Likeness.name⟩

instance : Compared Alias := ⟨AliasLike⟩

instance : Compared NodeKind := ⟨KindLike⟩

instance : Compared Tree := ⟨TreeLike⟩

instance [Compared α] : Compared (List α) := ⟨fun like => List.Forall₂ (rel like)⟩

instance [Compared α] : Compared (Option α) := ⟨fun like => Option.Rel (rel like)⟩

instance [Compared α] [Compared β] : Compared (α × β) :=
  ⟨fun like a b => rel like a.1 b.1 ∧ rel like a.2 b.2⟩

instance : Compared Expression.Parameters :=
  ⟨fun like a b => rel like a.list b.list ∧ b = { a with list := b.list }⟩

instance : Compared Expression.Arguments :=
  ⟨fun like a b => rel like a.list b.list ∧ b = { a with list := b.list }⟩

instance : Compared Compound.Handlers :=
  ⟨fun like a b => rel like a.list b.list ∧ b = { a with list := b.list }⟩

instance : Loose Position := ⟨⟩

instance : Loose Span := ⟨⟩

instance : Loose String := ⟨⟩

instance : Loose Alias := ⟨⟩

instance : Loose Tree := ⟨⟩

instance : Loose (List α) := ⟨⟩

instance : Loose (Option α) := ⟨⟩

instance : Loose Expression.Parameters := ⟨⟩

instance : Loose Expression.Arguments := ⟨⟩

instance : Loose Compound.Handlers := ⟨⟩

/-- Values that count as the same. -/
class Alike (like : Likeness) [Compared α] (a b : α) : Prop where
  rel : rel like a b

/-- A value of the first run and one of the second that count as the same. -/
structure Couple (like : Likeness) (α : Type) [Compared α] where
  first : α
  second : α
  rel : rel like first second

theorem getLast?_rel {R : α → β → Prop} {as : List α} {bs : List β} (h : List.Forall₂ R as bs) :
    Option.Rel R as.getLast? bs.getLast? := by
  have hreverse : List.Forall₂ R as.reverse bs.reverse := List.rel_reverse h
  rw [← List.head?_reverse, ← List.head?_reverse]
  generalize as.reverse = as at hreverse
  generalize bs.reverse = bs at hreverse
  cases hreverse with
  | nil => exact .none
  | cons hlast _ => exact .some hlast

section Alike

variable {like : Likeness} [Compared α] [Compared β]

instance (a : Couple like α) : Alike like a.first a.second := ⟨a.rel⟩

instance [Exact γ] (c : γ) : Alike like c c := ⟨rfl⟩

instance : Alike like ([] : List α) [] := ⟨.nil⟩

instance (a b : α) (as bs : List α) [h : Alike like a b] [hs : Alike like as bs] :
    Alike like (a :: as) (b :: bs) := ⟨.cons h.rel hs.rel⟩

instance (as bs cs ds : List α) [h : Alike like as bs] [k : Alike like cs ds] :
    Alike like (as ++ cs) (bs ++ ds) := ⟨List.rel_append h.rel k.rel⟩

instance (as bs : List α) [h : Alike like as bs] : Alike like as.dropLast bs.dropLast := by
  rw [List.dropLast_eq_take, List.dropLast_eq_take, List.Forall₂.length_eq h.rel]
  exact ⟨List.forall₂_take _ h.rel⟩

instance (as bs : List α) [h : Alike like as bs] :
    Alike like as.getLast?.toList bs.getLast?.toList := by
  have hlast := getLast?_rel (R := Compared.rel like) h.rel
  generalize as.getLast? = a at hlast ⊢
  generalize bs.getLast? = b at hlast ⊢
  cases hlast with
  | none => exact ⟨.nil⟩
  | some hboth => exact ⟨.cons hboth .nil⟩

instance (as bs : List (List α)) [h : Alike like as bs] : Alike like as.flatten bs.flatten :=
  ⟨List.rel_flatten h.rel⟩

instance : Alike like (none : Option α) none := ⟨.none⟩

instance (a b : α) [h : Alike like a b] : Alike like (some a) (some b) := ⟨.some h.rel⟩

instance (a b : α) (c d : β) [h : Alike like a b] [k : Alike like c d] :
    Alike like (a, c) (b, d) := ⟨h.rel, k.rel⟩

instance (a b : Bool) [h : Alike like a b] : Alike like (!a) (!b) := ⟨congrArg not h.rel⟩

instance (a b c d : Bool) [h : Alike like a b] [k : Alike like c d] :
    Alike like (a || c) (b || d) := ⟨congrArg₂ or h.rel k.rel⟩

instance (a b c d : Bool) [h : Alike like a b] [k : Alike like c d] :
    Alike like (a && c) (b && d) := ⟨congrArg₂ and h.rel k.rel⟩

instance (t u : Tree) [h : Alike like t u] : Alike like t.kind.isStarred u.kind.isStarred :=
  ⟨(TreeLike.kind h.rel).isStarred_eq⟩

instance (as bs : List α) [h : Alike like as bs] : Alike like as.isEmpty bs.isEmpty :=
  ⟨isEmpty_eq (R := Compared.rel like) h.rel⟩

instance (a b : Option α) [h : Alike like a b] : Alike like a.isNone b.isNone := by
  have hboth : Option.Rel (rel like) a b := h.rel
  cases hboth with
  | none => exact ⟨rfl⟩
  | some => exact ⟨rfl⟩

instance : Alike like "*" "*" := ⟨like.name_star⟩

instance (as bs : List String) [h : Alike like as bs] :
    Alike like (".".intercalate as) (".".intercalate bs) := ⟨like.name_dotted h.rel⟩

instance (kind : NodeKind) [h : Provenance.IsTrue (isPlain kind)] : Alike like kind kind :=
  ⟨.plain h.eq⟩

instance (a b : String) [h : Alike like a b] (isAsync : Bool) :
    Alike like (NodeKind.functionDef a isAsync) (.functionDef b isAsync) :=
  ⟨.functionDef h.rel isAsync⟩

instance (a b : String) [h : Alike like a b] :
    Alike like (NodeKind.classDef a) (.classDef b) := ⟨.classDef h.rel⟩

instance (a b : String) [h : Alike like a b] (kind : ParameterKind) :
    Alike like (NodeKind.parameter a kind) (.parameter b kind) := ⟨.parameter h.rel kind⟩

instance (a b : String) [h : Alike like a b] :
    Alike like (NodeKind.typeParam a) (.typeParam b) := ⟨.typeParam h.rel⟩

instance (a b : String) [h : Alike like a b] :
    Alike like (NodeKind.matchAs a) (.matchAs b) := ⟨.matchAs h.rel⟩

instance (a b : Option String) [h : Alike like a b] :
    Alike like (NodeKind.exceptHandler a) (.exceptHandler b) := ⟨.exceptHandler h.rel⟩

instance (as bs : List Alias) [h : Alike like as bs] :
    Alike like (NodeKind.importStmt as) (.importStmt bs) := ⟨.importStmt h.rel⟩

instance (a b : Option String) (level : Nat) (as bs : List Alias) [h : Alike like a b]
    [hs : Alike like as bs] :
    Alike like (NodeKind.importFrom a level as) (.importFrom b level bs) :=
  ⟨.importFrom h.rel level hs.rel⟩

instance (as bs : List String) [h : Alike like as bs] :
    Alike like (NodeKind.globalStmt as) (.globalStmt bs) := ⟨.globalStmt h.rel⟩

instance (as bs : List String) [h : Alike like as bs] :
    Alike like (NodeKind.nonlocalStmt as) (.nonlocalStmt bs) := ⟨.nonlocalStmt h.rel⟩

instance (a b : Option String) [h : Alike like a b] :
    Alike like (NodeKind.keyword a) (.keyword b) := ⟨.keyword h.rel⟩

instance (a b : String) [h : Alike like a b] (context : Context) :
    Alike like (NodeKind.attribute a context) (.attribute b context) := ⟨.attr h.rel context⟩

instance (a b : String) [h : Alike like a b] (context : Context) :
    Alike like (NodeKind.name a context) (.name b context) := ⟨.name h.rel context⟩

instance (a b : String) (c d : Option String) (x y : Span) [h : Alike like a b]
    [k : Alike like c d] [l : Alike like x y] :
    Alike like (⟨a, c, x⟩ : Alias) ⟨b, d, y⟩ := ⟨h.rel, k.rel, l.rel⟩

end Alike

/-! ## States -/

structure EndingLike (like : Likeness) (a b : Ending) : Prop where
  position : like.place a.position b.position
  fault : Option.Rel like.lexical a.fault b.fault

/-- Keywords that go on with a statement whose last line has ended. -/
def isClauseWord : TokenKind → Bool
  | .keyword .elifKw | .keyword .elseKw | .keyword .exceptKw | .keyword .finallyKw => true
  | _ => false

/-- How the texts of two tokens of a kind go together; the others are told by their kind. -/
def WordLike (like : Likeness) : TokenKind → String → String → Prop
  | .name => like.name
  | .number => Eq
  | .string => like.literal
  | _ => fun _ _ => True

structure TokenLike (like : Likeness) (a b : Token) : Prop where
  kind : a.kind = b.kind
  word : WordLike like a.kind a.lexeme b.lexeme
  start : like.place a.span.start b.span.start
  stop : like.place a.span.stop b.span.stop

/-- What two runs have around them. -/
structure Window where
  like : Likeness
  /-- The tokens of the second run that come after all tokens of the first one. -/
  tail : List Token
  ending : Ending
  ending' : Ending
  /-- Whether both runs have to fail alike. -/
  strict : Bool
  fair : tail = [] ∧ EndingLike like ending ending' ∨
    strict = false ∧ (∀ p q, like.place p q) ∧
      ∀ token ∈ tail.head?, isClauseWord token.kind = false

namespace Window

/-- Nothing comes after the tokens of the first run. -/
def IsWhole (w : Window) : Prop := w.tail = [] ∧ EndingLike w.like w.ending w.ending'

variable {w : Window}

theorem isWhole_of_strict (h : w.strict = true) : w.IsWhole := by
  rcases w.fair with hwhole | ⟨hstrict, _⟩
  · exact hwhole
  · rw [h] at hstrict
    cases hstrict

end Window

/-- The states of two runs that have the same before them. -/
structure Sees (w : Window) (s s' : ParserState) : Prop where
  rest : ∃ front, s'.rest = front ++ w.tail ∧ List.Forall₂ (TokenLike w.like) s.rest front
  /-- The last token ends a line. -/
  complete : w.IsWhole ∨ ∀ token ∈ s.rest.getLast?, token.kind.isLayout = true
  depth : s.depth = s'.depth
  inPattern : s.inPattern = s'.inPattern
  lastStop : w.like.place s.lastStop s'.lastStop

/-- The end of the first run has not been reached, if it matters. -/
def Inside (w : Window) (s : ParserState) : Prop := w.IsWhole ∨ s.rest ≠ []

section States

variable {w : Window} {s s' : ParserState}

/-- What comes next is the same in both runs. -/
theorem Sees.next (h : Sees w s s') (hinside : Inside w s) :
    s.rest = [] ∧ s'.rest = [] ∧ w.IsWhole ∨
      ∃ token token' rest rest', s.rest = token :: rest ∧ s'.rest = token' :: rest' ∧
        TokenLike w.like token token' := by
  obtain ⟨front, hfront, hall⟩ := h.rest
  cases hrest : s.rest with
  | nil =>
    rw [hrest] at hall
    cases hall
    rcases hinside with hwhole | hne
    · exact .inl ⟨rfl, by rw [hfront, hwhole.1]; rfl, hwhole⟩
    · exact absurd hrest hne
  | cons token rest =>
    rw [hrest] at hall
    cases hall with
    | cons htoken hlater => exact .inr ⟨token, _, rest, _, rfl, hfront, htoken⟩

theorem Sees.kind_eq (h : Sees w s s') (hinside : Inside w s) :
    (s.rest[0]?.map Token.kind).getD .endMarker = (s'.rest[0]?.map Token.kind).getD .endMarker := by
  rcases h.next hinside with ⟨hnil, hnil', _⟩ | ⟨token, token', _, _, hrest, hrest', htoken⟩
  · rw [hnil, hnil']
  · rw [hrest, hrest']
    exact htoken.kind

/-- A token of a logical line is not the last one. -/
theorem Sees.inside_rest (h : Sees w s s') {token : Token} {rest : List Token}
    (hrest : s.rest = token :: rest) (hcontent : token.kind.isLayout = false) :
    w.IsWhole ∨ rest ≠ [] := by
  rcases h.complete with hwhole | hlast
  · exact .inl hwhole
  · refine .inr ?_
    rintro rfl
    have hlayout := hlast token (by simp [hrest])
    rw [hcontent] at hlayout
    cases hlayout

theorem Sees.second_eq (h : Sees w s s') {token : Token} {rest : List Token}
    (hrest : s.rest = token :: rest) (hcontent : token.kind.isLayout = false) :
    (s.rest[1]?.map Token.kind).getD .endMarker = (s'.rest[1]?.map Token.kind).getD .endMarker := by
  have hinside := h.inside_rest hrest hcontent
  obtain ⟨front, hfront, hall⟩ := h.rest
  rw [hrest] at hall ⊢
  cases hall with
  | @cons _ token' _ rest' htoken hlater =>
    rw [hfront]
    cases hlater with
    | nil =>
      rcases hinside with hwhole | hne
      · rw [hwhole.1]
        rfl
      · exact absurd rfl hne
    | cons hsecond _ => exact hsecond.kind

theorem left_eq_after {s : ParserState} {token : Token} {rest : List Token}
    (h : s.rest = token :: rest) : s.left - 1 = rest.length := by
  rw [s.left_eq, h, List.length_cons, Nat.add_sub_cancel]

/-- The state after a token. -/
def after (s : ParserState) (token : Token) (rest : List Token) (h : s.rest = token :: rest) :
    ParserState :=
  { s with
    rest
    left := s.left - 1
    lastStop := token.span.stop
    left_eq := left_eq_after h }

theorem advance_eq {token : Token} {rest : List Token} (h : s.rest = token :: rest)
    (ending : Ending) : advance ending s = .ok () (after s token rest h) := by
  unfold advance
  split
  · next found others hfound =>
    rw [h] at hfound
    cases hfound
    rfl
  · next hnil =>
    rw [h] at hnil
    cases hnil

/-- Both runs take a token. -/
theorem Sees.after (h : Sees w s s') {token token' : Token} {rest rest' : List Token}
    (hrest : s.rest = token :: rest) (hrest' : s'.rest = token' :: rest') :
    TokenLike w.like token token' ∧
      Sees w (after s token rest hrest) (after s' token' rest' hrest') := by
  obtain ⟨front, hfront, hall⟩ := h.rest
  rw [hrest] at hall
  cases hall with
  | @cons _ _ _ front htoken hlater =>
    rw [hfront, List.cons_append] at hrest'
    cases hrest'
    refine ⟨htoken, ⟨front, rfl, hlater⟩, ?_, h.depth, h.inPattern, htoken.stop⟩
    refine h.complete.imp_right fun hlast last hmem => hlast last ?_
    rw [hrest]
    cases rest with
    | nil => cases hmem
    | cons second rest => rwa [List.getLast?_cons_cons]

theorem Sees.here (h : Sees w s s') :
    w.like.place
      (match s.rest with
        | token :: _ => token.span.start
        | [] => w.ending.position)
      (match s'.rest with
        | token :: _ => token.span.start
        | [] => w.ending'.position) := by
  rcases w.fair with ⟨htail, hending⟩ | ⟨_, hplace, _⟩
  · rcases h.next (.inl ⟨htail, hending⟩) with
      ⟨hnil, hnil', _⟩ | ⟨_, _, _, _, hrest, hrest', htoken⟩
    · rw [hnil, hnil']
      exact hending.position
    · rw [hrest, hrest']
      exact htoken.start
  · exact hplace _ _

end States

/-! ## Outcomes -/

/-- How the outcomes of two runs go together; `within` says that the end of a line must not have
been reached. -/
inductive Meets (w : Window) (within : Bool) [Compared α] : Outcome α → Outcome α → Prop
  | ok {a b : α} {s s' : ParserState} (h : rel w.like a b) (sees : Sees w s s')
    (inside : within = true → Inside w s) : Meets w within (.ok a s) (.ok b s')
  | fail {a b : ParseError} {s s' : ParserState} (h : w.strict = true → ErrorLike w.like a b) :
    Meets w within (.fail a s) (.fail b s')
  /-- Where a line has ended a failure of the first run may be a success of the second. -/
  | lost {error : ParseError} {s : ParserState} {outcome : Outcome α} (end_of_line : within = false)
    (h : w.strict = false) : Meets w within (.fail error s) outcome

/-- Two parsers whose runs go together. If `before` holds they have to be run within a line, and if
`within` holds they stay there; the next tokens are known to be of the kinds `known`. -/
class Pairs (w : Window) (known : List TokenKind) (before within : Bool) [Compared α]
    (p q : Parser α) : Prop where
  run : ∀ {s s'}, Sees w s s' → Knows known s.rest → (before = true → Inside w s) →
    Meets w within (p w.ending s) (q w.ending' s')

/-- Two parsers that only look at what comes next and see the same. -/
class Views (w : Window) (before : Bool) [Compared α] (p q : Parser α) : Prop where
  run : ∀ {s s'}, Sees w s s' → (before = true → Inside w s) →
    ∃ a b, p w.ending s = .ok a s ∧ q w.ending' s' = .ok b s' ∧ rel w.like a b

/-- A kind of token that stands inside a logical line. -/
class Content (kind : TokenKind) : Prop where
  isLayout_eq : kind.isLayout = false
  ne_end : kind ≠ .endMarker

class ClauseWord (kind : TokenKind) : Prop where
  eq : isClauseWord kind = true

section Sequences

variable {w : Window} {known : List TokenKind} {before within : Bool} {α β γ : Type} [Compared α]
  [Compared β] [Compared γ]

omit [Compared α] [Compared β] [Compared γ] in
theorem bind_assoc_eq (p : Parser α) (f : α → Parser β) (g : β → Parser γ) :
    (p >>= f) >>= g = p >>= fun a => f a >>= g :=
  funext fun ending => funext fun state => ParserLaw.bind_assoc p f g ending state

theorem Pairs.weaken {p q : Parser α} (h : Pairs w [] before within p q) :
    Pairs w known before within p q := ⟨fun hsees _ hinside => h.run hsees trivial hinside⟩

theorem pairs_bind {mid : Bool} {p q : Parser α} {f g : α → Parser β}
    (hp : Pairs w known before mid p q) (hmid : mid = false → within = false)
    (hf : ∀ a b, rel w.like a b → Pairs w [] mid within (f a) (g b)) :
    Pairs w known before within (p >>= f) (q >>= g) := by
  constructor
  intro s s' hsees hknown hinside
  have hmeets := hp.run hsees hknown hinside
  rw [ParserLaw.bind_eq, ParserLaw.bind_eq]
  generalize p w.ending s = first at hmeets
  generalize q w.ending' s' = second at hmeets
  cases hmeets with
  | ok h hnext hin => exact (hf _ _ h).run hnext trivial hin
  | fail h => exact .fail h
  | lost hend h => exact .lost (hmid hend) h

theorem pairs_bind_views {p q : Parser α} {f g : α → Parser β} (hp : Views w before p q)
    (hf : ∀ a : Couple w.like α, Pairs w known before within (f a.first) (g a.second)) :
    Pairs w known before within (p >>= f) (q >>= g) := by
  constructor
  intro s s' hsees hknown hinside
  obtain ⟨a, b, hfirst, hsecond, h⟩ := hp.run hsees hinside
  rw [ParserLaw.bind_eq, ParserLaw.bind_eq, hfirst, hsecond]
  exact (hf ⟨a, b, h⟩).run hsees hknown hinside

instance (priority := high) (p q : Parser α) [Loose α] (f g : α → Parser β)
    [hp : Views w before p q]
    [hf : ∀ a : Couple w.like α, Pairs w known before within (f a.first) (g a.second)] :
    Pairs w known before within (p >>= f) (q >>= g) :=
  pairs_bind_views hp hf

theorem pairs_bind_within {p q : Parser α} {f g : α → Parser β} (hp : Pairs w known before true p q)
    (hf : ∀ a : Couple w.like α, Pairs w [] true within (f a.first) (g a.second)) :
    Pairs w known before within (p >>= f) (q >>= g) :=
  pairs_bind hp nofun fun a b h => hf ⟨a, b, h⟩

instance (p q : Parser α) [Loose α] (f g : α → Parser β) [hp : Pairs w known before true p q]
    [hf : ∀ a : Couple w.like α, Pairs w [] true within (f a.first) (g a.second)] :
    Pairs w known before within (p >>= f) (q >>= g) := pairs_bind_within hp hf

/-- After what may have ended its line nothing can rely on being within one. -/
theorem pairs_bind_past {p q : Parser α} {f g : α → Parser β} (hp : Pairs w known before false p q)
    (hf : ∀ a : Couple w.like α, Pairs w [] false false (f a.first) (g a.second)) :
    Pairs w known before false (p >>= f) (q >>= g) :=
  pairs_bind hp (fun _ => rfl) fun a b h => hf ⟨a, b, h⟩

instance (priority := low) (p q : Parser α) [Loose α] (f g : α → Parser β)
    [hp : Pairs w known before false p q]
    [hf : ∀ a : Couple w.like α, Pairs w [] false false (f a.first) (g a.second)] :
    Pairs w known before false (p >>= f) (q >>= g) := pairs_bind_past hp hf

variable {ε : Type} [Exact ε]

/-- What is only looked at is the same in both runs. -/
theorem pairs_bind_glance {p q : Parser ε} {f g : ε → Parser β} (hp : Views w before p q)
    (hf : ∀ c, Pairs w known before within (f c) (g c)) :
    Pairs w known before within (p >>= f) (q >>= g) :=
  pairs_bind_views hp fun ⟨_, c, h⟩ => h ▸ hf c

instance (priority := high) (p q : Parser ε) (f g : ε → Parser β) [hp : Views w before p q]
    [hf : ∀ c, Pairs w known before within (f c) (g c)] :
    Pairs w known before within (p >>= f) (q >>= g) := pairs_bind_glance hp hf

theorem pairs_bind_same {p q : Parser ε} {f g : ε → Parser β} (hp : Pairs w known before true p q)
    (hf : ∀ c, Pairs w [] true within (f c) (g c)) :
    Pairs w known before within (p >>= f) (q >>= g) :=
  pairs_bind hp nofun fun _ b h => h ▸ hf b

instance (p q : Parser ε) (f g : ε → Parser β) [hp : Pairs w known before true p q]
    [hf : ∀ c, Pairs w [] true within (f c) (g c)] :
    Pairs w known before within (p >>= f) (q >>= g) := pairs_bind_same hp hf

instance (priority := high) (p q : Parser Unit) (f g : Unit → Parser β)
    [hp : Pairs w known before true p q] [hf : Pairs w [] true within (f ()) (g ())] :
    Pairs w known before within (p >>= f) (q >>= g) := pairs_bind_same hp fun _ => hf

theorem pairs_test {p q : Parser Bool} {r r' t t' : Parser β} (hp : Views w before p q)
    (hr : Pairs w known before within r t) (hr' : Pairs w known before within r' t') :
    Pairs w known before within (p >>= fun found => if found = true then r else r')
      (q >>= fun found => if found = true then t else t') := by
  refine pairs_bind_glance hp fun found => ?_
  split
  · exact hr
  · exact hr'

instance (priority := high) (p q : Parser Bool) (r r' t t' : Parser β) [hp : Views w before p q]
    [hr : Pairs w known before within r t] [hr' : Pairs w known before within r' t'] :
    Pairs w known before within (p >>= fun found => if found = true then r else r')
      (q >>= fun found => if found = true then t else t') := pairs_test hp hr hr'

instance (priority := low) (p q : Parser ε) (f g : ε → Parser β)
    [hp : Pairs w known before false p q] [hf : ∀ c, Pairs w [] false false (f c) (g c)] :
    Pairs w known before false (p >>= f) (q >>= g) :=
  pairs_bind hp (fun _ => rfl) fun _ b h => h ▸ hf b

instance (c : Prop) [Decidable c] (p p' q q' : Parser α) [hp : Pairs w known before within p q]
    [hp' : Pairs w known before within p' q'] :
    Pairs w known before within (if c then p else p') (if c then q else q') := by
  split
  · exact hp
  · exact hp'

instance (priority := low) (b c : Bool) [h : Alike w.like b c] (p p' q q' : Parser α)
    [hp : Pairs w known before within p q] [hp' : Pairs w known before within p' q'] :
    Pairs w known before within (if b = true then p else p') (if c = true then q else q') := by
  obtain rfl : b = c := h.rel
  infer_instance

instance (p q : Parser α) [Pairs w known before within (p >>= fun a => pure (some a))
    (q >>= fun a => pure (some a))] : Pairs w known before within (some <$> p) (some <$> q) :=
  inferInstanceAs (Pairs w known before within (p >>= fun a => pure (some a))
    (q >>= fun a => pure (some a)))

instance (p q : Parser Bool) [Pairs w known before within (p >>= fun _ => pure ())
    (q >>= fun _ => pure ())] : Pairs w known before within (discard p) (discard q) :=
  inferInstanceAs (Pairs w known before within (p >>= fun _ => pure ()) (q >>= fun _ => pure ()))

theorem pairs_of_views {p q : Parser α} (h : Views w before p q)
    (hwithin : within = true → before = true) : Pairs w known before within p q := by
  constructor
  intro s s' hsees _ hinside
  obtain ⟨a, b, hfirst, hsecond, h⟩ := h.run hsees hinside
  rw [hfirst, hsecond]
  exact .ok h hsees fun hin => hinside (hwithin hin)

instance (priority := low) (p q : Parser α) [h : Views w true p q] :
    Pairs w known true within p q :=
  pairs_of_views h fun _ => rfl

instance (priority := low) (p q : Parser α) [h : Views w false p q] :
    Pairs w known false false p q :=
  pairs_of_views h id

end Sequences

/-! ## Looking at tokens -/

section Views

variable {w : Window} {known : List TokenKind} {before within : Bool} {α β : Type} [Compared α]
  [Compared β]

theorem views_bind {p q : Parser α} {f g : α → Parser β} (hp : Views w before p q)
    (hf : ∀ a b, rel w.like a b → Views w before (f a) (g b)) :
    Views w before (p >>= f) (q >>= g) := by
  constructor
  intro s s' hsees hinside
  obtain ⟨a, b, hfirst, hsecond, h⟩ := hp.run hsees hinside
  obtain ⟨c, d, hthird, hfourth, hlast⟩ := (hf a b h).run hsees hinside
  refine ⟨c, d, ?_, ?_, hlast⟩
  · rw [ParserLaw.bind_eq, hfirst]
    exact hthird
  · rw [ParserLaw.bind_eq, hsecond]
    exact hfourth

instance {ε : Type} [Exact ε] (p q : Parser ε) (f g : ε → Parser β) [hp : Views w before p q]
    [hf : ∀ c, Views w before (f c) (g c)] : Views w before (p >>= f) (q >>= g) :=
  views_bind hp fun _ b h => h ▸ hf b

instance (c : Prop) [Decidable c] (p p' q q' : Parser α) [hp : Views w before p q]
    [hp' : Views w before p' q'] :
    Views w before (if c then p else p') (if c then q else q') := by
  split
  · exact hp
  · exact hp'

instance (a b : α) [h : Alike w.like a b] : Views w before (pure a : Parser α) (pure b) :=
  ⟨fun _ _ => ⟨a, b, rfl, rfl, h.rel⟩⟩

instance : Views w before here here := ⟨fun hsees _ => ⟨_, _, rfl, rfl, hsees.here⟩⟩

instance (a b : Position) [h : Alike w.like a b] : Views w before (spanFrom a) (spanFrom b) :=
  ⟨fun hsees _ => ⟨_, _, rfl, rfl, h.rel, hsees.lastStop⟩⟩

instance : Views w before Parser.inPattern Parser.inPattern :=
  ⟨fun hsees _ => ⟨_, _, rfl, rfl, hsees.inPattern⟩⟩

instance : Views w true peek peek :=
  ⟨fun hsees hinside => ⟨_, _, rfl, rfl, hsees.kind_eq (hinside rfl)⟩⟩

instance (kind : TokenKind) : Views w true (check kind) (check kind) := by
  unfold check
  infer_instance

instance : Views w true atEnd atEnd := by
  constructor
  intro s s' hsees hinside
  refine ⟨_, _, rfl, rfl, ?_⟩
  rcases hsees.next (hinside rfl) with ⟨hnil, hnil', _⟩ | ⟨_, _, _, _, hrest, hrest', _⟩
  · rw [hnil, hnil']
    rfl
  · rw [hrest, hrest']
    rfl

/-- A word that the grammar looks for. -/
class FixedWord (text : String) : Prop where
  mem : text ∈ ["match", "case", "print", "_"]

instance : FixedWord "match" := ⟨by simp⟩

instance : FixedWord "case" := ⟨by simp⟩

instance (text : String) [hword : FixedWord text] :
    Views w true (checkWord text) (checkWord text) := by
  constructor
  intro s s' hsees hinside
  refine ⟨_, _, rfl, rfl, ?_⟩
  rcases hsees.next (hinside rfl) with ⟨hnil, hnil', _⟩ | ⟨token, token', _, _, hrest, hrest', h⟩
  · rw [hnil, hnil']
    rfl
  · rw [hrest, hrest']
    show (token.kind == .name && token.lexeme == text) =
      (token'.kind == .name && token'.lexeme == text)
    rw [← h.kind]
    cases hname : token.kind == .name with
    | false => rfl
    | true =>
      have hlike := h.word
      rw [eq_of_beq hname] at hlike
      have hfixed := w.like.name_fixed hlike text hword.mem
      exact Bool.eq_iff_iff.2 (by simpa using hfixed)

theorem kind_of_checkWord {text : String} {ending : Ending} {state next : ParserState}
    (h : checkWord text ending state = .ok true next) :
    (state.rest[0]?.map Token.kind).getD .endMarker = .name := by
  unfold checkWord at h
  have hword := (Outcome.ok.inj h).1
  cases hrest : state.rest with
  | nil =>
    rw [hrest] at hword
    cases hword
  | cons token rest =>
    rw [hrest] at hword
    exact eq_of_beq (Bool.and_eq_true_iff.1 hword).1

/-- A node is made of what has been read. -/
instance (kind kind' : NodeKind) (a b : Position) (children children' : List Tree)
    [hkind : Alike w.like kind kind'] [h : Alike w.like a b]
    [hchildren : Alike w.like children children'] :
    Views w before (node kind a children) (node kind' b children') :=
  ⟨fun hsees _ => ⟨_, _, rfl, rfl, .node hkind.rel ⟨h.rel, hsees.lastStop⟩ hchildren.rel⟩⟩

/-- What the next token is said to be is known from there on. -/
theorem pairs_bind_peek {f g : TokenKind → Parser β}
    (hf : ∀ kind, Pairs w [kind] true within (f kind) (g kind)) :
    Pairs w known true within (peek >>= f) (peek >>= g) := by
  constructor
  intro s s' hsees _ hinside
  have hkind := hsees.kind_eq (hinside rfl)
  have hrun := (hf _).run hsees ⟨rfl, trivial⟩ hinside
  rw [hkind] at hrun
  rw [ParserLaw.bind_eq, ParserLaw.bind_eq]
  show Meets w within (f _ w.ending s) (g _ w.ending' s')
  rwa [hkind]

theorem pairs_bind_peek_known {kind : TokenKind} {f g : TokenKind → Parser β}
    (hf : Pairs w (kind :: known) true within (f kind) (g kind)) :
    Pairs w (kind :: known) true within (peek >>= f) (peek >>= g) := by
  constructor
  intro s s' hsees hknown hinside
  have hkind := hsees.kind_eq (hinside rfl)
  have hrun := hf.run hsees hknown hinside
  show Meets w within (f _ w.ending s) (g _ w.ending' s')
  rwa [← hkind, hknown.1]

/-- The token after one of the line is seen by both runs. -/
theorem pairs_bind_second {first : TokenKind} [hfirst : Content first] {f g : TokenKind → Parser β}
    (hf : ∀ second, Pairs w [first, second] true within (f second) (g second)) :
    Pairs w (first :: known) true within (peekAt 1 >>= f) (peekAt 1 >>= g) := by
  constructor
  intro s s' hsees hknown hinside
  obtain ⟨token, rest, hrest, htoken, _⟩ := exists_token hknown hfirst.ne_end
  have hsecond := hsees.second_eq hrest (htoken ▸ hfirst.isLayout_eq)
  have hrun := (hf ((s.rest[1]?.map Token.kind).getD .endMarker)).run hsees
    ⟨hknown.1, by rw [List.getElem?_tail], trivial⟩ hinside
  show Meets w within (f _ w.ending s) (g _ w.ending' s')
  rwa [← hsecond]

/-- A token may be looked at in vain. -/
theorem pairs_bind_unseen {n : Nat} {f g : TokenKind → Parser β}
    (hf : ∀ a b, Pairs w known before within (f a) (g b)) :
    Pairs w known before within (peekAt n >>= f) (peekAt n >>= g) :=
  ⟨fun hsees hknown hinside => (hf _ _).run hsees hknown hinside⟩

theorem pairs_bind_check {kind : TokenKind} {f g : Bool → Parser β}
    (htrue : Pairs w [kind] true within (f true) (g true))
    (hfalse : Pairs w known true within (f false) (g false)) :
    Pairs w known true within (check kind >>= f) (check kind >>= g) := by
  constructor
  intro s s' hsees hknown hinside
  have hkind := hsees.kind_eq (hinside rfl)
  show Meets w within (f (_ == kind) w.ending s) (g (_ == kind) w.ending' s')
  rw [← hkind]
  cases hfound : (s.rest[0]?.map Token.kind).getD .endMarker == kind with
  | true => exact htrue.run hsees ⟨eq_of_beq hfound, trivial⟩ hinside
  | false => exact hfalse.run hsees hknown hinside

theorem pairs_bind_checkWord {text : String} [FixedWord text] {f g : Bool → Parser β}
    (htrue : Pairs w [.name] true within (f true) (g true))
    (hfalse : Pairs w known true within (f false) (g false)) :
    Pairs w known true within (checkWord text >>= f) (checkWord text >>= g) := by
  constructor
  intro s s' hsees hknown hinside
  obtain ⟨found, _, hfirst, hsecond, hsame⟩ :=
    (inferInstance : Views w true (checkWord text) (checkWord text)).run hsees hinside
  obtain rfl := hsame
  rw [ParserLaw.bind_eq, ParserLaw.bind_eq, hfirst, hsecond]
  cases found with
  | false => exact hfalse.run hsees hknown hinside
  | true => exact htrue.run hsees ⟨kind_of_checkWord hfirst, trivial⟩ hinside

instance (priority := high) (text : String) [FixedWord text] (p p' q q' : Parser β)
    [hp : Pairs w [.name] true within p q] [hp' : Pairs w known true within p' q'] :
    Pairs w known true within (checkWord text >>= fun found => if found = true then p else p')
      (checkWord text >>= fun found => if found = true then q else q') :=
  pairs_bind_checkWord hp hp'

theorem pairs_check {kind : TokenKind} {p p' q q' : Parser β}
    (hp : Pairs w [kind] true within p q) (hp' : Pairs w known true within p' q') :
    Pairs w known true within (check kind >>= fun found => if found = true then p else p')
      (check kind >>= fun found => if found = true then q else q') := pairs_bind_check hp hp'

instance (priority := high) (kind : TokenKind) (p p' q q' : Parser β)
    [hp : Pairs w [kind] true within p q] [hp' : Pairs w known true within p' q'] :
    Pairs w known true within (check kind >>= fun found => if found = true then p else p')
      (check kind >>= fun found => if found = true then q else q') := pairs_check hp hp'

end Views

/-! ## Taking tokens -/

instance (sign : Operator) : Content (.op sign) := ⟨rfl, nofun⟩

instance (word : Keyword) : Content (.keyword word) := ⟨rfl, nofun⟩

instance : Content .name := ⟨rfl, nofun⟩

instance : Content .number := ⟨rfl, nofun⟩

instance : Content .string := ⟨rfl, nofun⟩

/-- All other kinds are marks of the layout or of the end. -/
theorem content_or_mark (kind : TokenKind) : Content kind ∨
    kind = .newline ∨ kind = .indent ∨ kind = .dedent ∨ kind = .endMarker := by
  cases kind with
  | newline | indent | dedent | endMarker => simp
  | _ => exact .inl ⟨rfl, nofun⟩

instance : ClauseWord (.keyword .elifKw) := ⟨rfl⟩

instance : ClauseWord (.keyword .elseKw) := ⟨rfl⟩

instance : ClauseWord (.keyword .exceptKw) := ⟨rfl⟩

instance : ClauseWord (.keyword .finallyKw) := ⟨rfl⟩

section Tokens

variable {w : Window} {known : List TokenKind} {before within : Bool} {α β : Type} [Compared α]
  [Compared β] {s s' : ParserState}

/-- A token that is known to belong to the line is taken by both runs, which stay within it. -/
theorem Sees.take (h : Sees w s s') {kind : TokenKind} [hkind : Content kind]
    (hknown : Knows (kind :: known) s.rest) (hinside : Inside w s) :
    ∃ token token' rest rest', ∃ hrest : s.rest = token :: rest,
      ∃ hrest' : s'.rest = token' :: rest', WordLike w.like kind token.lexeme token'.lexeme ∧
        Sees w (Pairing.after s token rest hrest) (Pairing.after s' token' rest' hrest') ∧
        Inside w (Pairing.after s token rest hrest) ∧ Knows known rest := by
  obtain ⟨token, rest, hrest, htoken, hlater⟩ := exists_token hknown hkind.ne_end
  rcases h.next hinside with ⟨hnil, _, _⟩ | ⟨_, token', _, rest', hrest₂, hrest', hlike⟩
  · rw [hrest] at hnil
    cases hnil
  · obtain ⟨_, hnext⟩ := h.after hrest hrest'
    rw [hrest] at hrest₂
    cases hrest₂
    exact ⟨token, token', rest, rest', hrest, hrest', htoken ▸ hlike.word, hnext,
      h.inside_rest hrest (htoken ▸ hkind.isLayout_eq), hlater⟩

theorem pairs_bind_advance {kind : TokenKind} [Content kind] {f g : Unit → Parser β}
    (hf : Pairs w known true within (f ()) (g ())) :
    Pairs w (kind :: known) true within (advance >>= f) (advance >>= g) := by
  constructor
  intro s s' hsees hknown hinside
  obtain ⟨token, token', rest, rest', hrest, hrest', _, hnext, hin, hlater⟩ :=
    hsees.take hknown (hinside rfl)
  rw [ParserLaw.bind_eq, ParserLaw.bind_eq, advance_eq hrest, advance_eq hrest']
  exact hf.run hnext hlater fun _ => hin

theorem lexeme_eq {token : Token} {rest : List Token} (h : s.rest = token :: rest)
    (ending : Ending) : lexeme ending s = .ok token.lexeme s := by
  unfold lexeme
  rw [h]
  rfl

theorem word_eq {token : Token} {rest : List Token} (h : s.rest = token :: rest)
    (ending : Ending) : word ending s = .ok token.lexeme (Pairing.after s token rest h) := by
  unfold word
  rw [ParserLaw.bind_eq, lexeme_eq h]
  dsimp only
  rw [ParserLaw.bind_eq, advance_eq h]
  rfl

theorem pairs_bind_word {kind : TokenKind} [Content kind] {f g : String → Parser β}
    (hf : ∀ a b, WordLike w.like kind a b → Pairs w known true within (f a) (g b)) :
    Pairs w (kind :: known) true within (word >>= f) (word >>= g) := by
  constructor
  intro s s' hsees hknown hinside
  obtain ⟨token, token', rest, rest', hrest, hrest', hlike, hnext, hin, hlater⟩ :=
    hsees.take hknown (hinside rfl)
  rw [ParserLaw.bind_eq, ParserLaw.bind_eq, word_eq hrest, word_eq hrest']
  exact (hf _ _ hlike).run hnext hlater fun _ => hin

theorem pairs_bind_lexeme {kind : TokenKind} [Content kind] {f g : String → Parser β}
    (hf : ∀ a b, WordLike w.like kind a b → Pairs w (kind :: known) true within (f a) (g b)) :
    Pairs w (kind :: known) true within (lexeme >>= f) (lexeme >>= g) := by
  constructor
  intro s s' hsees hknown hinside
  obtain ⟨token, token', rest, rest', hrest, hrest', hlike, _⟩ := hsees.take hknown (hinside rfl)
  rw [ParserLaw.bind_eq, ParserLaw.bind_eq, lexeme_eq hrest, lexeme_eq hrest']
  exact (hf _ _ hlike).run hsees hknown hinside

/-- Whether a token is taken is the same in both runs. -/
theorem pairs_bind_eat {kind : TokenKind} [Content kind] {f g : Bool → Parser β}
    (htrue : Pairs w [] true within (f true) (g true))
    (hfalse : Pairs w known true within (f false) (g false)) :
    Pairs w known true within (eat kind >>= f) (eat kind >>= g) := by
  constructor
  intro s s' hsees hknown hinside
  have hkind := hsees.kind_eq (hinside rfl)
  rw [bind_eat_eq, bind_eat_eq, ← hkind]
  cases hfound : (s.rest[0]?.map Token.kind).getD .endMarker == kind with
  | true =>
    rw [if_pos rfl, if_pos rfl]
    have htaken : Pairs w [kind] true within (advance >>= fun _ => f true)
      (advance >>= fun _ => g true) := pairs_bind_advance htrue
    exact htaken.run hsees ⟨eq_of_beq hfound, trivial⟩ hinside
  | false =>
    rw [if_neg nofun, if_neg nofun]
    exact hfalse.run hsees hknown hinside

theorem pairs_bind_eat_known {first kind : TokenKind} [Content kind] {f g : Bool → Parser β}
    (htrue : first = kind → Pairs w known true within (f true) (g true))
    (hfalse : first ≠ kind → Pairs w (first :: known) true within (f false) (g false)) :
    Pairs w (first :: known) true within (eat kind >>= f) (eat kind >>= g) := by
  constructor
  intro s s' hsees hknown hinside
  have hkind := hsees.kind_eq (hinside rfl)
  rw [bind_eat_eq, bind_eat_eq, ← hkind, hknown.1]
  split
  · next hfound =>
    obtain rfl := eq_of_beq hfound
    have htaken : Pairs w (first :: known) true within (advance >>= fun _ => f true)
      (advance >>= fun _ => g true) := pairs_bind_advance (htrue rfl)
    exact htaken.run hsees hknown hinside
  · next hfound => exact (hfalse fun h => hfound (beq_iff_eq.2 h)).run hsees hknown hinside

/-- A keyword that goes on with a statement is never the first token after those of the first
run. -/
theorem Sees.clause_eq (h : Sees w s s') (kind : TokenKind) [hclause : ClauseWord kind] :
    ((s.rest[0]?.map Token.kind).getD .endMarker == kind) =
        ((s'.rest[0]?.map Token.kind).getD .endMarker == kind) ∧
      (((s.rest[0]?.map Token.kind).getD .endMarker == kind) = true → s.rest ≠ []) := by
  have hword := hclause.eq
  have hend : (TokenKind.endMarker == kind) = false :=
    beq_eq_false_iff_ne.2 fun heq => by subst heq; cases hword
  cases hrest : s.rest with
  | cons token rest =>
    have hkind := h.kind_eq (.inr (by simp [hrest]))
    rw [hrest] at hkind
    exact ⟨by rw [hkind], fun _ => List.cons_ne_nil _ _⟩
  | nil =>
    refine ⟨?_, fun htrue => ?_⟩
    · obtain ⟨front, hfront, hall⟩ := h.rest
      rw [hrest] at hall
      cases hall
      rw [hfront, List.nil_append]
      rcases w.fair with ⟨htail, _⟩ | ⟨_, _, hother⟩
      · rw [htail]
      · cases htail : w.tail with
        | nil => rfl
        | cons token tail =>
          have hnot := hother token (by simp [htail])
          have hne : (token.kind == kind) = false :=
            beq_eq_false_iff_ne.2 fun heq => by rw [heq, hword] at hnot; cases hnot
          exact hend.trans hne.symm
    · exact absurd (hend.symm.trans htrue) nofun

instance (kind : TokenKind) [ClauseWord kind] : Views w false (check kind) (check kind) :=
  ⟨fun hsees _ => ⟨_, _, rfl, rfl, (hsees.clause_eq kind).1⟩⟩

theorem pairs_bind_check_clause {kind : TokenKind} [ClauseWord kind] {f g : Bool → Parser β}
    (htrue : Pairs w [kind] true within (f true) (g true))
    (hfalse : Pairs w known false within (f false) (g false)) :
    Pairs w known false within (check kind >>= f) (check kind >>= g) := by
  constructor
  intro s s' hsees hknown _
  obtain ⟨heq, hne⟩ := hsees.clause_eq kind
  show Meets w within (f (_ == kind) w.ending s) (g (_ == kind) w.ending' s')
  rw [← heq]
  cases hfound : (s.rest[0]?.map Token.kind).getD .endMarker == kind with
  | true => exact htrue.run hsees ⟨eq_of_beq hfound, trivial⟩ fun _ => .inr (hne hfound)
  | false => exact hfalse.run hsees hknown nofun

theorem pairs_bind_eat_clause {kind : TokenKind} [ClauseWord kind] [Content kind]
    {f g : Bool → Parser β} (htrue : Pairs w [] true within (f true) (g true))
    (hfalse : Pairs w known false within (f false) (g false)) :
    Pairs w known false within (eat kind >>= f) (eat kind >>= g) := by
  constructor
  intro s s' hsees hknown _
  obtain ⟨heq, hne⟩ := hsees.clause_eq kind
  rw [bind_eat_eq, bind_eat_eq, ← heq]
  cases hfound : (s.rest[0]?.map Token.kind).getD .endMarker == kind with
  | true =>
    rw [if_pos rfl, if_pos rfl]
    have htaken : Pairs w [kind] true within (advance >>= fun _ => f true)
      (advance >>= fun _ => g true) := pairs_bind_advance htrue
    exact htaken.run hsees ⟨eq_of_beq hfound, trivial⟩ fun _ => .inr (hne hfound)
  | false =>
    rw [if_neg nofun, if_neg nofun]
    exact hfalse.run hsees hknown nofun

/-- A mark of the layout that is taken may be the last token. -/
theorem pairs_bind_advance_mark {kind : TokenKind} [hkind : Real kind]
    {f g : Unit → Parser β} (hf : Pairs w [] false within (f ()) (g ())) :
    Pairs w (kind :: known) true within (advance >>= f) (advance >>= g) := by
  constructor
  intro s s' hsees hknown hinside
  obtain ⟨token, rest, hrest, _⟩ := exists_token hknown hkind.ne_end
  rcases hsees.next (hinside rfl) with ⟨hnil, _, _⟩ | ⟨_, token', _, rest', _, hrest', _⟩
  · rw [hrest] at hnil
    cases hnil
  · rw [ParserLaw.bind_eq, ParserLaw.bind_eq, advance_eq hrest, advance_eq hrest']
    exact hf.run (hsees.after hrest hrest').2 trivial nofun

/-- A mark of the layout may be the last token. -/
theorem pairs_bind_eat_mark {kind : TokenKind} [Real kind] {f g : Bool → Parser β}
    (htrue : Pairs w [] false within (f true) (g true))
    (hfalse : Pairs w known true within (f false) (g false)) :
    Pairs w known true within (eat kind >>= f) (eat kind >>= g) := by
  constructor
  intro s s' hsees hknown hinside
  have heq := hsees.kind_eq (hinside rfl)
  rw [bind_eat_eq, bind_eat_eq, ← heq]
  cases hfound : (s.rest[0]?.map Token.kind).getD .endMarker == kind with
  | true =>
    rw [if_pos rfl, if_pos rfl]
    have htaken : Pairs w [kind] true within (advance >>= fun _ => f true)
      (advance >>= fun _ => g true) := pairs_bind_advance_mark htrue
    exact htaken.run hsees ⟨eq_of_beq hfound, trivial⟩ hinside
  | false =>
    rw [if_neg nofun, if_neg nofun]
    exact hfalse.run hsees hknown hinside

/-- What comes after a mark of the layout may need no more tokens. -/
theorem pairs_eat_mark {kind : TokenKind} [Real kind] {p p' q q' : Parser β}
    (hp : Pairs w [] false within p q) (hp' : Pairs w known true within p' q') :
    Pairs w known true within (eat kind >>= fun found => if found = true then p else p')
      (eat kind >>= fun found => if found = true then q else q') := pairs_bind_eat_mark hp hp'

instance (priority := high) (kind : TokenKind) [Content kind] (f g : Unit → Parser β)
    [hf : Pairs w known true within (f ()) (g ())] :
    Pairs w (kind :: known) true within (advance >>= f) (advance >>= g) := pairs_bind_advance hf

instance (priority := high) (f g : String → Parser β)
    [hf : ∀ a : Couple w.like String, Pairs w known true within (f a.first) (g a.second)] :
    Pairs w (.name :: known) true within (word >>= f) (word >>= g) :=
  pairs_bind_word fun a b h => hf ⟨a, b, h⟩

instance : Pairs w (.name :: known) true true word word := by
  constructor
  intro s s' hsees hknown hinside
  obtain ⟨token, token', rest, rest', hrest, hrest', hlike, hnext, hin, _⟩ :=
    hsees.take hknown (hinside rfl)
  rw [word_eq hrest, word_eq hrest']
  exact .ok hlike hnext fun _ => hin

theorem pairs_eat {kind : TokenKind} [Content kind] {p p' q q' : Parser β}
    (hp : Pairs w [] true within p q) (hp' : Pairs w known true within p' q') :
    Pairs w known true within (eat kind >>= fun found => if found = true then p else p')
      (eat kind >>= fun found => if found = true then q else q') := pairs_bind_eat hp hp'

instance (priority := high) (kind : TokenKind) [Content kind] (p p' q q' : Parser β)
    [hp : Pairs w [] true within p q] [hp' : Pairs w known true within p' q'] :
    Pairs w known true within (eat kind >>= fun found => if found = true then p else p')
      (eat kind >>= fun found => if found = true then q else q') := pairs_eat hp hp'

instance (priority := high) (kind : TokenKind) [ClauseWord kind] (p p' q q' : Parser β)
    [hp : Pairs w [kind] true within p q] [hp' : Pairs w known false within p' q'] :
    Pairs w known false within (check kind >>= fun found => if found = true then p else p')
      (check kind >>= fun found => if found = true then q else q') :=
  pairs_bind_check_clause hp hp'

instance (priority := high) (kind : TokenKind) [ClauseWord kind] [Content kind]
    (p p' q q' : Parser β) [hp : Pairs w [] true within p q]
    [hp' : Pairs w known false within p' q'] :
    Pairs w known false within (eat kind >>= fun found => if found = true then p else p')
      (eat kind >>= fun found => if found = true then q else q') := pairs_bind_eat_clause hp hp'

instance (kind : TokenKind) [Content kind] : Pairs w known true true (eat kind) (eat kind) := by
  unfold eat
  infer_instance

/-! ## Faults -/

class FaultAlike (like : Likeness) (a b : GrammarFault) : Prop where
  rel : FaultLike like a b

instance (like : Likeness) (fault : GrammarFault) : FaultAlike like fault fault := ⟨.same fault⟩

/-- Lines that count as the same. -/
class LineAlike (like : Likeness) (m n : Nat) : Prop where
  rel : like.line m n

instance (like : Likeness) (a b : Position) [h : Alike like a b] : LineAlike like a.line b.line :=
  ⟨like.line_of_place h.rel⟩

instance (like : Likeness) (construct : Construct) (m n : Nat) [h : LineAlike like m n] :
    FaultAlike like (.missingIndentedBlock construct m) (.missingIndentedBlock construct n) :=
  ⟨.missingIndentedBlock construct h.rel⟩

omit [Compared α] in
theorem exists_failAt (fault : GrammarFault) (position : Position) (ending : Ending)
    (state : ParserState) :
    ∃ error, (failAt fault position : Parser α) ending state = .fail error state := by
  unfold failAt
  split <;> exact ⟨_, rfl⟩

theorem pairs_failAt {a b : GrammarFault} {p q : Position} (hfault : FaultLike w.like a b)
    (hplace : w.like.place p q) :
    Pairs w known before within (failAt a p : Parser α) (failAt b q) := by
  constructor
  intro s s' hsees _ _
  cases hstrict : w.strict with
  | false =>
    obtain ⟨error, h⟩ := exists_failAt (α := α) a p w.ending s
    obtain ⟨error', h'⟩ := exists_failAt (α := α) b q w.ending' s'
    rw [h, h']
    exact .fail fun h => absurd (hstrict.symm.trans h) nofun
  | true =>
    have hwhole := Window.isWhole_of_strict hstrict
    have hfault' := hwhole.2.fault
    unfold failAt
    rcases hsees.next (.inl hwhole) with ⟨hnil, hnil', _⟩ | ⟨_, _, _, _, hrest, hrest', _⟩
    · rw [hnil, hnil']
      generalize w.ending.fault = lexical at hfault'
      generalize w.ending'.fault = lexical' at hfault'
      cases hfault' with
      | none => exact .fail fun _ => ⟨hfault, hplace⟩
      | some h => exact .fail fun _ => ⟨.lexical h, hwhole.2.position⟩
    · rw [hrest, hrest']
      exact .fail fun _ => ⟨hfault, hplace⟩

instance (a b : GrammarFault) [hfault : FaultAlike w.like a b] (p q : Position)
    [hplace : Alike w.like p q] :
    Pairs w known before within (failAt a p : Parser α) (failAt b q) :=
  pairs_failAt hfault.rel hplace.rel

instance (a b : GrammarFault) [hfault : FaultAlike w.like a b] :
    Pairs w known before within (failHere a : Parser α) (failHere b) := by
  unfold failHere
  exact pairs_bind_views (inferInstance : Views w before here here) fun place =>
    pairs_failAt hfault.rel place.rel

instance (kind : TokenKind) [Content kind] :
    Pairs w known true true (expect kind) (expect kind) := by
  unfold expect
  infer_instance

instance (kind : TokenKind) [Content kind] :
    Pairs w known true true (require kind) (require kind) := by
  unfold require
  infer_instance

instance : Pairs w known true true expectName expectName := by
  unfold expectName
  infer_instance

/-- A required mark of the layout may be the last token. -/
theorem pairs_require_mark {kind : TokenKind} [Real kind] :
    Pairs w known true false (require kind) (require kind) := by
  unfold require
  refine pairs_bind_eat_mark ?_ ?_
  · exact inferInstanceAs (Pairs w [] false false (pure ()) (pure ()))
  · exact inferInstanceAs (Pairs w known true false (failHere .invalidSyntax : Parser Unit)
      (failHere .invalidSyntax))

/-- Results that count as the same. -/
class ResultAlike (like : Likeness) [Compared α] (a b : Except ParseError α) : Prop where
  rel : ResultLike like (Compared.rel like) a b

theorem pairs_ofExcept {a b : Except ParseError α} (h : ResultLike w.like (rel w.like) a b) :
    Pairs w known true true (Parser.ofExcept a) (Parser.ofExcept b) := by
  cases h with
  | @ok a b h =>
    have : Alike w.like a b := ⟨h⟩
    exact inferInstanceAs (Pairs w known true true (pure a) (pure b))
  | error h => exact pairs_failAt h.fault h.position

instance (a b : Except ParseError α) [h : ResultAlike w.like a b] :
    Pairs w known true true (Parser.ofExcept a) (Parser.ofExcept b) := pairs_ofExcept h.rel

omit [Compared α] [Compared β] in
theorem failAt_bind (fault : GrammarFault) (position : Position) (f : α → Parser β) :
    failAt fault position >>= f = failAt fault position := by
  funext ending state
  rw [ParserLaw.bind_eq]
  unfold failAt
  cases state.rest <;> cases ending.fault <;> rfl

/-- No token is taken for a result that has been found already. -/
instance (priority := high) (a b : Except ParseError α) [h : ResultAlike w.like a b]
    (f g : α → Parser β)
    [hf : ∀ c : Couple w.like α, Pairs w known true within (f c.first) (g c.second)] :
    Pairs w known true within (Parser.ofExcept a >>= f) (Parser.ofExcept b >>= g) := by
  obtain ⟨h⟩ := h
  cases h with
  | @ok a b h => exact hf ⟨a, b, h⟩
  | error h =>
    unfold Parser.ofExcept
    dsimp only
    rw [failAt_bind, failAt_bind]
    exact pairs_failAt h.fault h.position

end Tokens

/-! ## Control -/

section Control

variable {w : Window} {known : List TokenKind} {before within : Bool} {α σ : Type} [Compared α]
  [Compared σ] {s s' : ParserState}

theorem Sees.withDepth (h : Sees w s s') {m n : Nat} (hdepth : m = n) :
    Sees w { s with depth := m } { s' with depth := n } :=
  ⟨h.rest, h.complete, hdepth, h.inPattern, h.lastStop⟩

theorem Sees.withInPattern (h : Sees w s s') {a b : Bool} (heq : a = b) :
    Sees w { s with inPattern := a } { s' with inPattern := b } :=
  ⟨h.rest, h.complete, h.depth, heq, h.lastStop⟩

theorem pairs_nested {p q : Parser α} (h : Pairs w [] true true p q) :
    Pairs w known true true (nested p) (nested q) := by
  constructor
  intro s s' hsees _ hinside
  unfold nested
  rw [← hsees.depth]
  split
  · have hfail : Pairs w [] true true (failHere .tooDeeplyNested : Parser α)
      (failHere .tooDeeplyNested) := inferInstance
    exact hfail.run hsees trivial hinside
  · have hmeets := h.run (hsees.withDepth (congrArg (· + 1) hsees.depth)) trivial hinside
    rw [hsees.depth] at hmeets ⊢
    generalize p w.ending { s with depth := s'.depth + 1 } = first at hmeets
    generalize q w.ending' { s' with depth := s'.depth + 1 } = second at hmeets
    cases hmeets with
    | ok h hnext hin => exact .ok h (hnext.withDepth (congrArg (· - 1) hnext.depth)) hin
    | fail h => exact .fail h
    | lost hend => cases hend

instance (p q : Parser α) [h : Pairs w [] true true p q] :
    Pairs w known true true (nested p) (nested q) := pairs_nested h

instance (p q : Parser α) [h : Pairs w [] true true p q] :
    Pairs w known true true (withinPattern p) (withinPattern q) := by
  constructor
  intro s s' hsees _ hinside
  unfold withinPattern
  have hmeets := h.run (hsees.withInPattern (rfl : true = true)) trivial hinside
  generalize p w.ending { s with inPattern := true } = first at hmeets
  generalize q w.ending' { s' with inPattern := true } = second at hmeets
  cases hmeets with
  | ok h hnext hin => exact .ok h (hnext.withInPattern hsees.inPattern) hin
  | fail h => exact .fail h
  | lost hend => cases hend

/-- An attempt comes to nothing in both runs or in none. -/
instance (p q : Parser (Option α)) [h : Pairs w known true true p q] :
    Pairs w known true true (speculate p) (speculate q) := by
  constructor
  intro s s' hsees hknown hinside
  unfold speculate
  have hmeets := h.run hsees hknown hinside
  generalize p w.ending s = first at hmeets
  generalize q w.ending' s' = second at hmeets
  cases hmeets with
  | ok h hnext hin =>
    cases h with
    | some h => exact .ok (.some h) hnext hin
    | none => exact .ok .none hsees hinside
  | fail _ => exact .ok .none hsees hinside
  | lost hend => cases hend

/-- After an attempt that comes to something more may be known. -/
theorem pairs_bind_speculate {found : List TokenKind} [Compared β] {p q : Parser (Option α)}
    {f g : Option α → Parser β} (h : Pairs w known true true p q)
    (hfound : ∀ {ending before a after}, p ending before = .ok (some a) after →
      Knows found after.rest)
    (hsome : ∀ a : Couple w.like α,
      Pairs w found true within (f (some a.first)) (g (some a.second)))
    (hnone : Pairs w known true within (f none) (g none)) :
    Pairs w known true within (speculate p >>= f) (speculate q >>= g) := by
  constructor
  intro s s' hsees hknown hinside
  have hmeets := h.run hsees hknown hinside
  rw [ParserLaw.bind_eq, ParserLaw.bind_eq]
  unfold speculate
  cases hfirst : p w.ending s with
  | fail error next =>
    rw [hfirst] at hmeets
    generalize q w.ending' s' = second at hmeets
    cases hmeets with
    | fail _ => exact hnone.run hsees hknown hinside
    | lost hend => cases hend
  | ok a? next =>
    rw [hfirst] at hmeets
    generalize q w.ending' s' = second at hmeets
    cases hmeets with
    | ok h hnext hin =>
      cases h with
      | none => exact hnone.run hsees hknown hinside
      | some h => exact (hsome ⟨_, _, h⟩).run hnext (hfound hfirst) fun _ => hin rfl

theorem Sees.left_eq (h : Sees w s s') : s'.left = s.left + w.tail.length := by
  obtain ⟨front, hfront, hall⟩ := h.rest
  rw [s.left_eq, s'.left_eq, hfront, List.length_append, hall.length_eq]

/-- Loops with rounds enough go on for as long as each other. -/
theorem meets_manyWithin {item item' : Parser (Option α)}
    (hitem : Pairs w [] within within item item')
    (htakes : Takes false item Option.isSome) {fuel fuel' : Nat} (hsees : Sees w s s')
    (hinside : within = true → Inside w s) (hfuel : s.left < fuel) (hfuel' : s'.left < fuel') :
    Meets w within (manyWithin item fuel w.ending s) (manyWithin item' fuel' w.ending' s') := by
  induction fuel generalizing s s' fuel' with
  | zero => exact absurd hfuel (Nat.not_lt_zero _)
  | succ fuel ih =>
    cases fuel' with
    | zero => exact absurd hfuel' (Nat.not_lt_zero _)
    | succ fuel' =>
      have hmeets := hitem.run hsees trivial hinside
      unfold manyWithin
      rw [ParserLaw.bind_eq, ParserLaw.bind_eq]
      cases hfirst : item w.ending s with
      | fail error next =>
        rw [hfirst] at hmeets
        generalize item' w.ending' s' = second at hmeets
        cases hmeets with
        | fail h => exact .fail h
        | lost hend h => exact .lost hend h
      | ok found next =>
        rw [hfirst] at hmeets
        generalize item' w.ending' s' = second at hmeets
        cases hmeets with
        | @ok _ _ _ next' h hnext hin =>
          cases h with
          | none => exact .ok .nil hnext hin
          | some h =>
            have hlt := htakes.run (fun h _ => Bool.false_ne_true h) hfirst rfl
            have hleft := hsees.left_eq
            have hleft' := hnext.left_eq
            have hfuel : next.left < fuel := by omega
            have hfuel' : next'.left < fuel' := by omega
            have hmore := ih hnext hin hfuel hfuel'
            dsimp only
            rw [ParserLaw.bind_eq, ParserLaw.bind_eq]
            generalize manyWithin item fuel w.ending next = rest at hmore
            generalize manyWithin item' fuel' w.ending' next' = rest' at hmore
            cases hmore with
            | ok hlist hlast hin => exact .ok (.cons h hlist) hlast hin
            | fail h => exact .fail h
            | lost hend h => exact .lost hend h

instance (item item' : Parser (Option α)) [hitem : Pairs w [] within within item item']
    [htakes : Takes false item Option.isSome] :
    Pairs w known within within (many item) (many item') :=
  ⟨fun hsees _ hinside =>
    meets_manyWithin hitem htakes hsees hinside (Nat.lt_succ_self _) (Nat.lt_succ_self _)⟩

theorem meets_iterateWithin {step step' : σ → Parser (σ × Bool)}
    (hstep : ∀ a b, rel w.like a b → Pairs w [] within within (step a) (step' b))
    (htakes : ∀ a, Takes false (step a) Prod.snd) {fuel fuel' : Nat} {a b : σ}
    (h : rel w.like a b) (hsees : Sees w s s') (hinside : within = true → Inside w s)
    (hfuel : s.left < fuel) (hfuel' : s'.left < fuel') :
    Meets w within (iterateWithin step fuel a w.ending s)
      (iterateWithin step' fuel' b w.ending' s') := by
  induction fuel generalizing s s' fuel' a b with
  | zero => exact absurd hfuel (Nat.not_lt_zero _)
  | succ fuel ih =>
    cases fuel' with
    | zero => exact absurd hfuel' (Nat.not_lt_zero _)
    | succ fuel' =>
      have hmeets := (hstep a b h).run hsees trivial hinside
      unfold iterateWithin
      rw [ParserLaw.bind_eq, ParserLaw.bind_eq]
      cases hfirst : step a w.ending s with
      | fail error next =>
        rw [hfirst] at hmeets
        generalize step' b w.ending' s' = second at hmeets
        cases hmeets with
        | fail h => exact .fail h
        | lost hend h => exact .lost hend h
      | ok result next =>
        rw [hfirst] at hmeets
        generalize step' b w.ending' s' = second at hmeets
        cases hmeets with
        | @ok _ result' _ next' h hnext hin =>
          obtain ⟨a, again⟩ := result
          obtain ⟨b, again'⟩ := result'
          obtain ⟨h, rfl⟩ : rel w.like a b ∧ again = again' := h
          cases again with
          | false => exact .ok h hnext hin
          | true =>
            have hlt := (htakes _).run (fun h _ => Bool.false_ne_true h) hfirst rfl
            have hleft := hsees.left_eq
            have hleft' := hnext.left_eq
            exact ih h hnext hin (by omega) (by omega)

instance (step step' : σ → Parser (σ × Bool)) (a b : σ) [h : Alike w.like a b]
    [hstep : ∀ a : Couple w.like σ, Pairs w [] within within (step a.first) (step' a.second)]
    [htakes : ∀ a, Takes false (step a) Prod.snd] :
    Pairs w known within within (iterate step a) (iterate step' b) :=
  ⟨fun hsees _ hinside =>
    meets_iterateWithin (fun a b h => hstep ⟨a, b, h⟩) htakes h.rel hsees hinside
      (Nat.lt_succ_self _) (Nat.lt_succ_self _)⟩

instance (stop : Parser Bool) (item item' : Parser α) [Loose α] [Views w true stop stop]
    [Pairs w [] true true item item'] [Derivation.moves.Follows stop]
    [Derivation.moves.Follows item] :
    Pairs w known true true (commaTail stop item) (commaTail stop item') := by
  unfold commaTail
  infer_instance

instance (stop : Parser Bool) (item item' : Parser Tree) [Views w true stop stop]
    [Pairs w [] true true item item'] [Pairs w known true true item item']
    [Derivation.moves.Follows stop] [Derivation.moves.Follows item] :
    Pairs w known true true (tupleOf stop item) (tupleOf stop item') := by
  unfold tupleOf
  infer_instance

end Control

/-! ## Where the tokens of the first run end -/

/-- A parser that fails if no token is left. -/
class Starves (p : Parser α) : Prop where
  run : ∀ {state}, state.rest = [] → ∀ ending, ∃ error next, p ending state = .fail error next

/-- A round that ends a loop if no token is left. -/
class Stops (item : Parser (Option α)) : Prop where
  run : ∀ {state}, state.rest = [] → ∀ ending, item ending state = .ok none state

section Edge

variable {w : Window} {known : List TokenKind} {within : Bool} {α β : Type} {s s' : ParserState}

instance (fault : GrammarFault) : Starves (failHere fault : Parser α) := by
  constructor
  intro state _ ending
  obtain ⟨error, h⟩ := exists_failAt (α := α) fault _ ending state
  exact ⟨error, state, h⟩

instance (p : Parser α) (f : α → Parser β) [hp : Starves p] : Starves (p >>= f) := by
  constructor
  intro state hrest ending
  obtain ⟨error, next, h⟩ := hp.run hrest ending
  exact ⟨error, next, by rw [ParserLaw.bind_eq, h]⟩

instance (n : Nat) (f : TokenKind → Parser α) [hf : Starves (f .endMarker)] :
    Starves (peekAt n >>= f) := by
  constructor
  intro state hrest ending
  show ∃ error next, f ((state.rest[n]?.map Token.kind).getD .endMarker) ending state = _
  rw [hrest, List.getElem?_nil]
  exact hf.run hrest ending

instance (f : TokenKind → Parser α) [Starves (f .endMarker)] : Starves (peek >>= f) := by
  unfold peek
  infer_instance

instance (kind : TokenKind) [hkind : Real kind] (f : Bool → Parser α) [hf : Starves (f false)] :
    Starves (eat kind >>= f) := by
  constructor
  intro state hrest ending
  rw [bind_eat_eq, hrest, if_neg (beq_eq_false_iff_ne.2 hkind.ne_end.symm ▸ Bool.false_ne_true)]
  exact hf.run hrest ending

instance (p q : Parser α) [h : Starves q] : Starves (if false = true then p else q) := h

instance (p q : Parser α) [h : Starves p] : Starves (if (!false) = true then p else q) := h

instance (kind : TokenKind) [Real kind] : Starves (require kind) := by
  unfold require
  infer_instance

/-- A sign that would go on with the loop is not found. -/
instance (kind : TokenKind) [hkind : Real kind] (p : Parser (Option α)) :
    Stops (check kind >>= fun found => if found = true then p else pure none) := by
  constructor
  intro state hrest ending
  show (if (_ == kind) = true then p else pure none) ending state = _
  rw [hrest, if_neg (beq_eq_false_iff_ne.2 hkind.ne_end.symm ▸ Bool.false_ne_true)]
  rfl

/-- The lines of a block end where the tokens end. -/
instance (kind : TokenKind) (p : Parser (Option α)) : Stops (do
    if (← check kind) || (← atEnd) then return none else p) := by
  constructor
  intro state hrest ending
  show (if (_ == kind || state.rest.isEmpty) = true then pure none else p) ending state = _
  rw [hrest, List.isEmpty_nil, Bool.or_true, if_pos rfl]
  rfl

theorem manyWithin_bind_eq (item : Parser (Option α)) (fuel : Nat) (k : List α → Parser β)
    (ending : Ending) (state : ParserState) :
    (manyWithin item (fuel + 1) >>= k) ending state =
      match item ending state with
      | .ok (some a) next => (manyWithin item fuel >>= fun as => k (a :: as)) ending next
      | .ok none next => k [] ending next
      | .fail error next => .fail error next := by
  show ((item >>= _) >>= k) ending state = _
  rw [ParserLaw.bind_assoc, ParserLaw.bind_eq]
  cases item ending state with
  | fail error next => rfl
  | ok found next =>
    cases found with
    | none => rfl
    | some a => exact ParserLaw.bind_assoc _ _ _ ending next

theorem starves_manyWithin (item : Parser (Option α)) [hitem : Stops item] (fuel : Nat)
    {k : List α → Parser β} (hk : Starves (k [])) : Starves (manyWithin item fuel >>= k) := by
  constructor
  intro state hrest ending
  cases fuel with
  | zero => exact hk.run hrest ending
  | succ fuel =>
    rw [manyWithin_bind_eq, hitem.run hrest ending]
    exact hk.run hrest ending

instance (item : Parser (Option α)) [Stops item] (k : List α → Parser β) [hk : Starves (k [])] :
    Starves (many item >>= k) :=
  ⟨fun {state} hrest ending => (starves_manyWithin item (state.left + 1) hk).run hrest ending⟩

variable [Compared α] [Compared β]

/-- Where no token is left a parser that fails then says nothing about the second run. -/
theorem meets_of_starves {p q : Parser α} (hp : Starves p)
    (h : Inside w s → Meets w false (p w.ending s) (q w.ending' s')) :
    Meets w false (p w.ending s) (q w.ending' s') := by
  by_cases hinside : Inside w s
  · exact h hinside
  · obtain ⟨hwhole, hrest⟩ := not_or.1 hinside
    obtain ⟨error, next, hfail⟩ := hp.run (not_not.1 hrest) w.ending
    rw [hfail]
    rcases w.fair with hfair | ⟨hstrict, _⟩
    · exact absurd hfair hwhole
    · exact .lost rfl hstrict

theorem pairs_of_starves {p q : Parser α} [hp : Starves p] (h : Pairs w known true false p q) :
    Pairs w known false false p q :=
  ⟨fun hsees hknown _ => meets_of_starves hp fun hinside => h.run hsees hknown fun _ => hinside⟩

theorem Pairs.inside {p q : Parser α} (h : Pairs w known false within p q) :
    Pairs w known true within p q := ⟨fun hsees hknown _ => h.run hsees hknown nofun⟩

/-- A loop whose rounds may end a line, if what comes after it needs more tokens. -/
theorem meets_manyWithin_bind {item item' : Parser (Option α)}
    (hitem : Pairs w [] true false item item') (htakes : Takes false item Option.isSome)
    [hstops : Stops item] {k k' : List α → Parser β} (hstarves : ∀ as, Starves (k as))
    (hk : ∀ as : Couple w.like (List α), Pairs w [] false false (k as.first) (k' as.second))
    {fuel fuel' : Nat} (hsees : Sees w s s') (hinside : Inside w s) (hfuel : s.left < fuel)
    (hfuel' : s'.left < fuel') :
    Meets w false ((manyWithin item fuel >>= k) w.ending s)
      ((manyWithin item' fuel' >>= k') w.ending' s') := by
  induction fuel generalizing s s' fuel' k k' with
  | zero => exact absurd hfuel (Nat.not_lt_zero _)
  | succ fuel ih =>
    cases fuel' with
    | zero => exact absurd hfuel' (Nat.not_lt_zero _)
    | succ fuel' =>
      have hmeets := hitem.run hsees trivial fun _ => hinside
      rw [manyWithin_bind_eq, manyWithin_bind_eq]
      cases hfirst : item w.ending s with
      | fail error next =>
        rw [hfirst] at hmeets
        generalize item' w.ending' s' = second at hmeets
        cases hmeets with
        | fail h => exact .fail h
        | lost hend h => exact .lost hend h
      | ok found next =>
        rw [hfirst] at hmeets
        generalize item' w.ending' s' = second at hmeets
        cases hmeets with
        | @ok _ _ _ next' h hnext =>
          cases h with
          | none => exact (hk ⟨[], [], .nil⟩).run hnext trivial nofun
          | @some a b h =>
            have hlt := htakes.run (fun h _ => Bool.false_ne_true h) hfirst rfl
            have hleft := hsees.left_eq
            have hleft' := hnext.left_eq
            have hrest : Starves (manyWithin item fuel >>= fun as => k (a :: as)) :=
              starves_manyWithin item fuel (hstarves [a])
            dsimp only
            refine meets_of_starves hrest fun hinside => ?_
            exact ih (fun as => hstarves (a :: as)) (fun as => hk ⟨_, _, .cons h as.rel⟩) hnext
              hinside (by omega) (by omega)

theorem pairs_many_bind {item item' : Parser (Option α)}
    (hitem : Pairs w [] true false item item') (htakes : Takes false item Option.isSome)
    [hstops : Stops item] {k k' : List α → Parser β} (hstarves : ∀ as, Starves (k as))
    (hk : ∀ as : Couple w.like (List α), Pairs w [] false false (k as.first) (k' as.second)) :
    Pairs w known false false (many item >>= k) (many item' >>= k') := by
  have := hstarves []
  refine pairs_of_starves ⟨fun hsees _ hinside => ?_⟩
  exact meets_manyWithin_bind hitem htakes hstarves hk hsees (hinside rfl) (Nat.lt_succ_self _)
    (Nat.lt_succ_self _)

end Edge

end SnippetLint.Pairing
