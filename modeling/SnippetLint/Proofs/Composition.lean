import SnippetLint.Proofs.Concatenation
import SnippetLint.Proofs.Conservation

/-!
Snippets are parsed one after the other. What the grammar makes of a first snippet it makes of it
too if another one comes after it, since no statement goes on with a token that a snippet can begin
with; and then it starts on the second one with nothing left open. Main statement:
`parsing_is_compositional`.
-/

namespace SnippetLint

/-! ## Trees without places -/

def Alias.unplaced (a : Alias) : Alias := { a with span := .point .start }

/-- A kind of node in which aliases have no places. -/
def NodeKind.unplaced : NodeKind → NodeKind
  | .importStmt names => .importStmt (names.map Alias.unplaced)
  | .importFrom source level names => .importFrom source level (names.map Alias.unplaced)
  | kind => kind

namespace Tree

mutual

/-- A tree of which only the kinds of its nodes are left, with what they store. -/
def unplaced : Tree → Tree
  | node kind _ children => node kind.unplaced (.point .start) (unplacedAll children)

def unplacedAll : List Tree → List Tree
  | [] => []
  | t :: ts => unplaced t :: unplacedAll ts

end

theorem unplacedAll_append (ts us : List Tree) :
    unplacedAll (ts ++ us) = unplacedAll ts ++ unplacedAll us := by
  induction ts with
  | nil => rfl
  | cons t ts ih => rw [List.cons_append, unplacedAll, ih, unplacedAll, List.cons_append]

end Tree

namespace Composition
open SnippetLint.Parser SnippetLint.Likeness SnippetLint.Pairing SnippetLint.Progress

theorem fixed_of_eq {a b : String} (h : a = b) :
    ∀ word ∈ ["match", "case", "print", "_"], a = word ↔ b = word := fun _ _ => h ▸ Iff.rfl

theorem isBytes_of_eq {a b : String} (h : a = b) :
    Quotation.isBytes a.toList = Quotation.isBytes b.toList := congrArg _ (congrArg _ h)

theorem intercalate_of_eq (separator : String) {as bs : List String} (h : List.Forall₂ Eq as bs) :
    separator.intercalate as = separator.intercalate bs :=
  congrArg _ (List.forall₂_eq_eq_eq ▸ h)

/-- All places count as the same, and so do the lines that faults name; names and texts have to be
equal. -/
def placeless : Likeness where
  place _ _ := True
  line _ _ := True
  name := Eq
  literal := Eq
  text := Eq
  lexical a b := b.unlined = a.unlined
  line_of_place _ := trivial
  name_fixed := @fixed_of_eq
  name_star := rfl
  name_dotted := @intercalate_of_eq "."
  literal_isBytes := @isBytes_of_eq
  text_joined := @intercalate_of_eq " "

theorem eq_of_rel {a b : Option String} (h : Option.Rel Eq a b) : a = b := by
  cases h with
  | some h => rw [h]
  | none => rfl

theorem unplaced_aliases {as bs : List Alias} (h : List.Forall₂ (AliasLike placeless) as bs) :
    bs.map Alias.unplaced = as.map Alias.unplaced := by
  induction h with
  | nil => rfl
  | @cons a b as bs halias _ ih =>
    have hname : a.name = b.name := halias.name
    have hasName : a.asName = b.asName := eq_of_rel halias.asName
    rw [List.map_cons, List.map_cons, ih, Alias.unplaced, Alias.unplaced, hname, hasName]

theorem unplaced_kind {k k' : NodeKind} (h : KindLike placeless k k') :
    k'.unplaced = k.unplaced := by
  cases h with
  | plain => rfl
  | functionDef h | classDef h | parameter h | typeParam h | matchAs h | string h | attr h
  | name h =>
    obtain rfl : _ = _ := h
    rfl
  | exceptHandler h | keyword h =>
    obtain rfl := eq_of_rel h
    rfl
  | globalStmt h | nonlocalStmt h =>
    obtain rfl : _ = _ := List.forall₂_eq_eq_eq ▸ h
    rfl
  | importStmt h => exact congrArg NodeKind.importStmt (unplaced_aliases h)
  | importFrom hsource level h =>
    obtain rfl := eq_of_rel hsource
    exact congrArg (NodeKind.importFrom _ level) (unplaced_aliases h)

mutual

theorem unplaced_tree : ∀ {t u : Tree}, TreeLike placeless t u → u.unplaced = t.unplaced
  | .node kind _ children, .node kind' _ children', h => by
    cases h with
    | node hkind _ hchildren =>
      rw [Tree.unplaced, Tree.unplaced, unplaced_kind hkind, unplaced_trees hchildren]

theorem unplaced_trees : ∀ {ts us : List Tree}, List.Forall₂ (TreeLike placeless) ts us →
    Tree.unplacedAll us = Tree.unplacedAll ts
  | [], [], _ => rfl
  | t :: ts, u :: us, h => by
    cases h with
    | cons hfirst hrest =>
      rw [Tree.unplacedAll, Tree.unplacedAll, unplaced_tree hfirst, unplaced_trees hrest]

end

theorem tokenLike_of_same {a b : Token} (h : Lexer.SameToken a b) : TokenLike placeless a b := by
  refine ⟨h.kind.symm, ?_, trivial, trivial⟩
  cases a.kind <;> first | exact h.lexeme.symm | trivial

/-! ## Where no statement begins -/

/-- A parser that does not succeed where a token of this kind comes next. -/
structure Refuses (kind : TokenKind) (p : Parser α) : Prop where
  run : ∀ {ending before a after}, Knows [kind] before.rest → p ending before ≠ .ok a after

section Refuses

variable {kind : TokenKind} {α β : Type} {p : Parser α} {f : α → Parser β}

theorem refuses_failHere (fault : GrammarFault) : Refuses kind (failHere fault : Parser α) :=
  ⟨fun _ => failHere_ne_ok⟩

theorem Refuses.bind (h : Refuses kind p) : Refuses kind (p >>= f) := by
  constructor
  intro ending before b after hknown hok
  obtain ⟨a, mid, hfirst, _⟩ := ParserLaw.bind_eq_ok hok
  exact h.run hknown hfirst

/-- Where a parser has only looked at what comes next, what refuses it is the one after it. -/
theorem refuses_bind_view (hview : ∀ {ending before a after}, p ending before = .ok a after →
    after = before) (hf : ∀ a, Refuses kind (f a)) : Refuses kind (p >>= f) := by
  constructor
  intro ending before b after hknown hok
  obtain ⟨a, mid, hfirst, hrest⟩ := ParserLaw.bind_eq_ok hok
  obtain rfl := hview hfirst
  exact (hf a).run hknown hrest

theorem refuses_bind_here {f : Position → Parser β} (hf : ∀ position, Refuses kind (f position)) :
    Refuses kind (here >>= f) :=
  refuses_bind_view (fun h => (Outcome.ok.inj h).2.symm) hf

theorem refuses_bind_peek {f : TokenKind → Parser β} (hf : Refuses kind (f kind)) :
    Refuses kind (peek >>= f) := by
  constructor
  intro ending before b after hknown hok
  have hok : f _ ending before = .ok b after := hok
  rw [hknown.1] at hok
  exact hf.run hknown hok

theorem refuses_bind_check {other : TokenKind} {f : Bool → Parser β}
    (hf : Refuses kind (f (kind == other))) : Refuses kind (check other >>= f) := by
  constructor
  intro ending before b after hknown hok
  have hok : f (_ == other) ending before = .ok b after := hok
  rw [hknown.1] at hok
  exact hf.run hknown hok

theorem refuses_bind_checkWord {text : String} {f : Bool → Parser β} (hkind : kind ≠ .name)
    (hf : Refuses kind (f false)) : Refuses kind (checkWord text >>= f) := by
  constructor
  intro ending before b after hknown hok
  obtain ⟨found, _, hfound, hrest⟩ := ParserLaw.bind_eq_ok hok
  obtain rfl := (Outcome.ok.inj hfound).2
  cases found with
  | false => exact hf.run hknown hrest
  | true => exact hkind (hknown.1.symm.trans (kind_of_checkWord hfound))

theorem Refuses.nested (h : Refuses kind p) : Refuses kind (nested p) := by
  constructor
  intro ending before a after hknown hok
  unfold Parser.nested at hok
  split at hok
  · exact failHere_ne_ok hok
  · split at hok
    · next hp =>
      refine h.run ?_ hp
      exact hknown
    · cases hok

/-- The keywords that go on with a statement. -/
theorem cases_of_isClauseWord (h : isClauseWord kind = true) :
    kind = .keyword .elifKw ∨ kind = .keyword .elseKw ∨ kind = .keyword .exceptKw ∨
      kind = .keyword .finallyKw := by
  unfold isClauseWord at h
  split at h <;> simp_all

theorem refuses_atom (h : isClauseWord kind = true) (inner : Level) :
    Refuses kind (Expression.atom inner) := by
  unfold Expression.atom
  refine refuses_bind_peek ?_
  rcases cases_of_isClauseWord h with rfl | rfl | rfl | rfl <;> exact refuses_failHere _

theorem refuses_operation (h : isClauseWord kind = true) (inner : Level) (least : Nat) :
    Refuses kind (Expression.operation inner least) := by
  have hprimary : Refuses kind (Expression.primary inner) := by
    unfold Expression.primary
    exact refuses_bind_here fun _ => (refuses_atom h inner).bind
  have hunary : Refuses kind (Expression.unary inner least) := by
    unfold Expression.unary
    refine refuses_bind_here fun _ => refuses_bind_peek ?_
    rcases cases_of_isClauseWord h with rfl | rfl | rfl | rfl <;> exact hprimary
  unfold Expression.operation
  exact refuses_bind_here fun _ => hunary.bind

theorem refuses_operand (h : isClauseWord kind = true) (room least : Nat) :
    Refuses kind ((Level.within room).operand least) := by
  cases room with
  | zero => exact refuses_failHere _
  | succ room => exact (refuses_operation h _ _).nested

theorem refuses_expression (h : isClauseWord kind = true) (room : Nat) :
    Refuses kind (Level.within room).expression := by
  cases room with
  | zero => exact refuses_failHere _
  | succ room =>
    have hbody : Refuses kind (Expression.disjunction (Level.within room)) :=
      refuses_operand h room 0
    refine Refuses.nested ?_
    unfold Expression.conditional
    refine refuses_bind_check ?_
    rcases cases_of_isClauseWord h with rfl | rfl | rfl | rfl <;>
      exact refuses_bind_here fun _ => hbody.bind

theorem refuses_line (h : isClauseWord kind = true) : Refuses kind Simple.line := by
  have hstar : Refuses kind (Expression.star .top) := by
    unfold Expression.star
    refine refuses_bind_check ?_
    rcases cases_of_isClauseWord h with rfl | rfl | rfl | rfl <;> exact refuses_expression h _
  have hassigned : Refuses kind (Expression.assigned .top) := by
    unfold Expression.assigned Expression.starList tupleOf
    refine refuses_bind_check ?_
    rcases cases_of_isClauseWord h with rfl | rfl | rfl | rfl <;>
      exact refuses_bind_here fun _ => hstar.bind
  have hstatement : Refuses kind Simple.statement := by
    unfold Simple.statement Simple.expressionStmt
    refine refuses_bind_peek ?_
    rcases cases_of_isClauseWord h with rfl | rfl | rfl | rfl <;>
      exact refuses_bind_here fun _ => hassigned.bind
  unfold Simple.line
  exact hstatement.bind

/-- A statement begins neither with an indentation nor with a keyword that goes on with one. -/
theorem refuses_statement (h : kind = .indent ∨ isClauseWord kind = true) (room : Nat) :
    Refuses kind (Compound.statement room) := by
  cases room with
  | zero => exact refuses_failHere .invalidSyntax
  | succ room =>
    show Refuses kind (Compound.statementWith _)
    unfold Compound.statementWith
    refine refuses_bind_here fun _ => refuses_bind_peek ?_
    rcases h with rfl | h
    · exact refuses_failHere _
    · have hline := refuses_line h
      rcases cases_of_isClauseWord h with rfl | rfl | rfl | rfl <;>
        exact refuses_bind_checkWord (by decide) hline

end Refuses

/-! ## One statement after another -/

/-- One round of reading statements. -/
def round (room : Nat) : Parser (Option (List Tree)) := do
  if ← atEnd then return none else return some (← Compound.statement room)

theorem statements_eq (room : Nat) : Module.statements room = do
    let lists ← many (round room)
    return lists.flatten := rfl

theorem cases_of_round {room : Nat} {ending : Ending} {before after : ParserState}
    {found : Option (List Tree)} (h : round room ending before = .ok found after) :
    before.rest = [] ∧ found = none ∧ after = before ∨
      ∃ ts, before.rest ≠ [] ∧ found = some ts ∧
        Compound.statement room ending before = .ok ts after := by
  obtain ⟨ended, _, hend, h⟩ := ParserLaw.bind_eq_ok h
  cases hend
  split at h
  · next hempty =>
    cases h
    exact .inl ⟨List.isEmpty_iff.1 hempty, rfl, rfl⟩
  · next hmore =>
    obtain ⟨ts, _, hstatement, h⟩ := ParserLaw.bind_eq_ok h
    cases h
    exact .inr ⟨ts, fun hnil => hmore (List.isEmpty_iff.2 hnil), rfl, hstatement⟩

/-- Where statements can be read, the first one begins as a statement does. -/
theorem statement_begins {room : Nat} {ending : Ending} {before after : ParserState}
    {ts : List Tree} (h : Module.statements room ending before = .ok ts after) :
    ∀ token ∈ before.rest.head?, token.kind ≠ .indent ∧ isClauseWord token.kind = false := by
  intro token htoken
  obtain ⟨lists, _, hlists, _⟩ := ParserLaw.bind_eq_ok h
  obtain ⟨found, mid, hround, _⟩ := ParserLaw.bind_eq_ok hlists
  obtain ⟨rest, hrest⟩ := List.head?_eq_some_iff.1 htoken
  rcases cases_of_round hround with ⟨hnil, _⟩ | ⟨ts, _, _, hstatement⟩
  · rw [hrest] at hnil
    cases hnil
  · by_contra hnot
    have hbegins : token.kind = .indent ∨ isClauseWord token.kind = true := by
      by_cases hkind : token.kind = .indent
      · exact .inl hkind
      · exact .inr (by simpa [hkind] using hnot)
    refine (refuses_statement hbegins room).run ?_ hstatement
    rw [hrest]
    exact ⟨rfl, trivial⟩

section Rounds

variable {w : Window} {room room' : Nat}

theorem pairs_round (hle : room ≤ room') (hloose : w.strict = false) :
    Pairs w [] true false (round room) (round room') := by
  have := pairs_statement (w := w) hle fun hstrict =>
    absurd (hloose.symm.trans hstrict) Bool.false_ne_true
  unfold round
  infer_instance

/-- What a first run makes of its tokens a second one makes of them too, and it goes on from
there. -/
theorem rounds_first (hle : room ≤ room') (hloose : w.strict = false) {fuel fuel' : Nat}
    {s s' after : ParserState} {lists : List (List Tree)} (hsees : Sees w s s')
    (hfuel' : s'.left < fuel')
    (h : manyWithin (round room) fuel w.ending s = .ok lists after) :
    ∃ (lists' : List (List Tree)) (mid : ParserState) (rounds : Nat), Sees w after mid ∧
      mid.left < rounds ∧ rel w.like lists lists' ∧
      ∀ {more last}, manyWithin (round room') rounds w.ending' mid = .ok more last →
        manyWithin (round room') fuel' w.ending' s' = .ok (lists' ++ more) last := by
  induction fuel generalizing s s' fuel' lists with
  | zero =>
    cases h
    exact ⟨[], s', fuel', hsees, hfuel', .nil, id⟩
  | succ fuel ih =>
    obtain ⟨found, next, hround, hgo⟩ := ParserLaw.bind_eq_ok h
    rcases cases_of_round hround with ⟨hnil, rfl, rfl⟩ | ⟨ts, hne, rfl, hstatement⟩
    · cases hgo
      exact ⟨[], s', fuel', hsees, hfuel', .nil, id⟩
    · obtain ⟨lists, _, hlists, hgo⟩ := ParserLaw.bind_eq_ok hgo
      cases hgo
      cases fuel' with
      | zero => exact absurd hfuel' (Nat.not_lt_zero _)
      | succ fuel' =>
        have hmeets := (pairs_round hle hloose).run hsees trivial fun _ => .inr hne
        rw [hround] at hmeets
        cases hsecond : round room' w.ending' s' with
        | fail error next' =>
          rw [hsecond] at hmeets
          cases hmeets
        | ok found' next' =>
          rw [hsecond] at hmeets
          cases hmeets with
          | ok hfound hnext =>
            cases hfound with
            | some hts =>
              have hlt := left_lt_of_statement hstatement
              have hleft := hsees.left_eq
              have hleft' := hnext.left_eq
              obtain ⟨lists', mid, rounds, hmid, hrounds, hrel, hgo⟩ :=
                ih hnext (by omega : next'.left < fuel') hlists
              refine ⟨_ :: lists', mid, rounds, hmid, hrounds, .cons hts hrel, fun hmore => ?_⟩
              unfold manyWithin
              rw [ParserLaw.bind_eq, hsecond]
              dsimp only
              rw [ParserLaw.bind_eq, hgo hmore]
              rfl

/-- Where nothing comes after the tokens of the first run, the second one gives what it gives. -/
theorem rounds_second (hwhole : w.IsWhole) (hle : room ≤ room') (hloose : w.strict = false)
    {fuel fuel' : Nat} {s s' after : ParserState} {lists : List (List Tree)} (hsees : Sees w s s')
    (hfuel : s.left < fuel) (hfuel' : s'.left < fuel')
    (h : manyWithin (round room) fuel w.ending s = .ok lists after) :
    ∃ lists' last, manyWithin (round room') fuel' w.ending' s' = .ok lists' last ∧
      rel w.like lists lists' := by
  have hpairs : Pairs w [] false false (round room) (round room') :=
    (pairs_round hle hloose).whole hwhole
  have htakes : Takes false (round room) Option.isSome := by
    unfold round
    infer_instance
  have hmeets := meets_manyWithin hpairs htakes hsees
    (fun h => absurd h Bool.false_ne_true) hfuel hfuel'
  rw [h] at hmeets
  generalize manyWithin (round room') fuel' w.ending' s' = second at hmeets ⊢
  cases hmeets with
  | ok hrel => exact ⟨_, _, rfl, hrel⟩

end Rounds

/-! ## Whole snippets -/

theorem ofStream_of_statements {stream : TokenStream} {ts : List Tree} {after : ParserState}
    (herror : stream.error = none)
    (h : Module.statements ((Module.initial stream).left + 1) (Module.endingOf stream)
      (Module.initial stream) = .ok ts after) :
    ∃ span, Module.ofStream stream = .ok (.node .module span ts) := by
  have hfault : (Module.endingOf stream).fault = none := by
    rw [Agreement.fault_endingOf, herror]
    rfl
  have hmodule : ∃ span next, Module.module ((Module.initial stream).left + 1)
      (Module.endingOf stream) (Module.initial stream) = .ok (.node .module span ts) next := by
    unfold Module.module
    rw [hfault, ParserLaw.bind_eq]
    show ∃ span next, (Module.statements _ >>= _) _ _ = Outcome.ok (Tree.node _ span ts) next
    rw [ParserLaw.bind_eq, h]
    exact ⟨_, _, rfl⟩
  obtain ⟨span, next, hmodule⟩ := hmodule
  unfold Module.ofStream
  dsimp only
  rw [hmodule]
  exact ⟨span, rfl⟩

/-- There is room for as many blocks as in each of the streams. -/
theorem room_le {a b both : TokenStream} (h : Joined a b both) :
    (Module.initial a).left + 1 ≤ (Module.initial both).left + 1 ∧
      (Module.initial b).left + 1 ≤ (Module.initial both).left + 1 := by
  obtain ⟨former, later, hboth, hformer, hlater⟩ := h.tokens
  have hleft : (Module.initial both).left = former.length + later.length := by
    rw [← List.length_append, ← hboth]
    rfl
  have hfirst : (Module.initial a).left = former.length := hformer.length_eq
  have hsecond : (Module.initial b).left = later.length := hlater.length_eq
  omega

/-- What begins as statements do goes on with no statement before it. -/
theorem no_clause_first {tokens later : List Token}
    (hfirst : ∀ token ∈ tokens.head?, token.kind ≠ .indent ∧ isClauseWord token.kind = false)
    (hsame : List.Forall₂ Lexer.SameToken tokens later) :
    ∀ token ∈ later.head?, isClauseWord token.kind = false := by
  intro token htoken
  cases hsame with
  | nil => cases htoken
  | cons hsame _ =>
    obtain rfl := Option.some.inj htoken
    rw [hsame.kind]
    exact (hfirst _ rfl).2

theorem endingLike_of_error {a b : TokenStream} (ha : a.error = none) (hb : b.error = none) :
    EndingLike placeless (Module.endingOf a) (Module.endingOf b) := by
  refine ⟨trivial, ?_⟩
  rw [Agreement.fault_endingOf, Agreement.fault_endingOf, ha, hb]
  exact .none

/-- A run that has come to its end in a window has the tokens after the window before it, and
nothing is open. -/
theorem between_of_sees {w : Window} {room : Nat} {ending : Ending} {stream : TokenStream}
    {ts : List Tree} {after mid : ParserState}
    (h : Module.statements room ending (Module.initial stream) = .ok ts after)
    (hsees : Sees w after mid) : mid.rest = w.tail ∧ mid.depth = 0 ∧ mid.inPattern = false := by
  have hmoves : Derivation.Moves (Module.initial stream) after :=
    (inferInstance : Derivation.moves.Follows (Module.statements room)).run h
  refine ⟨?_, hsees.depth.symm.trans hmoves.depth, hsees.inPattern.symm.trans hmoves.inPattern⟩
  obtain ⟨front, hfront, hall⟩ := hsees.rest
  rw [Conservation.rest_eq_nil_of_statements h] at hall
  rw [hfront, List.forall₂_nil_left_iff.1 hall, List.nil_append]

/-- Statements that can be read in two streams can be read where the second one comes after the
first one. -/
theorem statements_joined {a b both : TokenStream} (h : Joined a b both) (hb : b.error = none)
    {room room' : Nat} {ts us : List Tree} {after after' : ParserState}
    (hroom : room ≤ (Module.initial both).left + 1)
    (hroom' : room' ≤ (Module.initial both).left + 1)
    (hts : Module.statements room (Module.endingOf a) (Module.initial a) = .ok ts after)
    (hus : Module.statements room' (Module.endingOf b) (Module.initial b) = .ok us after') :
    ∃ vs last, Module.statements ((Module.initial both).left + 1) (Module.endingOf both)
      (Module.initial both) = .ok vs last ∧
        List.Forall₂ (TreeLike placeless) (ts ++ us) vs := by
  obtain ⟨former, later, hboth, hformer, hlater⟩ := h.tokens
  -- the first snippet is read with the tokens of the second one after it
  let first : Window := ⟨placeless, later, Module.endingOf a, Module.endingOf both, false,
    .inr ⟨rfl, fun _ _ => trivial, no_clause_first (statement_begins hus) hlater⟩⟩
  have hsees : Sees first (Module.initial a) (Module.initial both) :=
    ⟨⟨former, hboth, hformer.imp fun _ _ => tokenLike_of_same⟩, .inr h.closed, rfl, rfl, trivial⟩
  obtain ⟨lists, _, hlists, hflat⟩ := ParserLaw.bind_eq_ok hts
  cases hflat
  obtain ⟨lists', mid, rounds, hmid, hrounds, hrel, hgo⟩ :=
    rounds_first hroom rfl hsees (Nat.lt_succ_self _) hlists
  obtain ⟨hrest, hdepth, hpattern⟩ := between_of_sees hts hmid
  -- from there on nothing of the first snippet is left
  have hending := endingLike_of_error hb h.error
  let second : Window := ⟨placeless, [], Module.endingOf b, Module.endingOf both, false,
    .inl ⟨rfl, hending⟩⟩
  have hwhole : second.IsWhole := ⟨rfl, hending⟩
  have hsees' : Sees second (Module.initial b) mid :=
    ⟨⟨later, hrest.trans (List.append_nil _).symm, hlater.imp fun _ _ => tokenLike_of_same⟩,
      .inl hwhole, hdepth.symm, hpattern.symm, trivial⟩
  obtain ⟨more, _, hmore, hflat⟩ := ParserLaw.bind_eq_ok hus
  cases hflat
  obtain ⟨more', last, hlast, hrel'⟩ :=
    rounds_second hwhole hroom' rfl hsees' (Nat.lt_succ_self _) hrounds hmore
  refine ⟨(lists' ++ more').flatten, last, ?_, ?_⟩
  · rw [statements_eq, ParserLaw.bind_eq]
    unfold many
    rw [hgo hlast]
    rfl
  · rw [List.flatten_append]
    exact List.rel_append (List.rel_flatten hrel) (List.rel_flatten hrel')

/-- **Parsing is compositional.** Two snippets that have trees, the first of which is empty or ends
with a line feed that ends a line, have a tree together. Its children are those of the first tree
and then those of the second one, but for where they stand. -/
theorem parsing_is_compositional {a b : String} {t u : Tree} (hline : a = "" ∨ EndsWithLine a)
    (ha : Module.parse a = .ok t) (hb : Module.parse b = .ok u) :
    ∃ v, Module.parse (a ++ b) = .ok v ∧ v.kind = .module ∧
      Tree.unplacedAll v.children =
        Tree.unplacedAll t.children ++ Tree.unplacedAll u.children := by
  have herror := Agreement.error_eq_none_of_ofStream hb
  obtain ⟨ts, _, _, hts, rfl⟩ := Conservation.statements_of_ofStream ha
  obtain ⟨us, _, _, hus, rfl⟩ := Conservation.statements_of_ofStream hb
  have hindent : ∀ token ∈ (Lexer.seen (TokenStream.ofText b).tokens).head?,
      token.kind ≠ .indent := fun token htoken => (statement_begins hus token htoken).1
  have hjoined := joined_ofText hline (Agreement.error_eq_none_of_ofStream ha) herror hindent
  obtain ⟨hroom, hroom'⟩ := room_le hjoined
  obtain ⟨vs, _, hvs, hall⟩ := statements_joined hjoined herror hroom hroom' hts hus
  obtain ⟨span, hv⟩ := ofStream_of_statements hjoined.error hvs
  refine ⟨_, hv, rfl, ?_⟩
  show Tree.unplacedAll vs = Tree.unplacedAll ts ++ Tree.unplacedAll us
  rw [unplaced_trees hall, Tree.unplacedAll_append]

/-- The block of the first snippet ends before the second one. -/
theorem block_ends_before_next_snippet :
    EndsWithLine "if x:\n  y\n" ∧
    ∃ t u v, Module.parse "if x:\n  y\n" = .ok t ∧ Module.parse "# z\nz\n" = .ok u ∧
      Module.parse ("if x:\n  y\n" ++ "# z\nz\n") = .ok v ∧ v.kind = .module ∧
      Tree.unplacedAll v.children =
        Tree.unplacedAll t.children ++ Tree.unplacedAll u.children := by
  have hline : EndsWithLine "if x:\n  y\n" := by decide +kernel
  have hparses : ∀ source ∈ ["if x:\n  y\n", "# z\nz\n"], (Module.parse source).isOk = true := by
    decide +kernel
  obtain ⟨t, ht⟩ : ∃ t, Module.parse "if x:\n  y\n" = .ok t := by
    have hok := hparses _ List.mem_cons_self
    cases h : Module.parse "if x:\n  y\n" with
    | ok t => exact ⟨t, rfl⟩
    | error error => rw [h] at hok; cases hok
  obtain ⟨u, hu⟩ : ∃ u, Module.parse "# z\nz\n" = .ok u := by
    have hok := hparses _ (List.mem_cons_of_mem _ List.mem_cons_self)
    cases h : Module.parse "# z\nz\n" with
    | ok u => exact ⟨u, rfl⟩
    | error error => rw [h] at hok; cases hok
  obtain ⟨v, hv, hmodule, hchildren⟩ := parsing_is_compositional (.inr hline) ht hu
  exact ⟨hline, t, u, v, ht, hu, hv, hmodule, hchildren⟩

end Composition

end SnippetLint
