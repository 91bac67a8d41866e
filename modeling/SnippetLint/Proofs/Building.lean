import SnippetLint.Proofs.Marking
import SnippetLint.Proofs.ParserLaw

/-!
Builders beside parsers. A builder agrees with a parser if it ends as the parser does and has stored
exactly the trees of the parser's value after what was there before; if both fail, the arena still
starts with what was there before. While a rule goes on, the trees that it has read so far are
stored already, so agreement speaks of two arenas: `base`, after which the value is stored, and
`now`, in which the builder runs.

Agreement is a class, so that what a rule needs is found by going through its text. An attempt is
held to less where it gives nothing, and speculation makes it up: see `speculate_cases`.
-/

namespace SnippetLint

namespace Arena

/-- The second arena starts with the first one. -/
class Grows (a b : Arena) : Prop where
  keeps : a.nodes.toList <+: b.nodes.toList

theorem Grows.trans {a b c : Arena} (hab : Grows a b) (hbc : Grows b c) : Grows a c :=
  ⟨hab.keeps.trans hbc.keeps⟩

instance (arena : Arena) : Grows arena arena := ⟨List.prefix_rfl⟩

theorem grows_push (arena : Arena) (node : Node) : Grows arena (arena.push node) := by
  constructor
  rw [push, Array.toList_push]
  exact List.prefix_append _ _

/-- Cutting an arena back gives what it started with. -/
theorem truncate_of_grows {a b : Arena} (h : Grows a b) : b.truncate a.size = a := by
  obtain ⟨more, hmore⟩ := h.keeps
  have hnodes : (b.nodes.take a.size).toList = a.nodes.toList := by
    rw [Array.take_eq_extract, Array.toList_extract, ← hmore, Arena.size, ← Array.length_toList]
    simp
  rw [truncate, Array.toList_inj.1 hnodes]

mutual

theorem grows_store (arena : Arena) : ∀ t : Tree, Grows arena (arena.store t).1
  | .node _ _ children => (grows_storeAll arena children).trans (grows_push _ _)

theorem grows_storeAll (arena : Arena) : ∀ ts : List Tree, Grows arena (arena.storeAll ts).1
  | [] => inferInstanceAs (Grows arena arena)
  | t :: ts => (grows_store arena t).trans (grows_storeAll _ ts)

end

end Arena

namespace Building
open SnippetLint.Arena (Grows)

/-! ## Storing values -/

/-- Values of a parser whose trees can be stored, which leaves a value with indices. -/
class Storable (β : Type) (α : outParam Type) where
  put : Arena → β → Arena × α
  grows (arena : Arena) (b : β) : Grows arena (put arena b).1

export Storable (put)

instance [Storable β α] (a b : Arena) [h : Grows a b] (x : β) : Grows a (put b x).1 :=
  h.trans (Storable.grows b x)

instance : Storable Tree Nat := ⟨Arena.store, Arena.grows_store⟩

section Put

variable [Storable β α] [Storable δ γ]

def putAll (arena : Arena) : List β → Arena × List α
  | [] => (arena, [])
  | b :: bs =>
    ((putAll (put arena b).1 bs).1, (put arena b).2 :: (putAll (put arena b).1 bs).2)

theorem grows_putAll (arena : Arena) (bs : List β) : Grows arena (putAll arena bs).1 := by
  induction bs generalizing arena with
  | nil => exact inferInstanceAs (Grows arena arena)
  | cons b bs ih => exact (Storable.grows arena b).trans (ih _)

instance : Storable (List β) (List α) := ⟨putAll, grows_putAll⟩

def putOption (arena : Arena) : Option β → Arena × Option α
  | none => (arena, none)
  | some b => ((put arena b).1, some (put arena b).2)

theorem grows_putOption (arena : Arena) (b : Option β) : Grows arena (putOption arena b).1 := by
  cases b with
  | none => exact inferInstanceAs (Grows arena arena)
  | some b => exact Storable.grows arena b

instance : Storable (Option β) (Option α) := ⟨putOption, grows_putOption⟩

instance : Storable (β × Bool) (α × Bool) where
  put arena b := ((put arena b.1).1, (put arena b.1).2, b.2)
  grows arena b := Storable.grows arena b.1

instance : Storable (CompareOp × β) (CompareOp × α) where
  put arena b := ((put arena b.2).1, b.1, (put arena b.2).2)
  grows arena b := Storable.grows arena b.2

/-- Storing a value after `base` leads to the arena `now` and to the value `a`. -/
class Puts (base : Arena) (b : β) (now : outParam Arena) (a : outParam α) : Prop where
  eq : put base b = (now, a)

instance (base : Arena) (b : β) : Puts base b (put base b).1 (put base b).2 := ⟨rfl⟩

instance (base : Arena) : Puts base ([] : List β) base [] := ⟨rfl⟩

instance (base mid now : Arena) (b : β) (bs : List β) (a : α) (as : List α)
    [hb : Puts base b mid a] [hbs : Puts mid bs now as] : Puts base (b :: bs) now (a :: as) := by
  constructor
  have hrest : putAll mid bs = (now, as) := hbs.eq
  show ((putAll (put base b).1 bs).1, (put base b).2 :: (putAll (put base b).1 bs).2) = _
  rw [hb.eq]
  dsimp only
  rw [hrest]

theorem putAll_append (base : Arena) (bs cs : List β) :
    putAll base (bs ++ cs) = ((putAll (putAll base bs).1 cs).1,
      (putAll base bs).2 ++ (putAll (putAll base bs).1 cs).2) := by
  induction bs generalizing base with
  | nil => rfl
  | cons b bs ih =>
    show ((putAll _ (bs ++ cs)).1, _ :: (putAll _ (bs ++ cs)).2) = _
    rw [ih]
    rfl

instance (base mid now : Arena) (bs cs : List β) (as ds : List α)
    [hb : Puts base bs mid as] [hc : Puts mid cs now ds] : Puts base (bs ++ cs) now (as ++ ds) := by
  constructor
  have hfirst : putAll base bs = (mid, as) := hb.eq
  have hrest : putAll mid cs = (now, ds) := hc.eq
  show putAll base (bs ++ cs) = _
  rw [putAll_append, hfirst]
  dsimp only
  rw [hrest]

theorem putAll_flatten (base : Arena) (bss : List (List β)) :
    putAll base bss.flatten = ((put base bss).1, (put base bss).2.flatten) := by
  induction bss generalizing base with
  | nil => rfl
  | cons bs bss ih =>
    show putAll base (bs ++ bss.flatten) = _
    rw [putAll_append, ih]
    rfl

instance (base : Arena) (bss : List (List β)) :
    Puts base bss.flatten (put base bss).1 (put base bss).2.flatten := ⟨putAll_flatten base bss⟩

instance (base now : Arena) (b : β) (a : α) [h : Puts base b now a] :
    Puts base (some b) now (some a) := by
  constructor
  show ((put base b).1, some (put base b).2) = _
  rw [h.eq]

instance (base : Arena) : Puts base (none : Option β) base none := ⟨rfl⟩

instance (base now : Arena) (b : β) (a : α) (flag : Bool) [h : Puts base b now a] :
    Puts base (b, flag) now (a, flag) := by
  constructor
  show ((put base b).1, (put base b).2, flag) = _
  rw [h.eq]

instance (base now : Arena) (op : CompareOp) (b : β) (a : α) [h : Puts base b now a] :
    Puts base (op, b) now (op, a) := by
  constructor
  show ((put base b).1, op, (put base b).2) = _
  rw [h.eq]

/-- As `Puts`, where the arena before the value is read off what has been stored. -/
class PutsFrom (base : outParam Arena) (b : β) (now : Arena) (a : α) : Prop where
  eq : put base b = (now, a)

theorem PutsFrom.now_eq {base now : Arena} {b : β} {a : α} (h : PutsFrom base b now a) :
    now = (put base b).1 ∧ a = (put base b).2 := by
  rw [h.eq]
  exact ⟨rfl, rfl⟩

instance (base : Arena) (b : β) : PutsFrom base b (put base b).1 (put base b).2 := ⟨rfl⟩

instance (base : Arena) : PutsFrom base ([] : List β) base [] := ⟨rfl⟩

instance (base now : Arena) (b : β) (bs : List β) (as : List α)
    [Puts (put base b).1 bs now as] : PutsFrom base (b :: bs) now ((put base b).2 :: as) :=
  ⟨Puts.eq⟩

instance (base now : Arena) (bs cs : List β) (as : List α)
    [Puts (put base bs).1 cs now as] : PutsFrom base (bs ++ cs) now ((put base bs).2 ++ as) :=
  ⟨Puts.eq⟩

end Put

/-! ## Agreement -/

section Agreement

variable [Storable β α] [Storable δ γ]

/-- A builder that began in an arena ends as a parser does. -/
inductive Matches (base : Arena) : Built α → Outcome β → Prop
  | ok (b : β) (next : ParserState) :
    Matches base (.ok (put base b).2 next (put base b).1) (.ok b next)
  | fail (error : ParseError) (next : ParserState) {later : Arena} (h : Grows base later) :
    Matches base (.fail error next later) (.fail error next)

theorem Matches.of_puts {base now : Arena} {b : β} {a : α} (h : put base b = (now, a))
    (next : ParserState) : Matches base (.ok a next now) (.ok b next) := by
  have hok : Matches base (.ok (put base b).2 next (put base b).1) (.ok b next) := .ok b next
  rwa [h] at hok

/-- Run in `now`, a builder ends as the parser does, with the parser's value stored after `base`. -/
class Agrees (base now : Arena) (p : Builder α) (q : Parser β) : Prop where
  run : ∀ ending state, Matches base (p ending state now) (q ending state)

/-- As `Agrees`, for a rule, which tells what its value is stored after. -/
class Rule (base : outParam Arena) (now : Arena) (p : Builder α) (q : Parser β) : Prop where
  agrees : Agrees base now p q

instance (base now : Arena) (p : Builder α) (q : Parser β) [h : Rule base now p q] :
    Agrees base now p q := h.agrees

instance (priority := low) (now : Arena) (p : Builder α) (q : Parser β) [h : Agrees now now p q] :
    Rule now now p q := ⟨h⟩

/-! ## Sequences -/

theorem bind_eq (p : Builder α) (f : α → Builder γ) (ending : Ending) (state : ParserState)
    (arena : Arena) :
    (p >>= f) ending state arena =
      match p ending state arena with
      | .ok a next later => f a ending next later
      | .fail error next later => .fail error next later := rfl

theorem read_eq (p : Parser α) (ending : Ending) (state : ParserState) (arena : Arena) :
    (liftM p : Builder α) ending state arena =
      match p ending state with
      | .ok a next => .ok a next arena
      | .fail error next => .fail error next arena := rfl

instance (base now : Arena) (b : β) (a : α) [h : Puts base b now a] :
    Agrees base now (pure a) (pure b) := ⟨fun _ state => .of_puts h.eq state⟩

instance (base now : Arena) (b : β) (a : α) [h : PutsFrom base b now a] :
    Rule base now (pure a) (pure b) := ⟨⟨fun _ state => .of_puts h.eq state⟩⟩

/-- What only looks at tokens is the same for both. -/
theorem agrees_read {base now : Arena} {p : Parser ε} {f : ε → Builder α} {g : ε → Parser β}
    (hgrows : Grows base now) (hf : ∀ x, Agrees base now (f x) (g x)) :
    Agrees base now (liftM p >>= f) (p >>= g) := by
  constructor
  intro ending state
  rw [bind_eq, read_eq, ParserLaw.bind_eq]
  cases p ending state with
  | ok x next => exact (hf x).run ending next
  | fail error next => exact .fail error next hgrows

instance (base now : Arena) (p : Parser ε) (f : ε → Builder α) (g : ε → Parser β)
    [hgrows : Grows base now] [hf : ∀ x, Agrees base now (f x) (g x)] :
    Agrees base now (liftM p >>= f) (p >>= g) := agrees_read hgrows hf

instance (priority := high) (base now : Arena) (p : Parser Unit) (f : Unit → Builder α)
    (g : Unit → Parser β) [hgrows : Grows base now] [hf : Agrees base now (f ()) (g ())] :
    Agrees base now (liftM p >>= f) (p >>= g) := agrees_read hgrows fun _ => hf

instance (priority := high) (base now : Arena) (p : Parser Bool) (q q' : Builder α)
    (r r' : Parser β) [hgrows : Grows base now] [hq : Agrees base now q r]
    [hq' : Agrees base now q' r'] :
    Agrees base now (liftM p >>= fun found => if found = true then q else q')
      (p >>= fun found => if found = true then r else r') := by
  refine agrees_read hgrows fun found => ?_
  split
  · exact hq
  · exact hq'

theorem agrees_bind {base now : Arena} (mid : Arena) {p : Builder γ} {q : Parser δ}
    {f : γ → Builder α} {g : δ → Parser β} (hgrows : Grows base mid) (hp : Agrees mid now p q)
    (hf : ∀ d, Agrees base (put mid d).1 (f (put mid d).2) (g d)) :
    Agrees base now (p >>= f) (q >>= g) := by
  constructor
  intro ending state
  have hmatch := hp.run ending state
  rw [bind_eq, ParserLaw.bind_eq]
  generalize p ending state now = built at hmatch
  generalize q ending state = outcome at hmatch
  cases hmatch with
  | ok d next => exact (hf d).run ending next
  | fail error next h => exact .fail error next (hgrows.trans h)

instance (base mid now : Arena) (p : Builder γ) (q : Parser δ) (f : γ → Builder α)
    (g : δ → Parser β) [hp : Rule mid now p q] [hgrows : Grows base mid]
    [hf : ∀ d, Agrees base (put mid d).1 (f (put mid d).2) (g d)] :
    Agrees base now (p >>= f) (q >>= g) := agrees_bind mid hgrows hp.agrees hf

instance (base now : Arena) (c : Prop) [Decidable c] (p p' : Builder α) (q q' : Parser β)
    [hp : Agrees base now p q] [hp' : Agrees base now p' q'] :
    Agrees base now (if c then p else p') (if c then q else q') := by
  split
  · exact hp
  · exact hp'

/-! ## Faults -/

instance (base now : Arena) (fault : GrammarFault) (position : Position) [h : Grows base now] :
    Agrees base now (liftM (Parser.failAt fault position : Parser α))
      (Parser.failAt fault position : Parser β) := by
  constructor
  intro ending state
  rw [read_eq]
  unfold Parser.failAt
  generalize state.rest = rest
  generalize ending.fault = lexical
  cases rest <;> cases lexical <;> exact .fail _ _ h

instance (base now : Arena) (fault : GrammarFault) [Grows base now] :
    Agrees base now (liftM (Parser.failHere fault : Parser α))
      (Parser.failHere fault : Parser β) := by
  constructor
  intro ending state
  have hfail : ∀ position, Agrees base now (liftM (Parser.failAt fault position : Parser α))
    (Parser.failAt fault position : Parser β) := inferInstance
  exact (hfail _).run ending state

/-! ## Control -/

theorem agrees_nested {now : Arena} {p : Builder α} {q : Parser β} (h : Agrees now now p q) :
    Agrees now now (Builder.nested p) (Parser.nested q) := by
  constructor
  intro ending state
  unfold Builder.nested Parser.nested
  split
  · have hfail : Agrees now now (liftM (Parser.failHere .tooDeeplyNested : Parser α))
      (Parser.failHere .tooDeeplyNested : Parser β) := inferInstance
    exact hfail.run ending state
  · have hmatch := h.run ending { state with depth := state.depth + 1 }
    generalize p ending { state with depth := state.depth + 1 } now = built at hmatch
    generalize q ending { state with depth := state.depth + 1 } = outcome at hmatch
    cases hmatch with
    | ok b next => exact .ok b _
    | fail error next h => exact .fail error _ h

theorem agrees_manyWithin {item : Builder (Option α)} {item' : Parser (Option β)}
    (h : ∀ now, Agrees now now item item') (fuel : Nat) (now : Arena) :
    Agrees now now (Builder.manyWithin item fuel) (Parser.manyWithin item' fuel) := by
  induction fuel generalizing now with
  | zero =>
    unfold Builder.manyWithin Parser.manyWithin
    infer_instance
  | succ fuel ih =>
    unfold Builder.manyWithin Parser.manyWithin
    refine agrees_bind now inferInstance (h now) fun b => ?_
    cases b with
    | none => exact inferInstanceAs (Agrees now now (pure []) (pure []))
    | some b =>
      have hrest := ih (put now b).1
      exact inferInstanceAs (Agrees now (put now b).1
        (do return (put now b).2 :: (← Builder.manyWithin item fuel))
        (do return b :: (← Parser.manyWithin item' fuel)))

theorem agrees_many {item : Builder (Option α)} {item' : Parser (Option β)}
    (h : ∀ now, Agrees now now item item') (now : Arena) :
    Agrees now now (Builder.many item) (Parser.many item') :=
  ⟨fun ending state => (agrees_manyWithin h (state.left + 1) now).run ending state⟩

instance (now : Arena) (item : Builder (Option α)) (item' : Parser (Option β))
    [h : ∀ now, Agrees now now item item'] :
    Rule now now (Builder.many item) (Parser.many item') := ⟨agrees_many h now⟩

theorem agrees_iterateWithin {step : α → Builder (α × Bool)} {step' : β → Parser (β × Bool)}
    (h : ∀ base b, Agrees base (put base b).1 (step (put base b).2) (step' b)) (fuel : Nat)
    (base : Arena) (b : β) :
    Agrees base (put base b).1 (Builder.iterateWithin step fuel (put base b).2)
      (Parser.iterateWithin step' fuel b) := by
  induction fuel generalizing b with
  | zero =>
    unfold Builder.iterateWithin Parser.iterateWithin
    infer_instance
  | succ fuel ih =>
    unfold Builder.iterateWithin Parser.iterateWithin
    refine agrees_bind base inferInstance (h base b) fun result => ?_
    obtain ⟨b, again⟩ := result
    have hrest := ih b
    exact inferInstanceAs (Agrees base (put base b).1
      (if again then Builder.iterateWithin step fuel (put base b).2 else pure (put base b).2)
      (if again then Parser.iterateWithin step' fuel b else pure b))

instance (base now : Arena) (step : α → Builder (α × Bool)) (step' : β → Parser (β × Bool))
    (a : α) (b : β) [hput : PutsFrom base b now a]
    [h : ∀ base b, Agrees base (put base b).1 (step (put base b).2) (step' b)] :
    Rule base now (Builder.iterate step a) (Parser.iterate step' b) := by
  obtain ⟨rfl, rfl⟩ := hput.now_eq
  exact ⟨⟨fun ending state => (agrees_iterateWithin h (state.left + 1) base b).run ending state⟩⟩

instance (now : Arena) (stop : Parser Bool) (item : Builder α) (item' : Parser β)
    [∀ now, Agrees now now item item'] :
    Rule now now (Builder.commaTail stop item) (Parser.commaTail stop item') := by
  unfold Builder.commaTail Parser.commaTail
  infer_instance

/-! ## Attempts -/

/-- An attempt ends as one of a parser does. One that fails or gives nothing may leave more than
was there before. -/
inductive Tries (base : Arena) : Built (Option α) → Outcome (Option β) → Prop
  | some (b : β) (next : ParserState) :
    Tries base (.ok (some (put base b).2) next (put base b).1) (.ok (some b) next)
  | none (next : ParserState) {later : Arena} (h : Grows base later) :
    Tries base (.ok none next later) (.ok none next)
  | fail (error : ParseError) (next : ParserState) {later : Arena} (h : Grows base later) :
    Tries base (.fail error next later) (.fail error next)

/-- Whatever an attempt does, what was there before is still there. -/
theorem Tries.grows {base : Arena} {built : Built (Option α)} {outcome : Outcome (Option β)}
    (h : Tries base built outcome) : Grows base built.arena := by
  cases h with
  | some b next => exact Storable.grows base b
  | none next h => exact h
  | fail error next h => exact h

theorem tries_read {base now : Arena} {p : Parser ε} {f : ε → Builder (Option α)}
    {g : ε → Parser (Option β)} {ending : Ending} {state : ParserState} (hgrows : Grows base now)
    (hf : ∀ x next, Tries base (f x ending next now) (g x ending next)) :
    Tries base ((liftM p >>= f) ending state now) ((p >>= g) ending state) := by
  rw [bind_eq, read_eq, ParserLaw.bind_eq]
  cases p ending state with
  | ok x next => exact hf x next
  | fail error next => exact .fail error next hgrows

theorem tries_bind {base now : Arena} {p : Builder γ} {q : Parser δ}
    {f : γ → Builder (Option α)} {g : δ → Parser (Option β)} {ending : Ending}
    {state : ParserState} (hgrows : Grows base now) (hp : Agrees now now p q)
    (hf : ∀ d next, Tries base (f (put now d).2 ending next (put now d).1) (g d ending next)) :
    Tries base ((p >>= f) ending state now) ((q >>= g) ending state) := by
  have hmatch := hp.run ending state
  rw [bind_eq, ParserLaw.bind_eq]
  generalize p ending state now = built at hmatch
  generalize q ending state = outcome at hmatch
  cases hmatch with
  | ok d next => exact hf d next
  | fail error next h => exact .fail error next (hgrows.trans h)

/-- A speculation goes on from the value of its attempt, or from where it began: cut back to the
size before, the arena is the one before. -/
theorem speculate_cases {p : Builder (Option α)} {q : Parser (Option β)} {ending : Ending}
    {state : ParserState} {now : Arena} (h : Tries now (p ending state now) (q ending state)) :
    (∃ b next, Parser.speculate q ending state = .ok (some b) next ∧
      Builder.speculate p ending state now = .ok (some (put now b).2) next (put now b).1) ∨
    Parser.speculate q ending state = .ok none state ∧
      Builder.speculate p ending state now = .ok none state now := by
  unfold Builder.speculate Parser.speculate
  generalize p ending state now = built at h
  generalize q ending state = outcome at h
  cases h with
  | some b next => exact .inl ⟨b, next, rfl, rfl⟩
  | none next h => exact .inr ⟨rfl, congrArg (Built.ok none state) (Arena.truncate_of_grows h)⟩
  | fail error next h =>
    exact .inr ⟨rfl, congrArg (Built.ok none state) (Arena.truncate_of_grows h)⟩

theorem agrees_speculate {now : Arena} {p : Builder (Option α)} {q : Parser (Option β)}
    (h : ∀ ending state, Tries now (p ending state now) (q ending state)) :
    Agrees now now (Builder.speculate p) (Parser.speculate q) := by
  constructor
  intro ending state
  obtain ⟨b, next, hq, hp⟩ | ⟨hq, hp⟩ := speculate_cases (h ending state)
  · rw [hq, hp]
    exact .ok (some b) next
  · rw [hq, hp]
    exact .ok none state

end Agreement

/-! ## Nodes -/

theorem putAll_eq_storeAll (base : Arena) (ts : List Tree) : putAll base ts = base.storeAll ts := by
  induction ts generalizing base with
  | nil => rfl
  | cons t ts ih =>
    show ((putAll _ ts).1, _ :: (putAll _ ts).2) = _
    rw [ih]
    rfl

/-- A node is stored after its children. -/
theorem store_node {base now : Arena} {ts : List Tree} {ids : List Nat}
    (h : put base ts = (now, ids)) (kind : NodeKind) (span : Span) :
    base.store (.node kind span ts) = (now.push ⟨kind, span, ids⟩, now.size) := by
  have hall : base.storeAll ts = (now, ids) := by
    rw [← putAll_eq_storeAll]
    exact h
  rw [Arena.store, hall]

theorem agrees_node {base now : Arena} {ts : List Tree} {ids : List Nat}
    (h : put base ts = (now, ids)) (kind : NodeKind) (start : Position) :
    Agrees base now (Builder.node kind start ids) (Parser.node kind start ts) :=
  ⟨fun _ state => .of_puts (store_node h kind ⟨start, state.lastStop⟩) state⟩

instance (base now : Arena) (ts : List Tree) (ids : List Nat) [h : PutsFrom base ts now ids]
    (kind : NodeKind) (start : Position) :
    Rule base now (Builder.node kind start ids) (Parser.node kind start ts) :=
  ⟨agrees_node h.eq kind start⟩

instance (base now : Arena) (ts : List Tree) (ids : List Nat) [h : Puts base ts now ids]
    (kind : NodeKind) (start : Position) :
    Agrees base now (Builder.node kind start ids) (Parser.node kind start ts) :=
  agrees_node h.eq kind start

instance (now : Arena) (stop : Parser Bool) (item : Builder Nat) (item' : Parser Tree)
    [∀ now, Agrees now now item item'] :
    Rule now now (Builder.tupleOf stop item) (Parser.tupleOf stop item') := by
  unfold Builder.tupleOf Parser.tupleOf
  infer_instance

/-- A stored tree is found at its index. -/
theorem get?_put (base : Arena) (t : Tree) :
    (put base t).1.get? (put base t).2 = some ⟨t.kind, t.span, (put base t.children).2⟩ := by
  obtain ⟨kind, span, children⟩ := t
  have hstore : put base (Tree.node kind span children) = _ := store_node rfl kind span
  rw [hstore]
  exact Array.getElem?_push_size

instance (base mid : Arena) (t : Tree) [Storable β α] (f : Bool → Builder α) (q : Parser β)
    [h : Agrees base (put mid t).1 (f t.kind.isStarred) q] :
    Agrees base (put mid t).1 (Builder.isStarred (put mid t).2 >>= f) q := by
  constructor
  intro ending state
  have hread : Builder.isStarred (put mid t).2 ending state (put mid t).1 =
      .ok t.kind.isStarred state (put mid t).1 := by
    unfold Builder.isStarred
    rw [get?_put]
    rfl
  rw [bind_eq, hread]
  exact h.run ending state

/-! ## Changing nodes -/

/-- A stored tree is changed where it stands as the tree is, or both changes are refused. -/
theorem matches_change {base : Arena} {t : Tree} {changed : Except (ParseError × Arena) Arena}
    {result : Except ParseError Tree}
    (h : match result with
      | .ok u => (base.store u).2 = (base.store t).2 ∧ changed = .ok (base.store u).1
      | .error error => ∃ later, base.nodes.toList <+: later.nodes.toList ∧
          changed = .error (error, later)) {ending : Ending} (state : ParserState) :
    Matches base (match changed with
      | .ok later => .ok (base.store t).2 state later
      | .error (error, later) =>
        Builder.read (Parser.failAt error.fault error.position) ending state later)
      (Parser.ofExcept result ending state) := by
  cases result with
  | ok u =>
    obtain ⟨hid, rfl⟩ := h
    rw [← hid]
    exact .ok u state
  | error error =>
    obtain ⟨later, hkeeps, rfl⟩ := h
    have hgrows : Grows base later := ⟨hkeeps⟩
    have hfail : Agrees base later
      (liftM (Parser.failAt error.fault error.position : Parser Nat))
      (Parser.failAt error.fault error.position : Parser Tree) := inferInstance
    exact hfail.run ending state

instance (base : Arena) (action : TargetAction) (t : Tree) :
    Rule base (put base t).1 (Builder.mark action (put base t).2)
      (Parser.ofExcept (Target.mark action t)) :=
  ⟨⟨fun _ state => matches_change (Marking.markWithin_store action base t) state⟩⟩

theorem put_positionalOnly (base : Arena) (ts : List Tree) :
    put base (ts.map Expression.positionalOnly) =
      ((put base ts).2.foldl Arena.positionalOnly (put base ts).1, (put base ts).2) := by
  have hstore := Marking.positionalOnly_storeAll base ts
  rw [← putAll_eq_storeAll, ← putAll_eq_storeAll] at hstore
  exact hstore.symm

end Building

end SnippetLint
