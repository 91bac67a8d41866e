import SnippetLint.Grammar.Pattern
import SnippetLint.Grammar.Simple

/-!
Laws of parsers. A law says how the state after a parser relates to the state before it, and what is
true of the errors in which parsers stop. One that holds of taking a token, of failing, of a nesting
level and of a pattern holds of every parser put together from these: `Follows` is a class, so that
the search for instances goes along the parser. Here are the instances for the parts that all rules
share; the rules follow in `GrammarLaw`.
-/

namespace SnippetLint

namespace GrammarFault

def isLexical : GrammarFault → Bool
  | lexical _ => true
  | _ => false

/-- A fault of the grammar itself, not one of the text. -/
class IsOwn (fault : GrammarFault) : Prop where
  isLexical_eq : fault.isLexical = false

end GrammarFault

namespace Parser

theorem failAt_ne_ok {fault : GrammarFault} {position : Position} {ending : Ending}
    {state next : ParserState} {a : α} :
    (failAt fault position : Parser α) ending state ≠ .ok a next := by
  unfold failAt
  split <;> exact nofun

theorem failHere_ne_ok {fault : GrammarFault} {ending : Ending} {state next : ParserState}
    {a : α} : (failHere fault : Parser α) ending state ≠ .ok a next := failAt_ne_ok

end Parser

structure ParserLaw where
  /-- Between the states before and after a parser that succeeds. -/
  Run : Ending → ParserState → ParserState → Prop
  /-- Between the state before a parser, the error it stops in and the state after it. -/
  Stop : Ending → ParserState → ParseError → ParserState → Prop
  refl : ∀ ending state, Run ending state state
  trans : ∀ {ending first second third},
    Run ending first second → Run ending second third → Run ending first third
  stop_after : ∀ {ending first second error third},
    Run ending first second → Stop ending second error third → Stop ending first error third
  take : ∀ {ending state next}, Parser.advance ending state = .ok () next →
    Run ending state next
  fail : ∀ {ending state fault} (position : Position), fault.IsOwn →
    state.rest ≠ [] ∨ ending.fault = none → Stop ending state ⟨fault, position⟩ state
  fail_lexical : ∀ {ending state lexical}, state.rest = [] → ending.fault = some lexical →
    Stop ending state ⟨.lexical lexical, ending.position⟩ state
  deepen : ∀ {ending state next}, state.depth < Parser.maxNesting →
    Run ending { state with depth := state.depth + 1 } next →
    Run ending state { next with depth := next.depth - 1 }
  deepen_stop : ∀ {ending state error next}, state.depth < Parser.maxNesting →
    Stop ending { state with depth := state.depth + 1 } error next →
    Stop ending state error { next with depth := next.depth - 1 }
  capture : ∀ {ending state next}, Run ending { state with inPattern := true } next →
    Run ending state { next with inPattern := state.inPattern }
  capture_stop : ∀ {ending state error next},
    Stop ending { state with inPattern := true } error next →
    Stop ending state error { next with inPattern := state.inPattern }

namespace ParserLaw
open SnippetLint.Parser

/-- A parser that keeps to a law, whether it succeeds or fails. -/
class Follows (law : ParserLaw) (p : Parser α) : Prop where
  run : ∀ {ending state a next}, p ending state = .ok a next → law.Run ending state next
  stop : ∀ {ending state error next}, p ending state = .fail error next →
    law.Stop ending state error next

variable (law : ParserLaw)

/-! ## Looking at tokens -/

/-- A parser that only looks changes nothing. -/
theorem follows_of_eq_ok {p : Parser α} (h : ∀ ending state, ∃ a, p ending state = .ok a state) :
    law.Follows p := by
  constructor
  · intro ending state a next hok
    obtain ⟨b, hb⟩ := h ending state
    rw [hb] at hok
    cases hok
    exact law.refl ending state
  · intro ending state error next hfail
    obtain ⟨b, hb⟩ := h ending state
    rw [hb] at hfail
    cases hfail

instance (a : α) : law.Follows (pure a : Parser α) := follows_of_eq_ok law fun _ _ => ⟨_, rfl⟩

instance (n : Nat) : law.Follows (peekAt n) := follows_of_eq_ok law fun _ _ => ⟨_, rfl⟩

instance : law.Follows peek := follows_of_eq_ok law fun _ _ => ⟨_, rfl⟩

instance (kind : TokenKind) : law.Follows (check kind) :=
  follows_of_eq_ok law fun _ _ => ⟨_, rfl⟩

instance (word : String) : law.Follows (checkWord word) :=
  follows_of_eq_ok law fun _ _ => ⟨_, rfl⟩

instance : law.Follows atEnd := follows_of_eq_ok law fun _ _ => ⟨_, rfl⟩

instance : law.Follows here := follows_of_eq_ok law fun _ _ => ⟨_, rfl⟩

instance : law.Follows lexeme := follows_of_eq_ok law fun _ _ => ⟨_, rfl⟩

instance (kind : NodeKind) (start : Position) (children : List Tree) :
    law.Follows (node kind start children) := follows_of_eq_ok law fun _ _ => ⟨_, rfl⟩

instance (start : Position) : law.Follows (spanFrom start) :=
  follows_of_eq_ok law fun _ _ => ⟨_, rfl⟩

instance : law.Follows inPattern := follows_of_eq_ok law fun _ _ => ⟨_, rfl⟩

/-! ## Sequences -/

theorem bind_eq (p : Parser α) (f : α → Parser β) (ending : Ending) (state : ParserState) :
    (p >>= f) ending state =
      match p ending state with
      | .ok a next => f a ending next
      | .fail error next => .fail error next := rfl

theorem bind_eq_ok {p : Parser α} {f : α → Parser β} {ending : Ending} {state last : ParserState}
    {b : β} (h : (p >>= f) ending state = .ok b last) :
    ∃ a next, p ending state = .ok a next ∧ f a ending next = .ok b last := by
  rw [bind_eq] at h
  split at h
  · next a next hfirst => exact ⟨a, next, hfirst, h⟩
  · cases h

theorem bind_assoc (p : Parser α) (f : α → Parser β) (g : β → Parser γ) (ending : Ending)
    (state : ParserState) :
    ((p >>= f) >>= g) ending state = (p >>= fun a => f a >>= g) ending state := by
  rw [bind_eq, bind_eq, bind_eq]
  cases p ending state <;> rfl

theorem follows_bind {p : Parser α} {f : α → Parser β} (hp : law.Follows p)
    (hf : ∀ a, law.Follows (f a)) : law.Follows (p >>= f) := by
  constructor
  · intro ending state b last h
    rw [bind_eq] at h
    split at h
    · next a next hfirst => exact law.trans (hp.run hfirst) ((hf a).run h)
    · cases h
  · intro ending state error last h
    rw [bind_eq] at h
    split at h
    · next a next hfirst => exact law.stop_after (hp.run hfirst) ((hf a).stop h)
    · next hfirst =>
      cases h
      exact hp.stop hfirst

instance (p : Parser α) (f : α → Parser β) [hp : law.Follows p] [hf : ∀ a, law.Follows (f a)] :
    law.Follows (p >>= f) := follows_bind law hp hf

/-- A step without a value has one continuation. (The search for instances counts what follows a
value that is not used twice, so that a sequence of such steps would count as a power of two.) -/
instance (priority := high) (p : Parser Unit) (f : Unit → Parser β) [hp : law.Follows p]
    [hf : law.Follows (f ())] : law.Follows (p >>= f) := follows_bind law hp fun _ => hf

/-- As for a step without a value, where a test decides how to go on. -/
instance (priority := high) (p : Parser Bool) (q r : Parser β) [hp : law.Follows p]
    [hq : law.Follows q] [hr : law.Follows r] :
    law.Follows (p >>= fun found => if found = true then q else r) := by
  refine follows_bind law hp fun found => ?_
  split
  · exact hq
  · exact hr

instance (c : Prop) [Decidable c] (p q : Parser α) [law.Follows p] [law.Follows q] :
    law.Follows (if c then p else q) := by
  split <;> infer_instance

instance (f : α → β) (p : Parser α) [law.Follows p] : law.Follows (f <$> p) := by
  show law.Follows (p >>= fun a => pure (f a))
  infer_instance

instance (p : Parser α) [law.Follows p] : law.Follows (discard p) := by
  show law.Follows (p >>= fun _ => pure ())
  infer_instance

/-! ## Faults -/

instance (what : String) : (GrammarFault.expected what).IsOwn := ⟨rfl⟩

instance : GrammarFault.invalidSyntax.IsOwn := ⟨rfl⟩

instance : GrammarFault.unexpectedIndent.IsOwn := ⟨rfl⟩

instance (construct : Construct) (line : Nat) :
    (GrammarFault.missingIndentedBlock construct line).IsOwn := ⟨rfl⟩

instance (action : TargetAction) (what : String) :
    (GrammarFault.invalidTarget action what).IsOwn := ⟨rfl⟩

instance : GrammarFault.illegalAnnotationTarget.IsOwn := ⟨rfl⟩

instance (what : String) : (GrammarFault.illegalAugmentedTarget what).IsOwn := ⟨rfl⟩

instance : GrammarFault.missingParenthesesInPrint.IsOwn := ⟨rfl⟩

instance : GrammarFault.positionalAfterKeyword.IsOwn := ⟨rfl⟩

instance : GrammarFault.unpackingAfterKeywordUnpacking.IsOwn := ⟨rfl⟩

instance : GrammarFault.unparenthesizedGenerator.IsOwn := ⟨rfl⟩

instance : GrammarFault.bareStarWithoutNames.IsOwn := ⟨rfl⟩

instance : GrammarFault.mixedBytesLiterals.IsOwn := ⟨rfl⟩

instance : GrammarFault.wildcardTarget.IsOwn := ⟨rfl⟩

instance : GrammarFault.nonDefaultAfterDefault.IsOwn := ⟨rfl⟩

instance : GrammarFault.missingExceptOrFinally.IsOwn := ⟨rfl⟩

instance : GrammarFault.tooDeeplyNested.IsOwn := ⟨rfl⟩

instance (fault : GrammarFault) [hown : fault.IsOwn] (position : Position) :
    law.Follows (failAt fault position : Parser α) := by
  constructor
  · intro ending state a next h
    unfold failAt at h
    split at h <;> cases h
  · intro ending state error next h
    unfold failAt at h
    split at h
    · next hrest hfault =>
      cases h
      exact law.fail_lexical hrest hfault
    · next hother =>
      cases h
      refine law.fail position hown ?_
      by_cases hrest : state.rest = []
      · exact .inr (Option.eq_none_iff_forall_ne_some.2 fun lexical => hother lexical hrest)
      · exact .inl hrest

instance (fault : GrammarFault) [fault.IsOwn] : law.Follows (failHere fault : Parser α) := by
  unfold failHere
  infer_instance

/-- A result that fails, if it does, for a fault of the grammar. -/
class Owned (result : Except ParseError α) : Prop where
  own : ∀ {error}, result = .error error → error.fault.IsOwn

instance (result : Except ParseError α) [howned : Owned result] :
    law.Follows (Parser.ofExcept result) := by
  cases result with
  | ok a =>
    unfold Parser.ofExcept
    infer_instance
  | error error =>
    have hown := howned.own rfl
    unfold Parser.ofExcept
    infer_instance

/-! ## Taking tokens -/

instance : law.Follows advance := by
  constructor
  · intro ending state a next h
    exact law.take h
  · intro ending state error next h
    unfold advance at h
    split at h <;> cases h

instance (kind : TokenKind) : law.Follows (eat kind) := by
  unfold eat
  infer_instance

instance (kind : TokenKind) : law.Follows (expect kind) := by
  unfold expect
  infer_instance

instance (kind : TokenKind) : law.Follows (require kind) := by
  unfold require
  infer_instance

instance : law.Follows word := by
  unfold word
  infer_instance

instance : law.Follows expectName := by
  unfold expectName
  infer_instance

/-! ## Control -/

instance (p : Parser α) [hp : law.Follows p] : law.Follows (nested p) := by
  have hdeep : law.Follows (failHere .tooDeeplyNested : Parser α) := inferInstance
  constructor
  · intro ending state a next h
    unfold nested at h
    split at h
    · exact hdeep.run h
    · next hdepth =>
      split at h
      · next hrun =>
        cases h
        exact law.deepen (Nat.not_le.1 hdepth) (hp.run hrun)
      · cases h
  · intro ending state error next h
    unfold nested at h
    split at h
    · exact hdeep.stop h
    · next hdepth =>
      split at h
      · cases h
      · next hstop =>
        cases h
        exact law.deepen_stop (Nat.not_le.1 hdepth) (hp.stop hstop)

instance (p : Parser α) [hp : law.Follows p] : law.Follows (withinPattern p) := by
  constructor
  · intro ending state a next h
    unfold withinPattern at h
    split at h
    · next hrun =>
      cases h
      exact law.capture (hp.run hrun)
    · cases h
  · intro ending state error next h
    unfold withinPattern at h
    split at h
    · cases h
    · next hstop =>
      cases h
      exact law.capture_stop (hp.stop hstop)

/-- What fails is forgotten, together with the state in which it did. -/
instance (p : Parser (Option α)) [hp : law.Follows p] : law.Follows (speculate p) := by
  constructor
  · intro ending state a next h
    unfold speculate at h
    split at h
    · next hrun =>
      cases h
      exact hp.run hrun
    · cases h
      exact law.refl ending state
  · intro ending state error next h
    unfold speculate at h
    split at h <;> cases h

/-! ## Loops -/

theorem follows_manyWithin {item : Parser (Option α)} (hitem : law.Follows item) (fuel : Nat) :
    law.Follows (manyWithin item fuel) := by
  induction fuel with
  | zero =>
    unfold manyWithin
    infer_instance
  | succ fuel ih =>
    unfold manyWithin
    refine follows_bind law hitem fun result => ?_
    split <;> infer_instance

instance (item : Parser (Option α)) [hitem : law.Follows item] : law.Follows (many item) :=
  ⟨fun h => (follows_manyWithin law hitem _).run h,
    fun h => (follows_manyWithin law hitem _).stop h⟩

theorem follows_iterateWithin {step : σ → Parser (σ × Bool)} (hstep : ∀ s, law.Follows (step s))
    (fuel : Nat) (s : σ) : law.Follows (iterateWithin step fuel s) := by
  induction fuel generalizing s with
  | zero =>
    unfold iterateWithin
    infer_instance
  | succ fuel ih =>
    unfold iterateWithin
    refine follows_bind law (hstep s) fun result => ?_
    split
    infer_instance

instance (step : σ → Parser (σ × Bool)) [hstep : ∀ s, law.Follows (step s)] (s : σ) :
    law.Follows (iterate step s) :=
  ⟨fun h => (follows_iterateWithin law hstep _ s).run h,
    fun h => (follows_iterateWithin law hstep _ s).stop h⟩

instance (stop : Parser Bool) (item : Parser α) [law.Follows stop] [law.Follows item] :
    law.Follows (commaTail stop item) := by
  unfold commaTail
  infer_instance

instance (stop : Parser Bool) (item : Parser Tree) [law.Follows stop] [law.Follows item] :
    law.Follows (tupleOf stop item) := by
  unfold tupleOf
  infer_instance

/-! ## Targets and patterns -/

instance (a : α) : Owned (.ok a) := ⟨nofun⟩

instance (a : α) : Owned (pure a) := ⟨nofun⟩

instance (fault : GrammarFault) [hown : fault.IsOwn] (position : Position) :
    Owned (.error ⟨fault, position⟩ : Except ParseError α) := by
  constructor
  intro error h
  cases h
  exact hown

instance (result : Except ParseError α) (f : α → Except ParseError β)
    [howned : Owned result] [hf : ∀ a, Owned (f a)] : Owned (result >>= f) := by
  cases result with
  | ok a => exact hf a
  | error error =>
    constructor
    intro other h
    cases h
    exact howned.own rfl

instance (c : Prop) [Decidable c] (p q : Except ParseError α) [Owned p] [Owned q] :
    Owned (if c then p else q) := by
  split <;> infer_instance

mutual

instance owned_mark (action : TargetAction) : ∀ t : Tree, Owned (Target.mark action t)
  | .node kind span children => by
    have hchildren := owned_markAll action children
    unfold Target.mark
    split <;> next heq =>
      cases heq
      infer_instance

instance owned_markAll (action : TargetAction) : ∀ ts : List Tree, Owned (Target.markAll action ts)
  | [] => by
    unfold Target.markAll
    infer_instance
  | t :: ts => by
    have hfirst := owned_mark action t
    have hrest := owned_markAll action ts
    unfold Target.markAll
    infer_instance

end

instance (t : Tree) : Owned (Target.markAugmented t) := by
  unfold Target.markAugmented
  infer_instance

instance (t : Tree) : Owned (Target.markAnnotated t) := by
  unfold Target.markAnnotated
  infer_instance

instance (position : Position) : Owned (Pattern.invalid position : Except ParseError α) := by
  unfold Pattern.invalid
  infer_instance

instance (items : List Tree) : Owned (Pattern.checkSequence items) := by
  unfold Pattern.checkSequence
  split <;> infer_instance

instance owned_checkArguments (ts : List Tree) : Owned (Pattern.checkArguments ts) := by
  induction ts with
  | nil =>
    unfold Pattern.checkArguments
    infer_instance
  | cons t ts ih =>
    unfold Pattern.checkArguments
    split <;> infer_instance

instance owned_checkEntries (ts : List Tree) : Owned (Pattern.checkEntries ts) := by
  fun_induction Pattern.checkEntries ts <;> infer_instance

mutual

instance owned_bind (slot : Pattern.Slot) : ∀ t : Tree, Owned (Pattern.bind slot t)
  | .node kind span children => by
    -- the slot of the children depends on the kind
    have hall := fun slot => owned_bindAll slot children
    have hclass := owned_bindClass children
    have hentries := owned_bindEntries children
    unfold Pattern.bind
    split
    · infer_instance
    split
    · infer_instance
    split
    · infer_instance
    split
    · infer_instance
    split
    · infer_instance
    split <;> infer_instance

instance owned_bindAll (slot : Pattern.Slot) : ∀ ts : List Tree, Owned (Pattern.bindAll slot ts)
  | [] => by
    unfold Pattern.bindAll
    infer_instance
  | t :: ts => by
    have hrest := owned_bindAll slot ts
    have hfirst := owned_bind slot t
    unfold Pattern.bindAll
    infer_instance

instance owned_bindClass : ∀ ts : List Tree, Owned (Pattern.bindClass ts)
  | [] => by
    unfold Pattern.bindClass
    infer_instance
  | t :: ts => by
    have hrest := owned_bindArguments ts
    have hfirst := owned_bind .dotted t
    unfold Pattern.bindClass
    infer_instance

instance owned_bindArguments : ∀ ts : List Tree, Owned (Pattern.bindArguments ts)
  | [] => by
    unfold Pattern.bindArguments
    infer_instance
  | .node kind span children :: ts => by
    have hrest := owned_bindArguments ts
    have hfirst := owned_bind .pattern (.node kind span children)
    have hchildren := owned_bindAll .pattern children
    unfold Pattern.bindArguments
    split <;> next heq => cases heq <;> infer_instance

instance owned_bindEntries : ∀ ts : List Tree, Owned (Pattern.bindEntries ts)
  | [] => by
    unfold Pattern.bindEntries
    infer_instance
  | [key] => by
    have hnone := owned_bindEntries []
    have hkey := owned_bind .mappingKey key
    unfold Pattern.bindEntries
    split <;> next heq => cases heq <;> infer_instance
  | key :: value :: rest => by
    have hrest := owned_bindEntries rest
    have hspread := owned_bindEntries (value :: rest)
    have hvalue := owned_bind .pattern value
    have hkey := owned_bind .mappingKey key
    unfold Pattern.bindEntries
    split <;> next heq => cases heq <;> infer_instance

end

end ParserLaw

end SnippetLint
