import SnippetLint.Proofs.ParserLaw

/-!
Scripts of parsers. A parser is a function: it shows where it ends, but not where it has been. Its
script is a tree that says how it is put together, from looking at tokens and taking them to levels,
attempts and loops. To run a script is to run the parser and to note on the way every state in which
one of its steps is taken; `Scripted` ties the two together.

A script also says what may begin in it. No statement begins within an expression, and a pattern is
read only as the pattern of a case; scripts for which this fails cannot be written down.
-/

namespace SnippetLint

/-! ## Runs -/

/-- Where a parser stops, with or without a value. -/
def Outcome.state : Outcome α → ParserState
  | .ok _ state => state
  | .fail _ state => state

/-- A state in which a step is taken. -/
structure Visit where
  state : ParserState
  /-- Whether the step is to begin a statement. -/
  begins : Bool := false
  /-- Whether the pattern of a case is being read. -/
  inCase : Bool := false
  deriving DecidableEq

/-- What a parser ends in, and the visits on the way there. -/
structure Run (α : Type) where
  outcome : Outcome α
  visits : List Visit

/-- Parsers whose visits are noted. -/
def Tracer (α : Type) : Type := Ending → ParserState → Run α

namespace Tracer

/-- The parser itself. -/
def parser (m : Tracer α) : Parser α := fun ending state => (m ending state).outcome

instance : Monad Tracer where
  pure a := fun _ state => ⟨.ok a state, []⟩
  bind m f := fun ending state =>
    let run := m ending state
    match run.outcome with
    | .ok a next => ⟨(f a ending next).outcome, run.visits ++ (f a ending next).visits⟩
    | .fail error next => ⟨.fail error next, run.visits⟩

/-- A single step. -/
def step (p : Parser α) : Tracer α := fun ending state => ⟨p ending state, [{ state }]⟩

def nested (m : Tracer α) : Tracer α := fun ending state =>
  if Parser.maxNesting ≤ state.depth then
    step (Parser.failHere .tooDeeplyNested) ending state
  else
    let run := m ending { state with depth := state.depth + 1 }
    match run.outcome with
    | .ok a next => ⟨.ok a { next with depth := next.depth - 1 }, run.visits⟩
    | .fail error next => ⟨.fail error { next with depth := next.depth - 1 }, run.visits⟩

def withinPattern (m : Tracer α) : Tracer α := fun ending state =>
  let run := m ending { state with inPattern := true }
  match run.outcome with
  | .ok a next => ⟨.ok a { next with inPattern := state.inPattern }, run.visits⟩
  | .fail error next => ⟨.fail error { next with inPattern := state.inPattern }, run.visits⟩

/-- An attempt that is given up has been made: its visits stay. -/
def speculate (m : Tracer (Option α)) : Tracer (Option α) := fun ending state =>
  let run := m ending state
  match run.outcome with
  | .ok (some a) next => ⟨.ok (some a) next, run.visits⟩
  | _ => ⟨.ok none state, run.visits⟩

def manyWithin (item : Tracer (Option α)) : Nat → Tracer (List α)
  | 0 => pure []
  | fuel + 1 => do
    match ← item with
    | some a => return a :: (← manyWithin item fuel)
    | none => return []

def many (item : Tracer (Option α)) : Tracer (List α) := fun ending state =>
  manyWithin item (state.left + 1) ending state

def iterateWithin (step : σ → Tracer (σ × Bool)) : Nat → σ → Tracer σ
  | 0, s => pure s
  | fuel + 1, s => do
    let (s, again) ← step s
    if again then iterateWithin step fuel s else return s

def iterate (step : σ → Tracer (σ × Bool)) (s : σ) : Tracer σ := fun ending state =>
  iterateWithin step (state.left + 1) s ending state

/-- Notes that a statement begins here. -/
def statement (m : Tracer α) : Tracer α := fun ending state =>
  ⟨(m ending state).outcome, { state, begins := true } :: (m ending state).visits⟩

/-- Notes that the pattern of a case is being read. -/
def casePattern (m : Tracer α) : Tracer α := fun ending state =>
  ⟨(m ending state).outcome, (m ending state).visits.map ({ · with inCase := true })⟩

/-! ### Their parsers -/

@[simp] theorem parser_pure (a : α) : (pure a : Tracer α).parser = pure a := rfl

@[simp] theorem parser_step (p : Parser α) : (step p).parser = p := rfl

theorem bind_of_ok {m : Tracer α} {f : α → Tracer β} {ending : Ending} {state next : ParserState}
    {a : α} (h : (m ending state).outcome = .ok a next) :
    (m >>= f) ending state =
      ⟨(f a ending next).outcome, (m ending state).visits ++ (f a ending next).visits⟩ := by
  simp only [Bind.bind, h]

theorem bind_of_fail {m : Tracer α} {f : α → Tracer β} {ending : Ending}
    {state next : ParserState} {error : ParseError}
    (h : (m ending state).outcome = .fail error next) :
    (m >>= f) ending state = ⟨.fail error next, (m ending state).visits⟩ := by
  simp only [Bind.bind, h]

@[simp] theorem parser_bind (m : Tracer α) (f : α → Tracer β) :
    (m >>= f).parser = m.parser >>= fun a => (f a).parser := by
  funext ending state
  rw [ParserLaw.bind_eq]
  unfold parser
  cases h : (m ending state).outcome with
  | ok a next => rw [bind_of_ok h]
  | fail error next => rw [bind_of_fail h]

@[simp] theorem parser_nested (m : Tracer α) : (nested m).parser = Parser.nested m.parser := by
  funext ending state
  unfold parser nested Parser.nested
  split
  · rfl
  · dsimp only
    cases (m ending { state with depth := state.depth + 1 }).outcome <;> rfl

@[simp] theorem parser_withinPattern (m : Tracer α) :
    (withinPattern m).parser = Parser.withinPattern m.parser := by
  funext ending state
  unfold parser withinPattern Parser.withinPattern
  dsimp only
  cases (m ending { state with inPattern := true }).outcome <;> rfl

@[simp] theorem parser_speculate (m : Tracer (Option α)) :
    (speculate m).parser = Parser.speculate m.parser := by
  funext ending state
  unfold parser speculate Parser.speculate
  dsimp only
  rcases (m ending state).outcome with ⟨_ | a, next⟩ | ⟨error, next⟩ <;> rfl

theorem parser_manyWithin (item : Tracer (Option α)) (fuel : Nat) :
    (manyWithin item fuel).parser = Parser.manyWithin item.parser fuel := by
  induction fuel with
  | zero => rfl
  | succ fuel ih =>
    rw [manyWithin, parser_bind, Parser.manyWithin]
    congr 1
    funext found
    cases found with
    | none => rfl
    | some a => rw [parser_bind, ih]; rfl

@[simp] theorem parser_many (item : Tracer (Option α)) :
    (many item).parser = Parser.many item.parser := by
  funext ending state
  exact congrFun (congrFun (parser_manyWithin item (state.left + 1)) ending) state

theorem parser_iterateWithin (step : σ → Tracer (σ × Bool)) (fuel : Nat) (s : σ) :
    (iterateWithin step fuel s).parser =
      Parser.iterateWithin (fun s => (step s).parser) fuel s := by
  induction fuel generalizing s with
  | zero => rfl
  | succ fuel ih =>
    rw [iterateWithin, parser_bind, Parser.iterateWithin]
    congr 1
    funext ⟨t, again⟩
    cases again with
    | false => rfl
    | true => exact ih t

@[simp] theorem parser_iterate (step : σ → Tracer (σ × Bool)) (s : σ) :
    (iterate step s).parser = Parser.iterate (fun s => (step s).parser) s := by
  funext ending state
  exact congrFun (congrFun (parser_iterateWithin step (state.left + 1) s) ending) state

@[simp] theorem parser_statement (m : Tracer α) : (statement m).parser = m.parser := rfl

@[simp] theorem parser_casePattern (m : Tracer α) : (casePattern m).parser = m.parser := rfl

end Tracer

/-! ## Scripts -/

/-- What may begin in a script. -/
inductive Extent where
  /-- Statements, and with them cases. -/
  | statements
  /-- The pattern of the case that has begun. -/
  | pattern
  /-- Neither of them. -/
  | expression

inductive Script : Extent → Type → Type 1
  /-- Only reads what stands ahead. -/
  | look {extent : Extent} {α : Type} (f : Ending → ParserState → α) : Script extent α
  | advance {extent : Extent} : Script extent Unit
  | failAt {extent : Extent} {α : Type} (fault : GrammarFault) (position : Position) :
      Script extent α
  | bind {extent : Extent} {α β : Type} (first : Script extent α) (rest : α → Script extent β) :
      Script extent β
  | nested {extent : Extent} {α : Type} (inside : Script .expression α) : Script extent α
  | withinPattern {α : Type} (inside : Script .expression α) : Script .pattern α
  | speculate {extent : Extent} {α : Type} (attempt : Script extent (Option α)) :
      Script extent (Option α)
  | many {extent : Extent} {α : Type} (item : Script extent (Option α)) : Script extent (List α)
  | iterate {extent : Extent} {σ : Type} (step : σ → Script extent (σ × Bool)) (s : σ) :
      Script extent σ
  | statement {α : Type} (inside : Script .statements α) : Script .statements α
  | casePattern {α : Type} (inside : Script .pattern α) : Script .statements α

namespace Script

/-- The runs of a script. -/
def tracer : Script extent α → Tracer α
  | .look f => .step fun ending state => .ok (f ending state) state
  | .advance => .step Parser.advance
  | .failAt fault position => .step (Parser.failAt fault position)
  | .bind first rest => first.tracer >>= fun a => (rest a).tracer
  | .nested inside => .nested inside.tracer
  | .withinPattern inside => .withinPattern inside.tracer
  | .speculate attempt => .speculate attempt.tracer
  | .many item => .many item.tracer
  | .iterate step s => .iterate (fun s => (step s).tracer) s
  | .statement inside => .statement inside.tracer
  | .casePattern inside => .casePattern inside.tracer

end Script

/-- A parser with its script. -/
class Scripted (extent : Extent) (p : Parser α) where
  script : Script extent α
  parser_eq : script.tracer.parser = p

attribute [simp] Scripted.parser_eq

namespace Scripted
open SnippetLint.Parser

variable {extent : Extent}

/-! ### Looking at tokens -/

/-- A parser that only looks. -/
@[reducible]
def look {p : Parser α} (f : Ending → ParserState → α)
    (h : ∀ ending state, p ending state = .ok (f ending state) state) : Scripted extent p where
  script := .look f
  parser_eq := by
    funext ending state
    exact (h ending state).symm

instance (a : α) : Scripted extent (pure a : Parser α) := look _ fun _ _ => rfl

instance (n : Nat) : Scripted extent (peekAt n) := look _ fun _ _ => rfl

instance : Scripted extent peek := look _ fun _ _ => rfl

instance (kind : TokenKind) : Scripted extent (check kind) := look _ fun _ _ => rfl

instance (word : String) : Scripted extent (checkWord word) := look _ fun _ _ => rfl

instance : Scripted extent atEnd := look _ fun _ _ => rfl

instance : Scripted extent here := look _ fun _ _ => rfl

instance : Scripted extent lexeme := look _ fun _ _ => rfl

instance (kind : NodeKind) (start : Position) (children : List Tree) :
    Scripted extent (node kind start children) := look _ fun _ _ => rfl

instance (start : Position) : Scripted extent (spanFrom start) := look _ fun _ _ => rfl

instance : Scripted extent inPattern := look _ fun _ _ => rfl

/-! ### Sequences -/

@[reducible]
def sequence {p : Parser α} {f : α → Parser β} (hp : Scripted extent p)
    (hf : ∀ a, Scripted extent (f a)) : Scripted extent (p >>= f) where
  script := .bind hp.script fun a => (hf a).script
  parser_eq := by simp [Script.tracer]

instance (p : Parser α) (f : α → Parser β) [hp : Scripted extent p]
    [hf : ∀ a, Scripted extent (f a)] : Scripted extent (p >>= f) := sequence hp hf

instance (c : Prop) [Decidable c] (p q : Parser α) [hp : Scripted extent p]
    [hq : Scripted extent q] : Scripted extent (if c then p else q) where
  script := if c then hp.script else hq.script
  parser_eq := by split <;> simp

instance (f : α → β) (p : Parser α) [Scripted extent p] : Scripted extent (f <$> p) :=
  inferInstanceAs (Scripted extent (p >>= fun a => pure (f a)))

instance (p : Parser α) [Scripted extent p] : Scripted extent (discard p) :=
  inferInstanceAs (Scripted extent (p >>= fun _ => pure ()))

/-! ### Faults -/

instance (fault : GrammarFault) (position : Position) :
    Scripted extent (failAt fault position : Parser α) := ⟨.failAt fault position, rfl⟩

instance (fault : GrammarFault) : Scripted extent (failHere fault : Parser α) := by
  unfold failHere
  infer_instance

instance (result : Except ParseError α) : Scripted extent (Parser.ofExcept result) := by
  unfold Parser.ofExcept
  split <;> infer_instance

/-! ### Taking tokens -/

instance : Scripted extent advance := ⟨.advance, rfl⟩

instance (kind : TokenKind) : Scripted extent (eat kind) := by
  unfold eat
  infer_instance

instance (kind : TokenKind) : Scripted extent (expect kind) := by
  unfold expect
  infer_instance

instance (kind : TokenKind) : Scripted extent (require kind) := by
  unfold require
  infer_instance

instance : Scripted extent word := by
  unfold word
  infer_instance

instance : Scripted extent expectName := by
  unfold expectName
  infer_instance

/-! ### Control -/

instance (p : Parser α) [hp : Scripted .expression p] : Scripted extent (nested p) where
  script := .nested hp.script
  parser_eq := by simp [Script.tracer]

instance (p : Parser α) [hp : Scripted .expression p] : Scripted .pattern (withinPattern p) where
  script := .withinPattern hp.script
  parser_eq := by simp [Script.tracer]

instance (p : Parser (Option α)) [hp : Scripted extent p] : Scripted extent (speculate p) where
  script := .speculate hp.script
  parser_eq := by simp [Script.tracer]

instance (item : Parser (Option α)) [hitem : Scripted extent item] :
    Scripted extent (many item) where
  script := .many hitem.script
  parser_eq := by simp [Script.tracer]

instance (step : σ → Parser (σ × Bool)) [hstep : ∀ s, Scripted extent (step s)] (s : σ) :
    Scripted extent (iterate step s) where
  script := .iterate (fun s => (hstep s).script) s
  parser_eq := by simp [Script.tracer]

/-- Where the parser begins a statement. -/
@[reducible]
def statement {p : Parser α} (hp : Scripted .statements p) : Scripted .statements p where
  script := .statement hp.script
  parser_eq := by simp [Script.tracer]

/-- Where the parser reads the pattern of a case. -/
@[reducible]
def casePattern {p : Parser α} (hp : Scripted .pattern p) : Scripted .statements p where
  script := .casePattern hp.script
  parser_eq := by simp [Script.tracer]

instance (stop : Parser Bool) (item : Parser α) [Scripted extent stop] [Scripted extent item] :
    Scripted extent (commaTail stop item) := by
  unfold commaTail
  infer_instance

instance (stop : Parser Bool) (item : Parser Tree) [Scripted extent stop]
    [Scripted extent item] : Scripted extent (tupleOf stop item) := by
  unfold tupleOf
  infer_instance

end Scripted

end SnippetLint
