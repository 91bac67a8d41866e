import SnippetLint.Proofs.Progress

/-!
Parsing by index. The parsers of the grammar read a list that gets shorter, and their loops are
given a number of rounds. A program has neither: its tokens stand in one vector behind an index, a
loop runs for as long as it says so, and what may go wrong on the way is a trap. `Indexed` ties the
two together: it has one instance for each way to put parsers together, which is the way to put
their programs together, and it says that the program gives what the parser gives and runs into no
trap.
-/

namespace SnippetLint

/-! ## Programs -/

/-- What a program must not run into. -/
inductive Trap where
  /-- A token is read where there is none. -/
  | outOfRange
  /-- The index moves over the last token. -/
  | pastEnd
  /-- A nesting level is closed where none is open. -/
  | underflow
  /-- A count does not fit. -/
  | overflow
  /-- A loop goes on although no token has been taken. -/
  | idle
  /-- More blocks or nesting levels are opened than the grammar is tied together for. -/
  | exhausted
  deriving DecidableEq

/-- What a program reads. -/
structure Tape where
  tokens : List Token
  /-- The lexical error, with the index of the token that stands for it. -/
  failure : Option (Nat × LexicalError)
  /-- The first number that does not fit, if numbers have a size. -/
  capacity : Option Nat

/-- Where a program stands. -/
structure Spot where
  pos : Nat
  depth : Nat
  inPattern : Bool
  deriving DecidableEq

inductive Exit (α : Type) where
  | ok (value : α) (spot : Spot)
  | fail (error : ParseError) (spot : Spot)
  | trap (trap : Trap)

def Program (α : Type) : Type := Tape → Spot → Exit α

namespace Program

instance : Monad Program where
  pure a := fun _ spot => .ok a spot
  bind m f := fun tape spot =>
    match m tape spot with
    | .ok a next => f a tape next
    | .fail error next => .fail error next
    | .trap trap => .trap trap

theorem bind_eq (m : Program α) (f : α → Program β) (tape : Tape) (spot : Spot) :
    (m >>= f) tape spot =
      match m tape spot with
      | .ok a next => f a tape next
      | .fail error next => .fail error next
      | .trap trap => .trap trap := rfl

theorem bind_ok {m : Program α} {f : α → Program β} {tape : Tape} {spot next : Spot} {a : α}
    (h : m tape spot = .ok a next) : (m >>= f) tape spot = f a tape next := by
  rw [bind_eq, h]

/-- The token at an index. -/
def tokenAt (index : Nat) : Program Token := fun tape spot =>
  match tape.tokens[index]? with
  | some token => .ok token spot
  | none => .trap .outOfRange

/-- The next token; past the last one, the last one. -/
def current : Program Token := fun tape spot =>
  tokenAt (min spot.pos (tape.tokens.length - 1)) tape spot

/-- The token before the next one; at the front, the next one. -/
def previous : Program Token := fun tape spot => tokenAt (spot.pos - 1) tape spot

/-- The kind of the token `n` further, which need not be there. -/
def kindAt (n : Nat) : Program TokenKind := fun tape spot =>
  .ok ((tape.tokens[spot.pos + n]?.map Token.kind).getD .endMarker) spot

def atEnd : Program Bool := do return (← current).kind == .endMarker

/-- Moves the index over one token. -/
def step : Program Unit := fun tape spot =>
  if spot.pos + 1 < tape.tokens.length then .ok () { spot with pos := spot.pos + 1 }
  else .trap .pastEnd

/-- Takes the next token, unless it is the end marker. -/
def advance : Program Unit := do
  if !(← atEnd) then step
  discard previous

/-- Fails at a place, or with the lexical error where its token has been reached. -/
def failAt (fault : GrammarFault) (position : Position) : Program α := fun tape spot =>
  match tape.failure with
  | some (index, error) =>
    if index ≤ spot.pos then .fail ⟨.lexical error.fault, error.position⟩ spot
    else .fail ⟨fault, position⟩ spot
  | none => .fail ⟨fault, position⟩ spot

def failHere (fault : GrammarFault) : Program α := do failAt fault (← current).span.start

def ofExcept : Except ParseError α → Program α
  | .ok a => pure a
  | .error error => failAt error.fault error.position

/-- Closes a nesting level. -/
def close (spot : Spot) (exit : Spot → Exit α) : Exit α :=
  if spot.depth = 0 then .trap .underflow else exit { spot with depth := spot.depth - 1 }

/-- Runs a program one level deeper. -/
def nested (m : Program α) : Program α := fun tape spot =>
  if Parser.maxNesting ≤ spot.depth then failHere .tooDeeplyNested tape spot
  else
    match m tape { spot with depth := spot.depth + 1 } with
    | .ok a next => close next (.ok a)
    | .fail error next => close next (.fail error)
    | .trap trap => .trap trap

def withinPattern (m : Program α) : Program α := fun tape spot =>
  match m tape { spot with inPattern := true } with
  | .ok a next => .ok a { next with inPattern := spot.inPattern }
  | .fail error next => .fail error { next with inPattern := spot.inPattern }
  | .trap trap => .trap trap

def inPattern : Program Bool := fun _ spot => .ok spot.inPattern spot

/-- Runs a program and goes back to where it began if it fails or gives nothing. -/
def speculate (m : Program (Option α)) : Program (Option α) := fun tape spot =>
  match m tape spot with
  | .ok (some a) next => .ok (some a) next
  | .trap trap => .trap trap
  | _ => .ok none spot

/-- A round that begins at one spot has taken a token when it ends at the other. -/
def Took (tape : Tape) (spot next : Spot) : Prop :=
  spot.pos < next.pos ∧ next.pos < tape.tokens.length

instance (tape : Tape) (spot next : Spot) : Decidable (Took tape spot next) :=
  inferInstanceAs (Decidable (_ ∧ _))

theorem Took.left_lt {tape : Tape} {spot next : Spot} (h : Took tape spot next) :
    tape.tokens.length - next.pos < tape.tokens.length - spot.pos := by
  obtain ⟨hmoved, hrange⟩ := h
  omega

/-- The values of a program run until it gives none. -/
def many (item : Program (Option α)) : Program (List α) := fun tape spot =>
  match item tape spot with
  | .ok none next => .ok [] next
  | .ok (some a) next =>
    if _ : Took tape spot next then
      match many item tape next with
      | .ok more last => .ok (a :: more) last
      | .fail error last => .fail error last
      | .trap trap => .trap trap
    else .trap .idle
  | .fail error next => .fail error next
  | .trap trap => .trap trap
termination_by tape spot => tape.tokens.length - spot.pos
decreasing_by exact Took.left_lt ‹_›

/-- Runs a step as long as it says so, handing on a value. -/
def iterate (step : σ → Program (σ × Bool)) (s : σ) : Program σ := fun tape spot =>
  match step s tape spot with
  | .ok (t, false) next => .ok t next
  | .ok (t, true) next =>
    if _ : Took tape spot next then iterate step t tape next else .trap .idle
  | .fail error next => .fail error next
  | .trap trap => .trap trap
termination_by tape spot => tape.tokens.length - spot.pos
decreasing_by exact Took.left_lt ‹_›

/-- The sum of two numbers, if it fits. -/
def add (m n : Nat) : Program Nat := fun tape spot =>
  if tape.capacity.any (· ≤ m + n) then .trap .overflow else .ok (m + n) spot

/-- Adds numbers one after the other. -/
def total (sum : Nat) : List Nat → Program Nat
  | [] => pure sum
  | n :: ns => do total (← add sum n) ns

end Program

/-! ## Token vectors -/

/-- Tokens before their end marker, and what stands at their end. Numbers may have a size, as long
as three can be added for each token. -/
structure TokenVector where
  front : List Token
  ending : Ending
  capacity : Option Nat
  front_ne : ∀ token ∈ front, token.kind ≠ .endMarker
  fits : ∀ size ∈ capacity, 3 * front.length < size

namespace TokenVector
open SnippetLint.Parser

variable (v : TokenVector)

def marker : Token := Lexer.mark .endMarker v.ending.position

/-- The index of the end marker. -/
def last : Nat := v.front.length

def tape : Tape where
  tokens := v.front ++ [v.marker]
  failure := v.ending.fault.map fun fault => (v.last, ⟨fault, v.ending.position⟩)
  capacity := v.capacity

/-- The token at an index up to the one of the end marker. -/
def token (index : Nat) : Token := v.front[index]?.getD v.marker

/-- The state of a parser that has read the tokens before the index. -/
def state (spot : Spot) : ParserState where
  rest := v.front.drop spot.pos
  left := (v.front.drop spot.pos).length
  lastStop := (v.token (spot.pos - 1)).span.stop
  depth := spot.depth
  inPattern := spot.inPattern
  left_eq := rfl

variable {v} {spot : Spot}

@[simp] theorem length_tokens : v.tape.tokens.length = v.last + 1 := by simp [tape, last]

@[simp] theorem left_state : (v.state spot).left = v.last - spot.pos := by simp [state, last]

theorem getElem?_tokens {index : Nat} (h : index ≤ v.last) :
    v.tape.tokens[index]? = some (v.token index) := by
  unfold last at h
  by_cases hfront : index < v.front.length
  · simp [tape, token, hfront, List.getElem?_append_left hfront]
  · have hindex : index = v.front.length := by omega
    simp [tape, token, hindex]

theorem tokenAt_eq {index : Nat} (h : index ≤ v.last) :
    Program.tokenAt index v.tape spot = .ok (v.token index) spot := by
  simp only [Program.tokenAt, getElem?_tokens h]

theorem current_eq (h : spot.pos ≤ v.last) :
    Program.current v.tape spot = .ok (v.token spot.pos) spot := by
  have hindex : min spot.pos (v.tape.tokens.length - 1) = spot.pos := by
    rw [length_tokens]
    omega
  rw [Program.current, hindex, tokenAt_eq h]

theorem previous_eq (h : spot.pos ≤ v.last) :
    Program.previous v.tape spot = .ok (v.token (spot.pos - 1)) spot := by
  rw [Program.previous, tokenAt_eq (by omega)]

/-- The tokens that are left begin with the one at the index, or there are none and the end marker
stands there. -/
theorem rest_state (h : spot.pos ≤ v.last) :
    ((v.state spot).rest = v.token spot.pos :: v.front.drop (spot.pos + 1) ∧ spot.pos < v.last ∧
      (v.token spot.pos).kind ≠ .endMarker) ∨
    ((v.state spot).rest = [] ∧ spot.pos = v.last ∧ v.token spot.pos = v.marker) := by
  unfold last at h ⊢
  by_cases hfront : spot.pos < v.front.length
  · have htoken : v.token spot.pos = v.front[spot.pos] := by simp [token, hfront]
    refine .inl ⟨?_, hfront, ?_⟩
    · rw [htoken]
      exact List.drop_eq_getElem_cons hfront
    · rw [htoken]
      exact v.front_ne _ (List.getElem_mem hfront)
  · have hpos : spot.pos = v.front.length := by omega
    exact .inr ⟨by simp [state, hpos], hpos, by simp [token, hpos]⟩

end TokenVector

/-! ## Programs of parsers -/

/-- The exit of a program that mirrors the outcome of a parser: the index has not moved back, nor
over the end marker, all levels are closed, and nothing has been run into. -/
inductive Mirrors (v : TokenVector) (spot : Spot) : Exit α → Outcome α → Prop where
  | ok {a : α} {next : Spot} (hle : spot.pos ≤ next.pos) (hlast : next.pos ≤ v.last)
      (hdepth : next.depth = spot.depth) : Mirrors v spot (.ok a next) (.ok a (v.state next))
  | fail {error : ParseError} {next : Spot} (hle : spot.pos ≤ next.pos) (hlast : next.pos ≤ v.last)
      (hdepth : next.depth = spot.depth) :
      Mirrors v spot (.fail error next) (.fail error (v.state next))

/-- What comes after a first part that has closed its levels. -/
theorem Mirrors.after {v : TokenVector} {spot next : Spot} {exit : Exit α} {outcome : Outcome α}
    (h : Mirrors v next exit outcome) (hle : spot.pos ≤ next.pos)
    (hdepth : next.depth = spot.depth) : Mirrors v spot exit outcome := by
  cases h with
  | ok hle' hlast hdepth' => exact .ok (Nat.le_trans hle hle') hlast (hdepth'.trans hdepth)
  | fail hle' hlast hdepth' => exact .fail (Nat.le_trans hle hle') hlast (hdepth'.trans hdepth)

/-- From this spot on, at most so many blocks and levels can open. -/
structure Fits (room levels : Nat) (v : TokenVector) (spot : Spot) : Prop where
  pos_le : spot.pos ≤ v.last
  left_lt : v.last - spot.pos < room
  deep : Parser.maxNesting ≤ spot.depth + levels

theorem Fits.after {room levels : Nat} {v : TokenVector} {spot next : Spot}
    (h : Fits room levels v spot) (hle : spot.pos ≤ next.pos) (hlast : next.pos ≤ v.last)
    (hdepth : next.depth = spot.depth) : Fits room levels v next := by
  have := h.left_lt
  exact ⟨hlast, by omega, hdepth ▸ h.deep⟩

/-- A parser with its program. -/
class Indexed (room levels : Nat) (p : Parser α) where
  program : Program α
  mirrors : ∀ {v : TokenVector} {spot : Spot}, Fits room levels v spot →
    Mirrors v spot (program v.tape spot) (p v.ending (v.state spot))

namespace Indexed
open SnippetLint.Parser SnippetLint.Progress

variable {room levels : Nat} {v : TokenVector} {spot : Spot}

/-! ### Looking at tokens -/

/-- What looks only at the tokens stays where it is. -/
theorem mirrors_look {m : Program α} {p : Parser α} {a : α} (hpos : spot.pos ≤ v.last)
    (hm : m v.tape spot = .ok a spot) (hp : p v.ending (v.state spot) = .ok a (v.state spot)) :
    Mirrors v spot (m v.tape spot) (p v.ending (v.state spot)) := by
  rw [hm, hp]
  exact .ok (Nat.le_refl _) hpos rfl

theorem mirrors_pure (a : α) (hpos : spot.pos ≤ v.last) :
    Mirrors v spot ((pure a : Program α) v.tape spot)
      ((pure a : Parser α) v.ending (v.state spot)) := mirrors_look hpos rfl rfl

instance (a : α) : Indexed room levels (pure a : Parser α) :=
  ⟨pure a, fun h => mirrors_pure a h.pos_le⟩

theorem kindAt_eq (n : Nat) :
    Program.kindAt n v.tape spot =
      .ok (((v.state spot).rest[n]?.map Token.kind).getD .endMarker) spot := by
  have hrest : (v.state spot).rest[n]? = v.front[spot.pos + n]? := by
    simp [TokenVector.state, Nat.add_comm]
  rw [Program.kindAt, hrest]
  by_cases hfront : spot.pos + n < v.front.length
  · simp [TokenVector.tape, List.getElem?_append_left hfront]
  · have hnone : v.front[spot.pos + n]? = none := List.getElem?_eq_none (by omega)
    by_cases hmark : spot.pos + n = v.front.length
    · simp [TokenVector.tape, hmark, TokenVector.marker, Lexer.mark]
    · have hend : v.tape.tokens[spot.pos + n]? = none := by
        apply List.getElem?_eq_none
        rw [TokenVector.length_tokens, TokenVector.last]
        omega
      rw [hend, hnone]

instance (n : Nat) : Indexed room levels (peekAt n) :=
  ⟨Program.kindAt n, fun h => mirrors_look h.pos_le (kindAt_eq n) rfl⟩

/-- What a parser asks of the next token, a program asks of the token at the index. -/
@[reducible]
def look {p : Parser α} (f : Token → α)
    (hnext : ∀ ending state token rest, state.rest = token :: rest →
      p ending state = .ok (f token) state)
    (hend : ∀ ending state, state.rest = [] →
      p ending state = .ok (f (Lexer.mark .endMarker ending.position)) state) :
    Indexed room levels p where
  program := do return f (← Program.current)
  mirrors {v spot} h := by
    refine mirrors_look h.pos_le (a := f (v.token spot.pos)) ?_ ?_
    · exact Program.bind_ok (TokenVector.current_eq h.pos_le)
    · obtain ⟨hrest, -, -⟩ | ⟨hrest, -, htoken⟩ := TokenVector.rest_state h.pos_le
      · exact hnext _ _ _ _ hrest
      · rw [htoken]
        exact hend _ _ hrest

instance : Indexed room levels peek :=
  look Token.kind (fun _ state token rest h => by simp [peek, peekAt, h]) fun _ state h => by
    simp [peek, peekAt, h, Lexer.mark]

instance (text : String) : Indexed room levels (checkWord text) :=
  look (fun token => token.kind == .name && token.lexeme == text)
    (fun _ state token rest h => by simp [checkWord, h]) fun _ state h => by
      simp [checkWord, h, Lexer.mark]

theorem here_eq (hpos : spot.pos ≤ v.last) :
    here v.ending (v.state spot) = .ok (v.token spot.pos).span.start (v.state spot) := by
  unfold here
  obtain ⟨hrest, -, -⟩ | ⟨hrest, -, htoken⟩ := TokenVector.rest_state hpos
  · rw [hrest]
  · rw [hrest, htoken]
    rfl

instance : Indexed room levels here where
  program := do return (← Program.current).span.start
  mirrors h :=
    mirrors_look h.pos_le (Program.bind_ok (TokenVector.current_eq h.pos_le)) (here_eq h.pos_le)

instance : Indexed room levels lexeme :=
  look Token.lexeme (fun _ state token rest h => by simp [lexeme, h]) fun _ state h => by
    simp [lexeme, h, Lexer.mark]

theorem mirrors_atEnd (hpos : spot.pos ≤ v.last) :
    Program.atEnd v.tape spot = .ok (v.state spot).rest.isEmpty spot := by
  rw [Program.atEnd, Program.bind_ok (TokenVector.current_eq hpos)]
  obtain ⟨hrest, -, hkind⟩ | ⟨hrest, -, htoken⟩ := TokenVector.rest_state hpos
  · rw [hrest, beq_false_of_ne hkind]
    rfl
  · rw [hrest, htoken]
    rfl

instance : Indexed room levels Parser.atEnd :=
  ⟨Program.atEnd, fun h => mirrors_look h.pos_le (mirrors_atEnd h.pos_le) rfl⟩

instance (kind : NodeKind) (start : Position) (children : List Tree) :
    Indexed room levels (node kind start children) where
  program := do return .node kind ⟨start, (← Program.previous).span.stop⟩ children
  mirrors h := mirrors_look h.pos_le (Program.bind_ok (TokenVector.previous_eq h.pos_le)) rfl

instance (start : Position) : Indexed room levels (spanFrom start) where
  program := do return ⟨start, (← Program.previous).span.stop⟩
  mirrors h := mirrors_look h.pos_le (Program.bind_ok (TokenVector.previous_eq h.pos_le)) rfl

instance : Indexed room levels inPattern :=
  ⟨Program.inPattern, fun h => mirrors_look h.pos_le rfl rfl⟩

/-! ### Sequences -/

/-- Programs one after the other. The second one may know that the first one has been run. -/
theorem mirrors_bind {m : Program α} {f : α → Program β} {p : Parser α} {g : α → Parser β}
    (hm : Mirrors v spot (m v.tape spot) (p v.ending (v.state spot)))
    (hf : ∀ a next, p v.ending (v.state spot) = .ok a (v.state next) → spot.pos ≤ next.pos →
      next.pos ≤ v.last → next.depth = spot.depth →
      Mirrors v next (f a v.tape next) (g a v.ending (v.state next))) :
    Mirrors v spot ((m >>= f) v.tape spot) ((p >>= g) v.ending (v.state spot)) := by
  rw [Program.bind_eq, ParserLaw.bind_eq]
  generalize hexit : m v.tape spot = exit at hm
  generalize houtcome : p v.ending (v.state spot) = outcome at hm hf
  cases hm with
  | fail hle hlast hdepth => exact .fail hle hlast hdepth
  | ok hle hlast hdepth => exact (hf _ _ rfl hle hlast hdepth).after hle hdepth

@[reducible]
def sequence {p : Parser α} {f : α → Parser β} (hp : Indexed room levels p)
    (hf : ∀ a, Indexed room levels (f a)) : Indexed room levels (p >>= f) where
  program := hp.program >>= fun a => (hf a).program
  mirrors h := mirrors_bind (hp.mirrors h) fun a _ _ hle hlast hdepth =>
    (hf a).mirrors (h.after hle hlast hdepth)

instance (p : Parser α) (f : α → Parser β) [hp : Indexed room levels p]
    [hf : ∀ a, Indexed room levels (f a)] : Indexed room levels (p >>= f) := sequence hp hf

instance (c : Prop) [Decidable c] (p q : Parser α) [hp : Indexed room levels p]
    [hq : Indexed room levels q] : Indexed room levels (if c then p else q) where
  program := if c then hp.program else hq.program
  mirrors h := by
    split
    · exact hp.mirrors h
    · exact hq.mirrors h

instance (f : α → β) (p : Parser α) [Indexed room levels p] : Indexed room levels (f <$> p) := by
  show Indexed room levels (p >>= fun a => pure (f a))
  infer_instance

instance (p : Parser α) [Indexed room levels p] : Indexed room levels (discard p) := by
  show Indexed room levels (p >>= fun _ => pure ())
  infer_instance

instance (kind : TokenKind) : Indexed room levels (check kind) := by
  unfold check
  infer_instance

/-! ### Faults -/

theorem mirrors_failAt (fault : GrammarFault) (position : Position) (hpos : spot.pos ≤ v.last) :
    Mirrors v spot ((Program.failAt fault position : Program α) v.tape spot)
      ((failAt fault position : Parser α) v.ending (v.state spot)) := by
  have hstay : ∀ error : ParseError,
      Mirrors v spot (.fail error spot : Exit α) (.fail error (v.state spot)) :=
    fun error => .fail (Nat.le_refl _) hpos rfl
  obtain ⟨hrest, hlt, -⟩ | ⟨hrest, heq, -⟩ := TokenVector.rest_state hpos
  · have hexit : (Program.failAt fault position : Program α) v.tape spot =
        .fail ⟨fault, position⟩ spot := by
      cases hfault : v.ending.fault <;>
        simp [Program.failAt, TokenVector.tape, hfault, Nat.not_le.2 hlt]
    rw [hexit, Parser.failAt, hrest]
    exact hstay _
  · unfold Program.failAt Parser.failAt
    rw [hrest]
    cases hfault : v.ending.fault with
    | none => simpa [TokenVector.tape, hfault] using hstay _
    | some lexical => simpa [TokenVector.tape, hfault, heq] using hstay _

instance (fault : GrammarFault) (position : Position) :
    Indexed room levels (failAt fault position : Parser α) :=
  ⟨Program.failAt fault position, fun h => mirrors_failAt fault position h.pos_le⟩

theorem mirrors_failHere (fault : GrammarFault) (hpos : spot.pos ≤ v.last) :
    Mirrors v spot ((Program.failHere fault : Program α) v.tape spot)
      ((failHere fault : Parser α) v.ending (v.state spot)) := by
  rw [Program.failHere, Program.bind_ok (TokenVector.current_eq hpos), failHere,
    ParserLaw.bind_eq, here_eq hpos]
  exact mirrors_failAt fault _ hpos

instance (fault : GrammarFault) : Indexed room levels (failHere fault : Parser α) :=
  ⟨Program.failHere fault, fun h => mirrors_failHere fault h.pos_le⟩

instance (result : Except ParseError α) : Indexed room levels (Parser.ofExcept result) where
  program := Program.ofExcept result
  mirrors h := by
    cases result with
    | ok a => exact .ok (Nat.le_refl _) h.pos_le rfl
    | error error => exact mirrors_failAt error.fault error.position h.pos_le

/-! ### Taking tokens -/

theorem mirrors_advance (hpos : spot.pos ≤ v.last) :
    Mirrors v spot (Program.advance v.tape spot) (advance v.ending (v.state spot)) := by
  have hprevious : ∀ {next : Spot}, next.pos ≤ v.last →
      (discard Program.previous : Program Unit) v.tape next = .ok () next := fun hnext =>
    Program.bind_ok (TokenVector.previous_eq hnext)
  rw [Program.advance, Program.bind_ok (mirrors_atEnd hpos)]
  obtain ⟨hrest, hlt, -⟩ | ⟨hrest, -, -⟩ := TokenVector.rest_state hpos
  · have hstep : Program.step v.tape spot = .ok () { spot with pos := spot.pos + 1 } := by
      rw [Program.step, TokenVector.length_tokens, if_pos (by omega)]
    have hadvance : advance v.ending (v.state spot) =
        .ok () (v.state { spot with pos := spot.pos + 1 }) := by
      unfold advance
      split
      · next token rest heq =>
        rw [hrest] at heq
        cases heq
        simp [TokenVector.state]
        omega
      · next heq =>
        rw [hrest] at heq
        cases heq
    rw [hrest, hadvance]
    show Mirrors v spot ((Program.step >>= fun _ => discard Program.previous) v.tape spot) _
    rw [Program.bind_ok hstep, hprevious (by exact hlt)]
    exact .ok (Nat.le_succ _) hlt rfl
  · have hadvance : advance v.ending (v.state spot) = .ok () (v.state spot) := by
      unfold advance
      split
      · next heq =>
        rw [hrest] at heq
        cases heq
      · rfl
    rw [hrest, hadvance]
    show Mirrors v spot ((discard Program.previous : Program Unit) v.tape spot) _
    rw [hprevious hpos]
    exact .ok (Nat.le_refl _) hpos rfl

instance : Indexed room levels advance := ⟨Program.advance, fun h => mirrors_advance h.pos_le⟩

instance (kind : TokenKind) : Indexed room levels (eat kind) := by
  unfold eat
  infer_instance

instance (kind : TokenKind) : Indexed room levels (expect kind) := by
  unfold expect
  infer_instance

instance (kind : TokenKind) : Indexed room levels (require kind) := by
  unfold require
  infer_instance

instance : Indexed room levels word := by
  unfold word
  infer_instance

instance : Indexed room levels expectName := by
  unfold expectName
  infer_instance

/-! ### Control -/

instance (p : Parser α) [hp : Indexed room levels p] : Indexed room (levels + 1) (nested p) where
  program := Program.nested hp.program
  mirrors {v spot} h := by
    unfold Program.nested nested
    rw [show (v.state spot).depth = spot.depth from rfl]
    by_cases hdeep : maxNesting ≤ spot.depth
    · rw [if_pos hdeep, if_pos hdeep]
      exact mirrors_failHere _ h.pos_le
    · rw [if_neg hdeep, if_neg hdeep]
      have hdeeper : Fits room levels v { spot with depth := spot.depth + 1 } :=
        ⟨h.pos_le, h.left_lt, by have := h.deep; simp only; omega⟩
      have hinner := hp.mirrors hdeeper
      show Mirrors v spot _ (match p v.ending (v.state { spot with depth := spot.depth + 1 }) with
        | .ok a next => .ok a { next with depth := next.depth - 1 }
        | .fail error next => .fail error { next with depth := next.depth - 1 })
      generalize hp.program v.tape { spot with depth := spot.depth + 1 } = exit at hinner
      generalize p v.ending (v.state { spot with depth := spot.depth + 1 }) = outcome at hinner
      cases hinner with
      | @ok a next hle hlast hdepth =>
        have hclose : next.depth ≠ 0 := by rw [hdepth]; exact Nat.succ_ne_zero _
        simp only [Program.close, if_neg hclose]
        exact .ok hle hlast (by simp [hdepth])
      | @fail error next hle hlast hdepth =>
        have hclose : next.depth ≠ 0 := by rw [hdepth]; exact Nat.succ_ne_zero _
        simp only [Program.close, if_neg hclose]
        exact .fail hle hlast (by simp [hdepth])

instance (p : Parser α) [hp : Indexed room levels p] : Indexed room levels (withinPattern p) where
  program := Program.withinPattern hp.program
  mirrors {v spot} h := by
    have hpattern : Fits room levels v { spot with inPattern := true } :=
      ⟨h.pos_le, h.left_lt, h.deep⟩
    have hinner := hp.mirrors hpattern
    show Mirrors v spot
      (match hp.program v.tape { spot with inPattern := true } with
        | .ok a next => .ok a { next with inPattern := spot.inPattern }
        | .fail error next => .fail error { next with inPattern := spot.inPattern }
        | .trap trap => .trap trap)
      (match p v.ending (v.state { spot with inPattern := true }) with
        | .ok a next => .ok a { next with inPattern := (v.state spot).inPattern }
        | .fail error next => .fail error { next with inPattern := (v.state spot).inPattern })
    generalize hp.program v.tape { spot with inPattern := true } = exit at hinner
    generalize p v.ending (v.state { spot with inPattern := true }) = outcome at hinner
    cases hinner with
    | ok hle hlast hdepth => exact .ok hle hlast hdepth
    | fail hle hlast hdepth => exact .fail hle hlast hdepth

instance (p : Parser (Option α)) [hp : Indexed room levels p] :
    Indexed room levels (speculate p) where
  program := Program.speculate hp.program
  mirrors {v spot} h := by
    have hback : Mirrors v spot (.ok (none : Option α) spot) (.ok none (v.state spot)) :=
      .ok (Nat.le_refl _) h.pos_le rfl
    have hinner := hp.mirrors h
    unfold Program.speculate speculate
    generalize hp.program v.tape spot = exit at hinner
    generalize p v.ending (v.state spot) = outcome at hinner
    cases hinner with
    | @ok found next hle hlast hdepth =>
      cases found with
      | none => exact hback
      | some a => exact .ok hle hlast hdepth
    | fail => exact hback

/-! ### Loops -/

/-- A round that has taken a token has moved the index. -/
theorem took {next : Spot} (hlast : next.pos ≤ v.last)
    (hleft : (v.state next).left < (v.state spot).left) : Program.Took v.tape spot next := by
  simp only [TokenVector.left_state] at hleft
  constructor
  · omega
  · rw [TokenVector.length_tokens]
    omega

theorem mirrors_many {item : Parser (Option α)} [hitem : Indexed room levels item]
    [htakes : Takes false item Option.isSome] (fuel : Nat) {spot : Spot}
    (h : Fits room levels v spot) (hfuel : (v.state spot).left < fuel) :
    Mirrors v spot (Program.many hitem.program v.tape spot)
      (manyWithin item fuel v.ending (v.state spot)) := by
  induction fuel generalizing spot with
  | zero => omega
  | succ fuel ih =>
    rw [Program.many, manyWithin, ParserLaw.bind_eq]
    have hround := hitem.mirrors h
    generalize hexit : hitem.program v.tape spot = exit at hround
    generalize houtcome : item v.ending (v.state spot) = outcome at hround
    cases hround with
    | fail hle hlast hdepth => exact .fail hle hlast hdepth
    | @ok found next hle hlast hdepth =>
      cases found with
      | none => exact .ok hle hlast hdepth
      | some a =>
        have htook := took hlast (htakes.run nofun houtcome rfl)
        have hrest := ih (h.after hle hlast hdepth)
          (Nat.lt_of_lt_of_le (htakes.run nofun houtcome rfl) (Nat.lt_succ_iff.1 hfuel))
        simp only [dif_pos htook]
        show Mirrors v spot _ ((manyWithin item fuel >>= fun more => pure (a :: more)) v.ending
          (v.state next))
        rw [ParserLaw.bind_eq]
        refine Mirrors.after ?_ hle hdepth
        generalize Program.many hitem.program v.tape next = exit at hrest
        generalize manyWithin item fuel v.ending (v.state next) = outcome at hrest
        cases hrest with
        | ok hle hlast hdepth => exact .ok hle hlast hdepth
        | fail hle hlast hdepth => exact .fail hle hlast hdepth

instance (item : Parser (Option α)) [hitem : Indexed room levels item]
    [Takes false item Option.isSome] : Indexed room levels (many item) :=
  ⟨Program.many hitem.program, fun h => mirrors_many _ h (Nat.lt_succ_self _)⟩

theorem mirrors_iterate {step : σ → Parser (σ × Bool)} [hstep : ∀ s, Indexed room levels (step s)]
    [htakes : ∀ s, Takes false (step s) Prod.snd] (fuel : Nat) (s : σ) {spot : Spot}
    (h : Fits room levels v spot) (hfuel : (v.state spot).left < fuel) :
    Mirrors v spot (Program.iterate (fun s => (hstep s).program) s v.tape spot)
      (iterateWithin step fuel s v.ending (v.state spot)) := by
  induction fuel generalizing s spot with
  | zero => omega
  | succ fuel ih =>
    rw [Program.iterate, iterateWithin, ParserLaw.bind_eq]
    have hround := (hstep s).mirrors h
    generalize hexit : (hstep s).program v.tape spot = exit at hround
    generalize houtcome : step s v.ending (v.state spot) = outcome at hround
    cases hround with
    | fail hle hlast hdepth => exact .fail hle hlast hdepth
    | @ok result next hle hlast hdepth =>
      obtain ⟨t, again⟩ := result
      cases again with
      | false => exact .ok hle hlast hdepth
      | true =>
        have hleft := (htakes s).run nofun houtcome rfl
        simp only [dif_pos (took hlast hleft)]
        exact (ih t (h.after hle hlast hdepth)
          (Nat.lt_of_lt_of_le hleft (Nat.lt_succ_iff.1 hfuel))).after hle hdepth

instance (step : σ → Parser (σ × Bool)) [hstep : ∀ s, Indexed room levels (step s)]
    [∀ s, Takes false (step s) Prod.snd] (s : σ) : Indexed room levels (iterate step s) :=
  ⟨Program.iterate (fun s => (hstep s).program) s,
    fun h => mirrors_iterate _ s h (Nat.lt_succ_self _)⟩

open SnippetLint.Derivation in
instance (stop : Parser Bool) (item : Parser α) [Indexed room levels stop]
    [Indexed room levels item] [moves.Follows stop] [moves.Follows item] :
    Indexed room levels (commaTail stop item) := by
  unfold commaTail
  infer_instance

open SnippetLint.Derivation in
instance (stop : Parser Bool) (item : Parser Tree) [Indexed room levels stop]
    [Indexed room levels item] [moves.Follows stop] [moves.Follows item] :
    Indexed room levels (tupleOf stop item) := by
  unfold tupleOf
  infer_instance

end Indexed

end SnippetLint
