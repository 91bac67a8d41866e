import SnippetLint.Proofs.ProgramGrammar

/-!
Termination. Programs of the grammar never stop short and never stand still: each round that a loop
goes on with takes a token, what has been parsed without an error has taken one, and no program
reads or moves past the end marker. Main statement: `parsing_advances_and_ends`.
-/

namespace SnippetLint

/-- What a program ends in, if it runs into no trap. -/
def Exit.result : Exit α → Option (Except ParseError α)
  | .ok a _ => some (.ok a)
  | .fail error _ => some (.error error)
  | .trap _ => none

/-- What a parser ends in. -/
def Outcome.result : Outcome α → Except ParseError α
  | .ok a _ => .ok a
  | .fail error _ => .error error

theorem Mirrors.result_eq {v : TokenVector} {spot : Spot} {exit : Exit α} {outcome : Outcome α}
    (h : Mirrors v spot exit outcome) : exit.result = some outcome.result := by
  cases h <;> rfl

/-- The spot at which a program begins. -/
def Spot.start : Spot := ⟨0, 0, false⟩

namespace TokenVector

/-- The tokens of a stream that the grammar sees, with what stands at their end. -/
def ofStream (stream : TokenStream) : TokenVector where
  front := Module.significant stream
  ending := Module.endingOf stream
  capacity := none
  front_ne token htoken := by
    obtain ⟨-, hkind⟩ := List.mem_filter.1 htoken
    simp only [Bool.and_eq_true, bne_iff_ne] at hkind
    exact hkind.2
  fits := nofun

theorem state_start (stream : TokenStream) :
    (ofStream stream).state .start = Module.initial stream := by
  refine congrArg (ParserState.before (Module.significant stream)) ?_
  show ((Module.significant stream)[0]?.getD
    (Lexer.mark .endMarker (Module.endingOf stream).position)).span.stop = _
  cases Module.significant stream <;> rfl

end TokenVector

namespace Termination
open SnippetLint.Parser SnippetLint.Indexed SnippetLint.Derivation

/-- The program of a parser gives what the parser gives from this spot on, without a trap, and it
has moved on if that is a value. -/
def Advances (room levels : Nat) (p : Parser α) [Indexed room levels p] (v : TokenVector)
    (spot : Spot) : Prop :=
  Mirrors v spot (program room levels p v.tape spot) (p v.ending (v.state spot)) ∧
    ∀ a next, program room levels p v.tape spot = .ok a next → spot.pos < next.pos

variable {room levels : Nat} {v : TokenVector} {spot : Spot}

theorem advances {p : Parser α} [Indexed room levels p] (h : Fits room levels v spot)
    (hleft : ∀ {ending before a after}, p ending before = .ok a after → after.left < before.left) :
    Advances room levels p v spot := by
  have hmirrors := mirrors (p := p) h
  refine ⟨hmirrors, fun a next hok => ?_⟩
  rw [hok] at hmirrors
  generalize houtcome : p v.ending (v.state spot) = outcome at hmirrors
  cases hmirrors with
  | ok =>
    have hlt := hleft houtcome
    simp only [TokenVector.left_state] at hlt
    omega

/-- What gives one tree has read the tokens of that tree. -/
theorem left_lt_of_yields {p : Parser Tree} {phrase : Phrase} (hp : Yields p (one phrase))
    {ending : Ending} {before after : ParserState} {t : Tree}
    (h : p ending before = .ok t after) : after.left < before.left :=
  (hp h).left_lt (List.cons_ne_nil _ _)

theorem result_module (stream : TokenStream) :
    (Module.module ((TokenVector.ofStream stream).last + 1) (Module.endingOf stream)
      (Module.initial stream)).result = Module.ofStream stream := by
  unfold Module.ofStream
  show (Module.module ((Module.initial stream).left + 1) _ _).result = _
  dsimp only
  cases Module.module ((Module.initial stream).left + 1) (Module.endingOf stream)
    (Module.initial stream) <;> rfl

/-- From every spot of every token vector, the programs of statements, blocks, expressions, operands
and targets run into no trap: no token past the end marker is read or taken, no loop goes on with a
round in which no token has been taken, and no more blocks or levels open than there are tokens or
than may nest. They have moved on unless they fail. Whatever the text, its lexer comes to an end,
and on its tokens the program of a whole snippet ends in the result of the parser. -/
theorem parsing_advances_and_ends :
    (∀ (v : TokenVector) (spot : Spot), spot.pos ≤ v.last →
      let room := v.last - spot.pos + 1
      let levels := maxNesting - spot.depth
      Advances room maxNesting (Compound.statement room) v spot ∧
      (∀ construct line, Advances (room + 1) maxNesting
        (Compound.blockOf (Compound.statement room) construct line) v spot) ∧
      Advances room maxNesting Simple.statement v spot ∧
      Advances room levels (Level.within levels).expression v spot ∧
      (∀ least, Advances room levels ((Level.within levels).operand least) v spot) ∧
      Advances room levels (Expression.primary (.within levels)) v spot ∧
      Advances room levels (Expression.targetList (.within levels)) v spot) ∧
    ∀ source : String,
      let v := TokenVector.ofStream (.ofText source)
      (Lexer.ofText source).Lexes TokenStream.tabSize (.ofText source) ∧
      (program (v.last + 1) maxNesting (Module.module (v.last + 1)) v.tape .start).result =
        some (Module.parse source) := by
  constructor
  · intro v spot hpos room levels
    have hinner : Fits room levels v spot := ⟨hpos, by omega, by omega⟩
    have htop : Fits room maxNesting v spot := ⟨hpos, by omega, Nat.le_add_left _ _⟩
    have hblock : Fits (room + 1) maxNesting v spot := ⟨hpos, by omega, Nat.le_add_left _ _⟩
    refine ⟨advances htop Progress.left_lt_of_statement, fun construct line => ?_, ?_, ?_,
      fun least => ?_, ?_, ?_⟩
    · exact advances hblock
        (left_lt_of_yields (yields_blockOf (yields_statement room) construct line))
    · exact advances htop (left_lt_of_yields yields_simple)
    · exact advances hinner (left_lt_of_yields SoundLevel.expression)
    · exact advances hinner (left_lt_of_yields (SoundLevel.operand least))
    · exact advances hinner (left_lt_of_yields (yields_primary _))
    · exact advances hinner (left_lt_of_yields (yields_targetList _))
  · intro source v
    have hstart : Fits (v.last + 1) maxNesting v .start :=
      ⟨Nat.zero_le _, by omega, Nat.le_add_left _ _⟩
    refine ⟨TokenStream.lexes_withTabs _ source, ?_⟩
    rw [(mirrors hstart).result_eq, TokenVector.state_start]
    exact congrArg some (result_module (.ofText source))

/-- The value of `x = 1`, behind two of its four tokens, is an expression that takes a token. -/
theorem value_after_equals_sign :
    let v := TokenVector.ofStream (.ofText "x = 1\n")
    v.last = 4 ∧ Advances 3 maxNesting (Level.within maxNesting).expression v ⟨2, 0, false⟩ := by
  intro v
  have hlast : v.last = 4 := by decide +kernel
  have hall := parsing_advances_and_ends.1 v ⟨2, 0, false⟩ (by rw [hlast]; decide)
  rw [hlast] at hall
  exact ⟨hlast, hall.2.2.2.1⟩

end Termination

end SnippetLint
