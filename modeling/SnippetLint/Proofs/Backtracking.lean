import SnippetLint.Grammar.Module
import SnippetLint.Proofs.BuildingGrammar

/-!
An attempt that is given up leaves no trace. Going back only cuts the arena to its size before, and
this restores it, since an attempt changes no node that was there before: whatever a rule marks, it
has stored itself. Main statement: `abandoned_attempts_leave_no_trace`.
-/

namespace SnippetLint.Backtracking
open SnippetLint.Building SnippetLint.Builder

section Heads

variable (ending : Ending) (state : ParserState) (arena : Arena)

/-! ## Match -/

/-- Builder and parser both go on with a match statement, or for both nothing has happened. -/
theorem matchStmt_cases (rest : Position → Nat → Builder Nat) (block : Compound.BlockParser) :
    ((∀ next later, matchStmt rest ending state arena ≠ .ok none next later) ∧
      ∀ next, Compound.matchStmt block ending state ≠ .ok none next) ∨
    matchStmt rest ending state arena = .ok none state arena ∧
      Compound.matchStmt block ending state = .ok none state := by
  obtain ⟨f, hbuilder, hnone, start, hsome⟩ : ∃ f : Option Nat → Builder (Option Nat),
      matchStmt rest ending state arena = (speculate matchSubject >>= f) ending state arena ∧
      f none = (do return none) ∧ ∃ start, ∀ subject,
        f (some subject) = (do return some (← rest start subject)) :=
    ⟨_, rfl, rfl, _, fun _ => rfl⟩
  obtain ⟨g, hparser, hnone', start', hsome'⟩ : ∃ g : Option Tree → Parser (Option Tree),
      Compound.matchStmt block ending state =
        (Parser.speculate Compound.matchSubject >>= g) ending state ∧
      g none = (do return none) ∧ ∃ start, ∀ subject,
        g (some subject) = (do return some (← Compound.matchRest block start subject)) :=
    ⟨_, rfl, rfl, _, fun _ => rfl⟩
  rw [hbuilder, hparser, bind_eq, ParserLaw.bind_eq]
  obtain ⟨subject, next, hq, hp⟩ | ⟨hq, hp⟩ :=
    speculate_cases (tries_matchSubject arena ending state)
  · rw [hq, hp]
    refine .inl ⟨fun next later h => ?_, fun next h => ?_⟩
    · dsimp only at h
      rw [hsome, bind_eq] at h
      split at h <;> cases h
    · dsimp only at h
      rw [hsome', ParserLaw.bind_eq] at h
      split at h <;> cases h
  · rw [hq, hp]
    dsimp only
    rw [hnone, hnone']
    exact .inr ⟨rfl, rfl⟩

/-- A match statement that is given up is one that has not been begun. -/
theorem matchStmt_of_none {rest : Position → Nat → Builder Nat} {next : ParserState}
    {later : Arena} (h : matchStmt rest ending state arena = .ok none next later) :
    next = state ∧ later = arena := by
  obtain ⟨hbuilder, _⟩ | ⟨hbuilder, _⟩ := matchStmt_cases ending state arena rest default
  · exact absurd h (hbuilder next later)
  · rw [hbuilder] at h
    cases h
    exact ⟨rfl, rfl⟩

theorem matchLine_of_none {rest : Position → Nat → Builder Nat} (line : Builder (List Nat))
    (h : matchStmt rest ending state arena = .ok none state arena) :
    matchLine rest line ending state arena = line ending state arena := by
  unfold matchLine
  rw [bind_eq, h]

/-! ## With -/

theorem tryBracketed_of_none {next : ParserState} {later : Arena}
    (h : tryBracketed ending state arena = .ok none next later) :
    next = state ∧ later = arena := by
  obtain ⟨isBracket, htry⟩ : ∃ isBracket : Bool, tryBracketed ending state arena =
    (if isBracket then speculate bracketedItems else pure none) ending state arena := ⟨_, rfl⟩
  rw [htry] at h
  cases isBracket with
  | false =>
    cases h
    exact ⟨rfl, rfl⟩
  | true =>
    obtain ⟨items, after, _, hp⟩ | ⟨_, hp⟩ :=
      speculate_cases (tries_bracketedItems arena ending state)
    · cases hp.symm.trans h
    · cases hp.symm.trans h
      exact ⟨rfl, rfl⟩

theorem headItems_of_none (h : tryBracketed ending state arena = .ok none state arena) :
    headItems ending state arena = withItems ending state arena := by
  unfold headItems
  rw [bind_eq, h]

theorem withStmt_eq_bind (block : BlockBuilder) (start : Position) (isAsync : Bool)
    {after : ParserState} (h : Parser.advance ending state = .ok () after) :
    ∃ line, ∀ items, withStmt items block start isAsync ending state arena =
      (items >>= withRest block start isAsync line) ending after arena := by
  obtain ⟨line, hline⟩ : ∃ line, Compound.lineHere ending state = .ok line state := ⟨_, rfl⟩
  refine ⟨line, fun items => ?_⟩
  unfold withStmt
  rw [bind_eq, read_eq, hline]
  dsimp only
  rw [bind_eq, read_eq, h]

end Heads

/-! ## No trace -/

/-- An attempt ends as in the grammar of trees, and cut back to its old size, the arena that it
leaves is the one that it began in, whatever it did. So a match statement and brackets around items
that are given up leave the state and the arena as they were, and what is read instead is read as if
they had not been tried. They are given up just where the grammar of trees gives them up. -/
theorem abandoned_attempts_leave_no_trace (ending : Ending) (state : ParserState) (arena : Arena) :
    (Tries arena (matchSubject ending state arena) (Compound.matchSubject ending state) ∧
      (matchSubject ending state arena).arena.truncate arena.size = arena) ∧
    (Tries arena (bracketedItems ending state arena) (Compound.bracketedItems ending state) ∧
      (bracketedItems ending state arena).arena.truncate arena.size = arena) ∧
    (∀ rest line next later, matchStmt rest ending state arena = .ok none next later →
      next = state ∧ later = arena ∧
        matchLine rest line ending state arena = line ending state arena) ∧
    (∀ block start isAsync after next later, Parser.advance ending state = .ok () after →
      tryBracketed ending after arena = .ok none next later →
        next = after ∧ later = arena ∧
          withStmt headItems block start isAsync ending state arena =
            withStmt withItems block start isAsync ending state arena) ∧
    (∀ rest block, matchStmt rest ending state arena = .ok none state arena ↔
      Compound.matchStmt block ending state = .ok none state) ∧
    ∀ block block', (∀ construct line now,
      Agrees now now (block construct line) (block' construct line)) →
      ∀ start isAsync, Matches arena (withStmt headItems block start isAsync ending state arena)
        (Compound.withStmt block' start isAsync ending state) := by
  have hmatch := tries_matchSubject arena ending state
  have hbracketed := tries_bracketedItems arena ending state
  refine ⟨⟨hmatch, Arena.truncate_of_grows hmatch.grows⟩,
    ⟨hbracketed, Arena.truncate_of_grows hbracketed.grows⟩, ?_, ?_, ?_, ?_⟩
  · intro rest line next later h
    obtain ⟨rfl, rfl⟩ := matchStmt_of_none ending state arena h
    exact ⟨rfl, rfl, matchLine_of_none ending _ _ line h⟩
  · intro block start isAsync after next later hadvance h
    obtain ⟨rfl, rfl⟩ := tryBracketed_of_none ending after arena h
    obtain ⟨line, hstmt⟩ := withStmt_eq_bind ending state later block start isAsync hadvance
    refine ⟨rfl, rfl, ?_⟩
    rw [hstmt, hstmt, bind_eq, bind_eq, headItems_of_none ending _ _ h]
  · intro rest block
    obtain ⟨hbuilder, hparser⟩ | ⟨hbuilder, hparser⟩ :=
      matchStmt_cases ending state arena rest block
    · exact ⟨fun h => absurd h (hbuilder _ _), fun h => absurd h (hparser _)⟩
    · exact ⟨fun _ => hparser, fun _ => hbuilder⟩
  · intro block block' hblock start isAsync
    exact (agrees_withStmt arena hblock start isAsync).run ending state

/-- The target of a generator is marked before `match` turns out to be a name, and the parameter of
a lambda is changed before its brackets turn out to be its own. -/
theorem marked_attempts_leave_no_trace :
    (∃ ending state, ending = Module.endingOf (.ofText "match (a for a, b in c)") ∧
      state = Module.initial (.ofText "match (a for a, b in c)") ∧
      (matchSubject ending state .empty).arena ≠ .empty ∧
      matchLine (fun _ id => pure id) (pure []) ending state .empty = .ok [] state .empty) ∧
    ∃ ending state, ending = Module.endingOf (.ofText "with (lambda a, /: a) as f: pass") ∧
      state = Module.initial (.ofText "with (lambda a, /: a) as f: pass") ∧
      withStmt headItems (fun _ _ => node .block .start []) .start false ending state .empty =
        withStmt withItems (fun _ _ => node .block .start []) .start false ending state .empty ∧
      Matches .empty
        (withStmt headItems (fun _ _ => node .block .start []) .start false ending state .empty)
        (Compound.withStmt (fun _ _ => Parser.node .block .start []) .start false ending
          state) := by
  constructor
  · obtain ⟨ending, hending⟩ : ∃ ending, ending =
      Module.endingOf (.ofText "match (a for a, b in c)") := ⟨_, rfl⟩
    obtain ⟨state, hstate⟩ : ∃ state, state =
      Module.initial (.ofText "match (a for a, b in c)") := ⟨_, rfl⟩
    have hgiven : (matchSubject ending state .empty).arena ≠ .empty ∧
        matchStmt (fun _ id => pure id) ending state .empty = .ok none state .empty := by
      rw [hending, hstate]
      decide +kernel
    obtain ⟨_, _, hmatch, _⟩ := abandoned_attempts_leave_no_trace ending state .empty
    exact ⟨ending, state, hending, hstate, hgiven.1, (hmatch _ (pure []) _ _ hgiven.2).2.2⟩
  · obtain ⟨ending, hending⟩ : ∃ ending, ending =
      Module.endingOf (.ofText "with (lambda a, /: a) as f: pass") := ⟨_, rfl⟩
    obtain ⟨state, hstate⟩ : ∃ state, state =
      Module.initial (.ofText "with (lambda a, /: a) as f: pass") := ⟨_, rfl⟩
    have hgiven : (match Parser.advance ending state with
        | .ok _ after => decide (tryBracketed ending after .empty = .ok none after .empty)
        | .fail _ _ => false) = true := by
      rw [hending, hstate]
      decide +kernel
    obtain ⟨_, _, _, hwith, _, hgrammar⟩ :=
      abandoned_attempts_leave_no_trace ending state .empty
    refine ⟨ending, state, hending, hstate, ?_, hgrammar _ _ (fun _ _ _ => inferInstance) _ _⟩
    cases hadvance : Parser.advance ending state with
    | fail error next =>
      rw [hadvance] at hgiven
      cases hgiven
    | ok value after =>
      rw [hadvance] at hgiven
      exact (hwith _ _ _ _ _ _ hadvance (of_decide_eq_true hgiven)).2.2

end SnippetLint.Backtracking
