/-!
Loops by rounds. From a state a round gives the result of the loop or the next state, and a loop
ends if a result comes after finitely many rounds.
-/

namespace SnippetLint

/-- A loop that starts in this state comes to this result. -/
inductive Ends {σ ρ : Type} (round : σ → ρ ⊕ σ) : σ → ρ → Prop
  | last {state : σ} {result : ρ} (h : round state = .inl result) : Ends round state result
  | again {state next : σ} {result : ρ} (h : round state = .inr next)
      (rest : Ends round next result) : Ends round state result

variable {σ ρ : Type} {round : σ → ρ ⊕ σ} {state : σ} {result other : ρ}

/-- A loop has one result at most. -/
theorem Ends.unique (h : Ends round state result) (h' : Ends round state other) :
    other = result := by
  induction h with
  | last hlast =>
    cases h' with
    | last hlast' => exact Sum.inl.inj (hlast'.symm.trans hlast)
    | again hagain _ => cases hagain.symm.trans hlast
  | again hagain _ ih =>
    cases h' with
    | last hlast => cases hlast.symm.trans hagain
    | again hagain' rest =>
      cases hagain'.symm.trans hagain
      exact ih rest

theorem Ends.iff_eq (h : Ends round state result) :
    Ends round state other ↔ other = result :=
  ⟨h.unique, fun heq => heq ▸ h⟩

end SnippetLint
