import Mathlib.Logic.Relation

/-!
# Forward simulation

A concrete system with an invariant is simulated by an abstract one when every step from a state that
satisfies the invariant keeps it and is, seen through an abstraction function, a step of the abstract
system. Runs are then runs of the abstract system (`run`), and what the abstract steps preserve holds of
every state that the concrete system reaches (`transport`).
-/

set_option autoImplicit false

namespace MemoryManagement.Library.Simulation

variable {σ τ : Type} {invariant : σ → Prop} {abstraction : σ → τ} {step : σ → σ → Prop}
  {abstractStep : τ → τ → Prop}

/-- Steps keep the invariant and are steps of the abstract system. -/
structure Simulated (invariant : σ → Prop) (abstraction : σ → τ) (step : σ → σ → Prop)
    (abstractStep : τ → τ → Prop) : Prop where
  keeps : ∀ s s', invariant s → step s s' → invariant s'
  agrees : ∀ s s', invariant s → step s s' → abstractStep (abstraction s) (abstraction s')

namespace Simulated

variable {s s' : σ}

theorem run (h : Simulated invariant abstraction step abstractStep) (hs : invariant s)
    (hrun : Relation.ReflTransGen step s s') :
    invariant s' ∧ Relation.ReflTransGen abstractStep (abstraction s) (abstraction s') := by
  induction hrun with
  | refl => exact ⟨hs, Relation.ReflTransGen.refl⟩
  | tail _ hstep ih =>
      obtain ⟨hinv, habstract⟩ := ih
      exact ⟨h.keeps _ _ hinv hstep, habstract.tail (h.agrees _ _ hinv hstep)⟩

/-- A relation to the start that abstract steps preserve holds at the end of each run. -/
theorem transport (h : Simulated invariant abstraction step abstractStep) {P : τ → Prop}
    (hkeeps : ∀ t t', P t → abstractStep t t' → P t') (hs : invariant s) (hstart : P (abstraction s))
    (hrun : Relation.ReflTransGen step s s') : P (abstraction s') := by
  induction hrun with
  | refl => exact hstart
  | tail hrun hstep ih => exact hkeeps _ _ ih (h.agrees _ _ (h.run hs hrun).1 hstep)

end Simulated

end MemoryManagement.Library.Simulation
