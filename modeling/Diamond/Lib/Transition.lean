import Mathlib.Logic.Relation

/-!
# Transition systems

A `Machine` is a set of initial states and a step relation.  What the initial states have and every
step keeps holds in every reachable state.
-/

namespace Diamond

/-- A transition system over the states `σ`. -/
structure Machine (σ : Type*) where
  initial : σ → Prop
  step : σ → σ → Prop

namespace Machine

variable {σ : Type*} {M : Machine σ} {s t : σ} {P : σ → Prop}

/-- The states some run of the machine reaches. -/
def Reachable (M : Machine σ) (t : σ) : Prop := ∃ s, M.initial s ∧ Relation.ReflTransGen M.step s t

/-- An initial state is reachable. -/
lemma Reachable.start (h : M.initial s) : M.Reachable s := ⟨s, h, .refl⟩

/-- A run may be extended by a step. -/
lemma Reachable.next (h : M.Reachable s) (hstep : M.step s t) : M.Reachable t := by
  obtain ⟨r, hr, hrun⟩ := h
  exact ⟨r, hr, hrun.tail hstep⟩

/-- The invariant rule: what holds initially and is kept by every step from a reachable state holds
in every reachable state. -/
lemma Reachable.invariant (h : M.Reachable s) (hinit : ∀ s, M.initial s → P s)
    (hstep : ∀ s t, M.Reachable s → P s → M.step s t → P t) : P s := by
  obtain ⟨r, hr, hrun⟩ := h
  induction hrun with
  | refl => exact hinit r hr
  | tail hrun hlast ih => exact hstep _ _ ⟨r, hr, hrun⟩ ih hlast

/-- A list of actions that can be performed one after the other is a run. -/
lemma Reachable.run {α : Type*} {perform : σ → α → Option σ} {actions : List α}
    (hstep : ∀ s a t, perform s a = some t → M.step s t) (h : M.Reachable s)
    (hrun : actions.foldlM perform s = some t) : M.Reachable t := by
  induction actions generalizing s with
  | nil =>
    cases hrun
    exact h
  | cons _ _ ih =>
    rw [List.foldlM_cons] at hrun
    obtain ⟨r, hr, hrest⟩ := Option.bind_eq_some_iff.1 hrun
    exact ih (h.next (hstep _ _ _ hr)) hrest

end Machine
end Diamond
