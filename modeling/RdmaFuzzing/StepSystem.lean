import Mathlib.Tactic.Common

/-! Systems that take one step after another, and the two ways to reason about
all their runs: an invariant that every step keeps, and a simulation by a
smaller system that may stand still while the larger one moves. -/

namespace RdmaFuzzing.StepSystem

structure System (σ : Type) where
  Initial : σ → Prop
  Step : σ → σ → Prop

inductive Reachable {σ : Type} (sys : System σ) : σ → Prop where
  | initial {s : σ} (start : sys.Initial s) : Reachable sys s
  | step {s t : σ} (before : Reachable sys s) (next : sys.Step s t) : Reachable sys t

theorem Reachable.invariant {σ : Type} {sys : System σ} {I : σ → Prop}
    (initial : ∀ s, sys.Initial s → I s) (step : ∀ s t, I s → sys.Step s t → I t)
    {s : σ} (reach : Reachable sys s) : I s := by
  induction reach with
  | initial start => exact initial _ start
  | step _ next ih => exact step _ _ ih next

/-- Every step of `sys` is a step of `abs`, or none, seen through `R`. -/
structure Simulates {σ α : Type} (sys : System σ) (abs : System α) (R : α → σ → Prop) :
    Prop where
  initial : ∀ s, sys.Initial s → ∃ a, abs.Initial a ∧ R a s
  step : ∀ a s t, R a s → sys.Step s t → ∃ b, (b = a ∨ abs.Step a b) ∧ R b t

theorem Simulates.reachable {σ α : Type} {sys : System σ} {abs : System α} {R : α → σ → Prop}
    (sim : Simulates sys abs R) {s : σ} (reach : Reachable sys s) :
    ∃ a, Reachable abs a ∧ R a s := by
  induction reach with
  | initial start =>
    obtain ⟨a, first, related⟩ := sim.initial _ start
    exact ⟨a, .initial first, related⟩
  | step _ next ih =>
    obtain ⟨a, areach, related⟩ := ih
    obtain ⟨b, still | moved, related'⟩ := sim.step _ _ _ related next
    · exact ⟨a, areach, still ▸ related'⟩
    · exact ⟨b, .step areach moved, related'⟩

def System.onward {σ : Type} (sys : System σ) (s : σ) : System σ := ⟨(· = s), sys.Step⟩

theorem Reachable.onward_step {σ : Type} {sys : System σ} {s t u : σ} (first : sys.Step s t)
    (later : Reachable (sys.onward t) u) : Reachable (sys.onward s) u := by
  induction later with
  | initial start =>
    have here : Reachable (sys.onward s) s := .initial rfl
    exact .step here (start ▸ first)
  | step _ next ih => exact .step ih next

end RdmaFuzzing.StepSystem
