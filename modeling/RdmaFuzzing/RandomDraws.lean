import Mathlib.Logic.Function.Basic
import Mathlib.Logic.Relation
import Mathlib.Tactic.Common

/-! Programs that draw from a stream of results. The stream handed to a program
starts at its first draw, and `calls` counts the draws it took, so two programs
run one after the other read disjoint pieces of one stream. A program is local
when nothing but the draws it took can influence what it returns. -/

namespace RdmaFuzzing.RandomDraws

structure Run (α : Type) where
  value : α
  calls : Nat

def Draws (ρ α : Type) : Type := (Nat → ρ) → Run α

def after {ρ : Type} (s : Nat → ρ) (k : Nat) : Nat → ρ := fun i => s (k + i)

@[simp] theorem after_apply {ρ : Type} (s : Nat → ρ) (k i : Nat) :
    after s k i = s (k + i) := rfl

@[simp] theorem after_zero {ρ : Type} (s : Nat → ρ) : after s 0 = s := by
  funext i
  simp

theorem after_after {ρ : Type} (s : Nat → ρ) (j k : Nat) :
    after (after s j) k = after s (j + k) := by
  funext i
  simp [Nat.add_assoc]

def Draws.pure {ρ α : Type} (a : α) : Draws ρ α := fun _ => ⟨a, 0⟩

def Draws.bind {ρ α β : Type} (p : Draws ρ α) (f : α → Draws ρ β) : Draws ρ β := fun s =>
  let first := p s
  let rest := f first.value (after s first.calls)
  ⟨rest.value, first.calls + rest.calls⟩

instance {ρ : Type} : Monad (Draws ρ) where
  pure := Draws.pure
  bind := Draws.bind

def draw {ρ : Type} : Draws ρ ρ := fun s => ⟨s 0, 1⟩

@[simp] theorem pure_run {ρ α : Type} (a : α) (s : Nat → ρ) :
    (pure a : Draws ρ α) s = ⟨a, 0⟩ := rfl

@[simp] theorem draw_run {ρ : Type} (s : Nat → ρ) : (draw : Draws ρ ρ) s = ⟨s 0, 1⟩ := rfl

@[simp] theorem bind_value {ρ α β : Type} (p : Draws ρ α) (f : α → Draws ρ β) (s : Nat → ρ) :
    ((p >>= f) s).value = (f (p s).value (after s (p s).calls)).value := rfl

@[simp] theorem bind_calls {ρ α β : Type} (p : Draws ρ α) (f : α → Draws ρ β) (s : Nat → ρ) :
    ((p >>= f) s).calls = (p s).calls + (f (p s).value (after s (p s).calls)).calls := rfl

def taken {ρ α : Type} (p : Draws ρ α) (s : Nat → ρ) : List ρ :=
  (List.range (p s).calls).map s

/-- Streams that agree on the draws taken give the same value and count. -/
def Local {ρ α : Type} (p : Draws ρ α) : Prop :=
  ∀ s t : Nat → ρ, (∀ i < (p s).calls, s i = t i) → p t = p s

theorem local_pure {ρ α : Type} (a : α) : Local (pure a : Draws ρ α) :=
  fun _ _ _ => rfl

theorem local_draw {ρ : Type} : Local (draw : Draws ρ ρ) := by
  intro s t agree
  have first : s 0 = t 0 := agree 0 (by simp)
  simp [first]

theorem local_bind {ρ α β : Type} {p : Draws ρ α} {f : α → Draws ρ β}
    (hp : Local p) (hf : ∀ a, Local (f a)) : Local (p >>= f) := by
  intro s t agree
  have first : p t = p s := hp s t (fun i hi => agree i (by rw [bind_calls]; omega))
  have rest : f (p s).value (after t (p s).calls) = f (p s).value (after s (p s).calls) := by
    apply hf
    intro i hi
    exact agree _ (by rw [bind_calls]; omega)
  change (⟨_, _⟩ : Run β) = ⟨_, _⟩
  rw [first, rest]

def iterate {ρ σ : Type} (body : σ → Draws ρ σ) : Nat → σ → Draws ρ σ
  | 0, x => pure x
  | n + 1, x => do
    let next ← body x
    iterate body n next

theorem iterate_local {ρ σ : Type} {body : σ → Draws ρ σ} (hbody : ∀ x, Local (body x))
    (n : Nat) (x : σ) : Local (iterate body n x) := by
  induction n generalizing x with
  | zero => exact local_pure x
  | succ n ih => exact local_bind (hbody x) ih

theorem iterate_invariant {ρ σ : Type} {body : σ → Draws ρ σ} (I : σ → Prop)
    (turn : ∀ x s, I x → I (body x s).value) (n : Nat) (x : σ) (s : Nat → ρ) (h : I x) :
    I (iterate body n x s).value := by
  induction n generalizing x s with
  | zero => exact h
  | succ n ih => exact ih _ _ (turn x s h)

def Can {ρ α : Type} (p : Draws ρ α) (a : α) : Prop := ∃ s, (p s).value = a

theorem can_pure {ρ α : Type} [Inhabited ρ] (a : α) : Can (pure a : Draws ρ α) a :=
  ⟨fun _ => default, rfl⟩

def splice {ρ : Type} (s : Nat → ρ) (k : Nat) (t : Nat → ρ) : Nat → ρ :=
  fun i => if i < k then s i else t (i - k)

theorem after_splice {ρ : Type} (s : Nat → ρ) (k : Nat) (t : Nat → ρ) :
    after (splice s k t) k = t := by
  funext i
  rw [after_apply, splice, if_neg (Nat.not_lt.mpr (Nat.le_add_right k i)),
    Nat.add_sub_cancel_left]

def push {ρ : Type} (r : ρ) (s : Nat → ρ) : Nat → ρ
  | 0 => r
  | i + 1 => s i

theorem after_push {ρ : Type} (r : ρ) (s : Nat → ρ) (k : Nat) :
    after (push r s) (k + 1) = after s k := by
  funext i
  rw [after_apply, Nat.add_right_comm]
  rfl

theorem can_bind {ρ α β : Type} {p : Draws ρ α} {f : α → Draws ρ β} {a : α} {b : β}
    (hp : Local p) (first : Can p a) (rest : Can (f a) b) : Can (p >>= f) b := by
  obtain ⟨s, rfl⟩ := first
  obtain ⟨t, rfl⟩ := rest
  have same : p (splice s (p s).calls t) = p s :=
    hp s _ fun i hi => (if_pos hi).symm
  refine ⟨splice s (p s).calls t, ?_⟩
  rw [bind_value, same, after_splice]

/-- A loop of local turns may get wherever its turns may lead one after the other. -/
theorem can_iterate {ρ σ : Type} [Inhabited ρ] {body : σ → Draws ρ σ}
    (hbody : ∀ x, Local (body x)) {x y : σ}
    (leads : Relation.ReflTransGen (fun x y => Can (body x) y) x y) :
    ∃ n, Can (iterate body n x) y := by
  induction leads using Relation.ReflTransGen.head_induction_on with
  | refl => exact ⟨0, can_pure y⟩
  | head first _ ih =>
    obtain ⟨n, rest⟩ := ih
    exact ⟨n + 1, can_bind (hbody _) first rest⟩

def replay {ρ : Type} (filler : ρ) (xs : List ρ) : Nat → ρ := fun i => xs.getD i filler

theorem replay_taken {ρ α : Type} {p : Draws ρ α} (hp : Local p) (filler : ρ) (s : Nat → ρ) :
    p (replay filler (taken p s)) = p s := by
  apply hp
  intro i hi
  simp [replay, taken, hi]

end RdmaFuzzing.RandomDraws
