import Mathlib.Tactic.Common

/-! Work requests of a queue pair and the completions that wait to be polled. A
completion consumes a posted request, so what a program has put in and not yet
taken out is the sum of the two: only a post adds to it. -/

namespace RdmaFuzzing.WorkQueue

structure Queue (γ : Type) where
  posted : Nat
  completions : List γ

namespace Queue

def empty {γ : Type} : Queue γ := ⟨0, []⟩

def post {γ : Type} (q : Queue γ) : Queue γ := { q with posted := q.posted + 1 }

def complete {γ : Type} (q : Queue γ) (c : γ) : Queue γ :=
  ⟨q.posted - 1, q.completions ++ [c]⟩

def poll {γ : Type} (q : Queue γ) (k : Nat) : Queue γ :=
  { q with completions := q.completions.drop k }

def load {γ : Type} (q : Queue γ) : Nat := q.posted + q.completions.length

@[simp] theorem posted_post {γ : Type} (q : Queue γ) : q.post.posted = q.posted + 1 := rfl

@[simp] theorem completions_post {γ : Type} (q : Queue γ) :
    q.post.completions = q.completions := rfl

@[simp] theorem posted_complete {γ : Type} (q : Queue γ) (c : γ) :
    (q.complete c).posted = q.posted - 1 := rfl

@[simp] theorem completions_complete {γ : Type} (q : Queue γ) (c : γ) :
    (q.complete c).completions = q.completions ++ [c] := rfl

@[simp] theorem posted_poll {γ : Type} (q : Queue γ) (k : Nat) :
    (q.poll k).posted = q.posted := rfl

@[simp] theorem completions_poll {γ : Type} (q : Queue γ) (k : Nat) :
    (q.poll k).completions = q.completions.drop k := rfl

theorem load_post {γ : Type} (q : Queue γ) : q.post.load = q.load + 1 := by
  rw [load, load, posted_post, completions_post]
  omega

theorem load_complete {γ : Type} {q : Queue γ} (c : γ) (some_posted : 0 < q.posted) :
    (q.complete c).load = q.load := by
  rw [load, load, posted_complete, completions_complete, List.length_append,
    List.length_singleton]
  omega

theorem load_poll {γ : Type} {q : Queue γ} {k : Nat} (pending : k ≤ q.completions.length) :
    (q.poll k).load + k = q.load := by
  rw [load, load, posted_poll, completions_poll, List.length_drop]
  omega

theorem posted_le_load {γ : Type} (q : Queue γ) : q.posted ≤ q.load :=
  Nat.le_add_right _ _

theorem completions_le_load {γ : Type} (q : Queue γ) : q.completions.length ≤ q.load :=
  Nat.le_add_left _ _

end Queue

end RdmaFuzzing.WorkQueue
