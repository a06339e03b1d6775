import Mathlib.Tactic.Common

/-! Programs that call outside, log what they call, and may exit. The log of a
run lists its calls in order; a run without a value has exited. -/

namespace RdmaFuzzing.ExitRun

structure Run (ε α : Type) where
  log : List ε
  value : Option α

namespace Run

def pure {ε α : Type} (a : α) : Run ε α := ⟨[], some a⟩

def bind {ε α β : Type} (p : Run ε α) (f : α → Run ε β) : Run ε β :=
  match p.value with
  | none => ⟨p.log, none⟩
  | some a => ⟨p.log ++ (f a).log, (f a).value⟩

instance {ε : Type} : Monad (Run ε) where
  pure := pure
  bind := bind

end Run

def call {ε α : Type} (e : ε) (a : α) : Run ε α := ⟨[e], some a⟩

/-- The program exits unless the condition holds. -/
def require {ε : Type} (condition : Bool) : Run ε Unit :=
  if condition then pure () else ⟨[], none⟩

@[simp] theorem pure_run {ε α : Type} (a : α) : (pure a : Run ε α) = ⟨[], some a⟩ := rfl

theorem bind_some {ε α β : Type} {p : Run ε α} {a : α} (f : α → Run ε β)
    (h : p.value = some a) : p >>= f = ⟨p.log ++ (f a).log, (f a).value⟩ := by
  change Run.bind p f = _
  rw [Run.bind, h]

theorem bind_none {ε α β : Type} {p : Run ε α} (f : α → Run ε β) (h : p.value = none) :
    p >>= f = ⟨p.log, none⟩ := by
  change Run.bind p f = _
  rw [Run.bind, h]

@[simp] theorem call_bind {ε α β : Type} (e : ε) (a : α) (f : α → Run ε β) :
    call e a >>= f = ⟨e :: (f a).log, (f a).value⟩ := rfl

@[simp] theorem require_log {ε : Type} (condition : Bool) :
    (require condition : Run ε Unit).log = [] := by
  cases condition with
  | true => rfl
  | false => rfl

@[simp] theorem require_value {ε : Type} (condition : Bool) :
    (require condition : Run ε Unit).value = if condition then some () else none := by
  cases condition with
  | true => rfl
  | false => rfl

@[simp] theorem require_bind {ε β : Type} (condition : Bool) (f : Unit → Run ε β) :
    require condition >>= f = if condition then f () else ⟨[], none⟩ := by
  cases condition with
  | true => rfl
  | false => rfl

theorem mem_log_bind {ε α β : Type} {p : Run ε α} {f : α → Run ε β} {e : ε}
    (h : e ∈ (p >>= f).log) : e ∈ p.log ∨ ∃ a, p.value = some a := by
  cases value : p.value with
  | none =>
    rw [bind_none f value] at h
    exact Or.inl h
  | some a => exact Or.inr ⟨a, rfl⟩

theorem forall_log_bind {ε α β : Type} {P : ε → Prop} (p : Run ε α) (f : α → Run ε β) :
    (∀ e ∈ (p >>= f).log, P e) ↔
      (∀ e ∈ p.log, P e) ∧ ∀ a, p.value = some a → ∀ e ∈ (f a).log, P e := by
  cases value : p.value with
  | none => simp [bind_none f value]
  | some a => simp [bind_some f value, or_imp, forall_and]

end RdmaFuzzing.ExitRun
