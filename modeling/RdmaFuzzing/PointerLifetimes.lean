import RdmaFuzzing.ExitRun
import Mathlib.Data.List.Basic

/-! Objects that a program is given, uses through pointers and gives back. An action
goes through a pointer to an object, or through a pointer that was never set. The
objects alive are carried along a log; a log that uses anything else is not sound. -/

namespace RdmaFuzzing.PointerLifetimes
open ExitRun

inductive Action (ι : Type) where
  | alloc (i : ι)
  | use (p : Option ι)
  | free (p : Option ι)
  deriving DecidableEq

/-- `none` where the action has no meaning. -/
def act {ι : Type} [DecidableEq ι] (live : List ι) : Action ι → Option (List ι)
  | .alloc i => some (i :: live)
  | .use p => if p ∈ live.map some then some live else none
  | .free none => none
  | .free (some i) => if i ∈ live then some (live.erase i) else none

def after {ι : Type} [DecidableEq ι] (live : List ι) : List (Action ι) → Option (List ι)
  | [] => some live
  | a :: rest => (act live a).bind fun next => after next rest

def Sound {ι : Type} [DecidableEq ι] (actions : List (Action ι)) : Prop :=
  (after [] actions).isSome

instance {ι : Type} [DecidableEq ι] (actions : List (Action ι)) : Decidable (Sound actions) :=
  inferInstanceAs (Decidable (_ = _))

section
variable {ι : Type} [DecidableEq ι]

@[simp] theorem after_nil (live : List ι) : after live [] = some live := rfl

@[simp] theorem after_alloc (live : List ι) (i : ι) (rest : List (Action ι)) :
    after live (.alloc i :: rest) = after (i :: live) rest := rfl

theorem after_use (live : List ι) (i : ι) (rest : List (Action ι)) (alive : i ∈ live) :
    after live (.use (some i) :: rest) = after live rest := by
  rw [after, act, if_pos (List.mem_map_of_mem alive), Option.bind_some]

theorem after_use_dead (live : List ι) (i : ι) (rest : List (Action ι)) (dead : i ∉ live) :
    after live (.use (some i) :: rest) = none := by
  rw [after, act, if_neg (by simpa using dead), Option.bind_none]

theorem after_free (live : List ι) (i : ι) (rest : List (Action ι)) (alive : i ∈ live) :
    after live (.free (some i) :: rest) = after (live.erase i) rest := by
  rw [after, act, if_pos alive, Option.bind_some]

@[simp] theorem after_free_none (live : List ι) (rest : List (Action ι)) :
    after live (.free none :: rest) = none := rfl

theorem after_append (live : List ι) (xs ys : List (Action ι)) :
    after live (xs ++ ys) = (after live xs).bind fun next => after next ys := by
  induction xs generalizing live with
  | nil => rfl
  | cons a xs ih =>
    rw [List.cons_append, after, after]
    cases act live a with
    | none => rfl
    | some next => exact ih next

theorem after_uses {live : List ι} {actions : List (Action ι)}
    (uses : ∀ a ∈ actions, ∃ i ∈ live, a = .use (some i)) : after live actions = some live := by
  induction actions with
  | nil => rfl
  | cons a rest ih =>
    obtain ⟨i, alive, rfl⟩ := uses a List.mem_cons_self
    rw [after_use live i rest alive]
    exact ih fun b later => uses b (List.mem_cons_of_mem _ later)

end

def actions {ε ι : Type} (does : ε → List (Action ι)) (log : List ε) : List (Action ι) :=
  log.flatMap does

@[simp] theorem actions_cons {ε ι : Type} (does : ε → List (Action ι)) (e : ε) (log : List ε) :
    actions does (e :: log) = does e ++ actions does log :=
  List.flatMap_cons

@[simp] theorem actions_append {ε ι : Type} (does : ε → List (Action ι)) (xs ys : List ε) :
    actions does (xs ++ ys) = actions does xs ++ actions does ys :=
  List.flatMap_append

section
variable {ε α β ι : Type} [DecidableEq ι]

def afterRun (does : ε → List (Action ι)) (live : List ι) (p : Run ε α) : Option (List ι) :=
  after live (actions does p.log)

theorem afterRun_bind_some (does : ε → List (Action ι)) (live : List ι) {p : Run ε α} {a : α}
    (f : α → Run ε β) (returned : p.value = some a) :
    afterRun does live (p >>= f) =
      (afterRun does live p).bind fun next => afterRun does next (f a) := by
  rw [afterRun, bind_some f returned, actions_append, after_append]
  rfl

theorem afterRun_bind_none (does : ε → List (Action ι)) (live : List ι) {p : Run ε α}
    (f : α → Run ε β) (exited : p.value = none) :
    afterRun does live (p >>= f) = afterRun does live p := by
  rw [afterRun, bind_none f exited]
  rfl

/-- A program that keeps to what is alive, gets to its end exactly if `ready`, and
then leaves `left` alive. -/
structure Passes (does : ε → List (Action ι)) (live : List ι) (p : Run ε Unit) (ready : Prop)
    (left : List ι) : Prop where
  passes : ready → p.value = some () ∧ afterRun does live p = some left
  stops : ¬ready → p.value = none ∧ (afterRun does live p).isSome

variable {does : ε → List (Action ι)} {live mid left : List ι} {p q : Run ε Unit}
  {ready next : Prop}

theorem Passes.sound (run : Passes does live p ready left) : (afterRun does live p).isSome := by
  by_cases h : ready
  · exact Option.isSome_of_eq_some (run.passes h).2
  · exact (run.stops h).2

theorem passes_pure : Passes does live (pure ()) True live :=
  ⟨fun _ => ⟨rfl, rfl⟩, fun h => absurd trivial h⟩

theorem passes_bind (first : Passes does live p ready mid) (rest : Passes does mid q next left) :
    Passes does live (p >>= fun _ => q) (ready ∧ next) left := by
  by_cases h : ready
  · obtain ⟨value, alive⟩ := first.passes h
    have log := afterRun_bind_some does live (fun _ => q) value
    rw [alive, Option.bind_some] at log
    rw [bind_some _ value] at log ⊢
    rw [and_iff_right h]
    refine ⟨?_, ?_⟩
    · intro h'
      exact ⟨(rest.passes h').1, log.trans (rest.passes h').2⟩
    · intro h'
      exact ⟨(rest.stops h').1, log.symm ▸ (rest.stops h').2⟩
  · obtain ⟨value, alive⟩ := first.stops h
    refine ⟨fun both => absurd both.1 h, fun _ => ⟨?_, ?_⟩⟩
    · rw [bind_none _ value]
    · rw [afterRun_bind_none _ _ _ value]
      exact alive

theorem passes_call {e : ε} (alive : after live (does e) = some left) :
    Passes does live (call e ()) True left := by
  refine ⟨fun _ => ⟨rfl, ?_⟩, fun h => absurd trivial h⟩
  rw [afterRun, call, actions_cons]
  exact (congrArg (after live) (List.append_nil _)).trans alive

theorem passes_require (ok : Bool) : Passes does live (require ok) (ok = true) live := by
  cases ok with
  | true => exact ⟨fun _ => ⟨rfl, rfl⟩, fun h => absurd rfl h⟩
  | false => exact ⟨fun h => absurd h (by decide), fun _ => ⟨rfl, rfl⟩⟩

theorem passes_checked {e : ε} {ok : Bool} (failed : List ι)
    (alive : after live (does e) = some (if ok then left else failed)) :
    Passes does live (call e () >>= fun _ => require ok) (ok = true) left := by
  have log : afterRun does live (call e () >>= fun _ => require ok) =
      some (if ok then left else failed) := by
    rw [afterRun, call_bind, require_log, actions_cons]
    exact (congrArg (after live) (List.append_nil _)).trans alive
  refine ⟨?_, ?_⟩
  · intro h
    subst h
    exact ⟨rfl, log⟩
  · intro h
    rw [Bool.not_eq_true] at h
    subst h
    exact ⟨rfl, Option.isSome_of_eq_some log⟩

end

end RdmaFuzzing.PointerLifetimes
