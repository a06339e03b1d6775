import Mathlib.Data.List.Infix
import Mathlib.Tactic.Common

/-! Resources that a program uses once and then gives up. A log is looked at from
one resource: `does` says what an entry does with it, if anything. The log
respects the resource when these uses are a first part of its lifetime, one use
and then one release; a log that does so at its end did so all along. -/

namespace RdmaFuzzing.OneShot

inductive Use where
  | use
  | release
  deriving DecidableEq, Repr

def lifetime : List Use := [.use, .release]

def uses {ε : Type} (does : ε → Option Use) (log : List ε) : List Use := log.filterMap does

@[simp] theorem uses_append {ε : Type} (does : ε → Option Use) (log more : List ε) :
    uses does (log ++ more) = uses does log ++ uses does more :=
  List.filterMap_append

/-- What a resource that is used once and then released can rely on. -/
structure UsedOnce {ε : Type} (does : ε → Option Use) (log : List ε) : Prop where
  use_once : (uses does log).count .use ≤ 1
  release_once : (uses does log).count .release ≤ 1
  used_before : ∀ before e later, log = before ++ e :: later → does e = some .release →
    ∃ u ∈ before, does u = some .use
  dead_after : ∀ before e later, log = before ++ e :: later → does e = some .release →
    ∀ u ∈ later, does u = none

theorem release_inside {before later : List Use}
    (inside : before ++ .release :: later <+: lifetime) : before = [.use] ∧ later = [] := by
  rw [lifetime] at inside
  match before with
  | [] => simp at inside
  | [u] => simpa using inside
  | u :: v :: rest => simp at inside

theorem usedOnce_of_prefix {ε : Type} {does : ε → Option Use} {log : List ε}
    (inside : uses does log <+: lifetime) : UsedOnce does log := by
  have around (before : List ε) (e : ε) (later : List ε) (split : log = before ++ e :: later)
      (released : does e = some .release) :
      uses does before = [.use] ∧ uses does later = [] := by
    apply release_inside
    rwa [split, uses_append, uses, uses, List.filterMap_cons_some released] at inside
  refine ⟨?_, ?_, ?_, ?_⟩
  · exact inside.sublist.count_le _
  · exact inside.sublist.count_le _
  · intro before e later split released
    have used : Use.use ∈ uses does before := by
      rw [(around before e later split released).1]
      exact List.mem_singleton_self _
    exact List.mem_filterMap.mp used
  · intro before e later split released
    exact List.filterMap_eq_nil_iff.mp (around before e later split released).2

theorem prefix_lifetime {ε : Type} {does : ε → Option Use} {log earlier : List ε}
    (part : earlier <+: log) (inside : uses does log <+: lifetime) :
    uses does earlier <+: lifetime :=
  (part.filterMap does).trans inside

end RdmaFuzzing.OneShot
