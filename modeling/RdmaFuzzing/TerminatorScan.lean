import RdmaFuzzing.ReusedBuffer

/-! Texts that end at a terminator, in buffers of a fixed size. `looks` is the
list of the indices at which a scan looks. A buffer without the terminator does
not stop the scan: its last index is then the first one past the end, and what
happens after that is left open. -/

namespace RdmaFuzzing.TerminatorScan
open ReusedBuffer

def looks {α : Type} [DecidableEq α] (stop : α) : Nat → List α → List Nat
  | i, [] => [i]
  | i, x :: xs => i :: if x = stop then [] else looks stop (i + 1) xs

def textOf {α : Type} [DecidableEq α] (stop : α) (xs : List α) : List α :=
  xs.takeWhile (· ≠ stop)

/-- The text of one buffer with its terminator, copied to the front of another. -/
def copyText {α : Type} [DecidableEq α] {n : Nat} (stop : α) (dst src : Vector α n) :
    Vector α n :=
  store dst 0 (textOf stop src.toList ++ [stop])

theorem textOf_cons {α : Type} [DecidableEq α] (stop x : α) (xs : List α) :
    textOf stop (x :: xs) = if x = stop then [] else x :: textOf stop xs := by
  by_cases stops : x = stop
  · simp [textOf, stops]
  · simp [textOf, stops]

theorem looks_eq {α : Type} [DecidableEq α] (stop : α) (i : Nat) (xs : List α) :
    looks stop i xs = List.range' i ((textOf stop xs).length + 1) := by
  induction xs generalizing i with
  | nil => rfl
  | cons x xs ih =>
    rw [looks, textOf_cons, ih]
    by_cases stops : x = stop
    · rw [if_pos stops, if_pos stops]
      rfl
    · rw [if_neg stops, if_neg stops, List.length_cons, ← List.range'_succ]

theorem length_textOf_lt {α : Type} [DecidableEq α] (stop : α) (xs : List α) :
    (textOf stop xs).length < xs.length ↔ stop ∈ xs := by
  induction xs with
  | nil => simp [textOf]
  | cons x xs ih =>
    rw [textOf_cons, List.mem_cons]
    by_cases stops : x = stop
    · simp [stops]
    · rw [if_neg stops, List.length_cons, List.length_cons, Nat.add_lt_add_iff_right, ih,
        or_iff_right (Ne.symm stops)]

theorem looks_lt_iff {α : Type} [DecidableEq α] (stop : α) (xs : List α) :
    (∀ i ∈ looks stop 0 xs, i < xs.length) ↔ stop ∈ xs := by
  rw [looks_eq, ← length_textOf_lt]
  refine ⟨?_, ?_⟩
  · intro inside
    exact inside _ (List.mem_range'_1.mpr (by omega))
  · intro ends i looked
    have bound := (List.mem_range'_1.mp looked).2
    omega

theorem textOf_append {α : Type} [DecidableEq α] (stop : α) (xs ys : List α) :
    textOf stop (xs ++ stop :: ys) = textOf stop xs := by
  induction xs with
  | nil => rw [List.nil_append, textOf_cons, if_pos rfl, textOf, List.takeWhile_nil]
  | cons x xs ih => rw [List.cons_append, textOf_cons, textOf_cons, ih]

theorem notMem_textOf {α : Type} [DecidableEq α] (stop : α) (xs : List α) :
    stop ∉ textOf stop xs := by
  induction xs with
  | nil => simp [textOf]
  | cons x xs ih =>
    rw [textOf_cons]
    split_ifs with stops
    · exact List.not_mem_nil
    · rw [List.mem_cons, not_or]
      exact ⟨Ne.symm stops, ih⟩

theorem textOf_terminated {α : Type} [DecidableEq α] {stop : α} {xs : List α}
    (terminated : stop ∉ xs) (rest : List α) : textOf stop (xs ++ stop :: rest) = xs := by
  induction xs with
  | nil => rw [List.nil_append, textOf_cons, if_pos rfl]
  | cons x xs ih =>
    rw [List.mem_cons, not_or] at terminated
    rw [List.cons_append, textOf_cons, if_neg (Ne.symm terminated.1), ih terminated.2]

theorem textOf_take {α : Type} [DecidableEq α] (stop : α) (xs : List α) (n : Nat) :
    textOf stop (xs.take n) = (textOf stop xs).take n := by
  induction xs generalizing n with
  | nil => simp [textOf]
  | cons x xs ih =>
    cases n with
    | zero => rfl
    | succ n =>
      rw [List.take_succ_cons, textOf_cons, textOf_cons]
      split_ifs with stops
      · rfl
      · rw [ih, List.take_succ_cons]

theorem textOf_append_replicate {α : Type} [DecidableEq α] (stop : α) (xs : List α) (k : Nat) :
    textOf stop (xs ++ List.replicate k stop) = textOf stop xs := by
  induction xs with
  | nil =>
    cases k with
    | zero => rfl
    | succ k => rw [List.nil_append, List.replicate_succ, textOf_cons, if_pos rfl]; rfl
  | cons x xs ih => rw [List.cons_append, textOf_cons, textOf_cons, ih]

theorem mem_store_iff {α : Type} {n : Nat} (buf : Vector α n) (xs : List α) (x : α)
    (fits : xs.length ≤ n) :
    x ∈ (store buf 0 xs).toList ↔ x ∈ xs ∨ x ∈ buf.toList.drop xs.length := by
  rw [toList_store buf 0 xs (by omega), List.take_zero, List.nil_append, Nat.zero_add,
    List.mem_append]

theorem mem_store_clear_iff {α : Type} {n : Nat} (xs : List α) (x : α) (fits : xs.length ≤ n) :
    x ∈ (store (Vector.replicate n x) 0 xs).toList ↔ xs.length < n ∨ x ∈ xs := by
  rw [mem_store_iff _ _ _ fits, Vector.toList_replicate, List.drop_replicate, List.mem_replicate,
    or_comm]
  simp [Nat.sub_ne_zero_iff_lt]

theorem getElem_copyText {α : Type} [DecidableEq α] {n : Nat} (stop : α) (dst src : Vector α n)
    (i : Nat) (hi : i < n) :
    (copyText stop dst src)[i] =
      if i ≤ (textOf stop src.toList).length
      then (textOf stop src.toList)[i]?.getD stop else dst[i] := by
  rw [copyText, getElem_store, if_pos (Nat.zero_le _), Nat.sub_zero, List.getElem?_append]
  rcases Nat.lt_trichotomy i (textOf stop src.toList).length with inside | ends | past
  · rw [if_pos inside, if_pos (Nat.le_of_lt inside), List.getElem?_eq_getElem inside]
    rfl
  · have last : [stop][i - (textOf stop src.toList).length]? = some stop := by
      rw [Nat.sub_eq_zero_of_le (Nat.le_of_eq ends)]
      rfl
    rw [if_neg (by omega), if_pos (by omega), last,
      List.getElem?_eq_none (Nat.le_of_eq ends.symm)]
    rfl
  · rw [if_neg (by omega), if_neg (by omega), List.getElem?_eq_none (by simp; omega)]
    rfl

end RdmaFuzzing.TerminatorScan
