import Mathlib.Tactic.Common

/-! A fixed-size buffer that one loop fills, reads and clears over and over.
`store` overwrites the cells from `start` on with the given entries, `fill`
sets the first `k` cells, and `front` is the list of the first `k` cells. What
lies past the entries just stored is left from before: it is the residue that
results about such loops have to bound. -/

namespace RdmaFuzzing.ReusedBuffer

def store {α : Type} {n : Nat} (buf : Vector α n) (start : Nat) (xs : List α) : Vector α n :=
  Vector.ofFn fun i =>
    if start ≤ i.val then xs[i.val - start]?.getD (buf.get i) else buf.get i

def fill {α : Type} {n : Nat} (buf : Vector α n) (k : Nat) (x : α) : Vector α n :=
  Vector.ofFn fun i => if i.val < k then x else buf.get i

def front {α : Type} {n : Nat} (buf : Vector α n) (k : Nat) : List α := buf.toList.take k

theorem getElem_store {α : Type} {n : Nat} (buf : Vector α n) (start : Nat) (xs : List α)
    (i : Nat) (hi : i < n) :
    (store buf start xs)[i] =
      if start ≤ i then xs[i - start]?.getD buf[i] else buf[i] := by
  rw [store, Vector.getElem_ofFn]
  rfl

theorem getElem_store_front {α : Type} {n : Nat} (buf : Vector α n) (xs : List α)
    (i : Nat) (hi : i < n) (inside : i < xs.length) :
    (store buf 0 xs)[i] = xs[i] := by
  simp [store, inside]

theorem getElem_store_past {α : Type} {n : Nat} (buf : Vector α n) (start : Nat)
    (xs : List α) (i : Nat) (hi : i < n) (past : start + xs.length ≤ i) :
    (store buf start xs)[i] = buf[i] := by
  have none : xs[i - start]? = none := List.getElem?_eq_none (by omega)
  simp [getElem_store, none]

@[simp] theorem getElem_fill {α : Type} {n : Nat} (buf : Vector α n) (k : Nat) (x : α)
    (i : Nat) (hi : i < n) :
    (fill buf k x)[i] = if i < k then x else buf[i] := by
  rw [fill, Vector.getElem_ofFn]
  rfl

theorem fill_all {α : Type} {n : Nat} (buf : Vector α n) (x : α) :
    fill buf n x = Vector.replicate n x := by
  apply Vector.ext
  intro i hi
  simp [hi]

@[simp] theorem length_front {α : Type} {n : Nat} (buf : Vector α n) (k : Nat) :
    (front buf k).length = min k n := by
  simp [front]

theorem getElem_front {α : Type} {n : Nat} (buf : Vector α n) (k i : Nat)
    (hi : i < (front buf k).length) (inside : i < n) : (front buf k)[i] = buf[i] := by
  simp [front]

theorem toList_store {α : Type} {n : Nat} (buf : Vector α n) (start : Nat) (xs : List α)
    (fits : start + xs.length ≤ n) :
    (store buf start xs).toList =
      buf.toList.take start ++ xs ++ buf.toList.drop (start + xs.length) := by
  apply List.ext_getElem
  · simp
    omega
  · intro i hi hx
    have room : i < n := by simpa using hi
    have before : (buf.toList.take start).length = start := by
      rw [List.length_take, Vector.length_toList]
      omega
    rw [Vector.getElem_toList, getElem_store]
    by_cases past : start ≤ i
    · rw [if_pos past]
      by_cases inside : i < start + xs.length
      · rw [List.getElem_append_left (by rw [List.length_append]; omega),
          List.getElem_append_right (by omega)]
        simp only [before]
        rw [List.getElem?_eq_getElem (by omega), Option.getD_some]
      · rw [List.getElem?_eq_none (by omega), List.getElem_append_right
          (by rw [List.length_append]; omega)]
        simp [before, Nat.add_sub_cancel' (Nat.le_of_not_lt inside)]
    · rw [if_neg past, List.getElem_append_left (by rw [List.length_append]; omega),
        List.getElem_append_left (by omega)]
      simp

theorem toList_store_replicate {α : Type} {n : Nat} (x : α) (xs : List α)
    (fits : xs.length ≤ n) :
    (store (Vector.replicate n x) 0 xs).toList = xs ++ List.replicate (n - xs.length) x := by
  rw [toList_store _ _ _ (by omega), Vector.toList_replicate, List.take_zero, List.nil_append,
    List.drop_replicate, Nat.zero_add]

theorem toList_store_replicate_iff {α : Type} {n : Nat} (x : α) (xs : List α) :
    (store (Vector.replicate n x) 0 xs).toList = xs ↔ xs.length = n := by
  refine ⟨?_, ?_⟩
  · intro same
    rw [← same, Vector.length_toList]
  · intro full
    rw [toList_store_replicate x xs (Nat.le_of_eq full), full, Nat.sub_self, List.replicate_zero,
      List.append_nil]

theorem store_toList {α : Type} {n : Nat} (buf xs : Vector α n) :
    store buf 0 xs.toList = xs := by
  apply Vector.ext
  intro i hi
  rw [getElem_store_front _ _ _ _ (by rw [Vector.length_toList]; exact hi)]
  exact Vector.getElem_toList _

theorem front_store {α : Type} {n : Nat} (buf : Vector α n) (xs : List α)
    (fits : xs.length ≤ n) : front (store buf 0 xs) xs.length = xs := by
  apply List.ext_getElem
  · simp [fits]
  · intro i hi hx
    rw [getElem_front _ _ _ _ (by omega), getElem_store_front _ _ _ _ hx]

theorem front_store_min {α : Type} {n : Nat} (buf : Vector α n) (xs : List α) :
    front (store buf 0 xs) (min xs.length n) = xs.take n := by
  apply List.ext_getElem
  · rw [length_front, List.length_take]
    omega
  · intro i hi hx
    rw [List.length_take] at hx
    rw [getElem_front _ _ _ _ (by omega), getElem_store_front _ _ _ _ (by omega),
      List.getElem_take]

@[simp] theorem store_nil {α : Type} {n : Nat} (buf : Vector α n) (start : Nat) :
    store buf start [] = buf := by
  apply Vector.ext
  intro i hi
  simp [getElem_store]

theorem store_take_succ {α : Type} {n : Nat} (buf : Vector α n) (xs : List α) (k : Nat)
    (inside : k < xs.length) :
    store (store buf 0 (xs.take k)) k [xs[k]] = store buf 0 (xs.take (k + 1)) := by
  apply Vector.ext
  intro i hi
  simp only [getElem_store, Nat.zero_le, if_true, Nat.sub_zero]
  rcases Nat.lt_trichotomy i k with before | rfl | past
  · rw [if_neg (by omega), List.getElem?_take_of_lt before,
      List.getElem?_take_of_lt (Nat.lt_succ_of_lt before)]
  · simp [inside]
  · rw [if_pos (Nat.le_of_lt past),
      List.getElem?_eq_none (by rw [List.length_singleton]; omega),
      List.getElem?_eq_none (by rw [List.length_take]; omega),
      List.getElem?_eq_none (by rw [List.length_take]; omega)]
    rfl

theorem store_take {α : Type} {n : Nat} (buf : Vector α n) (xs : List α) :
    store buf 0 (xs.take n) = store buf 0 xs := by
  apply Vector.ext
  intro i hi
  simp only [getElem_store, Nat.zero_le, if_true, Nat.sub_zero]
  rw [List.getElem?_take_of_lt hi]

/-- `store` where the writes are checked; `none` is a write outside the buffer. -/
def storeWithin {α : Type} {n : Nat} (buf : Vector α n) (start : Nat) (xs : List α) :
    Option (Vector α n) :=
  if start + xs.length ≤ n then some (store buf start xs) else none

theorem storeWithin_eq {α : Type} {n : Nat} (buf : Vector α n) (start : Nat) (xs : List α)
    (fits : start + xs.length ≤ n) : storeWithin buf start xs = some (store buf start xs) :=
  if_pos fits

end RdmaFuzzing.ReusedBuffer
