import Mathlib.Data.List.Basic
import Mathlib.Tactic.Common

/-! Slices of Go: windows on arrays that several slices may share. Between its length
and its capacity a slice has cells that `append` writes to and that reslicing shows;
what `append` needs beyond them is a new array, with `spare` cells left over. -/

namespace RdmaFuzzing.GoSlices

structure Heap (α : Type) where
  mem : Nat → List α
  next : Nat

structure Slice where
  array : Nat
  off : Nat
  len : Nat
  cap : Nat

def cells {α : Type} (h : Heap α) (s : Slice) : List α := ((h.mem s.array).drop s.off).take s.cap

def content {α : Type} (h : Heap α) (s : Slice) : List α := (cells h s).take s.len

structure Valid {α : Type} (h : Heap α) (s : Slice) : Prop where
  known : s.array < h.next
  room : s.off + s.cap ≤ (h.mem s.array).length
  len_le : s.len ≤ s.cap

def overwrite {α : Type} (xs : List α) (start : Nat) (ys : List α) : List α :=
  xs.take start ++ ys ++ xs.drop (start + ys.length)

def copyTo {α : Type} (h : Heap α) (array start : Nat) (ys : List α) : Heap α :=
  { h with mem := fun a => if a = array then overwrite (h.mem a) start ys else h.mem a }

def allocate {α : Type} (h : Heap α) (xs : List α) : Heap α :=
  ⟨fun a => if a = h.next then xs else h.mem a, h.next + 1⟩

/-- `append(s, t...)`. What is appended is read before anything is written. -/
def append {α : Type} (spare : Nat → Nat → Nat) (zero : α) (h : Heap α) (s t : Slice) :
    Heap α × Slice :=
  let xs := content h t
  let needed := s.len + xs.length
  if needed ≤ s.cap then (copyTo h s.array (s.off + s.len) xs, { s with len := needed })
  else
    let left := spare s.cap needed
    (allocate h (content h s ++ xs ++ List.replicate left zero), ⟨h.next, 0, needed, needed + left⟩)

/-- `s[:high]`, up to the capacity; `none` is a panic. -/
def upTo (s : Slice) (high : Int) : Option Slice :=
  if 0 ≤ high ∧ high ≤ s.cap then some { s with len := high.toNat } else none

/-- `s[low:]`, up to the length. -/
def upFrom (s : Slice) (low : Int) : Option Slice :=
  if 0 ≤ low ∧ low ≤ s.len then
    some ⟨s.array, s.off + low.toNat, s.len - low.toNat, s.cap - low.toNat⟩
  else none

section
variable {α : Type} {h : Heap α} {s t u : Slice}

theorem length_cells (valid : Valid h s) : (cells h s).length = s.cap := by
  have room := valid.room
  rw [cells, List.length_take, List.length_drop]
  omega

theorem length_content (valid : Valid h s) : (content h s).length = s.len := by
  have room := valid.len_le
  rw [content, List.length_take, length_cells valid]
  omega

theorem content_eq (valid : Valid h s) :
    content h s = ((h.mem s.array).drop s.off).take s.len := by
  rw [content, cells, List.take_take, Nat.min_eq_left valid.len_le]

theorem content_congr {h' : Heap α} (same : h'.mem s.array = h.mem s.array) :
    content h' s = content h s := by
  rw [content, content, cells, cells, same]

theorem length_overwrite {xs ys : List α} {start : Nat} (fits : start + ys.length ≤ xs.length) :
    (overwrite xs start ys).length = xs.length := by
  rw [overwrite, List.length_append, List.length_append, List.length_take, List.length_drop]
  omega

theorem drop_overwrite {xs : List α} {off start : Nat} (ys : List α)
    (inside : start ≤ xs.length) (before : off ≤ start) :
    (overwrite xs start ys).drop off = overwrite (xs.drop off) (start - off) ys := by
  have length : (xs.take start).length = start := by
    rw [List.length_take]
    omega
  have same : off + (start - off + ys.length) = start + ys.length := by omega
  rw [overwrite, overwrite, List.append_assoc, List.drop_append_of_le_length (by omega),
    List.drop_take, List.append_assoc, List.drop_drop, same]

theorem take_overwrite {xs : List α} {start n : Nat} (ys : List α)
    (fits : start + ys.length ≤ n) (inside : n ≤ xs.length) :
    (overwrite xs start ys).take n = overwrite (xs.take n) start ys := by
  have length : (xs.take start ++ ys).length = start + ys.length := by
    rw [List.length_append, List.length_take]
    omega
  rw [overwrite, overwrite, List.take_append, List.take_of_length_le (by omega), length,
    List.take_take, Nat.min_eq_left (by omega), List.drop_take]

theorem copyTo_mem_self (array start : Nat) (ys : List α) :
    (copyTo h array start ys).mem array = overwrite (h.mem array) start ys :=
  if_pos rfl

theorem allocate_mem_self (xs : List α) : (allocate h xs).mem h.next = xs := if_pos rfl

theorem cells_copyTo (valid : Valid h s) {pos : Nat} {ys : List α}
    (fits : pos + ys.length ≤ s.cap) :
    cells (copyTo h s.array (s.off + pos) ys) s = overwrite (cells h s) pos ys := by
  have room := valid.room
  have length : s.cap ≤ ((h.mem s.array).drop s.off).length := by
    rw [List.length_drop]
    omega
  rw [cells, copyTo_mem_self, drop_overwrite ys (by omega) (Nat.le_add_right _ _),
    Nat.add_sub_cancel_left, take_overwrite ys fits length, cells]

theorem content_copyTo_apart {array start : Nat} {ys : List α} (apart : u.array ≠ array) :
    content (copyTo h array start ys) u = content h u :=
  content_congr (if_neg apart)

theorem content_allocate (valid : Valid h u) (xs : List α) :
    content (allocate h xs) u = content h u :=
  content_congr (if_neg (Nat.ne_of_lt valid.known))

variable (spare : Nat → Nat → Nat) (zero : α)

theorem append_inPlace (fits : s.len + (content h t).length ≤ s.cap) :
    append spare zero h s t =
      (copyTo h s.array (s.off + s.len) (content h t),
        { s with len := s.len + (content h t).length }) :=
  if_pos fits

theorem append_grows (full : ¬s.len + (content h t).length ≤ s.cap) :
    append spare zero h s t =
      (allocate h (content h s ++ content h t ++
          List.replicate (spare s.cap (s.len + (content h t).length)) zero),
        ⟨h.next, 0, s.len + (content h t).length,
          s.len + (content h t).length + spare s.cap (s.len + (content h t).length)⟩) :=
  if_neg full

theorem content_append (valid : Valid h s) :
    content (append spare zero h s t).1 (append spare zero h s t).2 =
        content h s ++ content h t ∧
      Valid (append spare zero h s t).1 (append spare zero h s t).2 := by
  have room := valid.room
  have short := valid.len_le
  by_cases fits : s.len + (content h t).length ≤ s.cap
  · rw [append_inPlace spare zero fits]
    have seen := cells_copyTo valid fits
    have start : (content h s).length = s.len := length_content valid
    refine ⟨?_, valid.known, ?_, fits⟩
    · change (cells (copyTo h s.array (s.off + s.len) (content h t)) s).take
        (s.len + (content h t).length) = _
      rw [seen, overwrite, ← content, List.take_left' (by rw [List.length_append, start])]
    · change s.off + s.cap ≤ ((copyTo h s.array (s.off + s.len) (content h t)).mem s.array).length
      rw [copyTo_mem_self, length_overwrite (by omega)]
      exact room
  · rw [append_grows spare zero fits]
    have both : (content h s ++ content h t).length = s.len + (content h t).length := by
      rw [List.length_append, length_content valid]
    refine ⟨?_, Nat.lt_succ_self _, ?_, Nat.le_add_right _ _⟩
    · rw [content, cells, allocate_mem_self, List.drop_zero, List.take_take,
        Nat.min_eq_left (Nat.le_add_right _ _), List.take_left' both]
    · simp only [allocate_mem_self]
      rw [List.length_append, List.length_replicate, both]
      omega

theorem content_append_apart (valid : Valid h u)
    (apart : u.array ≠ s.array ∨ s.cap < s.len + (content h t).length) :
    content (append spare zero h s t).1 u = content h u := by
  by_cases fits : s.len + (content h t).length ≤ s.cap
  · rw [append_inPlace spare zero fits]
    exact content_copyTo_apart (apart.resolve_right (Nat.not_lt.mpr fits))
  · rw [append_grows spare zero fits]
    exact content_allocate valid _

end

end RdmaFuzzing.GoSlices
