import Mathlib.Tactic.Common

/-! Buffers changed by XOR at single cells, and the bits such changes keep.
`kept i` has a one at every bit of cell `i` that is promised to stay, so
`AgreeOn kept` is an equivalence, and a program whose every XOR avoids the kept
bits preserves it over any number of steps. -/

namespace RdmaFuzzing.MaskedChange

def xorAt {w n : Nat} (xs : Vector (BitVec w) n) (i : Fin n) (v : BitVec w) :
    Vector (BitVec w) n :=
  xs.set i.val (xs[i.val] ^^^ v)

@[simp] theorem getElem_xorAt {w n : Nat} (xs : Vector (BitVec w) n) (i : Fin n)
    (v : BitVec w) (j : Nat) (hj : j < n) :
    (xorAt xs i v)[j] = xs[j] ^^^ (if j = i.val then v else 0) := by
  by_cases h : j = i.val
  · subst h
    simp [xorAt]
  · simp [xorAt, h, Ne.symm h]

@[simp] theorem xorAt_zero {w n : Nat} (xs : Vector (BitVec w) n) (i : Fin n) :
    xorAt xs i 0 = xs := by
  ext j hj
  simp

theorem xorAt_comm {w n : Nat} (xs : Vector (BitVec w) n) (i j : Fin n) (u v : BitVec w) :
    xorAt (xorAt xs i u) j v = xorAt (xorAt xs j v) i u := by
  ext k hk
  rw [getElem_xorAt, getElem_xorAt, getElem_xorAt, getElem_xorAt, BitVec.xor_assoc,
    BitVec.xor_assoc, BitVec.xor_comm (if k = i.val then u else 0)]

theorem xorAt_xorAt_self {w n : Nat} (xs : Vector (BitVec w) n) (i : Fin n) (v : BitVec w) :
    xorAt (xorAt xs i v) i v = xs := by
  ext k hk
  rw [getElem_xorAt, getElem_xorAt, BitVec.xor_assoc, BitVec.xor_self]
  simp

def xorEach {w n : Nat} (xs : Vector (BitVec w) n) (changes : List (Fin n × BitVec w)) :
    Vector (BitVec w) n :=
  changes.foldl (fun xs c => xorAt xs c.1 c.2) xs

theorem xorEach_perm {w n : Nat} (xs : Vector (BitVec w) n)
    {changes changes' : List (Fin n × BitVec w)} (perm : changes.Perm changes') :
    xorEach xs changes = xorEach xs changes' :=
  perm.foldl_eq' (fun c _ d _ mid => xorAt_comm mid c.1 d.1 c.2 d.2) xs

theorem xorEach_cancel {w n : Nat} (xs : Vector (BitVec w) n)
    (before between rest : List (Fin n × BitVec w)) (c : Fin n × BitVec w) :
    xorEach xs (before ++ c :: between ++ c :: rest) = xorEach xs (before ++ between ++ rest) := by
  have together : (before ++ c :: between ++ c :: rest).Perm
      (c :: c :: (before ++ between ++ rest)) := by
    refine List.perm_middle.trans (List.Perm.cons c ?_)
    rw [List.append_assoc, List.append_assoc, List.cons_append]
    exact List.perm_middle
  rw [xorEach_perm xs together]
  change xorEach (xorAt (xorAt xs c.1 c.2) c.1 c.2) _ = _
  rw [xorAt_xorAt_self]

theorem xor_and {w : Nat} (a b k : BitVec w) :
    (a ^^^ b) &&& k = (a &&& k) ^^^ (b &&& k) := by
  ext i hi
  simp [Bool.and_xor_distrib_right]

def AgreeOn {w n : Nat} (kept : Fin n → BitVec w) (xs ys : Vector (BitVec w) n) : Prop :=
  ∀ i : Fin n, xs[i.val] &&& kept i = ys[i.val] &&& kept i

theorem AgreeOn.refl {w n : Nat} (kept : Fin n → BitVec w) (xs : Vector (BitVec w) n) :
    AgreeOn kept xs xs := fun _ => rfl

theorem AgreeOn.symm {w n : Nat} {kept : Fin n → BitVec w} {xs ys : Vector (BitVec w) n}
    (h : AgreeOn kept xs ys) : AgreeOn kept ys xs := fun i => (h i).symm

theorem AgreeOn.trans {w n : Nat} {kept : Fin n → BitVec w} {xs ys zs : Vector (BitVec w) n}
    (h : AgreeOn kept xs ys) (g : AgreeOn kept ys zs) : AgreeOn kept xs zs :=
  fun i => (h i).trans (g i)

/-- One XOR whose mask avoids the kept bits of its cell. -/
theorem agreeOn_xorAt {w n : Nat} {kept : Fin n → BitVec w} (xs : Vector (BitVec w) n)
    (i : Fin n) (v : BitVec w) (avoids : v &&& kept i = 0) : AgreeOn kept xs (xorAt xs i v) := by
  intro j
  rw [getElem_xorAt, xor_and]
  split_ifs with h
  · have same : j = i := Fin.ext h
    simp [same, avoids]
  · simp

theorem AgreeOn.getElem_eq {w n : Nat} {kept : Fin n → BitVec w}
    {xs ys : Vector (BitVec w) n} (h : AgreeOn kept xs ys) (i : Fin n)
    (all : kept i = BitVec.allOnes w) : xs[i.val] = ys[i.val] := by
  have bits := h i
  rwa [all, BitVec.and_allOnes, BitVec.and_allOnes] at bits

end RdmaFuzzing.MaskedChange
