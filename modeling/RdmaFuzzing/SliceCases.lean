import RdmaFuzzing.FrameLayout
import RdmaFuzzing.GoSlices

/-! `slice_cases` of `mutate.go`: the front of one packet and the rest of another. The
front keeps the array of the first packet with all its cells, so that the append may
write into the first packet. -/

namespace RdmaFuzzing.SliceCases
open FrameLayout GoSlices

def sliceCases (spare : Nat → Nat → Nat) (h : Heap Byte) (data1 data2 : Slice) (pos : Int) :
    Option (Heap Byte × Slice) := do
  let front ← upTo data1 pos
  let back ← upFrom data2 pos
  pure (append spare 0 h front back)

/-- The bytes of the first packet that can be resliced, then those of the second. -/
def crossed (h : Heap Byte) (data1 data2 : Slice) (pos : Nat) : List Byte :=
  (cells h data1).take pos ++ (content h data2).drop pos

def Splits (data1 data2 : Slice) (pos : Nat) : Prop := pos ≤ data1.cap ∧ pos ≤ data2.len

section
variable {h : Heap Byte} {data1 data2 : Slice} {pos : Nat}

theorem valid_front (valid : Valid h data1) (inside : pos ≤ data1.cap) :
    Valid h { data1 with len := pos } :=
  ⟨valid.known, valid.room, inside⟩

theorem content_front :
    content h { data1 with len := pos } = (cells h data1).take pos := rfl

theorem content_back (valid : Valid h data2) (inside : pos ≤ data2.len) :
    content h ⟨data2.array, data2.off + pos, data2.len - pos, data2.cap - pos⟩ =
      (content h data2).drop pos := by
  have short := valid.len_le
  have small : data2.len - pos ≤ data2.cap - pos := by omega
  rw [content_eq valid, content, cells, List.take_take, Nat.min_eq_left small, List.drop_take,
    List.drop_drop]

theorem length_back (valid : Valid h data2) (inside : pos ≤ data2.len) :
    pos + ((content h data2).drop pos).length = data2.len := by
  rw [List.length_drop, length_content valid]
  omega

theorem sliceCases_some (spare : Nat → Nat → Nat) (splits : Splits data1 data2 pos) :
    sliceCases spare h data1 data2 pos =
      some (append spare 0 h { data1 with len := pos }
        ⟨data2.array, data2.off + pos, data2.len - pos, data2.cap - pos⟩) := by
  have front : (0 : Int) ≤ pos ∧ (pos : Int) ≤ data1.cap :=
    ⟨Int.natCast_nonneg _, Int.ofNat_le.mpr splits.1⟩
  have back : (0 : Int) ≤ pos ∧ (pos : Int) ≤ data2.len :=
    ⟨Int.natCast_nonneg _, Int.ofNat_le.mpr splits.2⟩
  rw [sliceCases, upTo, if_pos front, upFrom, if_pos back]
  rfl

theorem sliceCases_isSome_iff (spare : Nat → Nat → Nat) (pos : Int) :
    (sliceCases spare h data1 data2 pos).isSome ↔ 0 ≤ pos ∧ Splits data1 data2 pos.toNat := by
  by_cases inside : 0 ≤ pos ∧ Splits data1 data2 pos.toNat
  · obtain ⟨n, rfl⟩ := Int.eq_ofNat_of_zero_le inside.1
    have splits : Splits data1 data2 n := inside.2
    rw [sliceCases_some spare splits]
    exact iff_of_true rfl inside
  · refine iff_of_false ?_ inside
    rw [sliceCases, upTo, upFrom]
    simp only [Splits] at inside
    split_ifs with front back
    · omega
    · simp
    · simp
    · simp

end

section
variable (spare : Nat → Nat → Nat) {h : Heap Byte} {data1 data2 : Slice} {pos : Nat}
  {h' : Heap Byte} {r : Slice}

theorem spliced_eq (splits : Splits data1 data2 pos)
    (spliced : sliceCases spare h data1 data2 pos = some (h', r)) :
    append spare 0 h { data1 with len := pos }
      ⟨data2.array, data2.off + pos, data2.len - pos, data2.cap - pos⟩ = (h', r) := by
  rw [sliceCases_some spare splits] at spliced
  exact Option.some.inj spliced

theorem spliced_content (valid1 : Valid h data1) (valid2 : Valid h data2)
    (splits : Splits data1 data2 pos)
    (spliced : sliceCases spare h data1 data2 pos = some (h', r)) :
    Valid h' r ∧ content h' r = crossed h data1 data2 pos := by
  have appended := content_append (t := ⟨data2.array, data2.off + pos, data2.len - pos,
    data2.cap - pos⟩) spare 0 (valid_front valid1 splits.1)
  rw [spliced_eq spare splits spliced, content_back valid2 splits.2, content_front] at appended
  exact ⟨appended.2, appended.1⟩

theorem spliced_first (valid1 : Valid h data1) (valid2 : Valid h data2)
    (splits : Splits data1 data2 pos) (room : data2.len ≤ data1.cap)
    (spliced : sliceCases spare h data1 data2 pos = some (h', r)) :
    cells h' data1 = crossed h data1 data2 pos ++ (cells h data1).drop data2.len := by
  have back := content_back valid2 splits.2
  have whole := length_back valid2 splits.2
  have same := spliced_eq spare splits spliced
  rw [append_inPlace spare 0 (by rw [back, whole]; exact room), back] at same
  obtain ⟨rfl, -⟩ := Prod.mk.inj same
  rw [cells_copyTo valid1 (by rw [whole]; exact room), overwrite, whole, crossed]

theorem length_crossed (valid1 : Valid h data1) (valid2 : Valid h data2)
    (splits : Splits data1 data2 pos) : (crossed h data1 data2 pos).length = data2.len := by
  rw [crossed, List.length_append, List.length_take, length_cells valid1,
    Nat.min_eq_left splits.1, length_back valid2 splits.2]

end

/-- For every position and whatever the two packets share: the call panics unless the
position is inside the capacity of the first packet and the length of the second. Then
the result has the length of the second and reads as the two parts. If the capacity of
the first packet is enough for it, that packet has been overwritten from the position
on, and with two packets of one length it has become the result; otherwise, and on
other arrays, every slice reads as before. -/
theorem sliceCases_iff (spare : Nat → Nat → Nat) (h : Heap Byte) (data1 data2 : Slice)
    (valid1 : Valid h data1) (valid2 : Valid h data2) (pos : Int) :
    ((sliceCases spare h data1 data2 pos).isSome ↔ 0 ≤ pos ∧ Splits data1 data2 pos.toNat) ∧
      ∀ h' r, sliceCases spare h data1 data2 pos = some (h', r) →
        Valid h' r ∧ content h' r = crossed h data1 data2 pos.toNat ∧ r.len = data2.len ∧
        (data2.len ≤ data1.cap → content h' data1 =
          (crossed h data1 data2 pos.toNat ++ (cells h data1).drop data2.len).take data1.len) ∧
        (data1.len = data2.len → content h' data1 = content h' r) ∧
        ∀ u, Valid h u → u.array ≠ data1.array ∨ data1.cap < data2.len →
          content h' u = content h u := by
  refine ⟨sliceCases_isSome_iff spare pos, ?_⟩
  intro h' r spliced
  have inside := (sliceCases_isSome_iff spare pos).mp (Option.isSome_of_eq_some spliced)
  obtain ⟨n, rfl⟩ := Int.eq_ofNat_of_zero_le inside.1
  have splits : Splits data1 data2 n := inside.2
  obtain ⟨valid, reads⟩ := spliced_content spare valid1 valid2 splits spliced
  have length := length_crossed valid1 valid2 splits
  have first (room : data2.len ≤ data1.cap) : content h' data1 =
      (crossed h data1 data2 n ++ (cells h data1).drop data2.len).take data1.len := by
    rw [content, spliced_first spare valid1 valid2 splits room spliced]
  refine ⟨valid, reads, ?_, first, ?_, ?_⟩
  · rw [← length_content valid, reads, length]
  · intro same
    rw [first (same ▸ valid1.len_le), reads, same, List.take_left' length]
  · intro u known apart
    have kept := content_append_apart (t := ⟨data2.array, data2.off + n, data2.len - n,
      data2.cap - n⟩) (s := { data1 with len := n }) spare 0 known
    rw [spliced_eq spare splits spliced, content_back valid2 splits.2,
      length_back valid2 splits.2] at kept
    exact kept apart

def neighbours : Heap Byte := ⟨fun _ => [1, 2, 3, 4], 1⟩

theorem first_valid : Valid neighbours ⟨0, 0, 2, 4⟩ := ⟨by decide, by decide, by decide⟩

theorem second_valid : Valid neighbours ⟨0, 2, 2, 2⟩ := ⟨by decide, by decide, by decide⟩

theorem neighbours_spliced :
    ∃ h' r, sliceCases (fun _ _ => 0) neighbours ⟨0, 0, 2, 4⟩ ⟨0, 2, 2, 2⟩ 1 = some (h', r) ∧
      content h' ⟨0, 0, 2, 4⟩ = content h' r := by
  have spliced := sliceCases_iff (fun _ _ => 0) neighbours _ _ first_valid second_valid 1
  obtain ⟨⟨h', r⟩, same⟩ :=
    Option.isSome_iff_exists.mp (spliced.1.mpr ⟨by decide, by decide, by decide⟩)
  obtain ⟨-, -, -, -, becomes, -⟩ := spliced.2 h' r same
  exact ⟨h', r, same, becomes rfl⟩

end RdmaFuzzing.SliceCases
