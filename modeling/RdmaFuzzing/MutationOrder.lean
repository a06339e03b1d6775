import RdmaFuzzing.NaiveFuzzer

/-! Sequences of calls of the three mutators of `mutate.go`. Each call is the XOR
of one cell with a mask that its arguments alone decide, so their order is
irrelevant, and two equal calls undo each other. -/

namespace RdmaFuzzing.MutationOrder
open FrameLayout MaskedChange NaiveFuzzer

inductive Call (n : Nat) where
  | flipBits (pos : Fin n) (bits bitPosStart : Byte)
  | flipBytewise (pos : Fin n)
  | flipSingleBit (pos : Fin n) (bitPos : Byte)

namespace Call

def apply {n : Nat} (data : Vector Byte n) : Call n → Vector Byte n
  | flipBits pos bits bitPosStart => NaiveFuzzer.flipBits data pos bits bitPosStart
  | flipBytewise pos => NaiveFuzzer.flipBytewise data pos
  | flipSingleBit pos bitPos => NaiveFuzzer.flipSingleBit data pos bitPos

def pos {n : Nat} : Call n → Fin n
  | flipBits pos _ _ | flipBytewise pos | flipSingleBit pos _ => pos

/-- Positions that two of the mutators skip. -/
def Skipped (i : Nat) : Prop := i = 1 ∨ i = 5 ∨ i = 6 ∨ i = 7

instance : DecidablePred Skipped := fun i =>
  inferInstanceAs (Decidable (i = 1 ∨ i = 5 ∨ i = 6 ∨ i = 7))

def burst (bits : Byte) : Nat :=
  match bits.toNat with
  | 1 => 0b1
  | 2 => 0b11
  | 3 => 0b111
  | 4 => 0b1111
  | _ => 0

def mask {n : Nat} : Call n → Byte
  | flipBits pos bits bitPosStart =>
      if Skipped pos.val then 0 else BitVec.ofNat 8 (burst bits <<< bitPosStart.toNat)
  | flipBytewise pos => if Skipped pos.val then 0 else 0b11111111
  | flipSingleBit _ bitPos => BitVec.ofNat 8 (1 <<< bitPos.toNat)

theorem flipBits_eq {n : Nat} (data : Vector Byte n) (pos : Fin n) (bits bitPosStart : Byte) :
    NaiveFuzzer.flipBits data pos bits bitPosStart =
      xorAt data pos (mask (.flipBits pos bits bitPosStart)) := by
  rw [mask]
  by_cases version : pos.val = 1
  · have skipped : Skipped pos.val := Or.inl version
    rw [if_pos skipped, xorAt_zero]
    exact if_pos version
  · by_cases queuePair : pos.val = 5 ∨ pos.val = 6 ∨ pos.val = 7
    · have skipped : Skipped pos.val := Or.inr queuePair
      rw [if_pos skipped, xorAt_zero]
      exact (if_neg version).trans (if_pos queuePair)
    · have mutable : ¬ Skipped pos.val := fun skipped => skipped.elim version queuePair
      rw [if_neg mutable, burst]
      refine ((if_neg version).trans (if_neg queuePair)).trans ?_
      generalize bits.toNat = width
      match width with
      | 1 | 2 | 3 | 4 => rfl
      | 0 | _ + 5 =>
        change data = xorAt data pos (BitVec.ofNat 8 (0 <<< bitPosStart.toNat))
        rw [Nat.zero_shiftLeft]
        exact (xorAt_zero data pos).symm

theorem apply_eq {n : Nat} (data : Vector Byte n) (c : Call n) :
    c.apply data = xorAt data c.pos c.mask := by
  cases c with
  | flipBits pos bits bitPosStart => exact flipBits_eq data pos bits bitPosStart
  | flipBytewise pos =>
    by_cases skipped : Skipped pos.val
    · rw [mask, if_pos skipped, xorAt_zero]
      exact if_pos skipped
    · rw [mask, if_neg skipped]
      exact if_neg skipped
  | flipSingleBit pos bitPos => rfl

end Call

def applyAll {n : Nat} (calls : List (Call n)) (data : Vector Byte n) : Vector Byte n :=
  calls.foldl Call.apply data

def changes {n : Nat} (calls : List (Call n)) : List (Fin n × Byte) :=
  calls.map fun c => (c.pos, c.mask)

theorem applyAll_eq {n : Nat} (calls : List (Call n)) (data : Vector Byte n) :
    applyAll calls data = xorEach data (changes calls) := by
  induction calls generalizing data with
  | nil => rfl
  | cons c rest ih =>
    change applyAll rest (c.apply data) = xorEach (xorAt data c.pos c.mask) (changes rest)
    rw [ih, Call.apply_eq]

/-- Every order of the calls gives the same slice, and so does leaving out two
equal calls. -/
theorem order_irrelevant {n : Nat} (data : Vector Byte n) (calls : List (Call n)) :
    (∀ calls', calls.Perm calls' → applyAll calls data = applyAll calls' data) ∧
      ∀ before c between rest, calls = before ++ c :: between ++ c :: rest →
        applyAll calls data = applyAll (before ++ between ++ rest) data := by
  refine ⟨?_, ?_⟩
  · intro calls' perm
    rw [applyAll_eq, applyAll_eq]
    exact xorEach_perm data (perm.map _)
  · rintro before c between rest rfl
    rw [applyAll_eq, applyAll_eq]
    simp only [changes, List.map_append, List.map_cons]
    exact xorEach_cancel data _ _ _ _

theorem opcode_inside : 0 < 12 := by decide

theorem queuePair_inside : 5 < 12 := by decide

def mixedCalls : List (Call 12) :=
  [.flipBytewise ⟨5, queuePair_inside⟩, .flipSingleBit ⟨5, queuePair_inside⟩ 7,
    .flipBits ⟨0, opcode_inside⟩ 4 6, .flipSingleBit ⟨5, queuePair_inside⟩ 7]

theorem mixedCalls_order :
    (∀ calls', mixedCalls.Perm calls' → applyAll mixedCalls (Vector.replicate 12 0) =
        applyAll calls' (Vector.replicate 12 0)) ∧
      ∀ before c between rest, mixedCalls = before ++ c :: between ++ c :: rest →
        applyAll mixedCalls (Vector.replicate 12 0) =
          applyAll (before ++ between ++ rest) (Vector.replicate 12 0) :=
  order_irrelevant (Vector.replicate 12 0) mixedCalls

end RdmaFuzzing.MutationOrder
