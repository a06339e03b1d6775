import RdmaFuzzing.FuzzIbBth

/-! Whole runs of `fuzz_ib_bth`, round after round. The rounds of a run are known
before any buffer is: the opcode byte in front of each round and the draws it
finds follow from the first opcode and the stream. What a run changes is the XOR
of what its rounds change, so nothing but the opcode of the buffer can matter. -/

namespace RdmaFuzzing.FuzzRounds
open FrameLayout FuzzIbBth MaskedChange RandomDraws

/-- A round of a run: the opcode byte it finds, and the stream from its first
draw on. -/
structure Round where
  opcode : Byte
  draws : Nat → Draw

def Round.left (bthSize : Nat) (r : Round) : Byte := opcodeLeft bthSize r.opcode r.draws

def roundsOf (bthSize : Nat) : Nat → Byte → (Nat → Draw) → List Round
  | 0, _, _ => []
  | rounds + 1, opcode, s =>
      ⟨opcode, s⟩ :: roundsOf bthSize rounds (opcodeLeft bthSize opcode s)
        (after s (stepCalls bthSize opcode s))

def xorAll (bytes : List Byte) : Byte := bytes.foldr (· ^^^ ·) 0

def runXor (bthSize rounds : Nat) (opcode : Byte) (s : Nat → Draw) (k : Nat) : Byte :=
  xorAll ((roundsOf bthSize rounds opcode s).map fun r => stepXor bthSize r.opcode r.draws k)

def runCalls (bthSize rounds : Nat) (opcode : Byte) (s : Nat → Draw) : Nat :=
  ((roundsOf bthSize rounds opcode s).map fun r => stepCalls bthSize r.opcode r.draws).sum

theorem runXor_succ (bthSize rounds : Nat) (opcode : Byte) (s : Nat → Draw) (k : Nat) :
    runXor bthSize (rounds + 1) opcode s k =
      stepXor bthSize opcode s k ^^^
        runXor bthSize rounds (opcodeLeft bthSize opcode s)
          (after s (stepCalls bthSize opcode s)) k := rfl

theorem runCalls_succ (bthSize rounds : Nat) (opcode : Byte) (s : Nat → Draw) :
    runCalls bthSize (rounds + 1) opcode s =
      stepCalls bthSize opcode s +
        runCalls bthSize rounds (opcodeLeft bthSize opcode s)
          (after s (stepCalls bthSize opcode s)) := rfl

theorem fuzzIbBth_succ {n : Nat} (buf : Vector Byte n) (ibBth : Nat) (fits : ibBth + 40 ≤ n)
    (bthSize rounds : Nat) (s : Nat → Draw) :
    let round := fuzzRound buf ibBth fits bthSize s
    let rest := fuzzIbBth round.value ibBth fits bthSize rounds (after s round.calls)
    fuzzIbBth buf ibBth fits bthSize (rounds + 1) s = ⟨rest.value, round.calls + rest.calls⟩ :=
  rfl

theorem stepXor_opcode (bthSize : Nat) (opcode : Byte) (s : Nat → Draw) :
    opcode ^^^ stepXor bthSize opcode s 0 = opcodeLeft bthSize opcode s := by
  rw [stepXor, extensionXor_outside _ _ _ (Or.inl (by decide)), opcodeLeft]
  simp

theorem fuzzRound_opcode {n : Nat} (buf : Vector Byte n) (ibBth : Nat) (fits : ibBth + 40 ≤ n)
    (bthSize : Nat) (s : Nat → Draw) (hop : ibBth < n) :
    (fuzzRound buf ibBth fits bthSize s).value[ibBth] = opcodeLeft bthSize buf[ibBth] s := by
  rw [fuzzRound_cell, if_pos (le_refl ibBth), Nat.sub_self, stepXor_opcode]

/-- The run lemma: what a run does to each cell, for any number of rounds. -/
theorem fuzzIbBth_cell {n : Nat} (buf : Vector Byte n) (ibBth : Nat) (fits : ibBth + 40 ≤ n)
    (bthSize rounds : Nat) (s : Nat → Draw) (hop : ibBth < n) (j : Nat) (hj : j < n) :
    (fuzzIbBth buf ibBth fits bthSize rounds s).value[j] =
      buf[j] ^^^
        (if ibBth ≤ j then runXor bthSize rounds buf[ibBth] s (j - ibBth) else 0) := by
  induction rounds generalizing buf s with
  | zero =>
    change buf[j] = buf[j] ^^^ (if ibBth ≤ j then (0 : Byte) else 0)
    simp
  | succ rounds ih =>
    -- The later rounds see this one through the opcode and the draws it took.
    rw [fuzzIbBth_succ, ih, fuzzRound_opcode, fuzzRound_count, fuzzRound_cell, BitVec.xor_assoc]
    split_ifs
    · rw [runXor_succ]
    · simp

theorem fuzzIbBth_count {n : Nat} (buf : Vector Byte n) (ibBth : Nat) (fits : ibBth + 40 ≤ n)
    (bthSize rounds : Nat) (s : Nat → Draw) (hop : ibBth < n) :
    (fuzzIbBth buf ibBth fits bthSize rounds s).calls = runCalls bthSize rounds buf[ibBth] s := by
  induction rounds generalizing buf s with
  | zero => rfl
  | succ rounds ih =>
    rw [fuzzIbBth_succ, ih, fuzzRound_opcode, fuzzRound_count, runCalls_succ]

def difference {n : Nat} (before later : Vector Byte n) (ibBth k : Nat) : Byte :=
  if inside : ibBth + k < n then later[ibBth + k] ^^^ before[ibBth + k] else 0

theorem runXor_far (bthSize rounds : Nat) (opcode : Byte) (s : Nat → Draw) (k : Nat)
    (far : 40 ≤ k) : runXor bthSize rounds opcode s k = 0 := by
  induction rounds generalizing opcode s with
  | zero => rfl
  | succ rounds ih =>
    have len := extensionLen_le (opcodeLeft bthSize opcode s)
    rw [runXor_succ, ih, stepXor, extensionXor_outside _ _ _ (Or.inr (by omega)), switchXor,
      if_neg (by omega)]
    rfl

theorem difference_fuzzIbBth {n : Nat} (buf : Vector Byte n) (ibBth : Nat)
    (fits : ibBth + 40 ≤ n) (bthSize rounds : Nat) (s : Nat → Draw) (hop : ibBth < n) (k : Nat) :
    difference buf (fuzzIbBth buf ibBth fits bthSize rounds s).value ibBth k =
      runXor bthSize rounds buf[ibBth] s k := by
  rw [difference]
  split_ifs with inside
  · rw [fuzzIbBth_cell _ _ _ _ _ _ hop, if_pos (by omega), Nat.add_sub_cancel_left, BitVec.xor_comm,
      ← BitVec.xor_assoc, BitVec.xor_self, BitVec.zero_xor]
  · rw [runXor_far _ _ _ _ _ (by omega)]

/-- Runs on two buffers with one opcode byte draw the same number of values and
change the buffers by the same bytes, whatever else is in them. -/
theorem blind_to_contents {n m : Nat} (buf : Vector Byte n) (other : Vector Byte m)
    (ibBth ibOther : Nat) (fits : ibBth + 40 ≤ n) (fitsOther : ibOther + 40 ≤ m)
    (sameOpcode : buf[ibBth] = other[ibOther]) (bthSize rounds : Nat) (s : Nat → Draw) :
    (fuzzIbBth buf ibBth fits bthSize rounds s).calls =
        (fuzzIbBth other ibOther fitsOther bthSize rounds s).calls ∧
      ∀ k, difference buf (fuzzIbBth buf ibBth fits bthSize rounds s).value ibBth k =
        difference other (fuzzIbBth other ibOther fitsOther bthSize rounds s).value ibOther k := by
  have hop : ibBth < n := by omega
  have hop' : ibOther < m := by omega
  refine ⟨?_, fun k => ?_⟩
  · rw [fuzzIbBth_count _ _ _ _ _ _ hop, fuzzIbBth_count _ _ _ _ _ _ hop', sameOpcode]
  · rw [difference_fuzzIbBth _ _ _ _ _ _ hop, difference_fuzzIbBth _ _ _ _ _ _ hop', sameOpcode]

def fetchAdd : Vector Byte 40 := Vector.replicate 40 0x14

def fetchAddFrame : Vector Byte 90 := (Vector.replicate 90 7).set 46 0x14

theorem fetchAdd_blind :
    (fuzzIbBth fetchAdd 0 (by decide) 12 3 (fun _ => 5)).calls =
        (fuzzIbBth fetchAddFrame 46 (by decide) 12 3 (fun _ => 5)).calls ∧
      ∀ k, difference fetchAdd (fuzzIbBth fetchAdd 0 (by decide) 12 3 (fun _ => 5)).value 0 k =
        difference fetchAddFrame
          (fuzzIbBth fetchAddFrame 46 (by decide) 12 3 (fun _ => 5)).value 46 k :=
  blind_to_contents fetchAdd fetchAddFrame 0 46 (by decide) (by decide)
    (by simp [fetchAdd, fetchAddFrame]) 12 3 _

end RdmaFuzzing.FuzzRounds
