import RdmaFuzzing.FuzzRounds

/-! Which extension header a run of `fuzz_ib_bth` has changed. Every round runs
the mutator of the extension header that its own opcode selects, so after a
second round the changes may lie in a header that the packet no longer has. -/

namespace RdmaFuzzing.FinalOpcode
open FrameLayout FuzzIbBth FuzzRounds MaskedChange RandomDraws

def InsideSelected (opcode : Byte) (k : Nat) : Prop :=
  SelectsAtomicEth opcode ∧ k ≤ 39 ∨ SelectsRdmaEth opcode ∧ k ≤ 27

theorem insideSelected_iff (opcode : Byte) (k : Nat) (header : 12 ≤ k) :
    InsideSelected opcode k ↔ k < 12 + extensionLen opcode := by
  rw [InsideSelected, extensionLen, atomicEthLen, rdmaEthLen]
  by_cases atomic : SelectsAtomicEth opcode
  · simp only [atomic, true_and, if_true]
    omega
  · by_cases rdma : SelectsRdmaEth opcode
    · simp only [atomic, rdma, true_and, false_and, false_or, if_true, if_false]
      omega
    · simp only [atomic, rdma, false_and, or_self, if_false, false_iff]
      omega

/-- Every extension byte that differs is in the header selected by the opcode
byte that was left. -/
def FollowsFinalOpcode {n : Nat} (before later : Vector Byte n) (ibBth : Nat)
    (fits : ibBth + 40 ≤ n) : Prop :=
  ∀ k, 12 ≤ k → k ≤ 39 → ∀ cell : ibBth + k < n, later[ibBth + k] ≠ before[ibBth + k] →
    InsideSelected (later.get (headerCell ibBth fits .ibOpcode)) k

def lastOpcode (bthSize rounds : Nat) (opcode : Byte) (s : Nat → Draw) : Byte :=
  ((roundsOf bthSize rounds opcode s).map (Round.left bthSize)).getLastD opcode

/-- The mask that the extension mutator of a round draws for byte `k`, if the
round runs one and it draws this byte. -/
def extensionMask (bthSize k : Nat) (r : Round) : Option Byte :=
  if 0 < extensionLen (r.left bthSize) ∧
      k = 12 + (r.draws 2).val % extensionLen (r.left bthSize) then
    some (randomByte (r.draws 3))
  else none

def masksAt (bthSize rounds : Nat) (opcode : Byte) (s : Nat → Draw) (k : Nat) : List Byte :=
  (roundsOf bthSize rounds opcode s).filterMap (extensionMask bthSize k)

/-- The masks drawn for bytes outside the last header selected cancel out. -/
def MasksCancel (bthSize rounds : Nat) (opcode : Byte) (s : Nat → Draw) : Prop :=
  ∀ k, 12 ≤ k → k ≤ 39 → ¬ InsideSelected (lastOpcode bthSize rounds opcode s) k →
    xorAll (masksAt bthSize rounds opcode s k) = 0

theorem fuzzIbBth_opcode {n : Nat} (buf : Vector Byte n) (ibBth : Nat)
    (fits : ibBth + 40 ≤ n) (bthSize rounds : Nat) (s : Nat → Draw) (hop : ibBth < n) :
    (fuzzIbBth buf ibBth fits bthSize rounds s).value[ibBth] =
      lastOpcode bthSize rounds buf[ibBth] s := by
  induction rounds generalizing buf s with
  | zero => rfl
  | succ rounds ih =>
    rw [fuzzIbBth_succ, ih, fuzzRound_opcode, fuzzRound_count, lastOpcode, lastOpcode, roundsOf,
      List.map_cons, List.getLastD_cons]
    rfl

theorem stepXor_extension (bthSize k : Nat) (header : 12 ≤ k) (r : Round) :
    stepXor bthSize r.opcode r.draws k = (extensionMask bthSize k r).getD 0 := by
  rw [stepXor, switchXor, if_neg (by omega), extensionXor, extensionMask, Round.left,
    after_apply, after_apply]
  split_ifs
  · exact BitVec.zero_xor
  · rfl

theorem xorAll_filterMap {α : Type} (f : α → Option Byte) (xs : List α) :
    xorAll (xs.filterMap f) = xorAll (xs.map fun x => (f x).getD 0) := by
  induction xs with
  | nil => rfl
  | cons x rest ih =>
    rw [List.map_cons]
    cases here : f x with
    | none =>
      rw [List.filterMap_cons_none here, ih]
      exact BitVec.zero_xor.symm
    | some byte =>
      rw [List.filterMap_cons_some here]
      exact congrArg (byte ^^^ ·) ih

theorem runXor_extension (bthSize rounds : Nat) (opcode : Byte) (s : Nat → Draw) (k : Nat)
    (header : 12 ≤ k) :
    runXor bthSize rounds opcode s k = xorAll (masksAt bthSize rounds opcode s k) := by
  rw [runXor, masksAt, xorAll_filterMap]
  exact congrArg xorAll (List.map_congr_left fun r _ => stepXor_extension bthSize k header r)

theorem extension_kept_iff {n : Nat} (buf : Vector Byte n) (ibBth : Nat)
    (fits : ibBth + 40 ≤ n) (bthSize rounds : Nat) (s : Nat → Draw) (hop : ibBth < n) (k : Nat)
    (header : 12 ≤ k) (cell : ibBth + k < n) :
    (fuzzIbBth buf ibBth fits bthSize rounds s).value[ibBth + k] = buf[ibBth + k] ↔
      xorAll (masksAt bthSize rounds buf[ibBth] s k) = 0 := by
  rw [fuzzIbBth_cell _ _ _ _ _ _ hop, if_pos (Nat.le_add_right _ _), Nat.add_sub_cancel_left,
    runXor_extension _ _ _ _ _ header]
  refine ⟨?_, ?_⟩
  · intro same
    exact (BitVec.xor_right_inj _).mp (same.trans BitVec.xor_zero.symm)
  · intro cancel
    rw [cancel]
    exact BitVec.xor_zero

theorem fuzzIbBth_headerCell {n : Nat} (buf : Vector Byte n) (ibBth : Nat)
    (fits : ibBth + 40 ≤ n) (bthSize rounds : Nat) (s : Nat → Draw) :
    (fuzzIbBth buf ibBth fits bthSize rounds s).value.get (headerCell ibBth fits .ibOpcode) =
      lastOpcode bthSize rounds (buf.get (headerCell ibBth fits .ibOpcode)) s :=
  fuzzIbBth_opcode buf ibBth fits bthSize rounds s (by omega)

/-- The changes follow the final opcode exactly when all masks drawn outside the
header it selects cancel out. -/
theorem follows_iff {n : Nat} (buf : Vector Byte n) (ibBth : Nat) (fits : ibBth + 40 ≤ n)
    (bthSize rounds : Nat) (s : Nat → Draw) :
    FollowsFinalOpcode buf (fuzzIbBth buf ibBth fits bthSize rounds s).value ibBth fits ↔
      MasksCancel bthSize rounds (buf.get (headerCell ibBth fits .ibOpcode)) s := by
  rw [FollowsFinalOpcode, MasksCancel, fuzzIbBth_headerCell]
  refine forall₃_congr fun k header inside => ?_
  have hop : ibBth < n := by omega
  have cell : ibBth + k < n := by omega
  have kept := extension_kept_iff buf ibBth fits bthSize rounds s hop k header cell
  exact (forall_prop_of_true cell).trans (not_imp_comm.trans (imp_congr_right fun _ => kept))

theorem masksCancel_one (bthSize : Nat) (opcode : Byte) (s : Nat → Draw) :
    MasksCancel bthSize 1 opcode s := by
  intro k header inside outside
  have missed : extensionMask bthSize k ⟨opcode, s⟩ = none := by
    rw [extensionMask, if_neg]
    rintro ⟨pos, at_cell⟩
    have small := Nat.mod_lt (s 2).val pos
    exact outside ((insideSelected_iff _ _ header).mpr (at_cell ▸ Nat.add_lt_add_left small 12))
  rw [masksAt, roundsOf, List.filterMap_cons_none missed]
  rfl

def writeOnly : Vector Byte 40 := (Vector.replicate 40 0).set 0 0x0A

/-- The first round leaves the header alone and changes the first extension
byte; the second makes the opcode that of a SEND, which has no extension. -/
def sendDraws : Nat → Draw := replay 0 [5, 0, 0, 1, 0, 0x0A]

theorem writeOnly_one_round :
    FollowsFinalOpcode writeOnly (fuzzIbBth writeOnly 0 (by decide) 12 1 sendDraws).value 0
      (by decide) :=
  (follows_iff writeOnly 0 (by decide) 12 1 sendDraws).mpr (masksCancel_one 12 _ sendDraws)

theorem writeOnly_becomes_send :
    ¬ ∀ {n : Nat} (buf : Vector Byte n) (ibBth : Nat) (fits : ibBth + 40 ≤ n) (rounds : Nat)
      (s : Nat → Draw),
      FollowsFinalOpcode buf (fuzzIbBth buf ibBth fits 12 rounds s).value ibBth fits := by
  intro claimed
  have hop : 0 < 40 := by decide
  have cell : 0 + 12 < 40 := by decide
  have follows := claimed writeOnly 0 (by decide) 2 sendDraws 12 (by decide) (by decide) cell
  rw [fuzzIbBth_headerCell, Ne, extension_kept_iff _ _ _ _ _ _ hop _ (by decide) cell] at follows
  have opcode : writeOnly[0] = 0x0A := Vector.getElem_set_self _
  rw [opcode] at follows
  exact absurd (follows (by decide)) (by rw [InsideSelected]; decide)

end RdmaFuzzing.FinalOpcode
