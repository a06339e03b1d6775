import RdmaFuzzing.FrameLayout
import RdmaFuzzing.MaskedChange
import RdmaFuzzing.RandomDraws
import Mathlib.Tactic.IntervalCases

/-! The mutators of `proxy-f.c`. `fuzz_ib_bth` draws a header byte and a mask,
XORs them, and then lets the opcode that is now in the buffer choose an
extension mutator. A pointer is an offset into the buffer it points into, and
the proofs that come with it are the room the callee relies on: 12 bytes of base
header and 28 of the longest extension header.

All that a round does is summed up by `roundXor`: the byte XORed into each cell,
as a function of the opcode and the draws alone. -/

namespace RdmaFuzzing.FuzzIbBth
open FrameLayout MaskedChange RandomDraws

def randMax : Nat := 2147483647

abbrev Draw : Type := Fin (randMax + 1)

instance (priority := 2000) : NeZero (randMax + 1) := ⟨Nat.succ_ne_zero randMax⟩

def rand : Draws Draw Draw := draw

/-- `(unsigned char) rand() % (0xFF + 1)`: the cast applies to the draw. -/
def randomByte (r : Draw) : Byte :=
  BitVec.ofNat 8 ((BitVec.ofNat 8 r.val).toNat % (0xFF + 1))

theorem randomByte_eq (r : Draw) : randomByte r = BitVec.ofNat 8 r.val := by
  have bound := (BitVec.ofNat 8 r.val).isLt
  rw [randomByte, Nat.mod_eq_of_lt (by omega), BitVec.ofNat_toNat, BitVec.setWidth_eq]

/-- The body shared by the two extension mutators, which differ in the length
of the header they pick a byte from. -/
def fuzzEth {n : Nat} (ethLen : Nat) (pos : 0 < ethLen) (buf : Vector Byte n) (eth : Nat)
    (fits : eth + ethLen ≤ n) : Draws Draw (Vector Byte n) := do
  let randHdrOffset ← rand
  let byte ← rand
  have inside : eth + randHdrOffset.val % ethLen < n := by
    have small := Nat.mod_lt randHdrOffset.val pos
    omega
  pure (xorAt buf ⟨eth + randHdrOffset.val % ethLen, inside⟩ (randomByte byte))

def atomicEthLen : Nat := 28

def rdmaEthLen : Nat := 16

def fuzzAtomicEth {n : Nat} (buf : Vector Byte n) (atomicEth : Nat)
    (fits : atomicEth + atomicEthLen ≤ n) : Draws Draw (Vector Byte n) :=
  fuzzEth atomicEthLen (by decide) buf atomicEth fits

def fuzzRdmaEth {n : Nat} (buf : Vector Byte n) (rdmaEth : Nat)
    (fits : rdmaEth + rdmaEthLen ≤ n) : Draws Draw (Vector Byte n) :=
  fuzzEth rdmaEthLen (by decide) buf rdmaEth fits

inductive BthHeaderOffset where
  | ibOpcode
  | ibSmpt
  | ibPkeyB1
  | ibPkeyB2
  | ibFrBrReserved
  | ibQpB1
  | ibQpB2
  | ibQpB3
  | ibAr
  | ibPsnB1
  | ibPsnB2
  | ibPsnB3
  deriving DecidableEq, Repr

namespace BthHeaderOffset

def index : BthHeaderOffset → Nat
  | ibOpcode => 0
  | ibSmpt => 1
  | ibPkeyB1 => 2
  | ibPkeyB2 => 3
  | ibFrBrReserved => 4
  | ibQpB1 => 5
  | ibQpB2 => 6
  | ibQpB3 => 7
  | ibAr => 8
  | ibPsnB1 => 9
  | ibPsnB2 => 10
  | ibPsnB3 => 11

def ofIndex : Nat → Option BthHeaderOffset
  | 0 => some ibOpcode
  | 1 => some ibSmpt
  | 2 => some ibPkeyB1
  | 3 => some ibPkeyB2
  | 4 => some ibFrBrReserved
  | 5 => some ibQpB1
  | 6 => some ibQpB2
  | 7 => some ibQpB3
  | 8 => some ibAr
  | 9 => some ibPsnB1
  | 10 => some ibPsnB2
  | 11 => some ibPsnB3
  | _ => none

theorem index_lt (h : BthHeaderOffset) : h.index < 12 := by
  cases h <;> decide

end BthHeaderOffset

def headerCell {n : Nat} (ibBth : Nat) (fits : ibBth + 40 ≤ n) (h : BthHeaderOffset) : Fin n :=
  ⟨ibBth + h.index, by have := h.index_lt; omega⟩

/-- The switch of `fuzz_ib_bth`; a value without a case leaves the header alone. -/
def switchHeader {n : Nat} (buf : Vector Byte n) (ibBth : Nat) (fits : ibBth + 40 ≤ n)
    (randIbHdrOffset : Nat) (byte : Byte) : Vector Byte n :=
  let cell := headerCell ibBth fits
  match BthHeaderOffset.ofIndex randIbHdrOffset with
  | some .ibOpcode => xorAt buf (cell .ibOpcode) byte
  | some .ibSmpt => xorAt buf (cell .ibSmpt) (byte &&& 0xF0)
  | some .ibPkeyB1 => xorAt buf (cell .ibPkeyB1) byte
  | some .ibPkeyB2 => xorAt buf (cell .ibPkeyB2) byte
  | some .ibFrBrReserved => xorAt buf (cell .ibFrBrReserved) byte
  | some .ibQpB1 => buf
  | some .ibQpB2 => buf
  | some .ibQpB3 => buf
  | some .ibAr => xorAt buf (cell .ibAr) byte
  | some .ibPsnB1 => xorAt buf (cell .ibPsnB1) byte
  | some .ibPsnB2 => xorAt buf (cell .ibPsnB2) byte
  | some .ibPsnB3 => xorAt buf (cell .ibPsnB3) byte
  | none => buf

abbrev SelectsAtomicEth (opcode : Byte) : Prop :=
  opcode &&& 0x1F = 0x13 ∨ opcode &&& 0x1F = 0x14

abbrev SelectsRdmaEth (opcode : Byte) : Prop :=
  opcode &&& 0x1F = 0x07 ∨ opcode &&& 0x1F = 0x0A ∨ opcode &&& 0x1F = 0x0B ∨
    opcode &&& 0x1F = 0x0C

/-- The second half of the loop body: the extension header behind the base
header is chosen by the opcode byte as it is now. -/
def fuzzExtension {n : Nat} (buf : Vector Byte n) (ibBth : Nat) (fits : ibBth + 40 ≤ n) :
    Draws Draw (Vector Byte n) :=
  let opcode := buf[(headerCell ibBth fits .ibOpcode).val]
  if SelectsAtomicEth opcode then
    fuzzAtomicEth buf (ibBth + BthHeaderOffset.ibPsnB3.index + 1) (by
      change ibBth + 11 + 1 + 28 ≤ n
      omega)
  else if SelectsRdmaEth opcode then
    fuzzRdmaEth buf (ibBth + BthHeaderOffset.ibPsnB3.index + 1) (by
      change ibBth + 11 + 1 + 16 ≤ n
      omega)
  else pure buf

def fuzzRound {n : Nat} (buf : Vector Byte n) (ibBth : Nat) (fits : ibBth + 40 ≤ n)
    (bthSize : Nat) : Draws Draw (Vector Byte n) := do
  let randIbHdrOffset ← rand
  let byte ← rand
  fuzzExtension (switchHeader buf ibBth fits (randIbHdrOffset.val % bthSize) (randomByte byte))
    ibBth fits

def fuzzIbBth {n : Nat} (buf : Vector Byte n) (ibBth : Nat) (fits : ibBth + 40 ≤ n)
    (bthSize rounds : Nat) : Draws Draw (Vector Byte n) :=
  iterate (fun buf => fuzzRound buf ibBth fits bthSize) rounds buf

/-- The mask that reaches header byte `i`: the transport header version and the
destination queue pair are spared. -/
def headerMask (i : Nat) (byte : Byte) : Byte :=
  if i = 1 then byte &&& 0xF0 else if i = 5 ∨ i = 6 ∨ i = 7 then 0 else byte

theorem switchHeader_eq {n : Nat} (buf : Vector Byte n) (ibBth : Nat) (fits : ibBth + 40 ≤ n)
    (i : Nat) (hi : i < 12) (byte : Byte) :
    switchHeader buf ibBth fits i byte =
      xorAt buf ⟨ibBth + i, by omega⟩ (headerMask i byte) := by
  match i, hi with
  | 5, _ | 6, _ | 7, _ => exact (xorAt_zero buf _).symm
  | 0, _ | 1, _ | 2, _ | 3, _ | 4, _ | 8, _ | 9, _ | 10, _ | 11, _ => rfl

def extensionLen (opcode : Byte) : Nat :=
  if SelectsAtomicEth opcode then atomicEthLen
  else if SelectsRdmaEth opcode then rdmaEthLen
  else 0

def extensionXor (opcode : Byte) (s : Nat → Draw) (k : Nat) : Byte :=
  if 0 < extensionLen opcode ∧ k = 12 + (s 0).val % extensionLen opcode then randomByte (s 1)
  else 0

def extensionCalls (opcode : Byte) : Nat := if 0 < extensionLen opcode then 2 else 0

theorem switchHeader_past {n : Nat} (buf : Vector Byte n) (ibBth : Nat) (fits : ibBth + 40 ≤ n)
    (i : Nat) (past : 12 ≤ i) (byte : Byte) : switchHeader buf ibBth fits i byte = buf := by
  obtain ⟨k, rfl⟩ := Nat.exists_eq_add_of_le' past
  rfl

def switchXor (i : Nat) (byte : Byte) (k : Nat) : Byte :=
  if k = i ∧ i < 12 then headerMask i byte else 0

theorem getElem_switchHeader {n : Nat} (buf : Vector Byte n) (ibBth : Nat)
    (fits : ibBth + 40 ≤ n) (i : Nat) (byte : Byte) (j : Nat) (hj : j < n) :
    (switchHeader buf ibBth fits i byte)[j] =
      buf[j] ^^^ (if ibBth ≤ j then switchXor i byte (j - ibBth) else 0) := by
  by_cases header : i < 12
  · rw [switchHeader_eq _ _ _ _ header, getElem_xorAt]
    congr 1
    by_cases at_cell : j = ibBth + i
    · rw [if_pos at_cell, if_pos (by omega), switchXor, if_pos (by omega)]
    · rw [if_neg at_cell]
      split_ifs with h
      · rw [switchXor, if_neg (by omega)]
      · rfl
  · rw [switchHeader_past _ _ _ _ (by omega)]
    simp [switchXor, header]

def opcodeLeft (bthSize : Nat) (opcode : Byte) (s : Nat → Draw) : Byte :=
  opcode ^^^ switchXor ((s 0).val % bthSize) (randomByte (s 1)) 0

theorem opcode_switchHeader {n : Nat} (buf : Vector Byte n) (ibBth : Nat)
    (fits : ibBth + 40 ≤ n) (bthSize : Nat) (s : Nat → Draw) (hop : ibBth < n) :
    (switchHeader buf ibBth fits ((s 0).val % bthSize) (randomByte (s 1)))[ibBth] =
      opcodeLeft bthSize buf[ibBth] s := by
  rw [getElem_switchHeader, if_pos (le_refl ibBth), Nat.sub_self, opcodeLeft]

def stepXor (bthSize : Nat) (opcode : Byte) (s : Nat → Draw) (k : Nat) : Byte :=
  switchXor ((s 0).val % bthSize) (randomByte (s 1)) k ^^^
    extensionXor (opcodeLeft bthSize opcode s) (after s 2) k

def stepCalls (bthSize : Nat) (opcode : Byte) (s : Nat → Draw) : Nat :=
  2 + extensionCalls (opcodeLeft bthSize opcode s)

/-- What a round XORs into header byte `k`: with the header size that `main` passes, every draw
selects a header byte. -/
def headerXor (s : Nat → Draw) (k : Nat) : Byte :=
  if k = (s 0).val % 12 then headerMask k (randomByte (s 1)) else 0

def nextOpcode (opcode : Byte) (s : Nat → Draw) : Byte := opcode ^^^ headerXor s 0

def roundXor (opcode : Byte) (s : Nat → Draw) (k : Nat) : Byte :=
  headerXor s k ^^^ extensionXor (nextOpcode opcode s) (after s 2) k

def roundCalls (opcode : Byte) (s : Nat → Draw) : Nat :=
  2 + extensionCalls (nextOpcode opcode s)

theorem fuzzEth_run {n : Nat} (ethLen : Nat) (pos : 0 < ethLen) (buf : Vector Byte n)
    (eth : Nat) (fits : eth + ethLen ≤ n) (s : Nat → Draw)
    (inside : eth + (s 0).val % ethLen < n) :
    fuzzEth ethLen pos buf eth fits s =
      ⟨xorAt buf ⟨eth + (s 0).val % ethLen, inside⟩ (randomByte (s 1)), 2⟩ := rfl

theorem fuzzEth_local {n : Nat} (ethLen : Nat) (pos : 0 < ethLen) (buf : Vector Byte n)
    (eth : Nat) (fits : eth + ethLen ≤ n) : Local (fuzzEth ethLen pos buf eth fits) :=
  local_bind local_draw fun _ => local_bind local_draw fun _ => local_pure _

theorem fuzzExtension_local {n : Nat} (buf : Vector Byte n) (ibBth : Nat)
    (fits : ibBth + 40 ≤ n) : Local (fuzzExtension buf ibBth fits) := by
  rw [fuzzExtension]
  split_ifs
  · exact fuzzEth_local _ _ _ _ _
  · exact fuzzEth_local _ _ _ _ _
  · exact local_pure _

theorem fuzzRound_local {n : Nat} (buf : Vector Byte n) (ibBth : Nat) (fits : ibBth + 40 ≤ n)
    (bthSize : Nat) : Local (fuzzRound buf ibBth fits bthSize) :=
  local_bind local_draw fun _ => local_bind local_draw fun _ => fuzzExtension_local _ _ _

theorem fuzzIbBth_local {n : Nat} (buf : Vector Byte n) (ibBth : Nat) (fits : ibBth + 40 ≤ n)
    (bthSize rounds : Nat) : Local (fuzzIbBth buf ibBth fits bthSize rounds) :=
  iterate_local (fun buf => fuzzRound_local buf ibBth fits bthSize) rounds buf

theorem getElem_fuzzEth {n : Nat} (ethLen : Nat) (pos : 0 < ethLen) (buf : Vector Byte n)
    (ibBth : Nat) (fits : ibBth + 12 + ethLen ≤ n) (s : Nat → Draw) (j : Nat) (hj : j < n) :
    (fuzzEth ethLen pos buf (ibBth + 12) fits s).value[j] =
      buf[j] ^^^ (if ibBth ≤ j then
        (if j - ibBth = 12 + (s 0).val % ethLen then randomByte (s 1) else 0) else 0) := by
  have small := Nat.mod_lt (s 0).val pos
  rw [fuzzEth_run _ _ _ _ _ _ (by omega), getElem_xorAt]
  congr 1
  by_cases past : ibBth ≤ j
  · have cell : j = ibBth + 12 + (s 0).val % ethLen ↔ j - ibBth = 12 + (s 0).val % ethLen := by
      omega
    simp only [cell, past, if_true]
  · rw [if_neg past, if_neg (by simp only; omega)]

theorem extensionLen_le (opcode : Byte) : extensionLen opcode ≤ 28 := by
  rw [extensionLen, atomicEthLen, rdmaEthLen]
  split_ifs <;> omega

theorem fuzzExtension_eq {n : Nat} (buf : Vector Byte n) (ibBth : Nat)
    (fits : ibBth + 40 ≤ n) :
    fuzzExtension buf ibBth fits =
      if pos : 0 < extensionLen buf[ibBth] then
        fuzzEth (extensionLen buf[ibBth]) pos buf (ibBth + 12) (by
          have := extensionLen_le buf[ibBth]
          omega)
      else pure buf := by
  have with_len (len : Nat) (hlen : extensionLen buf[ibBth] = len) (pos : 0 < len)
      (room : ibBth + 12 + len ≤ n) :
      fuzzEth len pos buf (ibBth + 12) room =
        if pos : 0 < extensionLen buf[ibBth] then
          fuzzEth (extensionLen buf[ibBth]) pos buf (ibBth + 12) (by omega)
        else pure buf := by
    subst hlen
    rw [dif_pos pos]
  by_cases atomic : SelectsAtomicEth buf[ibBth]
  · refine Eq.trans (if_pos atomic) (with_len atomicEthLen (if_pos atomic) (by decide) ?_)
    rw [atomicEthLen]
    omega
  · by_cases rdma : SelectsRdmaEth buf[ibBth]
    · refine Eq.trans ((if_neg atomic).trans (if_pos rdma))
        (with_len rdmaEthLen ((if_neg atomic).trans (if_pos rdma)) (by decide) ?_)
      rw [rdmaEthLen]
      omega
    · have len : extensionLen buf[ibBth] = 0 := (if_neg atomic).trans (if_neg rdma)
      rw [dif_neg (by omega)]
      exact (if_neg atomic).trans (if_neg rdma)

theorem fuzzExtension_getElem {n : Nat} (buf : Vector Byte n) (ibBth : Nat)
    (fits : ibBth + 40 ≤ n) (s : Nat → Draw) (j : Nat) (hj : j < n) :
    (fuzzExtension buf ibBth fits s).value[j] =
      buf[j] ^^^ (if ibBth ≤ j then extensionXor buf[ibBth] s (j - ibBth) else 0) := by
  rw [fuzzExtension_eq]
  by_cases pos : 0 < extensionLen buf[ibBth]
  · rw [dif_pos pos, getElem_fuzzEth]
    simp only [extensionXor, pos, true_and]
  · simp [pos, extensionXor]

theorem fuzzExtension_calls {n : Nat} (buf : Vector Byte n) (ibBth : Nat)
    (fits : ibBth + 40 ≤ n) (s : Nat → Draw) :
    (fuzzExtension buf ibBth fits s).calls = extensionCalls buf[ibBth] := by
  rw [fuzzExtension_eq, extensionCalls]
  split_ifs <;> rfl

theorem fuzzRound_run {n : Nat} (buf : Vector Byte n) (ibBth : Nat) (fits : ibBth + 40 ≤ n)
    (bthSize : Nat) (s : Nat → Draw) :
    let extended := fuzzExtension
      (switchHeader buf ibBth fits ((s 0).val % bthSize) (randomByte (s 1))) ibBth fits
      (after s 2)
    fuzzRound buf ibBth fits bthSize s = ⟨extended.value, 2 + extended.calls⟩ := by
  have two : after (after s 1) 1 = after s 2 := after_after s 1 1
  simp only [← two, Nat.add_assoc 1 1]
  rfl

theorem fuzzRound_cell {n : Nat} (buf : Vector Byte n) (ibBth : Nat)
    (fits : ibBth + 40 ≤ n) (bthSize : Nat) (s : Nat → Draw) (j : Nat) (hj : j < n) :
    (fuzzRound buf ibBth fits bthSize s).value[j] =
      buf[j] ^^^ (if ibBth ≤ j then stepXor bthSize buf[ibBth] s (j - ibBth) else 0) := by
  rw [fuzzRound_run, fuzzExtension_getElem, getElem_switchHeader, opcode_switchHeader]
  split_ifs
  · rw [BitVec.xor_assoc, stepXor]
  · simp

theorem fuzzRound_count {n : Nat} (buf : Vector Byte n) (ibBth : Nat)
    (fits : ibBth + 40 ≤ n) (bthSize : Nat) (s : Nat → Draw) :
    (fuzzRound buf ibBth fits bthSize s).calls = stepCalls bthSize buf[ibBth] s := by
  rw [fuzzRound_run, fuzzExtension_calls, opcode_switchHeader, stepCalls]

theorem switchXor_twelve (s : Nat → Draw) (k : Nat) :
    switchXor ((s 0).val % 12) (randomByte (s 1)) k = headerXor s k := by
  have small : (s 0).val % 12 < 12 := Nat.mod_lt _ (by decide)
  rw [switchXor, headerXor]
  by_cases at_cell : k = (s 0).val % 12
  · rw [if_pos ⟨at_cell, small⟩, if_pos at_cell, at_cell]
  · rw [if_neg (fun h => at_cell h.1), if_neg at_cell]

theorem opcodeLeft_twelve (opcode : Byte) (s : Nat → Draw) :
    opcodeLeft 12 opcode s = nextOpcode opcode s := by
  rw [opcodeLeft, switchXor_twelve, nextOpcode]

theorem fuzzRound_getElem {n : Nat} (buf : Vector Byte n) (ibBth : Nat)
    (fits : ibBth + 40 ≤ n) (s : Nat → Draw) (j : Nat) (hj : j < n) :
    (fuzzRound buf ibBth fits 12 s).value[j] =
      buf[j] ^^^ (if ibBth ≤ j then roundXor buf[ibBth] s (j - ibBth) else 0) := by
  simp only [fuzzRound_cell, stepXor, switchXor_twelve, opcodeLeft_twelve, roundXor]

theorem fuzzRound_calls {n : Nat} (buf : Vector Byte n) (ibBth : Nat)
    (fits : ibBth + 40 ≤ n) (s : Nat → Draw) :
    (fuzzRound buf ibBth fits 12 s).calls = roundCalls buf[ibBth] s := by
  rw [fuzzRound_count, stepCalls, opcodeLeft_twelve, roundCalls]

/-- Bits, counted from the base header, that no mutator ever changes: the
transport header version, the destination queue pair, and all that follows the
longest extension header. -/
def spared (k : Nat) : Byte :=
  if k = 1 then 0x0F else if k = 5 ∨ k = 6 ∨ k = 7 ∨ 40 ≤ k then 0xFF else 0

def sparedIn {n : Nat} (ibBth : Nat) (i : Fin n) : Byte :=
  if ibBth ≤ i.val then spared (i.val - ibBth) else 0xFF

theorem headerXor_past (s : Nat → Draw) (k : Nat) (past : 12 ≤ k) : headerXor s k = 0 := by
  have small : (s 0).val % 12 < 12 := Nat.mod_lt _ (by decide)
  rw [headerXor, if_neg (by omega)]

theorem extensionXor_outside (opcode : Byte) (s : Nat → Draw) (k : Nat)
    (outside : k < 12 ∨ 12 + extensionLen opcode ≤ k) : extensionXor opcode s k = 0 := by
  rw [extensionXor, if_neg]
  rintro ⟨pos, at_cell⟩
  have small := Nat.mod_lt (s 0).val pos
  omega

theorem headerXor_cell (s : Nat → Draw) :
    headerXor s ((s 0).val % 12) = headerMask ((s 0).val % 12) (randomByte (s 1)) :=
  if_pos rfl

theorem extensionXor_cell (opcode : Byte) (s : Nat → Draw) (pos : 0 < extensionLen opcode) :
    extensionXor opcode s (12 + (s 0).val % extensionLen opcode) = randomByte (s 1) :=
  if_pos ⟨pos, rfl⟩

/-- A round spares a set of cells exactly when each of its two XORs misses the
set or has an empty mask; the two cells differ, so they cannot cancel. -/
theorem roundXor_zero_on (Q : Nat → Prop) (opcode : Byte) (s : Nat → Draw) :
    (∀ k, Q k → roundXor opcode s k = 0) ↔
      (Q ((s 0).val % 12) → headerMask ((s 0).val % 12) (randomByte (s 1)) = 0) ∧
      (0 < extensionLen (nextOpcode opcode s) →
        Q (12 + (s 2).val % extensionLen (nextOpcode opcode s)) → randomByte (s 3) = 0) := by
  have small : (s 0).val % 12 < 12 := Nat.mod_lt _ (by decide)
  refine ⟨?_, ?_⟩
  · intro spares
    refine ⟨fun header => ?_, fun pos extension => ?_⟩
    · have cell := spares _ header
      rwa [roundXor, extensionXor_outside _ _ _ (Or.inl small), headerXor_cell,
        show (0 : Byte) = 0#8 from rfl, BitVec.xor_zero] at cell
    · have cell := spares _ extension
      rwa [roundXor, headerXor_past _ _ (by omega), ← after_apply s 2 0, extensionXor_cell _ _ pos,
        show (0 : Byte) = 0#8 from rfl, BitVec.zero_xor] at cell
  · rintro ⟨header, extension⟩ k hk
    have head_zero : headerXor s k = 0 := by
      unfold headerXor
      split_ifs with at_cell
      · subst at_cell
        exact header hk
      · rfl
    have ext_zero : extensionXor (nextOpcode opcode s) (after s 2) k = 0 := by
      unfold extensionXor
      split_ifs with at_cell
      · exact extension at_cell.1 (at_cell.2 ▸ hk)
      · rfl
    rw [roundXor, head_zero, ext_zero]
    rfl

theorem headerMask_spared (k : Nat) (byte : Byte) (header : k < 12) :
    headerMask k byte &&& spared k = 0 := by
  by_cases smpt : k = 1
  · subst smpt
    rw [headerMask, spared, if_pos rfl, if_pos rfl, BitVec.and_assoc,
      show (0xF0 : Byte) &&& 0x0F = 0#8 by decide]
    exact BitVec.and_zero
  · rw [headerMask, spared, if_neg smpt, if_neg smpt]
    by_cases qp : k = 5 ∨ k = 6 ∨ k = 7
    · rw [if_pos qp]
      exact BitVec.zero_and
    · rw [if_neg qp, if_neg (by omega)]
      exact BitVec.and_zero

theorem roundXor_spared (opcode : Byte) (s : Nat → Draw) (k : Nat) :
    roundXor opcode s k &&& spared k = 0 := by
  have len := extensionLen_le (nextOpcode opcode s)
  rw [roundXor]
  by_cases header : k < 12
  · rw [extensionXor_outside _ _ _ (Or.inl header), headerXor]
    split_ifs
    · simpa using headerMask_spared k (randomByte (s 1)) header
    · simp
  · rw [headerXor_past s k (by omega)]
    by_cases far : 40 ≤ k
    · rw [extensionXor_outside _ _ _ (Or.inr (by omega))]
      simp
    · rw [spared, if_neg (by omega), if_neg (by omega)]
      simp

theorem fuzzRound_agree {n : Nat} (buf : Vector Byte n) (ibBth : Nat)
    (fits : ibBth + 40 ≤ n) (s : Nat → Draw) :
    AgreeOn (sparedIn ibBth) buf (fuzzRound buf ibBth fits 12 s).value := by
  intro i
  rw [fuzzRound_getElem, xor_and, sparedIn]
  split_ifs
  · simp [roundXor_spared]
  · simp

theorem fuzzIbBth_agree {n : Nat} (buf : Vector Byte n) (ibBth : Nat) (fits : ibBth + 40 ≤ n)
    (rounds : Nat) (s : Nat → Draw) :
    AgreeOn (sparedIn ibBth) buf (fuzzIbBth buf ibBth fits 12 rounds s).value :=
  iterate_invariant (AgreeOn (sparedIn ibBth) buf)
    (fun mid s h => h.trans (fuzzRound_agree mid ibBth fits s)) rounds buf s (AgreeOn.refl _ _)

theorem fuzzIbBth_one {n : Nat} (buf : Vector Byte n) (ibBth : Nat) (fits : ibBth + 40 ≤ n)
    (bthSize : Nat) (s : Nat → Draw) :
    fuzzIbBth buf ibBth fits bthSize 1 s = fuzzRound buf ibBth fits bthSize s := rfl

end RdmaFuzzing.FuzzIbBth
