import Mathlib.Data.List.Forall2
import RdmaFuzzing.ProxyFuzzer

/-! All that `proxy-f.c` can make of the frames it reads. A frame of RDMA traffic
may change in one byte of the base header, and in one byte of the extension header
that the opcode it leaves with selects; every such change can happen, to each frame
independently of all others, so the possible outputs of a run are known exactly. -/

namespace RdmaFuzzing.EmittedFrames
open FrameLayout CheckBufferType FuzzIbBth RandomDraws ProxyFuzzer

/-- What a byte of the frame read has to be XORed with. -/
def difference (frame : Frame) (written : List Byte) (i : Nat) : Byte :=
  frame.bytes.getD i 0 ^^^ written.getD i 0

/-- The bytes of the base header without the destination queue pair. -/
def InHeader (i : Nat) : Prop := 46 ≤ i ∧ i < 58 ∧ ¬ (51 ≤ i ∧ i ≤ 53)

/-- The bytes of the extension header that the opcode written selects. -/
def InExtension (written : List Byte) (i : Nat) : Prop :=
  58 ≤ i ∧ i < 58 + extensionLen (written.getD 46 0)

/-- The proxy fuzzer may write these bytes for this frame. -/
structure Emits (frame : Frame) (written : List Byte) : Prop where
  length : written.length = frame.nread
  other : frame.kind ≠ .ibTraffic → written = frame.bytes
  place : ∀ i, difference frame written i ≠ 0 → InHeader i ∨ InExtension written i
  oneHeader : ∀ i j, i < 58 → j < 58 → difference frame written i ≠ 0 →
    difference frame written j ≠ 0 → i = j
  oneExtension : ∀ i j, 58 ≤ i → 58 ≤ j → difference frame written i ≠ 0 →
    difference frame written j ≠ 0 → i = j
  version : difference frame written 47 &&& 0x0F = 0

theorem difference_self (frame : Frame) (i : Nat) : difference frame frame.bytes i = 0 :=
  BitVec.xor_self

theorem emits_self (frame : Frame) : Emits frame frame.bytes where
  length := rfl
  other _ := rfl
  place i changed := absurd (difference_self frame i) changed
  oneHeader i _ _ _ changed := absurd (difference_self frame i) changed
  oneExtension i _ _ _ changed := absurd (difference_self frame i) changed
  version := by
    rw [difference_self]
    rfl

theorem difference_written (it : Iteration) (i : Nat) (inside : i < it.frame.nread) :
    difference it.frame it.written i =
      turnXor (it.frame.bytes[46]?.getD 0) it.frame it.draws i := by
  have hi : i < it.frame.bytes.length := inside
  have hw : i < it.written.length := by
    rw [it.length_written]
    exact inside
  rw [difference, ← List.getElem_eq_getD (h := hi), ← List.getElem_eq_getD (h := hw),
    it.getElem_written i hw hi, ← BitVec.xor_assoc, BitVec.xor_self]
  exact BitVec.zero_xor

theorem difference_past {frame : Frame} {written : List Byte}
    (length : written.length = frame.nread) (i : Nat) (past : frame.nread ≤ i) :
    difference frame written i = 0 := by
  rw [difference, List.getD_eq_getElem?_getD, List.getD_eq_getElem?_getD,
    List.getElem?_eq_none past, List.getElem?_eq_none (length.symm ▸ past)]
  rfl

theorem cell_of_roundXor {opcode : Byte} {s : Nat → Draw} {k : Nat}
    (changed : roundXor opcode s k ≠ 0) :
    k < 12 ∧ k = (s 0).val % 12 ∧ ¬ (5 ≤ k ∧ k ≤ 7) ∨
      12 ≤ k ∧ k < 12 + extensionLen (nextOpcode opcode s) ∧
        k = 12 + (s 2).val % extensionLen (nextOpcode opcode s) := by
  by_cases header : k < 12
  · left
    rw [roundXor, extensionXor_outside _ _ _ (Or.inl header)] at changed
    have here : headerXor s k ≠ 0 := fun zero => changed (by rw [zero]; rfl)
    rw [headerXor] at here
    split_ifs at here with at_cell
    · refine ⟨header, at_cell, fun queuePair => here ?_⟩
      rw [headerMask, if_neg (by omega), if_pos (by omega)]
    · exact absurd rfl here
  · right
    rw [roundXor, headerXor_past s k (by omega)] at changed
    have here : extensionXor (nextOpcode opcode s) (after s 2) k ≠ 0 :=
      fun zero => changed (by rw [zero]; rfl)
    rw [extensionXor] at here
    split_ifs at here with at_cell
    · have small := Nat.mod_lt (after s 2 0).val at_cell.1
      exact ⟨by omega, by omega, at_cell.2⟩
    · exact absurd rfl here

theorem opcode_written (it : Iteration) (ib : it.frame.kind = .ibTraffic)
    (long : 46 < it.frame.nread) :
    it.written.getD 46 0 = nextOpcode (it.frame.bytes[46]?.getD 0) it.draws := by
  have value := difference_written it 46 long
  rw [turnXor, if_pos ⟨ib, le_refl _⟩, Nat.sub_self, roundXor,
    extensionXor_outside _ _ _ (Or.inl (by decide))] at value
  have back : it.written.getD 46 0 =
      it.frame.bytes.getD 46 0 ^^^ difference it.frame it.written 46 := by
    rw [difference, ← BitVec.xor_assoc, BitVec.xor_self]
    exact BitVec.zero_xor.symm
  rw [back, value, nextOpcode, List.getD_eq_getElem?_getD]
  congr 1
  exact BitVec.xor_zero

theorem changed_cell (it : Iteration) (ib : it.frame.kind = .ibTraffic) (i : Nat)
    (changed : difference it.frame it.written i ≠ 0) :
    i < 58 ∧ InHeader i ∧ i = 46 + (it.draws 0).val % 12 ∨
      InExtension it.written i ∧
        i = 58 + (it.draws 2).val % extensionLen (it.written.getD 46 0) := by
  have inside : i < it.frame.nread := by
    by_contra past
    exact changed (difference_past it.length_written i (by omega))
  rw [difference_written it i inside, turnXor] at changed
  split_ifs at changed with cell
  · have opcode := opcode_written it ib (by omega)
    rcases cell_of_roundXor changed with ⟨header, here, spared⟩ | ⟨past, extension, here⟩
    · exact Or.inl ⟨by omega, ⟨by omega, by omega, by omega⟩, by omega⟩
    · rw [← opcode] at extension here
      exact Or.inr ⟨⟨by omega, by omega⟩, by omega⟩
  · exact absurd rfl changed

theorem turn_emits (it : Iteration) : Emits it.frame it.written := by
  by_cases ib : it.frame.kind = .ibTraffic
  · refine ⟨it.length_written, fun other => absurd ib other, ?_, ?_, ?_, ?_⟩
    · intro i changed
      rcases changed_cell it ib i changed with ⟨_, header, _⟩ | ⟨extension, _⟩
      · exact Or.inl header
      · exact Or.inr extension
    · intro i j hi hj changed changed'
      rcases changed_cell it ib i changed with ⟨_, _, here⟩ | ⟨⟨past, _⟩, _⟩
      · rcases changed_cell it ib j changed' with ⟨_, _, here'⟩ | ⟨⟨past, _⟩, _⟩
        · omega
        · omega
      · omega
    · intro i j hi hj changed changed'
      rcases changed_cell it ib i changed with ⟨past, _, _⟩ | ⟨_, here⟩
      · omega
      · rcases changed_cell it ib j changed' with ⟨past, _, _⟩ | ⟨_, here'⟩
        · omega
        · omega
    · by_cases inside : 47 < it.frame.nread
      · rw [difference_written it 47 inside, turnXor, if_pos ⟨ib, by decide⟩]
        exact roundXor_spared _ _ 1
      · rw [difference_past it.length_written 47 (by omega)]
        rfl
  · rw [it.written_other ib]
    exact emits_self it.frame

theorem small_draw {n : Nat} (small : n < 256) : n < randMax + 1 := by
  rw [randMax]
  omega

def drawOf (n : Nat) (small : n < 256) : Draw := ⟨n, small_draw small⟩

def picks (header : Fin 12) (mask : Byte) (extension : Fin 28) (mask' : Byte) : Nat → Draw :=
  replay 0 [drawOf header.val (Nat.lt_trans header.isLt (by decide)), drawOf mask.toNat mask.isLt,
    drawOf extension.val (Nat.lt_trans extension.isLt (by decide)), drawOf mask'.toNat mask'.isLt]

theorem picks_header (header : Fin 12) (mask : Byte) (extension : Fin 28) (mask' : Byte) (k : Nat) :
    headerXor (picks header mask extension mask') k =
      if k = header.val then headerMask k mask else 0 := by
  have value : randomByte (picks header mask extension mask' 1) = mask := by
    rw [randomByte_eq]
    change BitVec.ofNat 8 mask.toNat = mask
    rw [BitVec.ofNat_toNat, BitVec.setWidth_eq]
  have index : (picks header mask extension mask' 0).val % 12 = header.val :=
    Nat.mod_eq_of_lt header.isLt
  rw [headerXor, value, index]

theorem picks_extension (opcode : Byte) (header : Fin 12) (mask : Byte) (extension : Fin 28)
    (mask' : Byte) (fits : mask' ≠ 0 → extension.val < extensionLen opcode) (k : Nat) :
    extensionXor opcode (after (picks header mask extension mask') 2) k =
      if k = 12 + extension.val then mask' else 0 := by
  have value : randomByte (picks header mask extension mask' 3) = mask' := by
    rw [randomByte_eq]
    change BitVec.ofNat 8 mask'.toNat = mask'
    rw [BitVec.ofNat_toNat, BitVec.setWidth_eq]
  rw [extensionXor, after_apply, after_apply, value]
  by_cases empty : mask' = 0
  · rw [empty]
    split_ifs <;> rfl
  · have index : (picks header mask extension mask' (2 + 0)).val % extensionLen opcode =
        extension.val := Nat.mod_eq_of_lt (fits empty)
    have pos : 0 < extensionLen opcode := Nat.lt_of_le_of_lt (Nat.zero_le _) (fits empty)
    rw [index]
    simp only [pos, true_and]

theorem exists_only (changed : Nat → Prop) {n : Nat} (pos : 0 < n)
    (one : ∀ i j, i < n → j < n → changed i → changed j → i = j) :
    ∃ cell : Fin n, ∀ i < n, changed i → i = cell.val := by
  by_cases some_cell : ∃ i < n, changed i
  · obtain ⟨i, hi, here⟩ := some_cell
    exact ⟨⟨i, hi⟩, fun j hj there => one j i hj hi there here⟩
  · exact ⟨⟨0, pos⟩, fun i hi here => absurd ⟨i, hi, here⟩ some_cell⟩

theorem high_nibble : ∀ mask : Byte, mask &&& 0x0F = 0 → mask &&& 0xF0 = mask := by decide

theorem headerMask_keeps {k : Nat} {mask : Byte} (version : k = 1 → mask &&& 0x0F = 0)
    (queuePair : 5 ≤ k ∧ k ≤ 7 → mask = 0) : headerMask k mask = mask := by
  rw [headerMask]
  split_ifs with smpt qp
  · exact high_nibble mask (version smpt)
  · exact (queuePair (by omega)).symm
  · rfl

structure Cells (frame : Frame) (written : List Byte) (h : Fin 12) (e : Fin 28) : Prop where
  header : ∀ k < 12, difference frame written (46 + k) ≠ 0 → k = h.val
  extension : ∀ k < 28, difference frame written (58 + k) ≠ 0 → k = e.val

theorem exists_cells {frame : Frame} {written : List Byte} (emits : Emits frame written) :
    ∃ h e, Cells frame written h e := by
  obtain ⟨h, header⟩ := exists_only (fun k => difference frame written (46 + k) ≠ 0)
    (show 0 < 12 by decide) fun i j hi hj here there => by
      have same := emits.oneHeader (46 + i) (46 + j) (by omega) (by omega) here there
      omega
  obtain ⟨e, extension⟩ := exists_only (fun k => difference frame written (58 + k) ≠ 0)
    (show 0 < 28 by decide) fun i j hi hj here there => by
      have same := emits.oneExtension (58 + i) (58 + j) (by omega) (by omega) here there
      omega
  exact ⟨h, e, header, extension⟩

def picked (frame : Frame) (written : List Byte) (h : Fin 12) (e : Fin 28) : Nat → Draw :=
  picks h (difference frame written (46 + h.val)) e (difference frame written (58 + e.val))

theorem unchanged {frame : Frame} {written : List Byte} (emits : Emits frame written) (i : Nat)
    (kept : i < 46 ∨ 51 ≤ i ∧ i ≤ 53 ∨ 86 ≤ i) : difference frame written i = 0 := by
  by_contra changed
  have len := extensionLen_le (written.getD 46 0)
  rcases emits.place i changed with ⟨_, _, _⟩ | ⟨_, _⟩
  · omega
  · omega

theorem picked_masked {frame : Frame} {written : List Byte} (emits : Emits frame written)
    (h : Fin 12) : headerMask h.val (difference frame written (46 + h.val)) =
      difference frame written (46 + h.val) := by
  refine headerMask_keeps ?_ ?_
  · intro one
    rw [one]
    exact emits.version
  · intro queuePair
    exact unchanged emits _ (by omega)

theorem picked_header {frame : Frame} {written : List Byte} (emits : Emits frame written)
    {h : Fin 12} {e : Fin 28} (cells : Cells frame written h e) {k : Nat} (base : k < 12) :
    headerXor (picked frame written h e) k = difference frame written (46 + k) := by
  rw [picked, picks_header]
  split_ifs with here
  · rw [here, picked_masked emits h]
  · by_contra changed
    exact here (cells.header k base (Ne.symm changed))

theorem picked_opcode {frame : Frame} {written : List Byte} (emits : Emits frame written)
    {h : Fin 12} {e : Fin 28} (cells : Cells frame written h e) :
    nextOpcode (frame.bytes[46]?.getD 0) (picked frame written h e) = written.getD 46 0 := by
  rw [nextOpcode, picked_header emits cells (by decide), ← List.getD_eq_getElem?_getD]
  change _ ^^^ difference frame written 46 = _
  rw [difference, ← BitVec.xor_assoc, BitVec.xor_self]
  exact BitVec.zero_xor

theorem picked_extension {frame : Frame} {written : List Byte} (emits : Emits frame written)
    {h : Fin 12} {e : Fin 28} (cells : Cells frame written h e) (k : Nat) (past : 12 ≤ k) :
    extensionXor (written.getD 46 0) (after (picked frame written h e) 2) k =
      difference frame written (46 + k) := by
  have fits : difference frame written (58 + e.val) ≠ 0 →
      e.val < extensionLen (written.getD 46 0) := by
    intro changed
    rcases emits.place _ changed with header | extension
    · have bound := header.2.1
      omega
    · have bound := extension.2
      omega
  rw [picked, picks_extension _ h _ e _ fits]
  split_ifs with here
  · rw [here, ← Nat.add_assoc]
  · by_contra changed
    have len := extensionLen_le (written.getD 46 0)
    have place := (emits.place (46 + k) (Ne.symm changed)).resolve_left fun header => by
      have bound := header.2.1
      omega
    have bound := place.2
    have from_base : 46 + k = 58 + (k - 12) := by omega
    have at_e := cells.extension (k - 12) (by omega) (from_base ▸ Ne.symm changed)
    omega

theorem picked_turnXor {frame : Frame} {written : List Byte} (emits : Emits frame written)
    (ib : frame.kind = .ibTraffic) {h : Fin 12} {e : Fin 28} (cells : Cells frame written h e)
    (i : Nat) :
    turnXor (frame.bytes[46]?.getD 0) frame (picked frame written h e) i =
      difference frame written i := by
  by_cases past : 46 ≤ i
  · obtain ⟨k, rfl⟩ := Nat.exists_eq_add_of_le past
    rw [turnXor, if_pos ⟨ib, past⟩, Nat.add_sub_cancel_left, roundXor,
      picked_opcode emits cells]
    by_cases base : k < 12
    · rw [extensionXor_outside _ _ _ (Or.inl base), picked_header emits cells base]
      exact BitVec.xor_zero
    · rw [headerXor_past _ _ (by omega), picked_extension emits cells k (by omega)]
      exact BitVec.zero_xor
  · rw [turnXor, if_neg fun cell => past cell.2, unchanged emits i (by omega)]

theorem written_of_turnXor {buf : EthBuffer} {frame : Frame} {written : List Byte}
    {s : Nat → Draw} (length : written.length = frame.nread)
    (same : ∀ i, turnXor (frame.bytes[46]?.getD 0) frame s i = difference frame written i) :
    (Iteration.mk buf frame s).written = written := by
  let it : Iteration := ⟨buf, frame, s⟩
  apply List.ext_getElem (it.length_written.trans length.symm)
  intro i hw hi
  have inside : i < frame.bytes.length := by
    rw [Frame.nread] at length
    omega
  have change : difference frame written i = frame.bytes[i] ^^^ written[i] := by
    rw [difference, ← List.getElem_eq_getD (h := inside), ← List.getElem_eq_getD (h := hi)]
  calc it.written[i]
    _ = frame.bytes[i] ^^^ turnXor (frame.bytes[46]?.getD 0) frame s i :=
      it.getElem_written i hw inside
    _ = frame.bytes[i] ^^^ (frame.bytes[i] ^^^ written[i]) := by rw [same, change]
    _ = written[i] := by
      rw [← BitVec.xor_assoc, BitVec.xor_self]
      exact BitVec.zero_xor

theorem can_emit (buf : EthBuffer) (frame : Frame) (written : List Byte)
    (emits : Emits frame written) :
    ∃ s, (Iteration.mk buf frame s).written = written := by
  by_cases ib : frame.kind = .ibTraffic
  · obtain ⟨h, e, cells⟩ := exists_cells emits
    exact ⟨picked frame written h e,
      written_of_turnXor emits.length (picked_turnXor emits ib cells)⟩
  · exact ⟨fun _ => 0, (Iteration.written_other ⟨buf, frame, fun _ => 0⟩ ib).trans
      (emits.other ib).symm⟩

theorem clientLoop_emits (buf : EthBuffer) (frames : List Frame) (s : Nat → Draw) :
    List.Forall₂ Emits frames ((clientLoop buf frames s).map Iteration.written) := by
  rw [List.forall₂_map_right_iff]
  exact clientLoop_forall₂ turn_emits buf frames s

theorem exists_clientLoop {frames : List Frame} {outputs : List (List Byte)}
    (emits : List.Forall₂ Emits frames outputs) (buf : EthBuffer) :
    ∃ s, (clientLoop buf frames s).map Iteration.written = outputs := by
  induction emits generalizing buf with
  | nil => exact ⟨fun _ => 0, rfl⟩
  | @cons frame written frames outputs first _ ih =>
    obtain ⟨s, writes⟩ := can_emit buf frame written first
    obtain ⟨t, later⟩ := ih (Iteration.mk buf frame s).left
    let calls := (Iteration.mk buf frame s).calls
    -- The turn takes its draws and leaves the rest of the stream to the others.
    have same : clientTurn buf frame (splice s calls t) = clientTurn buf frame s :=
      clientTurn_local buf frame s _ fun i hi => (if_pos hi).symm
    refine ⟨splice s calls t, ?_⟩
    have head : (Iteration.mk buf frame (splice s calls t)).turn =
        (Iteration.mk buf frame s).turn := same
    rw [clientLoop, List.map_cons]
    simp only [Iteration.written, Iteration.left, Iteration.calls, head]
    refine congrArg₂ List.cons writes ?_
    have rest : after (splice s calls t) calls = t := after_splice s calls t
    exact (congrArg (fun u => (clientLoop _ frames u).map Iteration.written) rest).trans later

/-- The possible outputs of a run: those that change each frame as a turn may, and
all of them, the changes of one frame not depending on those of another. -/
theorem emitted_iff (frames : List Frame) (outputs : List (List Byte)) :
    (∃ draws, (main frames [] draws).toServer.map Iteration.written = outputs) ↔
      List.Forall₂ Emits frames outputs := by
  refine ⟨?_, ?_⟩
  · rintro ⟨draws, rfl⟩
    exact clientLoop_emits zeroBuffer frames draws
  · intro emits
    exact exists_clientLoop emits zeroBuffer

end RdmaFuzzing.EmittedFrames
