import RdmaFuzzing.MutationOrder
import RdmaFuzzing.XorSpan

/-! What the naive fuzzer can send. Its mutators XOR bursts of four ones, shifted
by at most three, and whole bytes of ones, so a byte that is sent differs from
the original by something in their span. All of the span is reached before the
packet is copied afresh: one burst of each kind, then the whole byte. -/

namespace RdmaFuzzing.NaiveReach
open FrameLayout MaskedChange MutationOrder NaiveFuzzer PacketSerial RandomDraws XorSpan

def bursts : List Byte := [0x0F, 0x1E, 0x3C, 0x78, 0xFF]

def mutablePositions : List Nat := [0, 2, 3, 4, 8, 9, 10, 11]

def Within (data : IBPacket) (bytes : Vector Byte packetLen) : Prop :=
  ∀ i (hi : i < packetLen), Span bursts (bytes[i] ^^^ (packetBytes data)[i])

theorem within_apply {data : IBPacket} {bytes : Vector Byte packetLen}
    (within : Within data bytes) (c : Call packetLen) (inside : Span bursts c.mask) :
    Within data (c.apply bytes) := by
  intro i hi
  rw [Call.apply_eq, getElem_xorAt, BitVec.xor_comm bytes[i], BitVec.xor_assoc]
  refine span_xor ?_ (within i hi)
  split_ifs
  · exact inside
  · exact span_zero bursts

theorem span_burst (start : Fin 4) :
    BitVec.ofNat 8 (Call.burst 4 <<< (BitVec.ofNat 8 start.val).toNat) ∈ bursts := by
  revert start
  decide

theorem keeps_within (data : IBPacket) : Keeps data (Within data) where
  packet := by
    intro i hi
    rw [BitVec.xor_self]
    exact span_zero bursts
  bits bytes pos start within := by
    refine within_apply within (.flipBits ⟨pos.val, header_inside pos⟩ 4 _) ?_
    rw [Call.mask]
    split_ifs
    · exact span_zero bursts
    · exact span_mem (span_burst start)
  bytewise bytes pos within := by
    refine within_apply within (.flipBytewise ⟨pos.val, header_inside pos⟩) ?_
    rw [Call.mask]
    split_ifs
    · exact span_zero bursts
    · exact span_mem (by decide)

theorem parity_of_within {data : IBPacket} {bytes : Vector Byte packetLen}
    (within : Within data bytes) (i : Nat) (hi : i < packetLen) :
    parity bytes[i] = parity (packetBytes data)[i] := by
  have even := (within i hi).even (by decide)
  rw [parity_xor] at even
  simpa using even

def Next (st st' : State) : Prop := Can (turn st) st'

theorem intn_local (n : Nat) (pos : 0 < n) : Local (intn n pos) :=
  local_bind local_draw fun _ => local_pure _

theorem turn_local (st : State) : Local (turn st) := by
  unfold turn
  cases st.stage with
  | copy => exact local_pure _
  | bits i =>
    by_cases inner : i < 25
    · simp only [if_pos inner]
      exact local_bind (intn_local _ _) fun _ => local_bind (intn_local _ _) fun _ => local_pure _
    · simp only [if_neg inner]
      exact local_pure _
  | bytewise i =>
    by_cases inner : i < 10
    · simp only [if_pos inner]
      exact local_bind (intn_local _ _) fun _ => local_pure _
    · simp only [if_neg inner]
      exact local_pure _

theorem next_bits (packet cp : Vector Byte packetLen) (sent : List (List Byte)) {i : Nat}
    (inner : i < 25) (pos : Fin 12) (start : Fin 4) :
    Next ⟨packet, cp, .bits i, sent⟩
      ⟨packet, flipBits cp ⟨pos.val, header_inside pos⟩ 4 (BitVec.ofNat 8 start.val),
        .bits (i + 1), sent ++ [cp.toList]⟩ := by
  refine ⟨replay 0 [pos.val, start.val], ?_⟩
  have drawn : pos.val % 12 = pos.val := Nat.mod_eq_of_lt pos.isLt
  have shifted : start.val % 4 = start.val := Nat.mod_eq_of_lt start.isLt
  simp only [turn, if_pos inner, bind_value, pure_run]
  change State.mk packet (flipBits cp ⟨pos.val % 12, _⟩ 4 (BitVec.ofNat 8 (start.val % 4))) _ _ = _
  simp only [drawn, shifted]

theorem next_bytewise (packet cp : Vector Byte packetLen) (sent : List (List Byte)) {i : Nat}
    (inner : i < 10) (pos : Fin 12) :
    Next ⟨packet, cp, .bytewise i, sent⟩
      ⟨packet, flipBytewise cp ⟨pos.val, header_inside pos⟩, .bytewise (i + 1),
        sent ++ [cp.toList]⟩ := by
  refine ⟨replay 0 [pos.val], ?_⟩
  have drawn : pos.val % 12 = pos.val := Nat.mod_eq_of_lt pos.isLt
  simp only [turn, if_pos inner, bind_value, pure_run]
  change State.mk packet (flipBytewise cp ⟨pos.val % 12, _⟩) _ _ = _
  simp only [drawn]

theorem version_inside : 1 < 12 := by decide

def picked (change : Bool) (p : Fin 12) : Fin 12 := if change then p else ⟨1, version_inside⟩

def burstFrom (start : Fin 4) : Byte :=
  BitVec.ofNat 8 (Call.burst 4 <<< (BitVec.ofNat 8 start.val).toNat)

def picksMask : List (Bool × Fin 4) → Byte
  | [] => 0
  | (change, start) :: rest => (if change then burstFrom start else 0) ^^^ picksMask rest

theorem apply_picked (cp : Vector Byte packetLen) (p : Fin 12) (free : ¬ Call.Skipped p.val)
    (change : Bool) (inside : p.val < packetLen) (c : Call packetLen) (ones : Byte)
    (at_picked : c.pos.val = (picked change p).val)
    (mask : c.mask = if Call.Skipped c.pos.val then 0 else ones) :
    (c.apply cp)[p.val] = cp[p.val] ^^^ (if change then ones else 0) := by
  rw [Call.apply_eq, getElem_xorAt, mask, at_picked]
  congr 1
  cases change with
  | true => exact (if_pos rfl).trans (if_neg free)
  | false =>
    have away : p.val ≠ 1 := fun one => free (Or.inl one)
    exact if_neg away

theorem flipBits_picked (cp : Vector Byte packetLen) (p : Fin 12) (free : ¬ Call.Skipped p.val)
    (change : Bool) (start : Fin 4) (inside : p.val < packetLen) :
    (flipBits cp ⟨(picked change p).val, header_inside _⟩ 4 (BitVec.ofNat 8 start.val))[p.val] =
      cp[p.val] ^^^ (if change then burstFrom start else 0) :=
  apply_picked cp p free change inside (.flipBits _ 4 (BitVec.ofNat 8 start.val)) _ rfl rfl

theorem flipBytewise_picked (cp : Vector Byte packetLen) (p : Fin 12)
    (free : ¬ Call.Skipped p.val) (change : Bool) (inside : p.val < packetLen) :
    (flipBytewise cp ⟨(picked change p).val, header_inside _⟩)[p.val] =
      cp[p.val] ^^^ (if change then 0xFF else 0) :=
  apply_picked cp p free change inside (.flipBytewise _) _ rfl rfl

theorem leads_picks (packet : Vector Byte packetLen) (p : Fin 12) (free : ¬ Call.Skipped p.val)
    (inside : p.val < packetLen) (picks : List (Bool × Fin 4)) (i : Nat)
    (room : i + picks.length ≤ 25) (cp : Vector Byte packetLen) (sent : List (List Byte)) :
    ∃ cp' sent', Relation.ReflTransGen Next ⟨packet, cp, .bits i, sent⟩
        ⟨packet, cp', .bits (i + picks.length), sent'⟩ ∧
      cp'[p.val] = cp[p.val] ^^^ picksMask picks := by
  induction picks generalizing i cp sent with
  | nil => exact ⟨cp, sent, .refl, BitVec.xor_zero.symm⟩
  | cons pick rest ih =>
    obtain ⟨change, start⟩ := pick
    rw [List.length_cons] at room ⊢
    have first := next_bits packet cp sent (show i < 25 by omega) (picked change p) start
    obtain ⟨cp', sent', leads, cell⟩ := ih (i + 1) (by omega) _ _
    refine ⟨cp', sent', .head first (by rwa [Nat.add_right_comm] at leads), ?_⟩
    rw [cell, flipBits_picked cp p free change start inside, BitVec.xor_assoc]
    rfl

/-- The draws of the inner loop: one turn for each burst, and then idle ones. -/
def schedule (coeff : Nat → Bool) : List (Bool × Fin 4) :=
  [(coeff 0, 0), (coeff 1, 1), (coeff 2, 2), (coeff 3, 3)] ++ List.replicate 21 (false, 0)

theorem schedule_mask (coeff : Nat → Bool) :
    picksMask (schedule coeff) ^^^ (if coeff 4 then 0xFF else 0) = combination bursts coeff := by
  have all : ∀ a b c d e : Bool,
      picksMask ([(a, 0), (b, 1), (c, 2), (d, 3)] ++ List.replicate 21 (false, 0)) ^^^
          (if e then 0xFF else 0) =
        (if a then 0x0F else 0) ^^^ ((if b then 0x1E else 0) ^^^ ((if c then 0x3C else 0) ^^^
          ((if d then 0x78 else 0) ^^^ ((if e then 0xFF else 0) ^^^ 0)))) := by
    decide
  exact all _ _ _ _ _

theorem combination_sent (data : IBPacket) (p : Fin 12) (free : ¬ Call.Skipped p.val)
    (inside : p.val < packetLen) (coeff : Nat → Bool) :
    ∃ n draws, ∃ bytes : Vector Byte packetLen, bytes.toList ∈ (main data n draws).value.sent ∧
      bytes[p.val] = (packetBytes data)[p.val] ^^^ combination bursts coeff := by
  have copied : Next (start data)
      ⟨packetBytes data, packetBytes data, .bits 0, [binaryWrite data]⟩ := ⟨fun _ => 0, rfl⟩
  obtain ⟨cp, sent, picks, cell⟩ := leads_picks (packetBytes data) p free inside
    (schedule coeff) 0 (Nat.le_refl 25) (packetBytes data) [binaryWrite data]
  have turned : Next ⟨packetBytes data, cp, .bits 25, sent⟩
      ⟨packetBytes data, cp, .bytewise 0, sent⟩ := ⟨fun _ => 0, rfl⟩
  have flipped :=
    next_bytewise (packetBytes data) cp sent (show 0 < 10 by decide) (picked (coeff 4) p)
  have written := next_bytewise (packetBytes data)
    (flipBytewise cp ⟨(picked (coeff 4) p).val, header_inside _⟩) (sent ++ [cp.toList])
    (show 1 < 10 by decide) 1
  obtain ⟨n, draws, ran⟩ := can_iterate turn_local
    ((((picks.head copied).tail turned).tail flipped).tail written)
  refine ⟨n, draws, flipBytewise cp ⟨(picked (coeff 4) p).val, header_inside _⟩, ?_, ?_⟩
  · rw [main, ran]
    exact List.mem_append_right _ (List.mem_singleton_self _)
  · rw [flipBytewise_picked cp p free (coeff 4) inside, cell, BitVec.xor_assoc, schedule_mask]

theorem free_of_mutable {p : Nat} (mutable : p ∈ mutablePositions) :
    p < 12 ∧ ¬ Call.Skipped p := by
  revert p
  decide

theorem getElem?_toList (bytes : Vector Byte packetLen) {p : Nat} (inside : p < packetLen) :
    bytes.toList[p]? = some bytes[p] := by
  rw [List.getElem?_eq_getElem (by rwa [Vector.length_toList]), Vector.getElem_toList]

theorem parity_sent (data : IBPacket) (n : Nat) (draws : Nat → Nat) {d : List Byte}
    (hd : d ∈ (main data n draws).value.sent) : d.map parity = (binaryWrite data).map parity := by
  obtain ⟨bytes, rfl, within⟩ := (main_sends (keeps_within data) n draws).sent d hd
  apply List.ext_getElem
  · rw [List.length_map, List.length_map, Vector.length_toList, length_binaryWrite]
  · intro i hi hw
    rw [List.length_map, Vector.length_toList] at hi
    rw [List.getElem_map, List.getElem_map, Vector.getElem_toList]
    exact parity_of_within within i hi

/-- A byte of the mutable header positions takes, in some datagram of some run,
exactly the values that differ from the original by a mask in the span of the
bursts; and no byte of any datagram ever changes its parity. -/
theorem sends_iff (data : IBPacket) :
    (∀ p ∈ mutablePositions, ∀ v,
      (∃ n draws, ∃ d ∈ (main data n draws).value.sent, d[p]? = some v) ↔
        ∃ original, (binaryWrite data)[p]? = some original ∧ Span bursts (v ^^^ original)) ∧
    ∀ n draws, ∀ d ∈ (main data n draws).value.sent,
      d.map parity = (binaryWrite data).map parity := by
  refine ⟨?_, fun n draws d hd => parity_sent data n draws hd⟩
  intro p mutable v
  obtain ⟨header, free⟩ := free_of_mutable mutable
  have inside : p < packetLen := Nat.lt_trans header (by decide)
  have original : (binaryWrite data)[p]? = some (packetBytes data)[p] :=
    List.getElem?_eq_getElem _
  rw [original]
  simp only [Option.some.injEq, exists_eq_left']
  refine ⟨?_, ?_⟩
  · rintro ⟨n, draws, d, hd, at_p⟩
    obtain ⟨bytes, rfl, within⟩ := (main_sends (keeps_within data) n draws).sent d hd
    rw [getElem?_toList bytes inside, Option.some.injEq] at at_p
    exact at_p ▸ within p inside
  · rintro ⟨coeff, made⟩
    obtain ⟨n, draws, bytes, hd, cell⟩ := combination_sent data ⟨p, header⟩ free inside coeff
    refine ⟨n, draws, bytes.toList, hd, ?_⟩
    rw [getElem?_toList bytes inside, cell, made, BitVec.xor_comm v, ← BitVec.xor_assoc,
      BitVec.xor_self, BitVec.zero_xor]

end RdmaFuzzing.NaiveReach
