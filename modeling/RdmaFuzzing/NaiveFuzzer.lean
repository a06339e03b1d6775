import RdmaFuzzing.MaskedChange
import RdmaFuzzing.PacketSerial
import RdmaFuzzing.RandomDraws

/-! The naive fuzzer: `mutate.go` and the endless loop of `udp.go`, one turn of
an inner loop at a time. Each turn sends `cp_pkt` and then mutates it; after 25
turns of `flip_bits` and 10 of `flip_bytewise` the packet is copied afresh. -/

namespace RdmaFuzzing.NaiveFuzzer
open FrameLayout MaskedChange PacketSerial RandomDraws

def flipBytewise {n : Nat} (data : Vector Byte n) (pos : Fin n) : Vector Byte n :=
  if pos.val = 1 ∨ pos.val = 5 ∨ pos.val = 6 ∨ pos.val = 7 then data
  else xorAt data pos 0b11111111

def flipSingleBit {n : Nat} (data : Vector Byte n) (pos : Fin n) (bitPos : Byte) :
    Vector Byte n :=
  xorAt data pos (1 <<< bitPos.toNat)

/-- Shifts are on bytes and drop the bits that leave them. -/
def flipBits {n : Nat} (data : Vector Byte n) (pos : Fin n) (bits bitPosStart : Byte) :
    Vector Byte n :=
  if pos.val = 1 then data
  else if pos.val = 5 ∨ pos.val = 6 ∨ pos.val = 7 then data
  else
    match bits.toNat with
    | 1 => xorAt data pos (0b1 <<< bitPosStart.toNat)
    | 2 => xorAt data pos (0b11 <<< bitPosStart.toNat)
    | 3 => xorAt data pos (0b111 <<< bitPosStart.toNat)
    | 4 => xorAt data pos (0b1111 <<< bitPosStart.toNat)
    | _ => data

/-- `rand.Intn(n)`: any value below `n`, as the source of randomness has it. -/
def intn (n : Nat) (pos : 0 < n) : Draws Nat (Fin n) := do
  let r ← draw
  pure ⟨r % n, Nat.mod_lt r pos⟩

inductive Stage where
  | copy
  | bits (i : Nat)
  | bytewise (i : Nat)
  deriving DecidableEq, Repr

structure State where
  packetBytes : Vector Byte packetLen
  cpPkt : Vector Byte packetLen
  stage : Stage
  sent : List (List Byte)

theorem header_inside (pos : Fin 12) : pos.val < packetLen :=
  Nat.lt_trans pos.isLt (by decide)

def turn (st : State) : Draws Nat State :=
  match st.stage with
  | .copy => pure { st with cpPkt := st.packetBytes, stage := .bits 0 }
  | .bits i =>
      if i < 25 then do
        let rseed ← intn 12 (by decide)
        let start ← intn 4 (by decide)
        pure { st with
          sent := st.sent ++ [st.cpPkt.toList]
          cpPkt := flipBits st.cpPkt ⟨rseed.val, header_inside rseed⟩ 4
            (BitVec.ofNat 8 start.val)
          stage := .bits (i + 1) }
      else pure { st with stage := .bytewise 0 }
  | .bytewise i =>
      if i < 10 then do
        let rseed ← intn 12 (by decide)
        pure { st with
          sent := st.sent ++ [st.cpPkt.toList]
          cpPkt := flipBytewise st.cpPkt ⟨rseed.val, header_inside rseed⟩
          stage := .bytewise (i + 1) }
      else pure { st with stage := .copy }

/-- The packet has been serialised and sent once; `cp_pkt` is freshly made. -/
def start (data : IBPacket) : State :=
  ⟨PacketSerial.packetBytes data, Vector.replicate packetLen 0, .copy, [binaryWrite data]⟩

def main (data : IBPacket) (n : Nat) : Draws Nat State := iterate turn n (start data)

def kept (i : Fin packetLen) : Byte :=
  if i.val = 1 ∨ i.val = 5 ∨ i.val = 6 ∨ i.val = 7 ∨ 12 ≤ i.val then BitVec.allOnes 8 else 0

theorem agreeOn_flipBytewise (data : Vector Byte packetLen) (pos : Fin 12) :
    AgreeOn kept data (flipBytewise data ⟨pos.val, header_inside pos⟩) := by
  have header := pos.isLt
  unfold flipBytewise
  split_ifs with spared
  · exact AgreeOn.refl _ _
  · apply agreeOn_xorAt
    rw [kept, if_neg (by simp only at spared ⊢; omega)]
    exact BitVec.and_zero

theorem agreeOn_flipBits (data : Vector Byte packetLen) (pos : Fin 12)
    (bits bitPosStart : Byte) :
    AgreeOn kept data (flipBits data ⟨pos.val, header_inside pos⟩ bits bitPosStart) := by
  have header := pos.isLt
  unfold flipBits
  split_ifs with version queuePair
  · exact AgreeOn.refl _ _
  · exact AgreeOn.refl _ _
  · have free : kept ⟨pos.val, header_inside pos⟩ = 0 := by
      rw [kept, if_neg (by simp only at version queuePair ⊢; omega)]
    split
    case h_5 => exact AgreeOn.refl _ _
    all_goals
      apply agreeOn_xorAt
      rw [free]
      exact BitVec.and_zero

structure KeepsFields (data pkt : IBPacket) : Prop where
  seMPcTVer : pkt.bth.seMPcTVer = data.bth.seMPcTVer
  destQp1 : pkt.bth.destQp1 = data.bth.destQp1
  destQp2 : pkt.bth.destQp2 = data.bth.destQp2
  destQp3 : pkt.bth.destQp3 = data.bth.destQp3
  payload : pkt.payload = data.payload
  iCRC : pkt.iCRC = data.iCRC
  fcs : pkt.fcs = data.fcs

theorem keepsFields (data : IBPacket) (bytes : Vector Byte packetLen)
    (agree : AgreeOn kept (PacketSerial.packetBytes data) bytes) :
    KeepsFields data (fields bytes) := by
  have cell (i : Nat) (hi : i < packetLen)
      (fixed : i = 1 ∨ i = 5 ∨ i = 6 ∨ i = 7 ∨ 12 ≤ i) :
      bytes[i] = (PacketSerial.packetBytes data)[i] :=
    (agree.getElem_eq ⟨i, hi⟩ (if_pos fixed)).symm
  refine ⟨cell 1 _ (by decide), cell 5 _ (by decide), cell 6 _ (by decide),
    cell 7 _ (by decide), ?_, ?_, ?_⟩
  · rw [← fields_payload data]
    apply Vector.ext
    intro i hi
    simp only [fields, Vector.getElem_ofFn]
    exact cell (12 + i) _ (by omega)
  · rw [← fields_iCRC data]
    simp only [fields]
    rw [cell 212 _ (by decide), cell 213 _ (by decide), cell 214 _ (by decide),
      cell 215 _ (by decide)]
  · rw [← fields_fcs data]
    exact cell 216 _ (by decide)

structure Keeps (data : IBPacket) (P : Vector Byte packetLen → Prop) : Prop where
  packet : P (PacketSerial.packetBytes data)
  bits : ∀ bytes (pos : Fin 12) (start : Fin 4), P bytes →
    P (flipBits bytes ⟨pos.val, header_inside pos⟩ 4 (BitVec.ofNat 8 start.val))
  bytewise : ∀ bytes (pos : Fin 12), P bytes →
    P (flipBytewise bytes ⟨pos.val, header_inside pos⟩)

structure Sends (data : IBPacket) (P : Vector Byte packetLen → Prop) (st : State) : Prop where
  packet : st.packetBytes = PacketSerial.packetBytes data
  current : st.stage ≠ .copy → P st.cpPkt
  fresh : st.stage = .bits 0 → st.cpPkt = PacketSerial.packetBytes data
  sent : ∀ d ∈ st.sent, ∃ bytes : Vector Byte packetLen, d = bytes.toList ∧ P bytes

theorem start_sends {data : IBPacket} {P : Vector Byte packetLen → Prop} (keeps : Keeps data P) :
    Sends data P (start data) where
  packet := rfl
  current h := absurd rfl h
  fresh h := by cases h
  sent := by
    intro d hd
    rw [List.mem_singleton.mp hd]
    exact ⟨PacketSerial.packetBytes data, by simp [PacketSerial.packetBytes], keeps.packet⟩

theorem sent_snoc {data : IBPacket} {P : Vector Byte packetLen → Prop} {st : State}
    (sends : Sends data P st) (running : st.stage ≠ .copy) :
    ∀ d ∈ st.sent ++ [st.cpPkt.toList], ∃ bytes : Vector Byte packetLen,
      d = bytes.toList ∧ P bytes := by
  intro d hd
  rcases List.mem_append.mp hd with old | new
  · exact sends.sent d old
  · exact ⟨st.cpPkt, List.mem_singleton.mp new, sends.current running⟩

theorem turn_sends {data : IBPacket} {P : Vector Byte packetLen → Prop} (keeps : Keeps data P)
    (st : State) (s : Nat → Nat) (sends : Sends data P st) :
    Sends data P (turn st s).value := by
  unfold turn
  cases at_stage : st.stage with
  | copy =>
      have unmutated : P st.packetBytes := by
        rw [sends.packet]
        exact keeps.packet
      exact ⟨sends.packet, fun _ => unmutated, fun _ => sends.packet, sends.sent⟩
  | bits i =>
      have running : st.stage ≠ .copy := by simp [at_stage]
      by_cases inner : i < 25
      · simp only [if_pos inner, bind_value, pure_run]
        exact ⟨sends.packet, fun _ => keeps.bits _ _ _ (sends.current running),
          fun h => by simp at h, sent_snoc sends running⟩
      · simp only [if_neg inner, pure_run]
        exact ⟨sends.packet, fun _ => sends.current running, fun h => by simp at h, sends.sent⟩
  | bytewise i =>
      have running : st.stage ≠ .copy := by simp [at_stage]
      by_cases inner : i < 10
      · simp only [if_pos inner, bind_value, pure_run]
        exact ⟨sends.packet, fun _ => keeps.bytewise _ _ (sends.current running),
          fun h => by simp at h, sent_snoc sends running⟩
      · simp only [if_neg inner, pure_run]
        exact ⟨sends.packet, fun h => absurd rfl h, fun h => by simp at h, sends.sent⟩

/-- The run lemma: what the mutators keep is true of all that any run sends. -/
theorem main_sends {data : IBPacket} {P : Vector Byte packetLen → Prop} (keeps : Keeps data P)
    (n : Nat) (draws : Nat → Nat) : Sends data P (main data n draws).value :=
  iterate_invariant (Sends data P) (turn_sends keeps) n _ draws (start_sends keeps)

theorem keeps_kept (data : IBPacket) :
    Keeps data (AgreeOn kept (PacketSerial.packetBytes data)) where
  packet := AgreeOn.refl _ _
  bits _ _ _ agree := agree.trans (agreeOn_flipBits _ _ _ _)
  bytewise _ _ agree := agree.trans (agreeOn_flipBytewise _ _)

structure Invariant (data : IBPacket) (st : State) : Prop where
  packet : st.packetBytes = PacketSerial.packetBytes data
  agree : st.stage ≠ .copy → AgreeOn kept (PacketSerial.packetBytes data) st.cpPkt
  fresh : st.stage = .bits 0 → st.cpPkt = PacketSerial.packetBytes data
  sent : ∀ d ∈ st.sent, ∃ bytes : Vector Byte packetLen, d = bytes.toList ∧
    AgreeOn kept (PacketSerial.packetBytes data) bytes

theorem main_invariant (data : IBPacket) (n : Nat) (draws : Nat → Nat) :
    Invariant data (main data n draws).value := by
  have sends := main_sends (keeps_kept data) n draws
  exact ⟨sends.packet, sends.current, sends.fresh, sends.sent⟩

/-- Every run: each datagram has the length of the serialised packet and decodes
to the protected fields, and `packet_bytes` is there unmutated for every copy. -/
theorem main_datagrams (data : IBPacket) (n : Nat) (draws : Nat → Nat) :
    let st := (main data n draws).value
    (∀ d ∈ st.sent, d.length = (binaryWrite data).length ∧
      ∃ pkt, binaryRead d = some pkt ∧ KeepsFields data pkt) ∧
    st.packetBytes = PacketSerial.packetBytes data ∧
    (st.stage = .bits 0 → st.cpPkt = PacketSerial.packetBytes data) := by
  intro st
  have inv := main_invariant data n draws
  refine ⟨?_, inv.packet, inv.fresh⟩
  intro d hd
  obtain ⟨bytes, rfl, agree⟩ := inv.sent d hd
  rw [length_binaryWrite]
  exact ⟨by simp, fields bytes, binaryRead_toList bytes, keepsFields data bytes agree⟩

end RdmaFuzzing.NaiveFuzzer
