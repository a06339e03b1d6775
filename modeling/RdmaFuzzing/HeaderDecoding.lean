import RdmaFuzzing.DeserializePkt

/-! Which headers `deserialize_ib_pkt` decodes. The values are encoded here in the
layout that its masks stand for. Three masks lack a shift, so that what they let
through ends outside its bit-field; the other bit-fields are signed, and the
partition key is copied in the order of the host. -/

namespace RdmaFuzzing.HeaderDecoding
open FrameLayout BitField ExitRun DeserializePkt

structure Fields where
  opcode : Byte
  solicitedEvent : BitVec 1
  migReg : BitVec 1
  padCount : BitVec 2
  tver : BitVec 4
  pKey : BitVec 16
  frBrReserved : Byte
  destQp1 : Byte
  destQp2 : Byte
  destQp3 : Byte
  ackRq : BitVec 1
  reserved : BitVec 7
  psn1 : Byte
  psn2 : Byte
  psn3 : Byte

def flags (h : Fields) : Byte := h.solicitedEvent ++ h.migReg ++ h.padCount ++ h.tver

def ack (h : Fields) : Byte := h.ackRq ++ h.reserved

def keyHigh (h : Fields) : Byte := h.pKey.extractLsb' 8 8

def keyLow (h : Fields) : Byte := h.pKey.extractLsb' 0 8

def encode (h : Fields) : List Byte :=
  [h.opcode, flags h, keyHigh h, keyLow h, h.frBrReserved, h.destQp1, h.destQp2, h.destQp3,
    ack h, h.psn1, h.psn2, h.psn3]

structure Holds (header : IbBth) (h : Fields) : Prop where
  opcode : header.opcode = h.opcode
  solicitedEvent : header.solicitedEvent.value = h.solicitedEvent.toNat
  migReg : header.migReg.value = h.migReg.toNat
  padCount : header.padCount.value = h.padCount.toNat
  tver : header.tver.value = h.tver.toNat
  pKey : header.pKey = h.pKey
  frBrReserved : header.frBrReserved = h.frBrReserved
  destQp1 : header.destQp1 = h.destQp1
  destQp2 : header.destQp2 = h.destQp2
  destQp3 : header.destQp3 = h.destQp3
  ackRq : header.ackRq.value = h.ackRq.toNat
  reserved : header.reserved.value = h.reserved.toNat
  psn1 : header.psn1 = h.psn1
  psn2 : header.psn2 = h.psn2
  psn3 : header.psn3 = h.psn3

/-- The values that survive. -/
structure Decodable (host : ByteOrder) (h : Fields) : Prop where
  solicitedEvent : h.solicitedEvent = 0
  migReg : h.migReg = 0
  padCount : h.padCount = 0
  tver : h.tver.toNat < 8
  pKey : host = .big ∨ keyHigh h = keyLow h
  ackRq : h.ackRq = 0
  reserved : h.reserved.toNat < 64

theorem masked_flags (h : Fields) :
    masked (flags h) 0x80 = 2 ^ 7 * (h.solicitedEvent.toNat : Int) ∧
      masked (flags h) 0x40 = 2 ^ 6 * (h.migReg.toNat : Int) ∧
      masked (flags h) 0x30 = 2 ^ 4 * (h.padCount.toNat : Int) ∧
      masked (flags h) 0x0F = h.tver.toNat := by
  rw [flags]
  generalize h.solicitedEvent = se, h.migReg = m, h.padCount = pad, h.tver = tver
  revert se m pad tver
  decide

theorem masked_ack (h : Fields) :
    masked (ack h) 0x80 = 2 ^ 7 * (h.ackRq.toNat : Int) ∧
      masked (ack h) 0x7F = h.reserved.toNat := by
  rw [ack]
  generalize h.ackRq = ack, h.reserved = reserved
  revert ack reserved
  decide

theorem toNat_short (high low : Byte) :
    (high ++ low).toNat = 256 * high.toNat + low.toNat := by
  rw [BitVec.toNat_append, ← Nat.shiftLeft_add_eq_or_of_lt low.isLt, Nat.shiftLeft_eq,
    Nat.mul_comm]

theorem key_eq (h : Fields) : keyHigh h ++ keyLow h = h.pKey := by
  have bound := h.pKey.isLt
  apply BitVec.eq_of_toNat_eq
  rw [toNat_short, keyHigh, keyLow, BitVec.extractLsb'_toNat, BitVec.extractLsb'_toNat,
    Nat.shiftRight_eq_div_pow, Nat.shiftRight_eq_div_pow]
  omega

theorem copyShort_iff (host : ByteOrder) (h : Fields) :
    copyShort host (keyHigh h) (keyLow h) = h.pKey ↔ host = .big ∨ keyHigh h = keyLow h := by
  cases host with
  | big => simp [copyShort, key_eq]
  | little =>
    rw [copyShort, ← key_eq, or_iff_right (by simp)]
    refine ⟨?_, ?_⟩
    · intro same
      have numbers := congrArg BitVec.toNat same
      rw [toNat_short, toNat_short] at numbers
      have high := (keyHigh h).isLt
      have low := (keyLow h).isLt
      exact BitVec.eq_of_toNat_eq (by omega)
    · intro same
      rw [same]

theorem headerOf_encode (host : ByteOrder) (h : Fields) (rest : List Byte) :
    headerOf host (encode h ++ rest) =
      { opcode := h.opcode
        solicitedEvent := assign 1 (2 ^ 7 * h.solicitedEvent.toNat)
        migReg := assign 1 (2 ^ 6 * h.migReg.toNat)
        padCount := assign 2 (2 ^ 4 * h.padCount.toNat)
        tver := assign 4 h.tver.toNat
        pKey := copyShort host (keyHigh h) (keyLow h)
        frBrReserved := h.frBrReserved
        destQp1 := h.destQp1
        destQp2 := h.destQp2
        destQp3 := h.destQp3
        ackRq := assign 1 (2 ^ 7 * h.ackRq.toNat)
        reserved := assign 7 h.reserved.toNat
        psn1 := h.psn1
        psn2 := h.psn2
        psn3 := h.psn3 } := by
  obtain ⟨solicitedEvent, migReg, padCount, tver⟩ := masked_flags h
  obtain ⟨ackRq, reserved⟩ := masked_ack h
  rw [← solicitedEvent, ← migReg, ← padCount, ← tver, ← ackRq, ← reserved]
  rfl

theorem shifted_iff {n w k : Nat} (x : BitVec n) (short : w ≤ k) :
    (assign w (2 ^ k * (x.toNat : Int))).value = x.toNat ↔ x = 0 := by
  rw [value_assign_shifted_iff _ short, ← BitVec.toNat_inj]
  rfl

theorem holds_iff (host : ByteOrder) (h : Fields) (rest : List Byte) :
    Holds (headerOf host (encode h ++ rest)) h ↔ Decodable host h := by
  rw [headerOf_encode]
  refine ⟨?_, ?_⟩
  · intro holds
    exact
      { solicitedEvent := (shifted_iff _ (by decide)).mp holds.solicitedEvent
        migReg := (shifted_iff _ (by decide)).mp holds.migReg
        padCount := (shifted_iff _ (by decide)).mp holds.padCount
        tver := (value_assign_natCast_iff _).mp holds.tver
        pKey := (copyShort_iff host h).mp holds.pKey
        ackRq := (shifted_iff _ (by decide)).mp holds.ackRq
        reserved := (value_assign_natCast_iff _).mp holds.reserved }
  · intro decodable
    exact
      { opcode := rfl
        solicitedEvent := (shifted_iff _ (by decide)).mpr decodable.solicitedEvent
        migReg := (shifted_iff _ (by decide)).mpr decodable.migReg
        padCount := (shifted_iff _ (by decide)).mpr decodable.padCount
        tver := (value_assign_natCast_iff _).mpr decodable.tver
        pKey := (copyShort_iff host h).mpr decodable.pKey
        frBrReserved := rfl
        destQp1 := rfl
        destQp2 := rfl
        destQp3 := rfl
        ackRq := (shifted_iff _ (by decide)).mpr decodable.ackRq
        reserved := (value_assign_natCast_iff _).mpr decodable.reserved
        psn1 := rfl
        psn2 := rfl
        psn3 := rfl }

/-- What a run of `deserialize_ib_pkt` leaves in its header. -/
def Yields (run : Run Access Deserialized) (h : Fields) : Prop :=
  ∃ result, run.value = some result ∧ Holds result.header h

theorem deserialize_yields_iff (trailer : Nat) (host : ByteOrder) (h : Fields)
    (rest : List Byte) (bufferLen : Int) :
    Yields (deserialize trailer host (encode h ++ rest) bufferLen) h ↔ Decodable host h := by
  rw [deserialize_eq, ← holds_iff host h rest]
  refine ⟨?_, ?_⟩
  · rintro ⟨result, value, holds⟩
    cases value
    exact holds
  · intro holds
    exact ⟨_, rfl, holds⟩

theorem decodes_iff (host : ByteOrder) (h : Fields) (rest : List Byte) (bufferLen : Int) :
    (Yields (deserializeTwo host (encode h ++ rest) bufferLen) h ↔ Decodable host h) ∧
      (Yields (deserializeProxy host (encode h ++ rest) bufferLen) h ↔ Decodable host h) :=
  ⟨deserialize_yields_iff _ host h rest bufferLen, deserialize_yields_iff _ host h rest bufferLen⟩

def sendOnly : Fields :=
  { opcode := 0x04
    solicitedEvent := 0
    migReg := 1
    padCount := 0
    tver := 0
    pKey := 0xFFFF
    frBrReserved := 0
    destQp1 := 0
    destQp2 := 0
    destQp3 := 0x11
    ackRq := 1
    reserved := 0
    psn1 := 0
    psn2 := 0
    psn3 := 0x01 }

theorem sendOnly_lost :
    ¬ Yields (deserializeTwo .little (encode sendOnly ++ [0, 0, 0, 0, 0]) 17) sendOnly ∧
      ¬ Yields (deserializeProxy .little (encode sendOnly ++ [0, 0, 0, 0, 0]) 17) sendOnly := by
  have lost : ¬ Decodable .little sendOnly := fun decodable =>
    absurd decodable.migReg (by decide)
  refine ⟨?_, ?_⟩
  · exact mt (deserialize_yields_iff _ _ _ _ _).mp lost
  · exact mt (deserialize_yields_iff _ _ _ _ _).mp lost

end RdmaFuzzing.HeaderDecoding
