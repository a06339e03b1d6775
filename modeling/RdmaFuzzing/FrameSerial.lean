import RdmaFuzzing.CheckBufferType
import RdmaFuzzing.PacketSerial

/-! Ethernet frames as a TAP device delivers them, written out field by field: an
IPv4 header of version 4 with any options, a UDP header and a payload. The
layout is that of the protocols and knows nothing of `net_types.h`, so it says
what `check_buffer_type` ought to recognise. -/

namespace RdmaFuzzing.FrameSerial
open CheckBufferType FrameLayout PacketSerial

structure UdpFrame where
  tapPrefix : Vector Byte 4
  destMac : Vector Byte 6
  srcMac : Vector Byte 6
  ethType : BitVec 16
  ihl : Nat
  ihlRange : 5 ≤ ihl ∧ ihl ≤ 15
  dscpEcn : Byte
  totalLen : BitVec 16
  identification : BitVec 16
  flagsFragOffset : BitVec 16
  ttl : Byte
  protocol : Byte
  hdrChecksum : BitVec 16
  srcIpAddr : BitVec 32
  destIpAddr : BitVec 32
  options : List Byte
  optionsLength : options.length = 4 * (ihl - 5)
  srcPort : BitVec 16
  destPort : BitVec 16
  udpLen : BitVec 16
  udpChecksum : BitVec 16
  payload : List Byte

namespace UdpFrame

def addresses (f : UdpFrame) : List Byte :=
  f.tapPrefix.toList ++ f.destMac.toList ++ f.srcMac.toList

def ipFixed (f : UdpFrame) : List Byte :=
  [BitVec.ofNat 8 (4 * 16 + f.ihl), f.dscpEcn] ++ bigEndian16 f.totalLen ++
    bigEndian16 f.identification ++ bigEndian16 f.flagsFragOffset ++ [f.ttl, f.protocol] ++
    bigEndian16 f.hdrChecksum ++ bigEndian32 f.srcIpAddr ++ bigEndian32 f.destIpAddr

def udpHeader (f : UdpFrame) : List Byte :=
  bigEndian16 f.srcPort ++ bigEndian16 f.destPort ++ bigEndian16 f.udpLen ++
    bigEndian16 f.udpChecksum

def headers (f : UdpFrame) : List Byte :=
  f.addresses ++ (bigEndian16 f.ethType ++ f.ipFixed) ++ f.options ++ f.udpHeader

def serialise (f : UdpFrame) : List Byte := f.headers ++ f.payload

def payloadIndex (f : UdpFrame) : Nat := f.headers.length

theorem length_addresses (f : UdpFrame) : f.addresses.length = 16 := by
  simp [addresses]

theorem payloadIndex_eq (f : UdpFrame) : f.payloadIndex = 46 + 4 * (f.ihl - 5) := by
  simp only [payloadIndex, headers, List.length_append, f.optionsLength, f.length_addresses]
  simp only [ipFixed, udpHeader, bigEndian16, bigEndian32, List.length_append, List.length_cons,
    List.length_nil]
  omega

theorem length_serialise (f : UdpFrame) : 46 ≤ f.serialise.length := by
  have index := f.payloadIndex_eq
  rw [payloadIndex] at index
  rw [serialise, List.length_append]
  omega

theorem serialise_fixed (f : UdpFrame) (i : Nat) (hi : i < 22) :
    f.serialise[16 + i]? = (bigEndian16 f.ethType ++ f.ipFixed)[i]? := by
  have length : (bigEndian16 f.ethType ++ f.ipFixed).length = 22 := rfl
  simp only [serialise, headers, List.append_assoc]
  rw [List.getElem?_append_right (by rw [length_addresses]; omega), length_addresses,
    Nat.add_sub_cancel_left, ← List.append_assoc, List.getElem?_append_left (by omega)]

theorem serialise_udp (f : UdpFrame) (short : f.ihl = 5) (i : Nat) (hi : i < 8) :
    f.serialise[38 + i]? = f.udpHeader[i]? := by
  have none : f.options = [] := by
    rw [← List.length_eq_zero_iff, f.optionsLength, short]
  have length : (bigEndian16 f.ethType ++ f.ipFixed).length = 22 := rfl
  have header : f.udpHeader.length = 8 := rfl
  rw [serialise, headers, none, List.append_nil, List.append_assoc,
    List.getElem?_append_right (by rw [List.length_append, length_addresses]; omega),
    List.length_append, length_addresses, length, Nat.add_sub_cancel_left,
    List.getElem?_append_left (by omega)]

def kind (f : UdpFrame) : BufferType :=
  checkBufferType (n := f.serialise.length) ⟨f.serialise.toArray, rfl⟩ f.serialise.length
    (Int.le_refl _)

theorem bigEndian16_eq_iff (x y : BitVec 16) :
    x.extractLsb' 8 8 = y.extractLsb' 8 8 ∧ x.extractLsb' 0 8 = y.extractLsb' 0 8 ↔ x = y := by
  refine ⟨?_, fun same => same ▸ ⟨rfl, rfl⟩⟩
  rintro ⟨high, low⟩
  rw [← bigEndian16_append x, high, low, bigEndian16_append]

theorem ihl_nibble (f : UdpFrame) :
    BitVec.ofNat 8 (4 * 16 + f.ihl) &&& 0x0F = 0x05 ↔ f.ihl = 5 := by
  have nibbles : ∀ ihl : Fin 16, BitVec.ofNat 8 (4 * 16 + ihl.val) &&& 0x0F = 0x05 ↔
      ihl.val = 5 := by decide
  exact nibbles ⟨f.ihl, by have := f.ihlRange; omega⟩

theorem getElem_congr_opt {xs ys : List Byte} {i j : Nat} (hi : i < xs.length)
    (hj : j < ys.length) (same : xs[i]? = ys[j]?) : xs[i] = ys[j] := by
  rw [List.getElem?_eq_getElem hi, List.getElem?_eq_getElem hj] at same
  exact Option.some.inj same

theorem getElem_fixed (f : UdpFrame) (i : Nat) (hi : i < 22)
    (inside : 16 + i < f.serialise.length) :
    f.serialise[16 + i] = (bigEndian16 f.ethType ++ f.ipFixed)[i] :=
  getElem_congr_opt inside hi (f.serialise_fixed i hi)

theorem serialise_ethType (f : UdpFrame) (room : 46 ≤ f.serialise.length) :
    f.serialise[16] = 0x08 ∧ f.serialise[17] = 0x00 ↔ f.ethType = 0x0800 := by
  rw [f.getElem_fixed 0 (by decide) (by omega), f.getElem_fixed 1 (by decide) (by omega)]
  exact bigEndian16_eq_iff f.ethType 0x0800

theorem serialise_protocol (f : UdpFrame) (room : 46 ≤ f.serialise.length) :
    f.serialise[27] = 0x11 ∧ f.serialise[18] &&& 0x0F = 0x05 ↔
      f.protocol = 17 ∧ f.ihl = 5 := by
  rw [f.getElem_fixed 11 (by decide) (by omega), f.getElem_fixed 2 (by decide) (by omega)]
  exact and_congr Iff.rfl f.ihl_nibble

theorem serialise_destPort (f : UdpFrame) (room : 46 ≤ f.serialise.length) (short : f.ihl = 5) :
    f.serialise[40] = 0x12 ∧ f.serialise[41] = 0xB7 ↔ f.destPort = 4791 := by
  have cell (i : Nat) (hi : i < 8) (inside : 38 + i < f.serialise.length) :
      f.serialise[38 + i] = f.udpHeader[i] :=
    getElem_congr_opt inside hi (f.serialise_udp short i hi)
  rw [cell 2 (by decide) (by omega), cell 3 (by decide) (by omega)]
  exact bigEndian16_eq_iff f.destPort 4791

theorem kind_eq (f : UdpFrame) :
    f.kind =
      if f.ethType = 0x0800 then
        if f.protocol = 17 ∧ f.ihl = 5 then
          if f.destPort = 4791 then .ibTraffic else .udpSeg
        else .ipPkt
      else .other := by
  have room := f.length_serialise
  rw [kind, checkBufferType_large _ _ _ (by omega) room, testHeaders_eq]
  change (if f.serialise[16] = 0x08 ∧ f.serialise[17] = 0x00 then
    if f.serialise[27] = 0x11 ∧ f.serialise[18] &&& 0x0F = 0x05 then
      if f.serialise[40] = 0x12 ∧ f.serialise[41] = 0xB7 then BufferType.ibTraffic
      else .udpSeg
    else .ipPkt
  else .other) = _
  simp only [f.serialise_ethType room, f.serialise_protocol room]
  by_cases seg : f.protocol = 17 ∧ f.ihl = 5
  · simp only [f.serialise_destPort room seg.2]
  · simp only [if_neg seg]

/-- `check_buffer_type` recognises its format exactly, over all field values and
option lengths, and what it takes for RDMA traffic has its UDP payload at
`IB_BTH_OFFSET`. -/
theorem kind_classifies (f : UdpFrame) :
    (f.kind = .other ↔ f.ethType ≠ 0x0800) ∧
    (f.kind = .ipPkt ↔ f.ethType = 0x0800 ∧ (f.protocol ≠ 17 ∨ f.ihl ≠ 5)) ∧
    (f.kind = .ibTraffic ↔
      f.ethType = 0x0800 ∧ f.protocol = 17 ∧ f.ihl = 5 ∧ f.destPort = 4791) ∧
    (f.kind = .udpSeg ↔
      f.ethType = 0x0800 ∧ f.protocol = 17 ∧ f.ihl = 5 ∧ f.destPort ≠ 4791) ∧
    (f.kind = .ibTraffic → ibBthOffset = f.payloadIndex) := by
  have traffic : f.kind = .ibTraffic ↔
      f.ethType = 0x0800 ∧ f.protocol = 17 ∧ f.ihl = 5 ∧ f.destPort = 4791 := by
    rw [kind_eq]
    split_ifs <;> simp_all
  refine ⟨?_, ?_, traffic, ?_, ?_⟩
  · rw [kind_eq]
    split_ifs <;> simp_all
  · rw [kind_eq]
    split_ifs <;> simp_all
    tauto
  · rw [kind_eq]
    split_ifs <;> simp_all
  · intro ib
    rw [payloadIndex_eq, (traffic.mp ib).2.2.1, ibBthOffset_eq]

def roce : UdpFrame where
  tapPrefix := #v[0, 0, 8, 0]
  destMac := #v[1, 1, 1, 1, 1, 1]
  srcMac := #v[2, 2, 2, 2, 2, 2]
  ethType := 0x0800
  ihl := 5
  ihlRange := by decide
  dscpEcn := 0
  totalLen := 44
  identification := 7
  flagsFragOffset := 0
  ttl := 64
  protocol := 17
  hdrChecksum := 0
  srcIpAddr := 0xAC00000F
  destIpAddr := 0xAC000010
  options := []
  optionsLength := rfl
  srcPort := 4791
  destPort := 4791
  udpLen := 24
  udpChecksum := 0
  payload := [0x04, 0x40, 0xFF, 0xFF, 0, 0, 0, 17, 0, 0, 0, 1, 1, 2, 3, 4]

def roceOptions : UdpFrame :=
  { roce with
    ihl := 6
    ihlRange := by decide
    totalLen := 48
    options := [1, 1, 1, 0]
    optionsLength := rfl }

theorem roce_classified :
    roce.kind = .ibTraffic ∧ ibBthOffset = roce.payloadIndex ∧ roceOptions.kind = .ipPkt := by
  obtain ⟨-, -, traffic, -, index⟩ := kind_classifies roce
  have fuzzed := traffic.mpr ⟨rfl, rfl, rfl, rfl⟩
  exact ⟨fuzzed, index fuzzed, (kind_classifies roceOptions).2.1.mpr ⟨rfl, Or.inr (by decide)⟩⟩

end UdpFrame

end RdmaFuzzing.FrameSerial
