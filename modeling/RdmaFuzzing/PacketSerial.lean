import RdmaFuzzing.FrameLayout

/-! `IBPacket` of the naive fuzzer and its big-endian serialisation as
`encoding/binary` writes it: the fields in order of declaration, 16- and 32-bit
fields with the most significant byte first, no padding. -/

namespace RdmaFuzzing.PacketSerial
open FrameLayout

structure BaseTransportHeader where
  opCode : Byte
  seMPcTVer : Byte
  pKey : BitVec 16
  frBrReserved : Byte
  destQp1 : Byte
  destQp2 : Byte
  destQp3 : Byte
  ackReqRes : Byte
  psn1 : BitVec 16
  psn2 : Byte

structure IBPacket where
  bth : BaseTransportHeader
  payload : Vector Byte 200
  iCRC : BitVec 32
  fcs : Byte

def bigEndian16 (x : BitVec 16) : List Byte := [x.extractLsb' 8 8, x.extractLsb' 0 8]

def bigEndian32 (x : BitVec 32) : List Byte :=
  [x.extractLsb' 24 8, x.extractLsb' 16 8, x.extractLsb' 8 8, x.extractLsb' 0 8]

def headerBytes (bth : BaseTransportHeader) : List Byte :=
  [bth.opCode, bth.seMPcTVer] ++ bigEndian16 bth.pKey ++
    [bth.frBrReserved, bth.destQp1, bth.destQp2, bth.destQp3, bth.ackReqRes] ++
    bigEndian16 bth.psn1 ++ [bth.psn2]

def binaryWrite (data : IBPacket) : List Byte :=
  headerBytes data.bth ++ (data.payload.toList ++ (bigEndian32 data.iCRC ++ [data.fcs]))

def packetLen : Nat := 217

theorem length_binaryWrite (data : IBPacket) : (binaryWrite data).length = packetLen := by
  simp [binaryWrite, headerBytes, bigEndian16, bigEndian32, packetLen]

def packetBytes (data : IBPacket) : Vector Byte packetLen :=
  ⟨(binaryWrite data).toArray, length_binaryWrite data⟩

def fields (bytes : Vector Byte packetLen) : IBPacket where
  bth :=
    { opCode := bytes[0]
      seMPcTVer := bytes[1]
      pKey := bytes[2] ++ bytes[3]
      frBrReserved := bytes[4]
      destQp1 := bytes[5]
      destQp2 := bytes[6]
      destQp3 := bytes[7]
      ackReqRes := bytes[8]
      psn1 := bytes[9] ++ bytes[10]
      psn2 := bytes[11] }
  payload := Vector.ofFn fun i =>
    have inside : 12 + i.val < packetLen := by rw [packetLen]; omega
    bytes[12 + i.val]
  iCRC := bytes[212] ++ bytes[213] ++ bytes[214] ++ bytes[215]
  fcs := bytes[216]

def binaryRead (bytes : List Byte) : Option IBPacket :=
  if h : bytes.length = packetLen then some (fields ⟨bytes.toArray, h⟩) else none

theorem bigEndian16_append (x : BitVec 16) : x.extractLsb' 8 8 ++ x.extractLsb' 0 8 = x := by
  have join : (x.extractLsb' 8 8 ++ x.extractLsb' 0 8 : BitVec (8 + 8)) =
      x.extractLsb' 0 (8 + 8) := BitVec.extractLsb'_append_extractLsb'_eq_extractLsb' rfl
  rw [join]
  exact BitVec.extractLsb'_eq_self

theorem bigEndian32_append (x : BitVec 32) :
    x.extractLsb' 24 8 ++ x.extractLsb' 16 8 ++ x.extractLsb' 8 8 ++ x.extractLsb' 0 8 = x := by
  have join (start low high : Nat) :
      x.extractLsb' (start + low) high ++ x.extractLsb' start low =
        x.extractLsb' start (high + low) :=
    BitVec.extractLsb'_append_extractLsb'_eq_extractLsb' rfl
  have two : x.extractLsb' 24 8 ++ x.extractLsb' 16 8 = x.extractLsb' 16 16 := join 16 8 8
  have three : x.extractLsb' 16 16 ++ x.extractLsb' 8 8 = x.extractLsb' 8 24 := join 8 8 16
  have four : x.extractLsb' 8 24 ++ x.extractLsb' 0 8 = x.extractLsb' 0 32 := join 0 8 24
  rw [two, three, four]
  exact BitVec.extractLsb'_eq_self

theorem length_headerBytes (bth : BaseTransportHeader) : (headerBytes bth).length = 12 := rfl

theorem getElem_packetBytes (data : IBPacket) (i : Nat) (hi : i < packetLen)
    (hw : i < (binaryWrite data).length) : (packetBytes data)[i] = (binaryWrite data)[i] := rfl

theorem getElem_payload (data : IBPacket) (i : Nat) (hi : i < 200)
    (inside : 12 + i < packetLen) : (packetBytes data)[12 + i] = data.payload[i] := by
  have header := length_headerBytes data.bth
  rw [getElem_packetBytes _ _ _ (by rw [length_binaryWrite]; exact inside)]
  simp only [binaryWrite]
  rw [List.getElem_append_right (by omega), List.getElem_append_left (by simp; omega)]
  simp [header]

theorem getElem_trailer (data : IBPacket) (i : Nat)
    (hi : i < (bigEndian32 data.iCRC ++ [data.fcs]).length) (inside : 212 + i < packetLen) :
    (packetBytes data)[212 + i] = (bigEndian32 data.iCRC ++ [data.fcs])[i] := by
  have header := length_headerBytes data.bth
  have payload : data.payload.toList.length = 200 := by simp
  have index : 212 + i - (headerBytes data.bth).length - data.payload.toList.length = i := by
    omega
  rw [getElem_packetBytes _ _ _ (by rw [length_binaryWrite]; exact inside)]
  simp only [binaryWrite]
  rw [List.getElem_append_right (by omega), List.getElem_append_right (by omega)]
  simp only [index]

theorem fields_bth (data : IBPacket) : (fields (packetBytes data)).bth = data.bth := by
  change BaseTransportHeader.mk _ _
    (data.bth.pKey.extractLsb' 8 8 ++ data.bth.pKey.extractLsb' 0 8) _ _ _ _ _
    (data.bth.psn1.extractLsb' 8 8 ++ data.bth.psn1.extractLsb' 0 8) _ = data.bth
  rw [bigEndian16_append, bigEndian16_append]
  rfl

theorem fields_payload (data : IBPacket) :
    (fields (packetBytes data)).payload = data.payload := by
  apply Vector.ext
  intro i hi
  refine (Vector.getElem_ofFn hi).trans ?_
  exact getElem_payload data i hi _

theorem fields_iCRC (data : IBPacket) : (fields (packetBytes data)).iCRC = data.iCRC := by
  have first : (packetBytes data)[212] = data.iCRC.extractLsb' 24 8 :=
    getElem_trailer data 0 (by simp [bigEndian32]) (by decide)
  have second : (packetBytes data)[213] = data.iCRC.extractLsb' 16 8 :=
    getElem_trailer data 1 (by simp [bigEndian32]) (by decide)
  have third : (packetBytes data)[214] = data.iCRC.extractLsb' 8 8 :=
    getElem_trailer data 2 (by simp [bigEndian32]) (by decide)
  have fourth : (packetBytes data)[215] = data.iCRC.extractLsb' 0 8 :=
    getElem_trailer data 3 (by simp [bigEndian32]) (by decide)
  have join := bigEndian32_append data.iCRC
  rw [← first, ← second, ← third, ← fourth] at join
  exact join

theorem fields_fcs (data : IBPacket) : (fields (packetBytes data)).fcs = data.fcs :=
  getElem_trailer data 4 (by simp [bigEndian32]) (by decide)

theorem binaryRead_binaryWrite (data : IBPacket) :
    binaryRead (binaryWrite data) = some data := by
  rw [binaryRead, dif_pos (length_binaryWrite data)]
  exact congrArg some (congr (congr (congr (congrArg IBPacket.mk (fields_bth data))
    (fields_payload data)) (fields_iCRC data)) (fields_fcs data))

theorem binaryRead_toList (bytes : Vector Byte packetLen) :
    binaryRead bytes.toList = some (fields bytes) := by
  rw [binaryRead, dif_pos (by simp)]
  rfl

end RdmaFuzzing.PacketSerial
