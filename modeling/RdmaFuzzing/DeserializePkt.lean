import RdmaFuzzing.BitField
import RdmaFuzzing.ExitRun
import RdmaFuzzing.FrameLayout

/-! `deserialize_ib_pkt`, which `ib_proxy_two.c` and `proxy.c` both have: it takes a
Base Transport Header apart byte by byte, and then copies the payload. The copies
differ in what they subtract from the length of the datagram besides the header and
its padding. -/

namespace RdmaFuzzing.DeserializePkt
open FrameLayout BitField ExitRun

inductive ByteOrder where
  | little
  | big
  deriving DecidableEq

structure IbBth where
  opcode : Byte
  solicitedEvent : SignedField 1
  migReg : SignedField 1
  padCount : SignedField 2
  tver : SignedField 4
  pKey : BitVec 16
  frBrReserved : Byte
  destQp1 : Byte
  destQp2 : Byte
  destQp3 : Byte
  ackRq : SignedField 1
  reserved : SignedField 7
  psn1 : Byte
  psn2 : Byte
  psn3 : Byte
  deriving DecidableEq

def sizeofIbBth : Nat := 12

/-- A byte read through the pointer, and `memcpy(payload, buffer, len)`. -/
inductive Access where
  | reads (i : Nat)
  | copies (start len : Nat)
  deriving DecidableEq

/-- `*buffer`, in the memory from the first byte of the datagram on. -/
def deref (mem : List Byte) (buffer : Nat) : Run Access Byte :=
  call (.reads buffer) (mem.getD buffer 0)

/-- `memcpy` of two bytes into a `short`. -/
def copyShort (host : ByteOrder) (first second : Byte) : BitVec 16 :=
  match host with
  | .little => second ++ first
  | .big => first ++ second

/-- `buffer_len - (sizeof(ib_header) + padding_bytes + ...)`, computed as `size_t` and
converted to `int`. -/
def ibPayloadLen (bufferLen paddingBytes : Int) (trailer : Nat) : Int :=
  ((BitVec.ofInt 64 bufferLen - (BitVec.ofNat 64 sizeofIbBth + BitVec.ofInt 64 paddingBytes +
    BitVec.ofNat 64 trailer)).setWidth 32).toInt

def sizeT (n : Int) : Nat := (BitVec.ofInt 64 n).toNat

structure Deserialized where
  header : IbBth
  payloadLen : Int

def deserialize (trailer : Nat) (host : ByteOrder) (mem : List Byte) (bufferLen : Int) :
    Run Access Deserialized := do
  let buffer := 0
  let opcode ← deref mem buffer
  let buffer := buffer + 1
  let solicitedEvent ← deref mem buffer
  let migReg ← deref mem buffer
  let padCount ← deref mem buffer
  let tver ← deref mem buffer
  let buffer := buffer + 1
  let first ← deref mem buffer
  let second ← deref mem (buffer + 1)
  let buffer := buffer + 2
  let frBrReserved ← deref mem buffer
  let buffer := buffer + 1
  let destQp1 ← deref mem buffer
  let buffer := buffer + 1
  let destQp2 ← deref mem buffer
  let buffer := buffer + 1
  let destQp3 ← deref mem buffer
  let buffer := buffer + 1
  let ackRq ← deref mem buffer
  let reserved ← deref mem buffer
  let buffer := buffer + 1
  let psn1 ← deref mem buffer
  let buffer := buffer + 1
  let psn2 ← deref mem buffer
  let buffer := buffer + 1
  let psn3 ← deref mem buffer
  let buffer := buffer + 1
  let header : IbBth :=
    { opcode := opcode
      solicitedEvent := assign 1 (masked solicitedEvent 0x80)
      migReg := assign 1 (masked migReg 0x40)
      padCount := assign 2 (masked padCount 0x30)
      tver := assign 4 (masked tver 0x0F)
      pKey := copyShort host first second
      frBrReserved := frBrReserved
      destQp1 := destQp1
      destQp2 := destQp2
      destQp3 := destQp3
      ackRq := assign 1 (masked ackRq 0x80)
      reserved := assign 7 (masked reserved 0x7F)
      psn1 := psn1
      psn2 := psn2
      psn3 := psn3 }
  let paddingBytes := header.padCount.value
  -- the loop over the padding moves the pointer forward only
  let buffer := buffer + paddingBytes.toNat
  let payloadLen := ibPayloadLen bufferLen paddingBytes trailer
  call (.copies buffer (sizeT payloadLen)) ()
  pure ⟨header, payloadLen⟩

def bytesIcrc : Nat := 4

def bytesFcs : Nat := 1

/-- `ib_proxy_two.c`. -/
def deserializeTwo : ByteOrder → List Byte → Int → Run Access Deserialized :=
  deserialize (bytesIcrc + bytesFcs)

/-- `proxy.c`. -/
def deserializeProxy : ByteOrder → List Byte → Int → Run Access Deserialized :=
  deserialize 0

def byteAt (mem : List Byte) (i : Nat) : Byte := mem.getD i 0

def headerOf (host : ByteOrder) (mem : List Byte) : IbBth :=
  { opcode := byteAt mem 0
    solicitedEvent := assign 1 (masked (byteAt mem 1) 0x80)
    migReg := assign 1 (masked (byteAt mem 1) 0x40)
    padCount := assign 2 (masked (byteAt mem 1) 0x30)
    tver := assign 4 (masked (byteAt mem 1) 0x0F)
    pKey := copyShort host (byteAt mem 2) (byteAt mem 3)
    frBrReserved := byteAt mem 4
    destQp1 := byteAt mem 5
    destQp2 := byteAt mem 6
    destQp3 := byteAt mem 7
    ackRq := assign 1 (masked (byteAt mem 8) 0x80)
    reserved := assign 7 (masked (byteAt mem 8) 0x7F)
    psn1 := byteAt mem 9
    psn2 := byteAt mem 10
    psn3 := byteAt mem 11 }

def headerReads : List Nat := [0, 1, 1, 1, 1, 2, 3, 4, 5, 6, 7, 8, 8, 9, 10, 11]

/-- The pad count loses its value with its shift, so the payload never moves. -/
theorem padCount_value (host : ByteOrder) (mem : List Byte) :
    (headerOf host mem).padCount.value = 0 := by
  apply value_assign_multiple
  generalize byteAt mem 1 = c
  revert c
  decide

theorem deserialize_eq (trailer : Nat) (host : ByteOrder) (mem : List Byte) (bufferLen : Int) :
    deserialize trailer host mem bufferLen =
      ⟨headerReads.map .reads ++
          [.copies sizeofIbBth (sizeT (ibPayloadLen bufferLen 0 trailer))],
        some ⟨headerOf host mem, ibPayloadLen bufferLen 0 trailer⟩⟩ := by
  have run : deserialize trailer host mem bufferLen =
      ⟨headerReads.map .reads ++
          [.copies (sizeofIbBth + (headerOf host mem).padCount.value.toNat)
            (sizeT (ibPayloadLen bufferLen (headerOf host mem).padCount.value trailer))],
        some ⟨headerOf host mem,
          ibPayloadLen bufferLen (headerOf host mem).padCount.value trailer⟩⟩ := by
    simp only [deserialize, deref, call_bind, pure_run]
    rfl
  rw [run, padCount_value]
  rfl

end RdmaFuzzing.DeserializePkt
