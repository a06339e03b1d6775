import RdmaFuzzing.FrameLayout

/-! `check_buffer_type` of the proxy fuzzer: what the first `buffer_size` bytes
of a buffer are taken for. The reads happen only when `buffer_size` reaches
`IB_BTH_OFFSET`, so the verdict is a function of the bytes just received and
never of what an earlier frame left behind them. -/

namespace RdmaFuzzing.CheckBufferType
open FrameLayout

inductive BufferType where
  | ipPkt
  | udpSeg
  | ibTraffic
  | other
  deriving DecidableEq, Repr

/-- A `char` operand: the byte, sign-extended to `int`. -/
def promote (c : Byte) : BitVec 32 := c.signExtend 32

/-- The nested tests on the six bytes they look at. -/
def testHeaders (ethType ethType1 verIhl protocol destPort destPort1 : Byte) : BufferType :=
  if promote ethType = 0x08 ∧ promote ethType1 = 0x00 then
    if promote protocol = 0x11 ∧ promote verIhl &&& 0x0F = 0x05 then
      if promote destPort = 0x12 ∧ promote destPort1 &&& 0xFF = 0xB7 then .ibTraffic
      else .udpSeg
    else .ipPkt
  else .other

def checkBufferType {n : Nat} (buffer : Vector Byte n) (bufferSize : Int)
    (fits : bufferSize ≤ n) : BufferType :=
  if small : bufferSize < ibBthOffset then .other
  else
    have room : 46 ≤ n := by rw [ibBthOffset_eq] at small; omega
    have ethType : ethTypeOffset + 1 < n := by rw [ethTypeOffset_eq]; omega
    have verIhl : verIhlOffset < n := by rw [verIhlOffset_eq]; omega
    have protocol : protocolOffset < n := by rw [protocolOffset_eq]; omega
    have destPort : destPortOffset + 1 < n := by rw [destPortOffset_eq]; omega
    testHeaders buffer[ethTypeOffset] buffer[ethTypeOffset + 1] buffer[verIhlOffset]
      buffer[protocolOffset] buffer[destPortOffset] buffer[destPortOffset + 1]

theorem promote_eq_iff (c d : Byte) : promote c = promote d ↔ c = d := by
  refine ⟨?_, ?_⟩
  · intro h
    have value : c.toInt = d.toInt := by
      rw [← BitVec.toInt_signExtend_of_le (v := 32) (by decide : 8 ≤ 32),
        ← BitVec.toInt_signExtend_of_le (v := 32) (by decide : 8 ≤ 32)]
      exact congrArg BitVec.toInt h
    exact BitVec.eq_of_toInt_eq value
  · exact congrArg promote

theorem promote_low_nibble (c : Byte) : promote c &&& 0x0F = 0x05 ↔ c &&& 0x0F = 0x05 := by
  revert c
  decide

theorem promote_low_byte (c : Byte) : promote c &&& 0xFF = 0xB7 ↔ c = 0xB7 := by
  revert c
  decide

theorem testHeaders_eq (ethType ethType1 verIhl protocol destPort destPort1 : Byte) :
    testHeaders ethType ethType1 verIhl protocol destPort destPort1 =
      if ethType = 0x08 ∧ ethType1 = 0x00 then
        if protocol = 0x11 ∧ verIhl &&& 0x0F = 0x05 then
          if destPort = 0x12 ∧ destPort1 = 0xB7 then .ibTraffic
          else .udpSeg
        else .ipPkt
      else .other := by
  have constants : (0x08 : BitVec 32) = promote 0x08 ∧ (0x00 : BitVec 32) = promote 0x00 ∧
      (0x11 : BitVec 32) = promote 0x11 ∧ (0x12 : BitVec 32) = promote 0x12 := by decide
  obtain ⟨eight, zero, udp, port⟩ := constants
  simp only [testHeaders, eight, zero, udp, port, promote_eq_iff, promote_low_nibble,
    promote_low_byte]

theorem testHeaders_ibTraffic (ethType ethType1 verIhl protocol destPort destPort1 : Byte) :
    testHeaders ethType ethType1 verIhl protocol destPort destPort1 = .ibTraffic ↔
      (ethType = 0x08 ∧ ethType1 = 0x00) ∧ (protocol = 0x11 ∧ verIhl &&& 0x0F = 0x05) ∧
        (destPort = 0x12 ∧ destPort1 = 0xB7) := by
  rw [testHeaders_eq]
  split_ifs with ip seg ib <;> simp_all

theorem checkBufferType_small {n : Nat} (buffer : Vector Byte n) (bufferSize : Int)
    (fits : bufferSize ≤ n) (small : bufferSize < 46) :
    checkBufferType buffer bufferSize fits = .other :=
  dif_pos small

theorem checkBufferType_large {n : Nat} (buffer : Vector Byte n) (bufferSize : Int)
    (fits : bufferSize ≤ n) (large : 46 ≤ bufferSize) (room : 46 ≤ n) :
    checkBufferType buffer bufferSize fits =
      testHeaders buffer[16] buffer[17] buffer[18] buffer[27] buffer[40] buffer[41] :=
  dif_neg (Int.not_lt.mpr large)

theorem checkBufferType_congr {n m : Nat} (a : Vector Byte n) (b : Vector Byte m)
    (bufferSize : Int) (ha : bufferSize ≤ n) (hb : bufferSize ≤ m)
    (agree : ∀ i (hn : i < n) (hm : i < m), (i : Int) < bufferSize → a[i] = b[i]) :
    checkBufferType a bufferSize ha = checkBufferType b bufferSize hb := by
  by_cases small : bufferSize < 46
  · rw [checkBufferType_small a _ _ small, checkBufferType_small b _ _ small]
  · have same (i : Nat) (hi : i < 46) (hn : i < n) (hm : i < m) : a[i] = b[i] :=
      agree i hn hm (by omega)
    rw [checkBufferType_large a _ _ (by omega) (by omega),
      checkBufferType_large b _ _ (by omega) (by omega),
      same 16 (by decide), same 17 (by decide), same 18 (by decide), same 27 (by decide),
      same 40 (by decide), same 41 (by decide)]

end RdmaFuzzing.CheckBufferType
