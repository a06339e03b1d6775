import RdmaFuzzing.ProxyFuzzer

/-! Which traffic the proxy fuzzer alters. The classifier tests the ethertype,
the header length, the protocol and the destination port, and nothing else: the
IP version is masked away, and the fragment offset and the UDP length are never
looked at, so not every altered frame holds a RoCEv2 packet. Nothing but the filter and
one byte behind the UDP header is needed for some draws to alter a frame. -/

namespace RdmaFuzzing.AlteredTraffic
open FrameLayout CheckBufferType FuzzIbBth MaskedChange RandomDraws ReusedBuffer ProxyFuzzer

/-- The fields `check_buffer_type` tests: ethertype IPv4, five header words, UDP,
destination port 4791. -/
structure PassesFilter (bytes : List Byte) : Prop where
  ethType : bytes[ethTypeOffset]? = some 0x08 ∧ bytes[ethTypeOffset + 1]? = some 0x00
  ihl : bytes[verIhlOffset]?.map (· &&& 0x0F) = some 0x05
  protocol : bytes[protocolOffset]? = some 0x11
  destPort : bytes[destPortOffset]? = some 0x12 ∧ bytes[destPortOffset + 1]? = some 0xB7

def field16 (bytes : List Byte) (offset : Nat) : Nat :=
  256 * (bytes[offset]?.getD 0).toNat + (bytes[offset + 1]?.getD 0).toNat

abbrev VersionFour (bytes : List Byte) : Prop := bytes[verIhlOffset]?.map (· &&& 0xF0) = some 0x40

abbrev Unfragmented (bytes : List Byte) : Prop := field16 bytes flagsFragOffsetOffset % 2 ^ 13 = 0

abbrev LongSegment (bytes : List Byte) : Prop := 20 ≤ field16 bytes udpLenOffset

/-- An unfragmented IPv4 packet with a UDP datagram to the RoCEv2 port that has
room for a base transport header. -/
structure IsRoce (bytes : List Byte) : Prop extends PassesFilter bytes where
  version : VersionFour bytes
  fragmentOffset : Unfragmented bytes
  udpLen : LongSegment bytes
  length : 58 ≤ bytes.length

theorem kind_ibTraffic (frame : Frame) :
    frame.kind = .ibTraffic ↔ 46 ≤ frame.bytes.length ∧ PassesFilter frame.bytes := by
  by_cases long : 46 ≤ frame.bytes.length
  · have cell (i : Nat) (hi : i < 46) : frame.bytes[i]? = some frame.bytes[i] :=
      List.getElem?_eq_getElem (by omega)
    have tests : frame.kind = testHeaders frame.bytes[16] frame.bytes[17] frame.bytes[18]
        frame.bytes[27] frame.bytes[40] frame.bytes[41] :=
      checkBufferType_large _ _ _ (Int.ofNat_le.mpr long) long
    rw [tests, testHeaders_ibTraffic]
    refine ⟨?_, ?_⟩
    · rintro ⟨ethType, ⟨protocol, ihl⟩, destPort⟩
      refine ⟨long, ?_, ?_, ?_, ?_⟩
      · simp [cell, ethType]
      · simpa [cell] using ihl
      · simp [cell, protocol]
      · simp [cell, destPort]
    · rintro ⟨_, ethType, ihl, protocol, destPort⟩
      simp only [ethTypeOffset_eq, verIhlOffset_eq, protocolOffset_eq, destPortOffset_eq,
        Nat.reduceAdd, cell, Nat.reduceLT, Option.map_some, Option.some_inj]
        at ethType ihl protocol destPort
      exact ⟨ethType, ⟨protocol, ihl⟩, destPort⟩
  · have other : frame.kind = .other :=
      checkBufferType_small _ _ _ (Int.ofNat_lt.mpr (Nat.not_le.mp long))
    simp [other, long]

/-- A frame that is not forwarded as it was read passes the filter, and reaches
into the base transport header. -/
theorem altered_passesFilter (it : Iteration) (altered : it.written ≠ it.frame.bytes) :
    PassesFilter it.frame.bytes ∧ 47 ≤ it.frame.bytes.length := by
  have ib : it.frame.kind = .ibTraffic := by
    by_contra other
    exact altered (it.written_other other)
  refine ⟨((kind_ibTraffic it.frame).mp ib).2, ?_⟩
  by_contra short
  apply altered
  apply List.ext_getElem?
  intro i
  refine (it.written_eq_iff i).mpr fun inside => ?_
  have before : ¬ 46 ≤ i := by
    change i < it.frame.bytes.length at inside
    omega
  exact if_neg fun cell => before cell.2

def firstByteDraws : Nat → Draw := fun k => if k = 1 then 1 else 0

theorem firstByteDraws_xor (opcode : Byte) : roundXor opcode firstByteDraws 0 = 1 := by
  have header : headerXor firstByteDraws 0 = 1 := by decide
  rw [roundXor, header, extensionXor_outside _ _ _ (Or.inl (by decide))]
  rfl

/-- Conversely there are draws that alter a frame, if it is long enough and passes. -/
theorem altered_of_passesFilter (head : EthBuffer) (frame : Frame)
    (passes : PassesFilter frame.bytes) (long : 47 ≤ frame.bytes.length) :
    (Iteration.mk head frame firstByteDraws).written ≠ frame.bytes := by
  intro same
  have ib : frame.kind = .ibTraffic := (kind_ibTraffic frame).mpr ⟨by omega, passes⟩
  have unchanged := (Iteration.written_eq_iff ⟨head, frame, firstByteDraws⟩ 46).mp
    (congrArg (·[46]?) same) long
  rw [turnXor, if_pos ⟨ib, le_refl _⟩, Nat.sub_self, firstByteDraws_xor] at unchanged
  exact absurd unchanged (by decide)

/-- A frame with 4791 where the UDP destination port would be, by what the filter does
not look at, or not at all of it. -/
def framed (verIhl fragment udpLen : Byte) (behind : List Byte) (fits : behind.length ≤ 1496) :
    Frame where
  bytes := [0, 0, 8, 0, 1, 1, 1, 1, 1, 1, 2, 2, 2, 2, 2, 2, 8, 0, verIhl, 0, 0, 42, 0, 7, 0,
    fragment, 64, 17, 0, 0, 172, 0, 0, 15, 172, 0, 0, 16, 0x12, 0xB7, 0x12, 0xB7, 0, udpLen,
    0, 0] ++ behind
  fits := by
    rw [List.length_append, maxEthLen]
    exact Nat.add_le_add_left fits 46

theorem framed_altered (verIhl fragment udpLen : Byte) (behind : List Byte)
    (fits : behind.length ≤ 1496) (ihl : verIhl &&& 0x0F = 0x05) (longer : 1 ≤ behind.length) :
    (Iteration.mk zeroBuffer (framed verIhl fragment udpLen behind fits) firstByteDraws).written ≠
      (framed verIhl fragment udpLen behind fits).bytes := by
  refine altered_of_passesFilter _ _ ⟨⟨rfl, rfl⟩, congrArg some ihl, rfl, rfl, rfl⟩ ?_
  rw [framed, List.length_append]
  exact Nat.add_le_add_left longer 46

def bth : List Byte := [0x04, 0x40, 0xFF, 0xFF, 0, 0, 0, 17, 0, 0, 0, 1]

def versionSix : Frame := framed 0x65 0 20 bth (by decide)

/-- The second fragment of a longer UDP datagram, whose payload bytes happen to
read 4791 where the destination port would be. -/
def laterFragment : Frame := framed 0x45 185 60 bth (by decide)

def shortSegment : Frame := framed 0x45 0 19 bth (by decide)

def opcodeOnly : Frame := framed 0x45 0 20 [0x04] (by decide)

theorem laterFragment_passesFilter :
    PassesFilter laterFragment.bytes ∧ 47 ≤ laterFragment.bytes.length :=
  altered_passesFilter ⟨zeroBuffer, laterFragment, firstByteDraws⟩
    (framed_altered 0x45 185 60 bth (by decide) (by decide) (by decide))

/-- Of the further requirements on a RoCEv2 packet none holds of every altered frame,
not even if the others do; and an altered frame may have no more than 47 bytes. -/
theorem altered_not_roce :
    (¬ ∀ it : Iteration, it.written ≠ it.frame.bytes → IsRoce it.frame.bytes) ∧
    (∃ it : Iteration, it.written ≠ it.frame.bytes ∧ ¬VersionFour it.frame.bytes ∧
      Unfragmented it.frame.bytes ∧ LongSegment it.frame.bytes ∧ 58 ≤ it.frame.bytes.length) ∧
    (∃ it : Iteration, it.written ≠ it.frame.bytes ∧ VersionFour it.frame.bytes ∧
      ¬Unfragmented it.frame.bytes ∧ LongSegment it.frame.bytes ∧ 58 ≤ it.frame.bytes.length) ∧
    (∃ it : Iteration, it.written ≠ it.frame.bytes ∧ VersionFour it.frame.bytes ∧
      Unfragmented it.frame.bytes ∧ ¬LongSegment it.frame.bytes ∧ 58 ≤ it.frame.bytes.length) ∧
    ∃ it : Iteration, it.written ≠ it.frame.bytes ∧ VersionFour it.frame.bytes ∧
      Unfragmented it.frame.bytes ∧ LongSegment it.frame.bytes ∧ it.frame.bytes.length = 47 := by
  have six := framed_altered 0x65 0 20 bth (by decide) (by decide) (by decide)
  have later := framed_altered 0x45 185 60 bth (by decide) (by decide) (by decide)
  have short := framed_altered 0x45 0 19 bth (by decide) (by decide) (by decide)
  have cut := framed_altered 0x45 0 20 [0x04] (by decide) (by decide) (by decide)
  refine ⟨?_, ?_, ?_, ?_, ?_⟩
  · intro only
    exact absurd (only ⟨zeroBuffer, versionSix, firstByteDraws⟩ six).version (by decide)
  · exact ⟨⟨zeroBuffer, versionSix, firstByteDraws⟩, six, by decide⟩
  · exact ⟨⟨zeroBuffer, laterFragment, firstByteDraws⟩, later, by decide⟩
  · exact ⟨⟨zeroBuffer, shortSegment, firstByteDraws⟩, short, by decide⟩
  · exact ⟨⟨zeroBuffer, opcodeOnly, firstByteDraws⟩, cut, by decide⟩

end RdmaFuzzing.AlteredTraffic
