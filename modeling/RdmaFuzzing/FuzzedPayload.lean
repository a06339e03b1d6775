import RdmaFuzzing.ProxyFuzzer

/-! Where the fuzzed headers end and the payload begins. The table of extension
headers in `fuzz_ib_bth` gives opcode 0x07 a RETH, which in the InfiniBand table
belongs to 0x06; a frame forwarded with 0x07 is mutated in its payload. -/

namespace RdmaFuzzing.FuzzedPayload
open FrameLayout CheckBufferType FuzzIbBth MaskedChange RandomDraws ProxyFuzzer

/-- The opcodes, in their low five bits, that carry a RETH. -/
abbrev CarriesReth (opcode : Byte) : Prop :=
  opcode &&& 0x1F = 0x06 ∨ opcode &&& 0x1F = 0x0A ∨ opcode &&& 0x1F = 0x0B ∨
    opcode &&& 0x1F = 0x0C

def payloadStart (opcode : Byte) : Nat :=
  if SelectsAtomicEth opcode then 58 + 28 else if CarriesReth opcode then 58 + 16 else 58

/-- The turn forwards opcode 0x07 and XORs a nonzero byte into the sixteen bytes
behind the base header, inside the frame. -/
def FuzzesPayload (frame : Frame) (s : Nat → Draw) : Prop :=
  nextOpcode (frame.bytes[46]?.getD 0) s &&& 0x1F = 0x07 ∧
    58 + (s 2).val % 16 < frame.nread ∧ randomByte (s 3) ≠ 0

theorem extensionLen_of_seven {opcode : Byte} (seven : opcode &&& 0x1F = 0x07) :
    extensionLen opcode = 16 := by
  rw [extensionLen, if_neg (by rw [SelectsAtomicEth, seven]; decide),
    if_pos (Or.inl seven), rdmaEthLen]

theorem headers_end_le {opcode : Byte} (other : opcode &&& 0x1F ≠ 0x07) :
    58 + extensionLen opcode ≤ payloadStart opcode := by
  rw [extensionLen, payloadStart, atomicEthLen, rdmaEthLen]
  by_cases atomic : SelectsAtomicEth opcode
  · rw [if_pos atomic, if_pos atomic]
  · rw [if_neg atomic, if_neg atomic]
    by_cases rdma : SelectsRdmaEth opcode
    · have reth : CarriesReth opcode := Or.inr (rdma.resolve_left other)
      rw [if_pos rdma, if_pos reth]
    · rw [if_neg rdma]
      split_ifs <;> omega

theorem payloadStart_of_seven {opcode : Byte} (seven : opcode &&& 0x1F = 0x07) :
    payloadStart opcode = 58 := by
  rw [payloadStart, if_neg (by rw [SelectsAtomicEth, seven]; decide),
    if_neg (by rw [CarriesReth, seven]; decide)]

theorem le_payloadStart (opcode : Byte) : 58 ≤ payloadStart opcode := by
  unfold payloadStart
  split_ifs <;> omega

theorem forwarded_opcode (it : Iteration) (ib : it.frame.kind = .ibTraffic)
    (long : 46 < it.frame.nread) :
    it.written[46]? = some (nextOpcode (it.frame.bytes[46]?.getD 0) it.draws) := by
  have inside : 46 < it.frame.bytes.length := long
  have length : it.written.length = it.frame.bytes.length := it.length_written
  rw [List.getElem?_eq_getElem (by omega), it.getElem_written 46 (by omega) inside,
    List.getElem?_eq_getElem inside, turnXor, if_pos ⟨ib, le_refl _⟩, roundXor,
    extensionXor_outside _ _ _ (Or.inl (by decide)), nextOpcode, Option.getD_some]
  congr 2
  exact BitVec.xor_zero

theorem roundXor_payload (frame : Frame) (s : Nat → Draw) :
    (∀ k, payloadStart (nextOpcode (frame.bytes[46]?.getD 0) s) ≤ 46 + k ∧
        46 + k < frame.nread → roundXor (frame.bytes[46]?.getD 0) s k = 0) ↔
      ¬ FuzzesPayload frame s := by
  rw [roundXor_zero_on (fun k => _ ≤ 46 + k ∧ 46 + k < frame.nread), FuzzesPayload]
  have start := le_payloadStart (nextOpcode (frame.bytes[46]?.getD 0) s)
  have header : (s 0).val % 12 < 12 := Nat.mod_lt _ (by decide)
  by_cases seven : nextOpcode (frame.bytes[46]?.getD 0) s &&& 0x1F = 0x07
  · rw [payloadStart_of_seven seven, extensionLen_of_seven seven]
    refine ⟨?_, ?_⟩
    · rintro ⟨_, extension⟩ ⟨_, inside, mask⟩
      exact mask (extension (by decide) ⟨by omega, by omega⟩)
    · intro spared
      refine ⟨fun cell => absurd cell.1 (by omega), fun _ cell => ?_⟩
      by_contra mask
      exact spared ⟨seven, by omega, mask⟩
  · have ends := headers_end_le seven
    refine ⟨?_, ?_⟩
    · intro _ fuzzes
      exact seven fuzzes.1
    · intro _
      refine ⟨fun cell => absurd cell.1 (by omega), fun pos cell => absurd cell.1 ?_⟩
      have small := Nat.mod_lt (s 2).val pos
      omega

/-- The payload of a frame that is fuzzed and long enough for its headers is
forwarded unchanged, exactly when the turn does not fuzz under opcode 0x07. -/
theorem payload_kept_iff (it : Iteration) (opcode : Byte) (ib : it.frame.kind = .ibTraffic)
    (forwarded : it.written[46]? = some opcode)
    (long : payloadStart opcode ≤ it.frame.nread) :
    (∀ i, payloadStart opcode ≤ i → it.written[i]? = it.frame.bytes[i]?) ↔
      ¬ FuzzesPayload it.frame it.draws := by
  have start := le_payloadStart opcode
  have next : nextOpcode (it.frame.bytes[46]?.getD 0) it.draws = opcode := by
    rw [forwarded_opcode it ib (by omega)] at forwarded
    exact Option.some_inj.mp forwarded
  rw [← roundXor_payload, next]
  simp only [Iteration.written_eq_iff, turnXor, ib, true_and]
  refine ⟨?_, ?_⟩
  · intro kept k cell
    have zero := kept (46 + k) cell.1 cell.2
    rwa [if_pos (by omega), Nat.add_sub_cancel_left] at zero
  · intro spared i past inside
    rw [if_pos (by omega)]
    exact spared (i - 46) ⟨by omega, by omega⟩

def rdmaFrame (opcode : Byte) : Frame where
  bytes := [0, 0, 8, 0, 1, 1, 1, 1, 1, 1, 2, 2, 2, 2, 2, 2, 8, 0, 0x45, 0, 0, 60, 0, 0, 0, 0,
    64, 17, 0, 0, 172, 0, 0, 15, 172, 0, 0, 16, 0x12, 0xB7, 0x12, 0xB7, 0, 40, 0, 0,
    opcode, 0, 255, 255, 0, 0, 0, 17, 0, 0, 0, 1,
    97, 97, 97, 97, 97, 97, 97, 97, 97, 97, 97, 97, 97, 97, 97, 97, 1, 2, 3, 4]
  fits := by simp [maxEthLen]

/-- The header draw hits a spared byte, the extension draw picks cell 0, mask 1. -/
def payloadDraws : Nat → Draw := fun k => if k = 0 then 5 else if k = 3 then 1 else 0

theorem sendOnly_payload_kept :
    payloadStart 0x04 = 58 ∧ ∀ i, payloadStart 0x04 ≤ i →
      (Iteration.mk zeroBuffer (rdmaFrame 0x04) payloadDraws).written[i]? =
        (rdmaFrame 0x04).bytes[i]? :=
  ⟨rfl, (payload_kept_iff ⟨zeroBuffer, rdmaFrame 0x04, payloadDraws⟩ 0x04 (by decide)
    (by rw [forwarded_opcode _ (by decide) (by decide)]; decide) (by decide)).mpr
    fun fuzzes => absurd fuzzes.1 (by decide)⟩

/-- RDMA WRITE Middle: classified as RDMA traffic, forwarded under opcode 0x07
of the RC class, long enough, and its first payload byte is changed. -/
theorem writeMiddle_payload_changed :
    let it := Iteration.mk zeroBuffer (rdmaFrame 0x07) payloadDraws
    it.frame.kind = .ibTraffic ∧ it.written[46]? = some 0x07 ∧ (0x07 : Byte) &&& 0xE0 = 0 ∧
      payloadStart 0x07 ≤ it.frame.nread ∧
      ¬ ∀ i, payloadStart 0x07 ≤ i → it.written[i]? = it.frame.bytes[i]? := by
  intro it
  have ib : it.frame.kind = .ibTraffic := by decide
  have forwarded : it.written[46]? = some 0x07 := by
    rw [forwarded_opcode it ib (by decide)]
    decide
  refine ⟨ib, forwarded, by decide, by decide, fun kept => ?_⟩
  have first := (it.written_eq_iff 58).mp (kept 58 (by decide)) (by decide)
  exact absurd first (by decide)

end RdmaFuzzing.FuzzedPayload
