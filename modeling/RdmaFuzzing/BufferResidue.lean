import RdmaFuzzing.ProxyFuzzer

/-! Residue in `buffer_client`. `check_buffer_type` asks for 46 bytes only, while
the mutators write up to byte 85, so a short frame can be mutated past its end.
The final `memset` of `nread` bytes does not reach there. -/

namespace RdmaFuzzing.BufferResidue
open FrameLayout CheckBufferType FuzzIbBth MaskedChange RandomDraws ReusedBuffer ProxyFuzzer

def received (it : Iteration) : EthBuffer := store it.head 0 it.frame.bytes

def sent (it : Iteration) : EthBuffer :=
  (switchBufType (received it) it.frame.kind it.draws).value

/-- The buffer is all zero at the head of this turn and of the next, and no byte
past the frame was modified in between. -/
structure BufferInvariant (it : Iteration) : Prop where
  head : it.head = zeroBuffer
  left : it.left = zeroBuffer
  inside : ∀ j (hj : j < maxEthLen), (sent it)[j] ≠ (received it)[j] → j < it.frame.nread

/-- Both mutations of the turn fall inside the frame or have an empty mask. The
opcode is the frame's, or zero where the frame ends before it. -/
def MutatesInside (frame : Frame) (s : Nat → Draw) : Prop :=
  frame.kind = .ibTraffic →
    let opcode := nextOpcode (frame.bytes[46]?.getD 0) s
    (frame.nread ≤ 46 + (s 0).val % 12 →
      headerMask ((s 0).val % 12) (randomByte (s 1)) = 0) ∧
    (0 < extensionLen opcode → frame.nread ≤ 58 + (s 2).val % extensionLen opcode →
      randomByte (s 3) = 0)

theorem opcodeIn_zeroBuffer (frame : Frame) :
    opcodeIn zeroBuffer frame = frame.bytes[46]?.getD 0 := by
  simp [opcodeIn, zeroBuffer]

theorem turnXor_past (frame : Frame) (s : Nat → Draw) :
    (∀ j < maxEthLen, frame.nread ≤ j → turnXor (frame.bytes[46]?.getD 0) frame s j = 0) ↔
      MutatesInside frame s := by
  by_cases ib : frame.kind = .ibTraffic
  · have cells := roundXor_zero_on (fun k => frame.nread ≤ 46 + k) (frame.bytes[46]?.getD 0) s
    have far (k : Nat) (hk : 40 ≤ k) : roundXor (frame.bytes[46]?.getD 0) s k = 0 := by
      have len := extensionLen_le (nextOpcode (frame.bytes[46]?.getD 0) s)
      rw [roundXor, headerXor_past _ _ (by omega), extensionXor_outside _ _ _ (by omega)]
      rfl
    simp only [← Nat.add_assoc, Nat.reduceAdd] at cells
    simp only [MutatesInside, ib, forall_const, ← cells, turnXor, true_and]
    refine ⟨?_, ?_⟩
    · intro spared k past
      by_cases hk : 40 ≤ k
      · exact far k hk
      · have cell := spared (46 + k) (by rw [maxEthLen]; omega) past
        rwa [if_pos (by omega), Nat.add_sub_cancel_left] at cell
    · intro spared j _ past
      split_ifs with hj
      · exact spared (j - 46) (by omega)
      · rfl
  · simp [MutatesInside, turnXor, ib]

theorem getElem_sent (it : Iteration) (j : Nat) (hj : j < maxEthLen) :
    (sent it)[j] =
      (received it)[j] ^^^ turnXor (opcodeIn it.head it.frame) it.frame it.draws j :=
  getElem_switchBufType _ _ _ _ _

theorem bufferInvariant_iff (it : Iteration) (head : it.head = zeroBuffer) :
    BufferInvariant it ↔ MutatesInside it.frame it.draws := by
  rw [← turnXor_past]
  refine ⟨?_, ?_⟩
  · intro inv j hj past
    have cell : it.left[j] = 0 := by rw [inv.left, zeroBuffer, Vector.getElem_replicate]
    rw [it.getElem_left, if_neg (by omega), head, opcodeIn_zeroBuffer] at cell
    simpa [zeroBuffer] using cell
  · intro spared
    refine ⟨head, ?_, ?_⟩
    · ext j hj
      rw [it.getElem_left, head, opcodeIn_zeroBuffer]
      split_ifs with inside
      · simp [zeroBuffer]
      · rw [spared j hj (by omega)]
        simp
    · intro j hj modified
      by_contra past
      apply modified
      rw [getElem_sent, head, opcodeIn_zeroBuffer, spared j hj (by omega)]
      simp

/-- The buffer invariant holds along a run exactly when every turn of the run
mutates inside its frame. -/
theorem buffer_invariant_iff (fromClient fromServer : List Frame) (draws : Nat → Draw) :
    (∀ it ∈ (main fromClient fromServer draws).toServer, BufferInvariant it) ↔
      ∀ it ∈ (main fromClient fromServer draws).toServer, MutatesInside it.frame it.draws := by
  change (∀ it ∈ clientLoop zeroBuffer fromClient draws, _) ↔
    ∀ it ∈ clientLoop zeroBuffer fromClient draws, _
  induction fromClient generalizing draws with
  | nil => simp [clientLoop]
  | cons frame rest ih =>
    let it : Iteration := ⟨zeroBuffer, frame, draws⟩
    have step := bufferInvariant_iff it rfl
    simp only [clientLoop, List.forall_mem_cons]
    refine ⟨?_, ?_⟩
    · rintro ⟨first, later⟩
      have left : it.left = zeroBuffer := first.left
      refine ⟨step.mp first, ?_⟩
      change ∀ next ∈ clientLoop it.left rest _, _ at later
      change ∀ next ∈ clientLoop it.left rest _, _
      rw [left] at later ⊢
      exact (ih _).mp later
    · rintro ⟨first, later⟩
      have inv : BufferInvariant it := step.mpr first
      refine ⟨inv, ?_⟩
      change ∀ next ∈ clientLoop it.left rest _, _ at later
      change ∀ next ∈ clientLoop it.left rest _, _
      rw [inv.left] at later ⊢
      exact (ih _).mpr later

/-- An empty datagram to the RoCEv2 port: 46 bytes, no base transport header. -/
def emptyDatagram : Frame where
  bytes := [0, 0, 8, 0, 1, 1, 1, 1, 1, 1, 2, 2, 2, 2, 2, 2, 8, 0, 0x45, 0, 0, 28, 0, 0, 0, 0,
    64, 17, 0, 0, 172, 0, 0, 15, 172, 0, 0, 16, 0x12, 0xB7, 0x12, 0xB7, 0, 8, 0, 0]
  fits := by decide

def opcodeDraws : Nat → Draw := fun k => if k = 1 then 1 else 0

theorem emptyDatagram_residue :
    ¬ ∀ it ∈ (main [emptyDatagram, emptyDatagram] [] opcodeDraws).toServer,
      it.head = zeroBuffer := by
  intro zero
  let it : Iteration := ⟨zeroBuffer, emptyDatagram, opcodeDraws⟩
  have second : it.left = zeroBuffer :=
    zero ⟨it.left, emptyDatagram, after opcodeDraws it.calls⟩
      (List.mem_cons_of_mem _ List.mem_cons_self)
  have residue : it.left[46] = 1 := by
    rw [it.getElem_left, if_neg (by decide), opcodeIn_zeroBuffer]
    simp only [it, zeroBuffer, Vector.getElem_replicate]
    decide
  rw [second, zeroBuffer, Vector.getElem_replicate] at residue
  exact absurd residue (by decide)

end RdmaFuzzing.BufferResidue
