import RdmaFuzzing.ProxyFuzzer

/-! What reaches the other side of the proxy fuzzer. Frame by frame the output
is the input but for a few header bits, and only in frames taken for RDMA
traffic; and no output depends on anything but its own frame and the values
drawn while it was in the buffer, although the buffer does keep residue. -/

namespace RdmaFuzzing.ForwardedFrames
open FrameLayout CheckBufferType FuzzIbBth MaskedChange RandomDraws ReusedBuffer ProxyFuzzer

structure Forwards (frame : Frame) (it : Iteration) : Prop where
  length : it.written.length = frame.bytes.length
  other : frame.kind ≠ .ibTraffic → it.written = frame.bytes ∧ it.calls = 0
  kept : frame.kind = .ibTraffic →
    ∀ i (hw : i < it.written.length) (hi : i < frame.bytes.length),
      i < ibBthOffset ∨ 51 ≤ i ∧ i ≤ 53 ∨ 86 ≤ i → it.written[i] = frame.bytes[i]
  version : frame.kind = .ibTraffic →
    ∀ (hw : 47 < it.written.length) (hi : 47 < frame.bytes.length),
      it.written[47] &&& 0x0F = frame.bytes[47] &&& 0x0F

theorem sparedIn_kept (i : Fin maxEthLen)
    (kept : i.val < ibBthOffset ∨ 51 ≤ i.val ∧ i.val ≤ 53 ∨ 86 ≤ i.val) :
    sparedIn ibBthOffset i = BitVec.allOnes 8 := by
  rw [ibBthOffset_eq] at kept
  rw [sparedIn, ibBthOffset_eq]
  split_ifs with past
  · rw [spared, if_neg (by omega), if_pos (by omega)]
    rfl
  · rfl

theorem written_agree (it : Iteration) (i : Nat) (hw : i < it.written.length)
    (hi : i < it.frame.bytes.length) (room : i < maxEthLen) :
    it.frame.bytes[i] &&& sparedIn ibBthOffset ⟨i, room⟩ =
      it.written[i] &&& sparedIn ibBthOffset ⟨i, room⟩ := by
  have agree := switchBufType_agree (store it.head 0 it.frame.bytes) it.frame.kind it.draws
    ⟨i, room⟩
  simp only [it.written_eq, getElem_front _ _ _ _ room]
  simpa only [getElem_store_front _ _ _ _ hi] using agree

theorem turn_forwards (it : Iteration) : Forwards it.frame it where
  length := it.length_written
  other h := ⟨it.written_other h, it.calls_other h⟩
  kept := by
    intro _ i hw hi kept
    have room : i < maxEthLen := Nat.lt_of_lt_of_le hi it.frame.fits
    have agree := written_agree it i hw hi room
    rw [sparedIn_kept ⟨i, room⟩ kept, BitVec.and_allOnes, BitVec.and_allOnes] at agree
    exact agree.symm
  version := by
    intro _ hw hi
    exact (written_agree it 47 hw hi (by decide)).symm

/-- Every run of the proxy fuzzer: the client-to-server loop forwards frame by
frame, in order, and the server-to-client loop forwards all frames unchanged. -/
theorem main_forwards (fromClient fromServer : List Frame) (draws : Nat → Draw) :
    List.Forall₂ Forwards fromClient (main fromClient fromServer draws).toServer ∧
      (main fromClient fromServer draws).toClient = fromServer.map Frame.bytes :=
  ⟨clientLoop_forall₂ turn_forwards zeroBuffer fromClient draws,
    serverLoop_eq zeroBuffer fromServer⟩

theorem written_head_irrelevant (head head' : EthBuffer) (frame : Frame) (s : Nat → Draw) :
    (clientTurn head frame s).value.written = (clientTurn head' frame s).value.written := by
  change (Iteration.mk head frame s).written = (Iteration.mk head' frame s).written
  apply List.ext_getElem
  · rw [Iteration.length_written, Iteration.length_written]
  · intro i hw hw'
    have hi : i < frame.bytes.length := by
      rw [Iteration.length_written] at hw
      exact hw
    rw [Iteration.getElem_written _ i hw hi, Iteration.getElem_written _ i hw' hi]

def outcome (frame : Frame) (drawn : List Draw) : List Byte :=
  (clientTurn zeroBuffer frame (replay 0 drawn)).value.written

theorem written_eq_outcome (it : Iteration) : it.written = outcome it.frame it.drawn := by
  have same : clientTurn it.head it.frame (replay 0 it.drawn) = it.turn :=
    replay_taken (clientTurn_local it.head it.frame) 0 it.draws
  rw [Iteration.written, ← same, outcome]
  exact written_head_irrelevant _ _ _ _

/-- No leak between frames: a turn writes the same whatever earlier frames and
draws left in the buffer, and in every run the frame written is one function of
the frame read and of the values drawn in that turn. -/
theorem no_leak_between_frames :
    (∀ (head head' : EthBuffer) (frame : Frame) (s : Nat → Draw),
      (clientTurn head frame s).value.written = (clientTurn head' frame s).value.written) ∧
    ∃ F : Frame → List Draw → List Byte, ∀ (fromClient fromServer : List Frame)
      (draws : Nat → Draw),
      List.Forall₂ (fun frame it => it.written = F frame it.drawn) fromClient
        (main fromClient fromServer draws).toServer :=
  ⟨written_head_irrelevant, outcome, fun fromClient _ draws =>
    clientLoop_forall₂ written_eq_outcome zeroBuffer fromClient draws⟩

end RdmaFuzzing.ForwardedFrames
