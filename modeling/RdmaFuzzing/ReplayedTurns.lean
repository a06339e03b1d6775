import RdmaFuzzing.FuzzedPayload
import RdmaFuzzing.ProxyChain

/-! Replaying a capture. The masks are XORs, so a proxy fuzzer that is fed the frames
it wrote, and draws again what it drew, undoes its changes to the base headers. The
extension header is chosen by the opcode after the change, which the replay turns
back, so there the two may go to different bytes. -/

namespace RdmaFuzzing.ReplayedTurns
open FrameLayout CheckBufferType FuzzIbBth RandomDraws ProxyFuzzer EmittedFrames ProxyChain

/-- The same draws on the frame that was written; the buffer may hold anything. -/
def replayed (it : Iteration) (head : EthBuffer) : Iteration := ⟨head, passedOn it, it.draws⟩

def opcodeRead (it : Iteration) : Byte := it.frame.bytes[46]?.getD 0

def opcodeWritten (it : Iteration) : Byte := it.written[46]?.getD 0

def extensionCell (opcode : Byte) (s : Nat → Draw) : Option Nat :=
  if 0 < extensionLen opcode then some (58 + (s 2).val % extensionLen opcode) else none

/-- The mask of the extension header is empty, or the opcode read and the opcode
written make it reach the same bytes of the frame. -/
def Undone (it : Iteration) : Prop :=
  it.frame.kind = .ibTraffic → 46 < it.frame.nread →
    randomByte (it.draws 3) = 0 ∨
      ∀ i < it.frame.nread, extensionCell (opcodeRead it) it.draws = some i ↔
        extensionCell (opcodeWritten it) it.draws = some i

theorem opcodeWritten_eq (it : Iteration) (ib : it.frame.kind = .ibTraffic)
    (long : 46 < it.frame.nread) :
    opcodeWritten it = nextOpcode (opcodeRead it) it.draws := by
  rw [opcodeWritten, ← List.getD_eq_getElem?_getD]
  exact opcode_written it ib long

theorem nextOpcode_again (it : Iteration) (ib : it.frame.kind = .ibTraffic)
    (long : 46 < it.frame.nread) :
    nextOpcode (opcodeWritten it) it.draws = opcodeRead it := by
  rw [opcodeWritten_eq it ib long, nextOpcode, nextOpcode, BitVec.xor_assoc, BitVec.xor_self]
  exact BitVec.xor_zero

theorem extensionCell_iff (opcode : Byte) (s : Nat → Draw) (i : Nat) :
    extensionCell opcode s = some i ↔
      0 < extensionLen opcode ∧ i = 58 + (s 2).val % extensionLen opcode := by
  rw [extensionCell]
  split_ifs with pos
  · rw [Option.some_inj]
    exact ⟨fun cell => ⟨pos, cell.symm⟩, fun cell => cell.2.symm⟩
  · simp [pos]

theorem extensionXor_eq (opcode : Byte) (s : Nat → Draw) (i : Nat) (past : 46 ≤ i) :
    extensionXor opcode (after s 2) (i - 46) =
      if extensionCell opcode s = some i then randomByte (s 3) else 0 := by
  have cell : extensionCell opcode s = some i ↔
      0 < extensionLen opcode ∧ i - 46 = 12 + (after s 2 0).val % extensionLen opcode := by
    have first : after s 2 0 = s 2 := rfl
    rw [extensionCell_iff, first]
    omega
  rw [extensionXor]
  simp only [cell]
  rfl

theorem replayed_iff (it : Iteration) (head : EthBuffer) :
    (replayed it head).written = it.frame.bytes ↔
      ∀ i < it.frame.nread, turnXor (opcodeWritten it) (passedOn it) it.draws i =
        turnXor (opcodeRead it) it.frame it.draws i := by
  have cell (i : Nat) (hr : i < (replayed it head).written.length)
      (hi : i < it.frame.bytes.length) :
      (replayed it head).written[i] = it.frame.bytes[i] ↔
        turnXor (opcodeWritten it) (passedOn it) it.draws i =
          turnXor (opcodeRead it) it.frame it.draws i := by
    have hw : i < it.written.length := by
      rw [it.length_written]
      exact hi
    have again := (replayed it head).getElem_written i hr hw
    rw [again]
    change it.written[i] ^^^ turnXor (opcodeWritten it) (passedOn it) it.draws i = _ ↔ _
    rw [it.getElem_written i hw hi, BitVec.xor_assoc]
    refine ⟨?_, ?_⟩
    · intro same
      have zero := (BitVec.xor_right_inj _).mp (same.trans BitVec.xor_zero.symm)
      exact (BitVec.xor_eq_zero_iff.mp zero).symm
    · intro same
      rw [same]
      change _ ^^^ (turnXor (opcodeRead it) it.frame it.draws i ^^^ _) = _
      rw [BitVec.xor_self]
      exact BitVec.xor_zero
  have length : (replayed it head).written.length = it.frame.bytes.length :=
    (replayed it head).length_written.trans it.length_written
  refine ⟨?_, ?_⟩
  · intro restored i inside
    have hi : i < it.frame.bytes.length := inside
    exact (cell i (length ▸ hi) hi).mp (List.getElem_of_eq restored _)
  · intro same
    exact List.ext_getElem length fun i hr hi => (cell i hr hi).mpr (same i hi)

theorem masks_agree_iff {w : Nat} (mask : BitVec w) (p q : Prop) [Decidable p] [Decidable q] :
    ((if p then mask else 0) = if q then mask else 0) ↔ mask = 0 ∨ (p ↔ q) := by
  split_ifs with first second second
  · exact iff_of_true rfl (Or.inr (iff_of_true first second))
  · exact (or_iff_left fun same => second (same.mp first)).symm
  · rw [eq_comm]
    exact (or_iff_left fun same => first (same.mpr second)).symm
  · exact iff_of_true rfl (Or.inr (iff_of_false first second))

theorem turnXor_again_iff (it : Iteration) (ib : it.frame.kind = .ibTraffic)
    (long : 46 < it.frame.nread) (i : Nat) :
    turnXor (opcodeWritten it) (passedOn it) it.draws i =
        turnXor (opcodeRead it) it.frame it.draws i ↔
      randomByte (it.draws 3) = 0 ∨ (extensionCell (opcodeRead it) it.draws = some i ↔
        extensionCell (opcodeWritten it) it.draws = some i) := by
  have ib' : (passedOn it).kind = .ibTraffic := (kind_passedOn it).trans ib
  by_cases past : 46 ≤ i
  · rw [turnXor, turnXor, if_pos ⟨ib', past⟩, if_pos ⟨ib, past⟩, roundXor, roundXor,
      nextOpcode_again it ib long, ← opcodeWritten_eq it ib long, extensionXor_eq _ _ _ past,
      extensionXor_eq _ _ _ past, ← masks_agree_iff]
    exact BitVec.xor_right_inj _
  · have far (opcode : Byte) : extensionCell opcode it.draws ≠ some i := by
      rw [Ne, extensionCell_iff]
      omega
    rw [turnXor, turnXor, if_neg fun cell => past cell.2, if_neg fun cell => past cell.2]
    exact iff_of_true rfl (Or.inr (iff_of_false (far _) (far _)))

theorem replayed_undone_iff (it : Iteration) (head : EthBuffer) :
    (replayed it head).written = it.frame.bytes ↔ Undone it := by
  rw [replayed_iff, Undone]
  by_cases ib : it.frame.kind = .ibTraffic
  · by_cases long : 46 < it.frame.nread
    · simp only [ib, long, forall_const, turnXor_again_iff it ib long]
      refine ⟨?_, ?_⟩
      · intro same
        by_cases empty : randomByte (it.draws 3) = 0
        · exact Or.inl empty
        · exact Or.inr fun i inside => (same i inside).resolve_left empty
      · rintro (empty | cells) i inside
        · exact Or.inl empty
        · exact Or.inr (cells i inside)
    · refine ⟨fun _ _ some_header => absurd some_header long, ?_⟩
      intro _ i inside
      rw [turnXor, turnXor, if_neg fun cell => long (Nat.lt_of_le_of_lt cell.2 inside),
        if_neg fun cell => long (Nat.lt_of_le_of_lt cell.2 inside)]
  · have ib' : (passedOn it).kind ≠ .ibTraffic := by
      rw [kind_passedOn]
      exact ib
    simp [turnXor, ib, ib']

/-- The replay gives back the frame that was read, exactly when the extension
header is no obstacle. -/
theorem replay_restores_iff (it : Iteration) (head : EthBuffer) :
    (replayed it head).written = it.frame.bytes ↔ Undone it :=
  replayed_undone_iff it head

/-- A frame of RDMA traffic has an opcode, and the opcode read and the opcode written
select extension headers of one length. -/
def Steady (it : Iteration) : Prop :=
  it.frame.kind = .ibTraffic →
    46 < it.frame.nread ∧ extensionLen (opcodeRead it) = extensionLen (opcodeWritten it)

theorem undone_of_steady {it : Iteration} (steady : Steady it) : Undone it := by
  intro ib _
  right
  intro i _
  rw [extensionCell, extensionCell, (steady ib).2]

theorem replayed_calls {it : Iteration} (steady : Steady it) (head : EthBuffer) :
    (replayed it head).calls = it.calls := by
  by_cases ib : it.frame.kind = .ibTraffic
  · obtain ⟨long, same⟩ := steady ib
    have ib' : (replayed it head).frame.kind = .ibTraffic := (kind_passedOn it).trans ib
    have long' : 46 < (replayed it head).frame.nread := by
      change 46 < (passedOn it).nread
      rw [passedOn_nread]
      exact long
    have written : opcodeIn (replayed it head).head (replayed it head).frame = opcodeWritten it :=
      opcodeIn_long head long'
    have read : opcodeIn it.head it.frame = opcodeRead it := opcodeIn_long it.head long
    rw [calls_ibTraffic _ ib', calls_ibTraffic it ib, written, read, roundCalls, roundCalls]
    change 2 + extensionCalls (nextOpcode (opcodeWritten it) it.draws) = _
    rw [nextOpcode_again it ib long, ← opcodeWritten_eq it ib long, extensionCalls,
      extensionCalls, same]
  · have ib' : (replayed it head).frame.kind ≠ .ibTraffic := by
      change (passedOn it).kind ≠ _
      rw [kind_passedOn]
      exact ib
    rw [it.calls_other ib, (replayed it head).calls_other ib']

theorem clientLoop_replayed (buf buf' : EthBuffer) (frames : List Frame) (s : Nat → Draw)
    (steady : ∀ it ∈ clientLoop buf frames s, Steady it) :
    (clientLoop buf' ((clientLoop buf frames s).map passedOn) s).map Iteration.written =
      frames.map Frame.bytes := by
  induction frames generalizing buf buf' s with
  | nil => rfl
  | cons frame rest ih =>
    let it : Iteration := ⟨buf, frame, s⟩
    rw [clientLoop, List.forall_mem_cons] at steady
    have first : (replayed it buf').written = frame.bytes :=
      (replayed_undone_iff it buf').mpr (undone_of_steady steady.1)
    have calls : (replayed it buf').calls = it.calls := replayed_calls steady.1 buf'
    have later := ih it.left (replayed it buf').left (after s it.calls) steady.2
    rw [clientLoop, List.map_cons, clientLoop, List.map_cons, List.map_cons]
    refine congrArg₂ List.cons first ?_
    rw [← later]
    exact congrArg (fun k => (clientLoop _ _ (after s k)).map Iteration.written) calls

/-- A run whose opcodes keep selecting extension headers of the same length is undone
by running it again on what it wrote. -/
theorem replay_restores_run (frames : List Frame) (draws : Nat → Draw)
    (steady : ∀ it ∈ (main frames [] draws).toServer, Steady it) :
    (main ((main frames [] draws).toServer.map passedOn) [] draws).toServer.map
      Iteration.written = frames.map Frame.bytes :=
  clientLoop_replayed zeroBuffer zeroBuffer frames draws steady

def elevens : Nat → Draw := fun _ => drawOf 11 (by decide)

theorem elevens_steady (head : EthBuffer) (frame : Frame) (long : 46 < frame.nread) :
    Steady ⟨head, frame, elevens⟩ := by
  intro ib
  have spared : headerXor elevens 0 = 0 := by decide
  refine ⟨long, ?_⟩
  rw [opcodeWritten_eq _ ib long, nextOpcode, spared]
  exact congrArg extensionLen BitVec.xor_zero.symm

/-- A SEND, a READ request, whose extension header is changed too, and a WRITE. -/
def capture : List Frame :=
  [FuzzedPayload.rdmaFrame 0x04, FuzzedPayload.rdmaFrame 0x0C, FuzzedPayload.rdmaFrame 0x0A]

theorem capture_replayed :
    (main ((main capture [] elevens).toServer.map passedOn) [] elevens).toServer.map
      Iteration.written = capture.map Frame.bytes := by
  refine replay_restores_run capture elevens ?_
  rw [main, capture]
  simp only [clientLoop, List.forall_mem_cons]
  refine ⟨?_, ?_, ?_, List.forall_mem_nil _⟩
  · exact elevens_steady _ (FuzzedPayload.rdmaFrame 0x04) (by decide)
  · exact elevens_steady _ (FuzzedPayload.rdmaFrame 0x0C) (by decide)
  · exact elevens_steady _ (FuzzedPayload.rdmaFrame 0x0A) (by decide)

end RdmaFuzzing.ReplayedTurns
