import RdmaFuzzing.CheckBufferType
import RdmaFuzzing.FuzzIbBth
import RdmaFuzzing.ReusedBuffer

/-! The two forwarding loops of `proxy-f.c`, one process each. A turn of either
loop reads a frame into the front of its buffer, forwards as many bytes as it
read and clears as many; `write` is taken to send all it is given. The buffer is
not cleared past the frame, so what a mutator puts there stays. -/

namespace RdmaFuzzing.ProxyFuzzer
open FrameLayout CheckBufferType FuzzIbBth MaskedChange RandomDraws ReusedBuffer

def maxEthLen : Nat := 1542

structure Frame where
  bytes : List Byte
  fits : bytes.length ≤ maxEthLen

abbrev EthBuffer : Type := Vector Byte maxEthLen

def zeroBuffer : EthBuffer := Vector.replicate maxEthLen 0

namespace Frame

def nread (frame : Frame) : Nat := frame.bytes.length

def kind (frame : Frame) : BufferType :=
  checkBufferType (⟨frame.bytes.toArray, rfl⟩ : Vector Byte frame.nread) frame.nread (le_refl _)

theorem nread_fits (frame : Frame) : (frame.nread : Int) ≤ maxEthLen :=
  Int.ofNat_le.mpr frame.fits

end Frame

/-- What one turn of a loop hands to `write`, and the buffer after its `memset`. -/
structure Turn where
  written : List Byte
  buffer : EthBuffer

/-- The switch on the type of the buffer; only RDMA traffic is fuzzed. -/
def switchBufType (bufferClient : EthBuffer) : BufferType → Draws Draw EthBuffer
  | .ipPkt => pure bufferClient
  | .udpSeg => pure bufferClient
  | .ibTraffic =>
      fuzzIbBth bufferClient ibBthOffset (by decide) (ibPseudPayloadOffset - ibBthOffset) 1
  | .other => pure bufferClient

def clientTurn (bufferClient : EthBuffer) (frame : Frame) : Draws Draw Turn := do
  let received := store bufferClient 0 frame.bytes
  let bufType := checkBufferType received frame.nread frame.nread_fits
  let sent ← switchBufType received bufType
  pure ⟨front sent frame.nread, fill sent frame.nread 0⟩

def serverTurn (bufferServer : EthBuffer) (frame : Frame) : Turn :=
  let received := store bufferServer 0 frame.bytes
  ⟨front received frame.nread, fill received frame.nread 0⟩

/-- One turn of the client-to-server loop: the buffer at its head, the frame it
read, and the results `rand()` would return from there on. -/
structure Iteration where
  head : EthBuffer
  frame : Frame
  draws : Nat → Draw

namespace Iteration

def turn (it : Iteration) : Run Turn := clientTurn it.head it.frame it.draws

def written (it : Iteration) : List Byte := it.turn.value.written

def left (it : Iteration) : EthBuffer := it.turn.value.buffer

def calls (it : Iteration) : Nat := it.turn.calls

def drawn (it : Iteration) : List Draw := taken (clientTurn it.head it.frame) it.draws

end Iteration

def clientLoop (bufferClient : EthBuffer) : List Frame → (Nat → Draw) → List Iteration
  | [], _ => []
  | frame :: rest, s =>
      let it : Iteration := ⟨bufferClient, frame, s⟩
      it :: clientLoop it.left rest (after s it.calls)

def serverLoop (bufferServer : EthBuffer) : List Frame → List (List Byte)
  | [] => []
  | frame :: rest =>
      let turn := serverTurn bufferServer frame
      turn.written :: serverLoop turn.buffer rest

structure Forwarding where
  toServer : List Iteration
  toClient : List (List Byte)

def main (fromClient fromServer : List Frame) (draws : Nat → Draw) : Forwarding :=
  ⟨clientLoop zeroBuffer fromClient draws, serverLoop zeroBuffer fromServer⟩

theorem checkBufferType_received (buf : EthBuffer) (frame : Frame) :
    checkBufferType (store buf 0 frame.bytes) frame.nread frame.nread_fits = frame.kind := by
  apply checkBufferType_congr
  intro i hn hm inside
  have hi : i < frame.bytes.length := Int.ofNat_lt.mp inside
  rw [getElem_store_front _ _ _ _ hi]
  rfl

/-- The opcode byte that the mutators find: the frame's, or what an earlier
frame left in its place when this one ends before it. -/
def opcodeIn (buf : EthBuffer) (frame : Frame) : Byte := frame.bytes[46]?.getD buf[46]

def turnXor (opcode : Byte) (frame : Frame) (s : Nat → Draw) (i : Nat) : Byte :=
  if frame.kind = .ibTraffic ∧ 46 ≤ i then roundXor opcode s (i - 46) else 0

theorem clientTurn_run (buf : EthBuffer) (frame : Frame) (s : Nat → Draw) :
    let sent := switchBufType (store buf 0 frame.bytes) frame.kind s
    clientTurn buf frame s =
      ⟨⟨front sent.value frame.nread, fill sent.value frame.nread 0⟩, sent.calls⟩ := by
  rw [← checkBufferType_received buf frame]
  rfl

theorem switchBufType_other (buf : EthBuffer) (kind : BufferType) (h : kind ≠ .ibTraffic)
    (s : Nat → Draw) : switchBufType buf kind s = ⟨buf, 0⟩ := by
  cases kind with
  | ibTraffic => exact absurd rfl h
  | ipPkt | udpSeg | other => rfl

theorem switchBufType_ibTraffic (buf : EthBuffer) (s : Nat → Draw) :
    switchBufType buf .ibTraffic s = fuzzRound buf 46 (by decide) 12 s :=
  fuzzIbBth_one _ _ _ _ _

theorem getElem_switchBufType (buf : EthBuffer) (frame : Frame) (s : Nat → Draw) (j : Nat)
    (hj : j < maxEthLen) :
    (switchBufType (store buf 0 frame.bytes) frame.kind s).value[j] =
      (store buf 0 frame.bytes)[j] ^^^ turnXor (opcodeIn buf frame) frame s j := by
  by_cases ib : frame.kind = .ibTraffic
  · have opcode : (store buf 0 frame.bytes)[46] = opcodeIn buf frame := by
      rw [getElem_store]
      rfl
    rw [ib, switchBufType_ibTraffic, fuzzRound_getElem, opcode]
    simp only [turnXor, ib, true_and]
  · rw [switchBufType_other _ _ ib]
    simp [turnXor, ib]

theorem switchBufType_agree (buf : EthBuffer) (kind : BufferType) (s : Nat → Draw) :
    AgreeOn (sparedIn ibBthOffset) buf (switchBufType buf kind s).value := by
  cases kind with
  | ibTraffic => exact fuzzIbBth_agree _ _ _ _ _
  | ipPkt | udpSeg | other => exact AgreeOn.refl _ _

theorem switchBufType_local (buf : EthBuffer) (kind : BufferType) :
    Local (switchBufType buf kind) := by
  cases kind with
  | ibTraffic => exact fuzzIbBth_local _ _ _ _ _
  | ipPkt | udpSeg | other => exact local_pure _

theorem clientTurn_local (buf : EthBuffer) (frame : Frame) : Local (clientTurn buf frame) :=
  local_bind (switchBufType_local _ _) fun _ => local_pure _

namespace Iteration

theorem written_eq (it : Iteration) :
    it.written =
      front (switchBufType (store it.head 0 it.frame.bytes) it.frame.kind it.draws).value
        it.frame.nread := by
  rw [written, turn, clientTurn_run]

theorem length_written (it : Iteration) : it.written.length = it.frame.nread := by
  rw [written_eq, length_front]
  exact Nat.min_eq_left it.frame.fits

/-- Byte for byte: the frame read, XORed with what the opcode it carries and the
draws of the turn decide. The opcode matters only where the frame contains it. -/
theorem getElem_written (it : Iteration) (i : Nat) (hw : i < it.written.length)
    (hi : i < it.frame.bytes.length) :
    it.written[i] =
      it.frame.bytes[i] ^^^ turnXor (it.frame.bytes[46]?.getD 0) it.frame it.draws i := by
  have room : i < maxEthLen := Nat.lt_of_lt_of_le hi it.frame.fits
  simp only [written_eq, getElem_front _ _ _ _ room]
  rw [getElem_switchBufType, getElem_store_front _ _ _ _ hi]
  congr 1
  by_cases past : 46 ≤ i
  · have known : it.frame.bytes[46]? = some (it.frame.bytes[46]) :=
      List.getElem?_eq_getElem (by omega)
    rw [opcodeIn, known]
    rfl
  · simp [turnXor, past]

theorem written_eq_iff (it : Iteration) (i : Nat) :
    it.written[i]? = it.frame.bytes[i]? ↔
      (i < it.frame.nread → turnXor (it.frame.bytes[46]?.getD 0) it.frame it.draws i = 0) := by
  have length : it.written.length = it.frame.bytes.length := it.length_written
  by_cases inside : i < it.frame.bytes.length
  · rw [List.getElem?_eq_getElem (by omega), List.getElem?_eq_getElem inside,
      it.getElem_written i (by omega) inside, Option.some_inj]
    refine ⟨?_, ?_⟩
    · intro same _
      exact (BitVec.xor_right_inj _).mp (same.trans BitVec.xor_zero.symm)
    · intro zero
      rw [zero inside]
      exact BitVec.xor_zero
  · rw [List.getElem?_eq_none (by omega), List.getElem?_eq_none (by omega)]
    simp [Frame.nread, inside]

theorem written_other (it : Iteration) (other : it.frame.kind ≠ .ibTraffic) :
    it.written = it.frame.bytes := by
  rw [written_eq, switchBufType_other _ _ other]
  exact front_store _ _ it.frame.fits

theorem calls_other (it : Iteration) (other : it.frame.kind ≠ .ibTraffic) : it.calls = 0 := by
  rw [calls, turn, clientTurn_run, switchBufType_other _ _ other]

theorem getElem_left (it : Iteration) (j : Nat) (hj : j < maxEthLen) :
    it.left[j] =
      if j < it.frame.nread then 0
      else it.head[j] ^^^ turnXor (opcodeIn it.head it.frame) it.frame it.draws j := by
  simp only [left, turn, clientTurn_run, getElem_fill, getElem_switchBufType]
  split_ifs with inside
  · rfl
  · rw [getElem_store_past _ _ _ _ _ (by simpa [Frame.nread] using inside)]

end Iteration

theorem serverTurn_written (buf : EthBuffer) (frame : Frame) :
    (serverTurn buf frame).written = frame.bytes :=
  front_store _ _ frame.fits

theorem serverLoop_eq (buf : EthBuffer) (frames : List Frame) :
    serverLoop buf frames = frames.map Frame.bytes := by
  induction frames generalizing buf with
  | nil => rfl
  | cons frame rest ih =>
    rw [serverLoop, ih, serverTurn_written]
    rfl

theorem clientLoop_forall₂ {P : Frame → Iteration → Prop}
    (turns : ∀ it : Iteration, P it.frame it) (buf : EthBuffer) (frames : List Frame)
    (s : Nat → Draw) : List.Forall₂ P frames (clientLoop buf frames s) := by
  induction frames generalizing buf s with
  | nil => exact List.Forall₂.nil
  | cons frame rest ih => exact List.Forall₂.cons (turns ⟨buf, frame, s⟩) (ih _ _)

end RdmaFuzzing.ProxyFuzzer
