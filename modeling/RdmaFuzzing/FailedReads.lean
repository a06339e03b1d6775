import RdmaFuzzing.ProxyFuzzer

/-! Reads that fail. Neither loop of `proxy-f.c` looks at the result of `read`
before it hands it on: as an `int` to `check_buffer_type`, and converted to
`size_t` to `write` and `memset`. After a failure the length is the largest one
there is, and the `memset` overruns the buffer, so the loop goes no further. -/

namespace RdmaFuzzing.FailedReads
open FrameLayout CheckBufferType FuzzIbBth RandomDraws ReusedBuffer ProxyFuzzer

/-- A result of `read`: a frame, or the failure -1. -/
abbrev ReadResult : Type := Option Frame

def read (buf : EthBuffer) : ReadResult → EthBuffer × Int
  | some frame => (store buf 0 frame.bytes, frame.nread)
  | none => (buf, -1)

theorem read_fits (buf : EthBuffer) (result : ReadResult) : (read buf result).2 ≤ maxEthLen := by
  cases result with
  | none => exact (by decide : (-1 : Int) ≤ (maxEthLen : Nat))
  | some frame => exact frame.nread_fits

def sizeT (n : Int) : Nat := (BitVec.ofInt 64 n).toNat

/-- `memset(buffer, 0, len)`, which is defined only inside the buffer. -/
def memset (buf : EthBuffer) (len : Nat) : Option EthBuffer :=
  if len ≤ maxEthLen then some (fill buf len 0) else none

structure Turn where
  result : ReadResult
  writeLen : Nat
  memsetLen : Nat
  written : List Byte
  buffer : Option EthBuffer

abbrev Process : Type :=
  (buf : EthBuffer) → (nread : Int) → nread ≤ maxEthLen → Draws Draw EthBuffer

def clientProcess : Process := fun buf nread fits =>
  switchBufType buf (checkBufferType buf nread fits)

def serverProcess : Process := fun buf _ _ => pure buf

def turn (process : Process) (buf : EthBuffer) (result : ReadResult) : Draws Draw Turn := do
  let received := read buf result
  let sent ← process received.1 received.2 (read_fits buf result)
  let len := sizeT received.2
  pure ⟨result, len, len, front sent len, memset sent len⟩

/-- A loop goes on as long as its `memset` stays inside the buffer. -/
def loop (process : Process) (buf : EthBuffer) :
    List ReadResult → (Nat → Draw) → List Turn
  | [], _ => []
  | result :: rest, s =>
      let run := turn process buf result s
      run.value ::
        match run.value.buffer with
        | some next => loop process next rest (after s run.calls)
        | none => []

def outcome (t : Turn) : List Byte × Option EthBuffer := (t.written, t.buffer)

/-- No length leaves the buffer, and the successful iterations do what they do in
the run without the failing reads. -/
structure Intact (process : Process) (results : List ReadResult) (s : Nat → Draw) : Prop where
  lengths : ∀ t ∈ loop process zeroBuffer results s,
    t.writeLen ≤ maxEthLen ∧ t.memsetLen ≤ maxEthLen
  successful :
    ((loop process zeroBuffer results s).filter fun t => t.result.isSome).map outcome =
      (loop process zeroBuffer (results.filter Option.isSome) s).map outcome

theorem sizeT_nread (frame : Frame) : sizeT frame.nread = frame.nread := by
  have small := frame.fits
  rw [maxEthLen] at small
  rw [sizeT, BitVec.ofInt_natCast, BitVec.toNat_ofNat]
  exact Nat.mod_eq_of_lt (by rw [Frame.nread]; omega)

theorem sizeT_failed : maxEthLen < sizeT (-1) := by decide

theorem turn_succeeded (process : Process) (buf : EthBuffer) (frame : Frame) (s : Nat → Draw) :
    turn process buf (some frame) s =
      let sent := process (store buf 0 frame.bytes) frame.nread frame.nread_fits s
      ⟨⟨some frame, frame.nread, frame.nread, front sent.value frame.nread,
        some (fill sent.value frame.nread 0)⟩, sent.calls⟩ := by
  have run : turn process buf (some frame) s =
      let sent := process (store buf 0 frame.bytes) frame.nread frame.nread_fits s
      let len := sizeT frame.nread
      ⟨⟨some frame, len, len, front sent.value len, memset sent.value len⟩, sent.calls⟩ := rfl
  have fits : frame.nread ≤ maxEthLen := frame.fits
  simp only [run, sizeT_nread, memset, if_pos fits]

/-- Without failing reads the loops are those of the proxy as it is meant. -/
theorem loop_client (buf : EthBuffer) (frames : List Frame) (s : Nat → Draw) :
    (loop clientProcess buf (frames.map some) s).map Turn.written =
      (clientLoop buf frames s).map Iteration.written := by
  induction frames generalizing buf s with
  | nil => rfl
  | cons frame rest ih =>
    rw [List.map_cons, loop, turn_succeeded, clientLoop, List.map_cons, List.map_cons]
    exact congrArg _ (ih _ _)

theorem loop_server (buf : EthBuffer) (frames : List Frame) (s : Nat → Draw) :
    (loop serverProcess buf (frames.map some) s).map Turn.written = serverLoop buf frames := by
  induction frames generalizing buf s with
  | nil => rfl
  | cons frame rest ih =>
    rw [List.map_cons, loop, turn_succeeded, serverLoop, List.map_cons]
    exact congrArg _ (ih _ _)

theorem loop_failed (process : Process) (buf : EthBuffer) (results : List ReadResult)
    (s : Nat → Draw) (failure : none ∈ results) :
    ∃ t ∈ loop process buf results s, maxEthLen < t.writeLen := by
  induction results generalizing buf s with
  | nil => simp at failure
  | cons result rest ih =>
    cases result with
    -- The turn of the failing read has already written when its `memset` ends the loop.
    | none => exact ⟨_, List.mem_cons_self, sizeT_failed⟩
    | some frame =>
      have later : none ∈ rest := by simpa using failure
      rw [loop, turn_succeeded]
      obtain ⟨t, ht, long⟩ := ih _ _ later
      exact ⟨t, List.mem_cons_of_mem _ ht, long⟩

theorem loop_succeeds (process : Process) (buf : EthBuffer) (results : List ReadResult)
    (s : Nat → Draw) (success : none ∉ results) :
    ∀ t ∈ loop process buf results s,
      t.result.isSome ∧ t.writeLen ≤ maxEthLen ∧ t.memsetLen ≤ maxEthLen := by
  induction results generalizing buf s with
  | nil => simp [loop]
  | cons result rest ih =>
    cases result with
    | none => simp at success
    | some frame =>
      have later : none ∉ rest := by simpa using success
      rw [loop, turn_succeeded, List.forall_mem_cons]
      exact ⟨⟨rfl, frame.fits, frame.fits⟩, ih _ _ later⟩

theorem intact_of_success (process : Process) (results : List ReadResult) (s : Nat → Draw)
    (success : none ∉ results) : Intact process results s := by
  have turns := loop_succeeds process zeroBuffer results s success
  have all : results.filter Option.isSome = results := by
    rw [List.filter_eq_self]
    intro result mem
    rw [Option.isSome_iff_ne_none]
    exact fun failed => success (failed ▸ mem)
  refine ⟨fun t ht => (turns t ht).2, ?_⟩
  rw [all, List.filter_eq_self.mpr fun t ht => (turns t ht).1]

theorem intact_iff_success (process : Process) (results : List ReadResult) (s : Nat → Draw) :
    Intact process results s ↔ none ∉ results := by
  refine ⟨?_, intact_of_success process results s⟩
  intro intact failure
  obtain ⟨t, ht, long⟩ := loop_failed process zeroBuffer results s failure
  exact absurd (intact.lengths t ht).1 (by omega)

/-- Each loop stays intact exactly in the runs in which no read fails. -/
theorem intact_iff (fromClient fromServer : List ReadResult) (draws : Nat → Draw) :
    (Intact clientProcess fromClient draws ↔ none ∉ fromClient) ∧
      (Intact serverProcess fromServer draws ↔ none ∉ fromServer) :=
  ⟨intact_iff_success _ _ _, intact_iff_success _ _ _⟩

theorem failedRead_overruns :
    (¬ ∀ (results : List ReadResult) (s : Nat → Draw), Intact clientProcess results s) ∧
      ¬ ∀ (results : List ReadResult) (s : Nat → Draw), Intact serverProcess results s := by
  have broken (process : Process) (claimed : ∀ results s, Intact process results s) : False :=
    (intact_iff_success process [none] fun _ => 0).mp (claimed _ _) List.mem_cons_self
  exact ⟨broken clientProcess, broken serverProcess⟩

end RdmaFuzzing.FailedReads
