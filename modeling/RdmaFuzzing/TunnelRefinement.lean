import RdmaFuzzing.Tunnels

/-! Whole runs of `taptunnel.c` against whole runs of `proxy-f.c`. A turn of
`taptunnel.c` takes two draws for a frame of RDMA traffic and none for any other,
whatever the buffer holds, so each frame's draws have a fixed place in the stream
and the whole run is known in closed form. Against `proxy-f.c` the stream is the
one without the draws of the extension mutators; both buffers keep residue, and it
agrees wherever it can decide anything later. -/

namespace RdmaFuzzing.TunnelRefinement
open FrameLayout CheckBufferType FuzzIbBth MaskedChange RandomDraws ReusedBuffer ProxyFuzzer
open Relays Tunnels TapTunnel

/-- What a turn of `taptunnel.c` XORs into cell `j`. -/
def tunnelXor (frame : Frame) (s : Nat → Draw) (j : Nat) : Byte :=
  if frame.kind = .ibTraffic ∧ 46 ≤ j then headerXor s (j - 46) else 0

def tunnelCalls (frame : Frame) : Nat := if frame.kind = .ibTraffic then 2 else 0

theorem taptunnel_ibTraffic (buf : EthBuffer) (s : Nat → Draw) :
    taptunnel buf .ibTraffic s =
      ⟨switchHeader buf ibBthOffset header_room ((s 0).val % 12) (randomByte (s 1)), 2⟩ := rfl

theorem taptunnel_other (buf : EthBuffer) (kind : BufferType) (other : kind ≠ .ibTraffic)
    (s : Nat → Draw) : taptunnel buf kind s = ⟨buf, 0⟩ := by
  cases kind with
  | ibTraffic => exact absurd rfl other
  | ipPkt | udpSeg | other => rfl

theorem tunnelTurn_run (switch : Switch) (buf : EthBuffer) (frame : Frame) (s : Nat → Draw) :
    let sent := switch (store buf 0 frame.bytes) frame.kind s
    tunnelTurn switch buf frame s =
      ⟨⟨front sent.value frame.nread, fill sent.value frame.nread 0⟩, sent.calls⟩ := by
  rw [← checkBufferType_received buf frame]
  rfl

theorem taptunnel_calls (buf : EthBuffer) (frame : Frame) (s : Nat → Draw) :
    (taptunnel buf frame.kind s).calls = tunnelCalls frame := by
  by_cases ib : frame.kind = .ibTraffic
  · rw [tunnelCalls, if_pos ib, ib]
    rfl
  · rw [tunnelCalls, if_neg ib, taptunnel_other _ _ ib]

theorem getElem_taptunnel (buf : EthBuffer) (frame : Frame) (s : Nat → Draw) (j : Nat)
    (hj : j < maxEthLen) :
    (taptunnel buf frame.kind s).value[j] = buf[j] ^^^ tunnelXor frame s j := by
  by_cases ib : frame.kind = .ibTraffic
  · have cell := getElem_switchHeader buf ibBthOffset header_room ((s 0).val % 12)
      (randomByte (s 1)) j hj
    rw [switchXor_twelve] at cell
    simp only [ib, taptunnel_ibTraffic, tunnelXor, true_and]
    exact cell
  · rw [taptunnel_other _ _ ib]
    simp [tunnelXor, ib]

theorem tunnelTurn_written (buf : EthBuffer) (frame : Frame) (s : Nat → Draw) :
    (tunnelTurn taptunnel buf frame s).value.written =
      frame.bytes.mapIdx fun i b => b ^^^ tunnelXor frame s i := by
  rw [tunnelTurn_run]
  apply List.ext_getElem
  · rw [length_front, List.length_mapIdx]
    exact Nat.min_eq_left frame.fits
  · intro i hw hi
    rw [List.length_mapIdx] at hi
    have room : i < maxEthLen := Nat.lt_of_lt_of_le hi frame.fits
    rw [getElem_front _ _ _ _ room, getElem_taptunnel, getElem_store_front _ _ _ _ hi,
      List.getElem_mapIdx]

theorem getElem_tunnelTurn_buffer (buf : EthBuffer) (frame : Frame) (s : Nat → Draw) (j : Nat)
    (hj : j < maxEthLen) :
    (tunnelTurn taptunnel buf frame s).value.buffer[j] =
      if j < frame.nread then 0 else buf[j] ^^^ tunnelXor frame s j := by
  rw [tunnelTurn_run, getElem_fill, getElem_taptunnel]
  split_ifs with inside
  · rfl
  · rw [getElem_store_past _ _ _ _ _ (by simpa [Frame.nread] using inside)]

theorem tunnelTurn_calls (buf : EthBuffer) (frame : Frame) (s : Nat → Draw) :
    (tunnelTurn taptunnel buf frame s).calls = tunnelCalls frame := by
  rw [tunnelTurn_run]
  exact taptunnel_calls _ _ _

def drawsBefore (frames : List Frame) (k : Nat) : Nat := ((frames.take k).map tunnelCalls).sum

theorem drawsBefore_succ (frame : Frame) (rest : List Frame) (k : Nat) :
    drawsBefore (frame :: rest) (k + 1) = tunnelCalls frame + drawsBefore rest k := by
  rw [drawsBefore, drawsBefore, List.take_succ_cons, List.map_cons, List.sum_cons]

theorem drawsBefore_two (frames : List Frame) (k : Nat) :
    drawsBefore frames k = 2 * (frames.take k).countP (fun frame => frame.kind = .ibTraffic) := by
  induction frames generalizing k with
  | nil => simp [drawsBefore]
  | cons frame rest ih =>
    cases k with
    | zero => rfl
    | succ k =>
      rw [drawsBefore_succ, ih, List.take_succ_cons, List.countP_cons, tunnelCalls]
      by_cases ib : frame.kind = .ibTraffic
      · simp [ib]
        omega
      · simp [ib]

/-- Every frame is written as it was read, but for one header byte that two draws
at a known place of the stream decide: neither residue nor other frames matter. -/
theorem tunnel_closed_form (draws : Nat → Draw) (frames : List Frame) :
    (toServer taptunnel draws).outputs (zeroBuffer, draws) frames =
      frames.mapIdx fun k frame =>
        frame.bytes.mapIdx fun i b =>
          b ^^^ tunnelXor frame
            (after draws
              (2 * (frames.take k).countP fun frame => frame.kind = .ibTraffic)) i := by
  suffices ∀ buf s, (toServer taptunnel draws).outputs (buf, s) frames =
      frames.mapIdx fun k frame => frame.bytes.mapIdx fun i b =>
        b ^^^ tunnelXor frame (after s (drawsBefore frames k)) i by
    rw [this]
    simp only [drawsBefore_two]
  induction frames with
  | nil => exact fun _ _ => rfl
  | cons frame rest ih =>
    intro buf s
    have calls := tunnelTurn_calls buf frame s
    have first := tunnelTurn_written buf frame s
    have later := ih (tunnelTurn taptunnel buf frame s).value.buffer
      (after s (tunnelTurn taptunnel buf frame s).calls)
    rw [List.mapIdx_cons]
    refine (congrArg₂ List.cons first later).trans ?_
    simp only [calls, after_after, drawsBefore_succ]
    rw [drawsBefore, List.take_zero, List.map_nil, List.sum_nil, after_zero]

/-- The header byte that is changed lies in the frame, or its mask is empty. -/
def TunnelInside (frame : Frame) (s : Nat → Draw) : Prop :=
  frame.kind = .ibTraffic → frame.nread ≤ 46 + (s 0).val % 12 →
    headerMask ((s 0).val % 12) (randomByte (s 1)) = 0

theorem headerXor_zero_on (P : Nat → Prop) (s : Nat → Draw) :
    (∀ k, P k → headerXor s k = 0) ↔
      (P ((s 0).val % 12) → headerMask ((s 0).val % 12) (randomByte (s 1)) = 0) := by
  refine ⟨?_, ?_⟩
  · intro zero cell
    have value := zero _ cell
    rwa [headerXor, if_pos rfl] at value
  · intro zero k cell
    rw [headerXor]
    split_ifs with hit
    · exact hit ▸ zero (hit ▸ cell)
    · rfl

theorem tunnelTurn_clear_iff (frame : Frame) (s : Nat → Draw) :
    (tunnelTurn taptunnel zeroBuffer frame s).value.buffer = zeroBuffer ↔
      TunnelInside frame s := by
  have cells : (tunnelTurn taptunnel zeroBuffer frame s).value.buffer = zeroBuffer ↔
      ∀ j < maxEthLen, frame.nread ≤ j → tunnelXor frame s j = 0 := by
    refine ⟨?_, ?_⟩
    · intro clear j hj past
      have cell : (tunnelTurn taptunnel zeroBuffer frame s).value.buffer[j] = 0 := by
        rw [clear, zeroBuffer, Vector.getElem_replicate]
      rw [getElem_tunnelTurn_buffer, if_neg (by omega)] at cell
      simpa [zeroBuffer] using cell
    · intro zero
      ext j hj
      rw [getElem_tunnelTurn_buffer]
      split_ifs with inside
      · simp [zeroBuffer]
      · rw [zero j hj (by omega)]
        simp
  rw [cells, TunnelInside]
  by_cases ib : frame.kind = .ibTraffic
  · have small : (s 0).val % 12 < 12 := Nat.mod_lt _ (by decide)
    have header := headerXor_zero_on (fun k => frame.nread ≤ 46 + k) s
    simp only [ib, forall_const, ← header, tunnelXor, true_and]
    refine ⟨?_, ?_⟩
    · intro zero k past
      by_cases hk : k < 12
      · have cell := zero (46 + k) (by rw [maxEthLen]; omega) past
        rwa [if_pos (by omega), Nat.add_sub_cancel_left] at cell
      · exact headerXor_past s k (by omega)
    · intro zero j _ past
      split_ifs with hj
      · exact zero (j - 46) (by omega)
      · rfl
  · simp [ib, tunnelXor]

theorem stateAfter_take_succ (draws : Nat → Draw) (buf : EthBuffer) (s : Nat → Draw)
    (frame : Frame) (rest : List Frame) (k : Nat) :
    (toServer taptunnel draws).stateAfter (buf, s) ((frame :: rest).take (k + 1)) =
      (toServer taptunnel draws).stateAfter
        ((tunnelTurn taptunnel buf frame s).value.buffer, after s (tunnelCalls frame))
        (rest.take k) := by
  rw [← tunnelTurn_calls buf frame s, List.take_succ_cons, Relay.stateAfter, List.foldl_cons]
  rfl

/-- The buffer of `taptunnel.c` is clear whenever the loop reads, exactly if each
frame of RDMA traffic takes its one change inside. -/
theorem tunnel_clear_iff (draws : Nat → Draw) (frames : List Frame) :
    (∀ k, ((toServer taptunnel draws).stateAfter (zeroBuffer, draws) (frames.take k)).1 =
      zeroBuffer) ↔
      ∀ k frame, frames[k]? = some frame →
        TunnelInside frame
          (after draws (2 * (frames.take k).countP fun frame => frame.kind = .ibTraffic)) := by
  simp only [← drawsBefore_two]
  suffices ∀ s, (∀ k, ((toServer taptunnel draws).stateAfter (zeroBuffer, s)
      (frames.take k)).1 = zeroBuffer) ↔
      ∀ k frame, frames[k]? = some frame →
        TunnelInside frame (after s (drawsBefore frames k)) from this draws
  induction frames with
  | nil =>
    intro s
    simp only [List.take_nil, List.getElem?_nil]
    exact ⟨fun _ _ _ absent => absurd absent (by simp), fun _ _ => rfl⟩
  | cons frame rest ih =>
    intro s
    have first : TunnelInside frame (after s (drawsBefore (frame :: rest) 0)) ↔
        (tunnelTurn taptunnel zeroBuffer frame s).value.buffer = zeroBuffer := by
      rw [tunnelTurn_clear_iff, drawsBefore, List.take_zero, List.map_nil, List.sum_nil,
        after_zero]
    refine ⟨?_, ?_⟩
    · intro clear k
      have one := clear 1
      rw [stateAfter_take_succ, List.take_zero] at one
      cases k with
      | zero =>
        intro frame' here
        cases Option.some.inj here
        exact first.mpr one
      | succ k =>
        intro frame' here
        rw [drawsBefore_succ, ← after_after]
        refine (ih _).mp ?_ k frame' here
        intro j
        have later := clear (j + 1)
        rwa [stateAfter_take_succ, show (tunnelTurn taptunnel zeroBuffer frame s).value.buffer =
          zeroBuffer from one] at later
    · intro inside k
      cases k with
      | zero => rfl
      | succ k =>
        rw [stateAfter_take_succ, first.mp (inside 0 frame rfl)]
        refine (ih _).mpr ?_ k
        intro j frame' here
        have later := inside (j + 1) frame' here
        rwa [drawsBefore_succ, ← after_after] at later

/-- The stream of a run of `proxy-f.c` without what its extension mutators drew. -/
def tunnelDraws (buf : EthBuffer) : List Frame → (Nat → Draw) → Nat → Draw
  | [], s => s
  | frame :: rest, s =>
      let it : Iteration := ⟨buf, frame, s⟩
      let later := tunnelDraws it.left rest (after s it.calls)
      if frame.kind = .ibTraffic then push (s 0) (push (s 1) later) else later

theorem store_agree {w n : Nat} {kept : Fin n → BitVec w} {x y : Vector (BitVec w) n}
    (agree : AgreeOn kept x y) (xs : List (BitVec w)) :
    AgreeOn kept (store x 0 xs) (store y 0 xs) := by
  intro i
  simp only [getElem_store, Nat.zero_le, if_true]
  cases xs[i.val - 0]? with
  | none => exact agree i
  | some b => rfl

theorem fill_agree {w n : Nat} {kept : Fin n → BitVec w} {x y : Vector (BitVec w) n}
    (agree : AgreeOn kept x y) (k : Nat) (b : BitVec w) :
    AgreeOn kept (fill x k b) (fill y k b) := by
  intro i
  simp only [getElem_fill]
  split_ifs
  · rfl
  · exact agree i

theorem switch_agree {x y : EthBuffer} (agree : AgreeOn (outsideExtension ibBthOffset) x y)
    (kind : BufferType) (s t : Nat → Draw)
    (same : kind = .ibTraffic → t 0 = s 0 ∧ t 1 = s 1) :
    AgreeOn (outsideExtension ibBthOffset) (switchBufType x kind s).value
      (taptunnel y kind t).value := by
  by_cases ib : kind = .ibTraffic
  · obtain ⟨first, second⟩ := same ib
    rw [ib, taptunnel_ibTraffic, switchBufType_ibTraffic, first, second]
    exact round_agree ibBthOffset header_room 12 agree s
  · rw [switchBufType_other _ _ ib, taptunnel_other _ _ ib]
    exact agree

structure WrittenAlike (it : Iteration) (bytes : List Byte) : Prop where
  length : bytes.length = it.written.length
  outside : ∀ i, ¬ (it.frame.kind = .ibTraffic ∧ 58 ≤ i ∧ i ≤ 85) → bytes[i]? = it.written[i]?

theorem turn_alike {buf buf' : EthBuffer} (agree : AgreeOn (outsideExtension ibBthOffset) buf buf')
    (frame : Frame) (s t : Nat → Draw)
    (same : frame.kind = .ibTraffic → t 0 = s 0 ∧ t 1 = s 1) :
    WrittenAlike ⟨buf, frame, s⟩ (tunnelTurn taptunnel buf' frame t).value.written ∧
      AgreeOn (outsideExtension ibBthOffset) (Iteration.mk buf frame s).left
        (tunnelTurn taptunnel buf' frame t).value.buffer := by
  let it : Iteration := ⟨buf, frame, s⟩
  have sent := switch_agree (store_agree agree frame.bytes) frame.kind s t same
  have written : (tunnelTurn taptunnel buf' frame t).value.written.length = it.written.length := by
    rw [tunnelTurn_written, List.length_mapIdx, it.length_written]
    rfl
  refine ⟨⟨written, ?_⟩, ?_⟩
  · intro i outside
    by_cases ib : frame.kind = .ibTraffic
    · by_cases inside : i < frame.nread
      · have room : i < maxEthLen := Nat.lt_of_lt_of_le inside frame.fits
        have apart : ¬ (58 ≤ i ∧ i < 86) := fun cells => outside ⟨ib, cells.1, by omega⟩
        have cell := sent.getElem_eq ⟨i, room⟩ (if_neg apart)
        have longW : i < it.written.length := by
          rw [it.length_written]
          exact inside
        rw [List.getElem?_eq_getElem (by rw [written]; exact longW),
          List.getElem?_eq_getElem longW, Option.some_inj]
        simp only [it.written_eq, tunnelTurn_run, getElem_front _ _ _ _ room]
        exact cell.symm
      · have short : it.written.length ≤ i := by
          rw [it.length_written]
          exact Nat.le_of_not_lt inside
        rw [List.getElem?_eq_none (by rw [written]; exact short), List.getElem?_eq_none short]
    · rw [it.written_other ib, tunnelTurn_written]
      simp [tunnelXor, ib, it]
  · rw [Iteration.left, Iteration.turn, clientTurn_run, tunnelTurn_run]
    exact fill_agree sent _ _

theorem loops_alike (draws : Nat → Draw) {buf buf' : EthBuffer}
    (agree : AgreeOn (outsideExtension ibBthOffset) buf buf') (frames : List Frame)
    (s : Nat → Draw) :
    List.Forall₂ WrittenAlike (clientLoop buf frames s)
      ((toServer taptunnel draws).outputs (buf', tunnelDraws buf frames s) frames) := by
  induction frames generalizing buf buf' s with
  | nil => exact .nil
  | cons frame rest ih =>
    let it : Iteration := ⟨buf, frame, s⟩
    let later := tunnelDraws it.left rest (after s it.calls)
    let stream := tunnelDraws buf (frame :: rest) s
    have start : frame.kind = .ibTraffic → stream 0 = s 0 ∧ stream 1 = s 1 := by
      intro ib
      have two : stream = push (s 0) (push (s 1) later) := if_pos ib
      rw [two]
      exact ⟨rfl, rfl⟩
    have left : after stream (tunnelCalls frame) = later := by
      by_cases ib : frame.kind = .ibTraffic
      · have two : stream = push (s 0) (push (s 1) later) := if_pos ib
        rw [two, tunnelCalls, if_pos ib, after_push, after_push, after_zero]
      · have none : stream = later := if_neg ib
        rw [none, tunnelCalls, if_neg ib, after_zero]
    obtain ⟨alike, agree'⟩ := turn_alike agree frame s stream start
    refine .cons alike ?_
    have rest' := ih agree' (after s it.calls)
    rw [← tunnelTurn_calls buf' frame stream] at left
    rw [show tunnelDraws it.left rest (after s it.calls) = _ from left.symm] at rest'
    exact rest'

/-- The whole run of the extended fuzzer refines the plain one: the loop of
`taptunnel.c`, on the draws that the extension mutators left, writes the same
frames but for the bytes of extension headers. -/
theorem run_refines_plain (frames : List Frame) (draws : Nat → Draw) :
    let plain := tunnelDraws zeroBuffer frames draws
    List.Forall₂ WrittenAlike (ProxyFuzzer.main frames [] draws).toServer
      ((toServer taptunnel plain).outputs (zeroBuffer, plain) frames) :=
  loops_alike _ (AgreeOn.refl _ zeroBuffer) frames draws

end RdmaFuzzing.TunnelRefinement
