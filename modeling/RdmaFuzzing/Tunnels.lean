import RdmaFuzzing.ProxyFuzzer
import RdmaFuzzing.Relays
import RdmaFuzzing.TapTunnel

/-! `proxy-f.c`, `taptunnel.c` and `tunnelnofuzz.c` after their `fork`. The three
programs share the two loops but for the call in the switch on the type of the
buffer. The two processes share no memory: each reads one device and writes the
other, and frames arrive while either is at work. A process holds a frame from its
`read` to its `write`. -/

namespace RdmaFuzzing.Tunnels
open FrameLayout CheckBufferType FuzzIbBth RandomDraws ReusedBuffer ProxyFuzzer
open StepSystem Relays

/-- What the client-to-server loop does with a buffer of the given type. -/
abbrev Switch : Type := EthBuffer → BufferType → Draws Draw EthBuffer

theorem header_room : ibBthOffset + 40 ≤ maxEthLen := by decide

/-- The switch of `taptunnel.c`. -/
def taptunnel : Switch
  | bufferClient, .ipPkt => pure bufferClient
  | bufferClient, .udpSeg => pure bufferClient
  | bufferClient, .ibTraffic =>
      TapTunnel.fuzzIbBth bufferClient ibBthOffset header_room
        (ibPseudPayloadOffset - ibBthOffset) 1
  | bufferClient, .other => pure bufferClient

/-- The switch of `tunnelnofuzz.c`, where the call is commented out. -/
def tunnelnofuzz : Switch
  | bufferClient, .ipPkt => pure bufferClient
  | bufferClient, .udpSeg => pure bufferClient
  | bufferClient, .ibTraffic => pure bufferClient
  | bufferClient, .other => pure bufferClient

def tunnelTurn (switch : Switch) (bufferClient : EthBuffer) (frame : Frame) :
    Draws Draw Turn := do
  let received := store bufferClient 0 frame.bytes
  let bufType := checkBufferType received frame.nread frame.nread_fits
  let sent ← switch received bufType
  pure ⟨front sent frame.nread, fill sent frame.nread 0⟩

def toServer (switch : Switch) (draws : Nat → Draw) :
    Relay (EthBuffer × (Nat → Draw)) Frame (List Byte) where
  start := (zeroBuffer, draws)
  turn st frame :=
    let run := tunnelTurn switch st.1 frame st.2
    ((run.value.buffer, after st.2 run.calls), run.value.written)

def toClient : Relay EthBuffer Frame (List Byte) where
  start := zeroBuffer
  turn buf frame := ((serverTurn buf frame).buffer, (serverTurn buf frame).written)

abbrev World : Type :=
  Station (EthBuffer × (Nat → Draw)) Frame (List Byte) × Station EthBuffer Frame (List Byte)

def processes (switch : Switch) (draws : Nat → Draw) : System World :=
  interleave (station (toServer switch draws)) (station toClient)

theorem toServer_outputs (draws : Nat → Draw) (buf : EthBuffer) (s : Nat → Draw)
    (frames : List Frame) :
    (toServer switchBufType draws).outputs (buf, s) frames =
      (clientLoop buf frames s).map Iteration.written := by
  induction frames generalizing buf s with
  | nil => rfl
  | cons frame rest ih =>
    rw [Relay.outputs, clientLoop, List.map_cons, ← ih]
    rfl

theorem toClient_outputs (buf : EthBuffer) (frames : List Frame) :
    toClient.outputs buf frames = serverLoop buf frames := by
  induction frames generalizing buf with
  | nil => rfl
  | cons frame rest ih =>
    rw [Relay.outputs, serverLoop, ← ih]
    rfl

theorem tunnelnofuzz_run (buf : EthBuffer) (kind : BufferType) (s : Nat → Draw) :
    tunnelnofuzz buf kind s = ⟨buf, 0⟩ := by
  cases kind with
  | ipPkt | udpSeg | ibTraffic | other => rfl

theorem unfuzzed_outputs (draws : Nat → Draw) (buf : EthBuffer) (s : Nat → Draw)
    (frames : List Frame) :
    (toServer tunnelnofuzz draws).outputs (buf, s) frames = frames.map Frame.bytes := by
  induction frames generalizing buf s with
  | nil => rfl
  | cons frame rest ih =>
    have written : (tunnelTurn tunnelnofuzz buf frame s).value.written = frame.bytes := by
      rw [tunnelTurn, bind_value, tunnelnofuzz_run]
      exact front_store buf frame.bytes frame.fits
    rw [Relay.outputs, List.map_cons, ← ih, ← written]
    rfl

/-- What the two devices have been given, when `forwarded` and `returned` are due
for all that has arrived: some of it in order, the rest held or queued, and from
here on the processes can write it all without another frame arriving. -/
structure Delivers (sys : System World) (w : World) (forwarded returned : List (List Byte)) :
    Prop where
  toServer : w.1.sent <+: forwarded
  toClient : w.2.sent <+: returned
  serverCount : w.1.sent.length + (held w.1.phase).length + w.1.queue.length = forwarded.length
  clientCount : w.2.sent.length + (held w.2.phase).length + w.2.queue.length = returned.length
  drains : ∃ w', Reachable (sys.onward w) w' ∧ w'.1.arrived = w.1.arrived ∧
    w'.2.arrived = w.2.arrived ∧ w'.1.sent = forwarded ∧ w'.2.sent = returned

theorem count_eq {σ α β : Type} {r : Relay σ α β} {w : Station σ α β}
    (reach : Reachable (station r) w) :
    w.sent.length + (held w.phase).length + w.queue.length =
      (r.outputs r.start w.arrived).length := by
  obtain ⟨taken, arrived, _, outputs⟩ := accounts reach
  have done := congrArg List.length outputs
  rw [List.length_append, r.length_outputs] at done
  rw [r.length_outputs, arrived, List.length_append, done]

theorem delivers {switch : Switch} {draws : Nat → Draw} {w : World}
    (reach : Reachable (processes switch draws) w) :
    Delivers (processes switch draws) w
      ((toServer switch draws).outputs (zeroBuffer, draws) w.1.arrived)
      (w.2.arrived.map Frame.bytes) := by
  obtain ⟨first, second⟩ := interleave_parts reach
  obtain ⟨u, drained, empty, free⟩ := drains (toServer switch draws) w.1
  obtain ⟨v, drained', empty', free'⟩ := drains toClient w.2
  obtain ⟨reachU, arrivedU⟩ := drained.reachable first
  obtain ⟨reachV, arrivedV⟩ := drained'.reachable second
  have returned (frames : List Frame) :
      toClient.outputs toClient.start frames = frames.map Frame.bytes :=
    (toClient_outputs zeroBuffer frames).trans (serverLoop_eq zeroBuffer frames)
  refine ⟨sent_starts first, ?_, count_eq first, ?_, (u, v), ?_, arrivedU, arrivedV, ?_, ?_⟩
  · rw [← returned]
    exact sent_starts second
  · rw [← returned]
    exact count_eq second
  · exact onward_interleave drained.onward drained'.onward
  · rw [← arrivedU]
    exact sent_of_drained reachU empty free
  · rw [← returned, ← arrivedV]
    exact sent_of_drained reachV empty' free'

/-- Whatever the order in which the two processes of the proxy fuzzer take their
steps and frames arrive, the devices are given what the two loops write when each
runs by itself, in order, with nothing lost or doubled. -/
theorem interleaving_refines (draws : Nat → Draw) (w : World)
    (reach : Reachable (processes switchBufType draws) w) :
    let whole := ProxyFuzzer.main w.1.arrived w.2.arrived draws
    Delivers (processes switchBufType draws) w (whole.toServer.map Iteration.written)
      whole.toClient := by
  have facts := delivers reach
  rw [toServer_outputs, ← serverLoop_eq zeroBuffer] at facts
  exact facts

/-- `tunnelnofuzz.c` is a wire in both directions, in any order of steps. -/
theorem unfuzzed_wire (draws : Nat → Draw) (w : World)
    (reach : Reachable (processes tunnelnofuzz draws) w) :
    Delivers (processes tunnelnofuzz draws) w (w.1.arrived.map Frame.bytes)
      (w.2.arrived.map Frame.bytes) := by
  have facts := delivers reach
  rw [unfuzzed_outputs] at facts
  exact facts

theorem shortFrame_fits : ([1, 2, 3] : List Byte).length ≤ maxEthLen := by decide

def shortFrame : Frame := ⟨[1, 2, 3], shortFrame_fits⟩

def underWay (switch : Switch) (draws : Nat → Draw) : World :=
  let run := (toServer switch draws).turn (zeroBuffer, draws) shortFrame
  (⟨[shortFrame], [], .holding run.1 run.2, []⟩, ⟨[shortFrame], [shortFrame], .taking zeroBuffer, []⟩)

theorem underWay_reachable (switch : Switch) (draws : Nat → Draw) :
    Reachable (processes switch draws) (underWay switch draws) := by
  refine reachable_interleave ?_ ?_
  · exact .step (.step (.initial rfl) (.arrive shortFrame)) (.take rfl rfl)
  · exact .step (.initial rfl) (.arrive shortFrame)

theorem underWay_refines :
    let w := underWay switchBufType fun _ => 0
    let whole := ProxyFuzzer.main w.1.arrived w.2.arrived fun _ => 0
    Delivers (processes switchBufType fun _ => 0) w (whole.toServer.map Iteration.written)
      whole.toClient :=
  interleaving_refines _ _ (underWay_reachable switchBufType fun _ => 0)

theorem underWay_wire :
    let w := underWay tunnelnofuzz fun _ => 0
    Delivers (processes tunnelnofuzz fun _ => 0) w (w.1.arrived.map Frame.bytes)
      (w.2.arrived.map Frame.bytes) :=
  unfuzzed_wire _ _ (underWay_reachable tunnelnofuzz fun _ => 0)

end RdmaFuzzing.Tunnels
