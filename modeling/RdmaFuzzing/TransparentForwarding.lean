import RdmaFuzzing.ForwardProxy
import RdmaFuzzing.PortProxy

/-! Whether the UDP proxies hand on what they receive. Both give `sendto` the
size of the buffer where they hold the number of bytes received, so a datagram
goes out padded with zeros unless it filled the buffer. -/

namespace RdmaFuzzing.TransparentForwarding
open CText FrameLayout ReusedBuffer UdpSocket

def PortTurnTransparent (t : PortProxy.Turn) : Prop :=
  ∀ dest bytes, .sendto dest bytes ∈ t.events → bytes = t.received.bytes

def ForwardTurnTransparent (t : ForwardProxy.Turn) : Prop := t.sent = t.received

/-- The datagrams that `ib_proxy_two.c` sends on: the first two, and those that
come from a standard port. -/
def SentOn (i : Nat) (d : Datagram) : Prop :=
  i < 2 ∨ d.sender.port = PortProxy.clientPortStd ∨ d.sender.port = PortProxy.serverPortStd

theorem sendto_eventsAt (i : Nat) (d : Datagram) (bytes : List Byte) :
    (∃ dest, .sendto dest bytes ∈ PortProxy.eventsAt i d) ↔
      SentOn i d ∧ bytes = PortProxy.padded d.bytes := by
  match i with
  | 0 | 1 => simp [PortProxy.eventsAt, SentOn]
  | i + 2 =>
    have late : ¬ i + 2 < 2 := by omega
    unfold PortProxy.eventsAt SentOn
    split_ifs with client server
    · simp [client]
    · simp [server]
    · simp [client, server, late]

theorem portTurn_iff (t : PortProxy.Turn) (i : Nat)
    (events : t.events = PortProxy.eventsAt i t.received) :
    PortTurnTransparent t ↔
      (SentOn i t.received → t.received.bytes.length = PortProxy.bufSize) := by
  rw [← PortProxy.padded_eq_iff]
  refine ⟨?_, ?_⟩
  · intro transparent sent
    obtain ⟨dest, send⟩ := (sendto_eventsAt i t.received _).mpr ⟨sent, rfl⟩
    exact transparent dest _ (events ▸ send)
  · intro full dest bytes send
    obtain ⟨sent, rfl⟩ := (sendto_eventsAt i t.received bytes).mp ⟨dest, events ▸ send⟩
    exact full sent

theorem forwardTurn_iff (t : ForwardProxy.Turn) (packets : List (List Byte))
    (ran : t ∈ ForwardProxy.main packets) :
    ForwardTurnTransparent t ↔ t.received.length = ForwardProxy.bufSize := by
  rw [ForwardProxy.main_eq] at ran
  obtain ⟨bytes, _, rfl⟩ := List.mem_map.mp ran
  simp only [ForwardTurnTransparent, ForwardProxy.zeroBuf, toList_store_replicate_iff]

/-- Both proxies have one turn for each datagram, and in a turn they hand on
what they received exactly if they send nothing or the datagram fills their
buffer. -/
theorem transparent_iff (clientPort serverPort : CString) (ds : List Datagram)
    (packets : List (List Byte)) :
    let turns := PortProxy.mainLoop (PortProxy.start clientPort serverPort) ds
    (turns.map PortProxy.Turn.received = ds ∧
      ∀ i t, turns[i]? = some t →
        (PortTurnTransparent t ↔
          (SentOn i t.received → t.received.bytes.length = PortProxy.bufSize))) ∧
    (ForwardProxy.main packets).map ForwardProxy.Turn.received = packets ∧
      ∀ t ∈ ForwardProxy.main packets,
        (ForwardTurnTransparent t ↔ t.received.length = ForwardProxy.bufSize) := by
  intro turns
  refine ⟨⟨PortProxy.mainLoop_received _ ds, ?_⟩, ?_, ?_⟩
  · intro i t here
    exact portTurn_iff t i (PortProxy.turn_facts here).2.2
  · rw [ForwardProxy.main_eq, List.map_map]
    exact List.map_id packets
  · exact fun t ran => forwardTurn_iff t packets ran

def oneByte : Datagram := ⟨⟨⟨ofString "172.0.0.21", by decide⟩, PortProxy.clientPortStd⟩, [7]⟩

theorem oneByte_padded :
    (¬ ∀ (clientPort serverPort : CString) (ds : List Datagram),
      (∀ d ∈ ds, d.bytes.length ≤ PortProxy.bufSize) →
        ∀ t ∈ PortProxy.mainLoop (PortProxy.start clientPort serverPort) ds,
          PortTurnTransparent t) ∧
    ¬ ∀ packets : List (List Byte),
      (∀ bytes ∈ packets, bytes.length ≤ ForwardProxy.bufSize) →
        ∀ t ∈ ForwardProxy.main packets, ForwardTurnTransparent t := by
  refine ⟨?_, ?_⟩
  · intro claimed
    obtain ⟨t, at_t, received⟩ := PortProxy.exists_turn
      (PortProxy.start PortProxy.clientPortStd PortProxy.serverPortStd)
      (show [oneByte][0]? = some oneByte from rfl)
    have transparent := claimed _ _ [oneByte] (by decide) t (List.mem_of_getElem? at_t)
    have full := (portTurn_iff t 0 (PortProxy.turn_facts at_t).2.2).mp transparent
      (Or.inl (by decide))
    rw [received] at full
    exact absurd full (by decide)
  · intro claimed
    let t : ForwardProxy.Turn := ⟨[7], (store ForwardProxy.zeroBuf 0 [7]).toList⟩
    have ran : t ∈ ForwardProxy.main [[7]] := by
      rw [ForwardProxy.main_eq]
      exact List.mem_singleton_self t
    have full := (forwardTurn_iff t _ ran).mp (claimed [[7]] (by decide) t ran)
    exact absurd full (by decide)

end RdmaFuzzing.TransparentForwarding
