import RdmaFuzzing.OneShot
import RdmaFuzzing.PortProxy

/-! What the receive loop of `ib_proxy_two.c` keeps over all its runs. The flags
tell which exchange address is still live, so none is used after it was freed;
and the two roles go to the first two datagrams, whoever sent them. -/

namespace RdmaFuzzing.PortRouting
open CText FrameLayout OneShot UdpSocket PortProxy

def does (addr : Addr) : Event → Option Use
  | .sendto dest _ => if dest = addr then some .use else none
  | .freeaddrinfo freed => if freed = addr then some .release else none

def turnOf (addr : Addr) : Nat := if addr = .resServerXch then 0 else 1

/-- What may still happen to an exchange address from a turn on. -/
def owed (addr : Addr) (i : Nat) : List Use := if i ≤ turnOf addr then lifetime else []

theorem uses_routed (addr : Addr) (exchange : addr = .resServerXch ∨ addr = .resClientXch)
    (i : Nat) (d : Datagram) : uses (does addr) (eventsAt (i + 2) d) = [] := by
  unfold eventsAt
  obtain rfl | rfl := exchange <;> split_ifs <;> rfl

theorem uses_eventsAt (addr : Addr) (exchange : addr = .resServerXch ∨ addr = .resClientXch)
    (i : Nat) (d : Datagram) :
    uses (does addr) (eventsAt i d) ++ owed addr (i + 1) = owed addr i := by
  match i with
  | 0 | 1 => obtain rfl | rfl := exchange <;> rfl
  | i + 2 =>
    have passed : turnOf addr < i + 2 := by
      unfold turnOf
      split_ifs <;> omega
    rw [uses_routed addr exchange, List.nil_append, owed, owed, if_neg (by omega),
      if_neg (by omega)]

def calls (turns : List Turn) : List Event := turns.flatMap Turn.events

theorem uses_calls (addr : Addr) (exchange : addr = .resServerXch ∨ addr = .resClientXch)
    (ds : List Datagram) (i : Nat) (st : State) (head : HeadAt i st) :
    uses (does addr) (calls (mainLoop st ds)) <+: owed addr i := by
  induction ds generalizing i st with
  | nil => exact List.nil_prefix
  | cons d rest ih =>
    obtain ⟨events, next⟩ := turn_at st d i head
    rw [calls, mainLoop, List.flatMap_cons, uses_append, events,
      ← uses_eventsAt addr exchange i d]
    exact (List.prefix_append_right_inj _).mpr (ih (i + 1) _ next)

def Event.dest : Event → Option Addr
  | .sendto dest _ => some dest
  | .freeaddrinfo _ => none

def dests (t : Turn) : List Addr := t.events.filterMap Event.dest

structure RoutesByPort (t : Turn) : Prop where
  once : (dests t).length ≤ 1
  toServer : t.received.sender.port = clientPortStd → dests t = [.resServer]
  toClient : t.received.sender.port = serverPortStd → dests t = [.resClient]
  nowhere : t.received.sender.port ≠ clientPortStd → t.received.sender.port ≠ serverPortStd →
    dests t = []

theorem dests_eventsAt (i : Nat) (d : Datagram) :
    (eventsAt (i + 2) d).filterMap Event.dest =
      if d.sender.port = clientPortStd then [.resServer]
      else if d.sender.port = serverPortStd then [.resClient]
      else [] := by
  unfold eventsAt
  split_ifs <;> rfl

theorem ports_differ : serverPortStd ≠ clientPortStd := by decide

theorem routesByPort_of_late (t : Turn) (i : Nat)
    (events : t.events = eventsAt (i + 2) t.received) : RoutesByPort t := by
  have routed := dests_eventsAt i t.received
  rw [← events] at routed
  change dests t = _ at routed
  refine ⟨?_, ?_, ?_, ?_⟩
  · rw [routed]
    split_ifs <;> decide
  · intro port
    rw [routed, if_pos port]
  · intro port
    rw [routed, if_neg (port ▸ ports_differ), if_pos port]
  · intro notClient notServer
    rw [routed, if_neg notClient, if_neg notServer]

/-- Every run of the receive loop: each exchange address is sent to at most once
and then freed for good, no turn before the third goes by the standard ports,
and every turn from the third on does. -/
theorem lifecycle_and_routing (clientPort serverPort : CString) (ds : List Datagram) :
    let turns := mainLoop (start clientPort serverPort) ds
    (∀ addr, addr = .resServerXch ∨ addr = .resClientXch →
      ∀ log, log <+: calls turns → UsedOnce (does addr) log) ∧
    ∀ i t, turns[i]? = some t → ds[i]? = some t.received ∧
      (i < 2 → Addr.resServer ∉ dests t ∧ Addr.resClient ∉ dests t) ∧
      (2 ≤ i → RoutesByPort t) := by
  intro turns
  refine ⟨?_, ?_⟩
  · intro addr exchange log part
    have whole : uses (does addr) (calls turns) <+: lifetime :=
      uses_calls addr exchange ds 0 _ (start_headAt clientPort serverPort)
    exact usedOnce_of_prefix (prefix_lifetime part whole)
  · intro i t here
    obtain ⟨_, received, events⟩ := turn_facts here
    refine ⟨received, ?_, ?_⟩
    · intro early
      rw [dests, events]
      match i, early with
      | 0, _ | 1, _ => exact ⟨by simp [eventsAt, Event.dest], by simp [eventsAt, Event.dest]⟩
    · intro late
      obtain ⟨k, rfl⟩ := Nat.exists_eq_add_of_le' late
      exact routesByPort_of_late t k events

def RecordsClient (t : Turn) : Prop := t.head.clientFlag = false

def RecordsServer (t : Turn) : Prop := t.head.clientFlag = true ∧ t.head.serverFlag = false

/-- The server that is recorded, and whatever is sent to the exchange address of
the client, is not from the sender recorded as the client. -/
structure TwoParties (turns : List Turn) : Prop where
  recorded : ∀ t ∈ turns, ∀ u ∈ turns, RecordsClient t → RecordsServer u →
    u.received.sender ≠ t.received.sender
  notItsOwn : ∀ t ∈ turns, ∀ u ∈ turns, RecordsClient t → Addr.resClientXch ∈ dests u →
    u.received.sender ≠ t.received.sender

theorem recordsClient_iff (t : Turn) (i : Nat) (head : HeadAt i t.head) :
    RecordsClient t ↔ i = 0 := by
  rw [RecordsClient, head.client, decide_eq_false_iff_not]
  omega

theorem recordsServer_iff (t : Turn) (i : Nat) (head : HeadAt i t.head) :
    RecordsServer t ↔ i = 1 := by
  rw [RecordsServer, head.client, head.server, decide_eq_true_iff, decide_eq_false_iff_not]
  omega

theorem resClientXch_iff (i : Nat) (d : Datagram) :
    Addr.resClientXch ∈ (eventsAt i d).filterMap Event.dest ↔ i = 1 := by
  match i with
  | 0 | 1 => simp [eventsAt, Event.dest]
  | i + 2 =>
    rw [dests_eventsAt]
    split_ifs <;> simp

theorem exists_recordsClient (clientPort serverPort : CString) {ds : List Datagram}
    {first : Datagram} (at_first : ds[0]? = some first) :
    ∃ t ∈ mainLoop (start clientPort serverPort) ds, RecordsClient t ∧ t.received = first := by
  obtain ⟨t, at_t, received⟩ := exists_turn (start clientPort serverPort) at_first
  have client := (recordsClient_iff t 0 (turn_facts at_t).1).mpr rfl
  exact ⟨t, List.mem_of_getElem? at_t, client, received⟩

theorem exists_recordsServer (clientPort serverPort : CString) {ds : List Datagram}
    {second : Datagram} (at_second : ds[1]? = some second) :
    ∃ u ∈ mainLoop (start clientPort serverPort) ds, RecordsServer u ∧ u.received = second := by
  obtain ⟨u, at_u, received⟩ := exists_turn (start clientPort serverPort) at_second
  have server := (recordsServer_iff u 1 (turn_facts at_u).1).mpr rfl
  exact ⟨u, List.mem_of_getElem? at_u, server, received⟩

theorem first_of_recordsClient {clientPort serverPort : CString} {ds : List Datagram} {t : Turn}
    (ht : t ∈ mainLoop (start clientPort serverPort) ds) (client : RecordsClient t) :
    ds[0]? = some t.received := by
  obtain ⟨i, at_t⟩ := List.getElem?_of_mem ht
  obtain rfl := (recordsClient_iff t i (turn_facts at_t).1).mp client
  exact (turn_facts at_t).2.1

theorem second_of_recordsServer {clientPort serverPort : CString} {ds : List Datagram} {u : Turn}
    (hu : u ∈ mainLoop (start clientPort serverPort) ds) (server : RecordsServer u) :
    ds[1]? = some u.received := by
  obtain ⟨k, at_u⟩ := List.getElem?_of_mem hu
  obtain rfl := (recordsServer_iff u k (turn_facts at_u).1).mp server
  exact (turn_facts at_u).2.1

theorem second_of_sent {clientPort serverPort : CString} {ds : List Datagram} {u : Turn}
    (hu : u ∈ mainLoop (start clientPort serverPort) ds) (sent : Addr.resClientXch ∈ dests u) :
    ds[1]? = some u.received := by
  obtain ⟨k, at_u⟩ := List.getElem?_of_mem hu
  rw [dests, (turn_facts at_u).2.2, resClientXch_iff] at sent
  subst sent
  exact (turn_facts at_u).2.1

/-- The roles go to two different parties exactly when the second datagram of
the run does not come from the sender of the first. -/
theorem twoParties_iff (clientPort serverPort : CString) (ds : List Datagram) :
    TwoParties (mainLoop (start clientPort serverPort) ds) ↔
      ∀ first second, ds[0]? = some first → ds[1]? = some second →
        second.sender ≠ first.sender := by
  refine ⟨?_, ?_⟩
  · intro parties first second at_first at_second
    obtain ⟨t, ht, client, rfl⟩ := exists_recordsClient clientPort serverPort at_first
    obtain ⟨u, hu, server, rfl⟩ := exists_recordsServer clientPort serverPort at_second
    exact parties.recorded t ht u hu client server
  · intro apart
    refine ⟨?_, ?_⟩
    · intro t ht u hu client server
      exact apart _ _ (first_of_recordsClient ht client) (second_of_recordsServer hu server)
    · intro t ht u hu client sent
      exact apart _ _ (first_of_recordsClient ht client) (second_of_sent hu sent)

def duplicated : List Datagram :=
  List.replicate 2 ⟨⟨⟨ofString "172.0.0.20", by decide⟩, clientPortStd⟩, [1, 2, 3]⟩

theorem duplicated_oneParty :
    ¬ ∀ (clientPort serverPort : CString) (ds : List Datagram),
      TwoParties (mainLoop (start clientPort serverPort) ds) := by
  intro claimed
  have parties := claimed clientPortStd serverPortStd duplicated
  obtain ⟨t, ht, client, first⟩ := exists_recordsClient clientPortStd serverPortStd
    (show duplicated[0]? = some _ from rfl)
  obtain ⟨u, hu, server, second⟩ := exists_recordsServer clientPortStd serverPortStd
    (show duplicated[1]? = some _ from rfl)
  refine parties.recorded t ht u hu client server ?_
  rw [first, second]

end RdmaFuzzing.PortRouting
