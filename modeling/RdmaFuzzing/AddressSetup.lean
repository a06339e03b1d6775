import RdmaFuzzing.ForwardProxy
import RdmaFuzzing.PointerLifetimes
import RdmaFuzzing.PortRouting

/-! The whole runs of `proxy.c`, `test.c` and `ib_proxy_two.c`, from their first
`getaddrinfo` on, with the addresses that `getaddrinfo` returns and `freeaddrinfo`
takes back. An address is named by the number of the call that returned it. -/

namespace RdmaFuzzing.AddressSetup
open CText FrameLayout ExitRun UdpSocket PointerLifetimes

/-- What the system answers, by the number of the call. -/
structure Host where
  getaddrinfo : Nat → Bool
  socket : Nat → Int
  bind : Int

inductive Event where
  | getaddrinfo (res : Nat) (found : Bool)
  | socket (res : Option Nat) (sd : Int)
  | bind (sd : Int) (res : Option Nat) (ret : Int)
  | freeaddrinfo (res : Option Nat)
  | sendto (sd : Option Int) (res : Option Nat) (bytes : List Byte)
  | close (sd : Int)
  deriving DecidableEq

/-- A failed `getaddrinfo` allocates nothing; what takes `res` reads through it. -/
def does : Event → List (Action Nat)
  | .getaddrinfo res found => if found then [.alloc res] else []
  | .socket res _ => [.use res]
  | .bind _ res _ => [.use res]
  | .freeaddrinfo res => [.free res]
  | .sendto _ res _ => [.use res]
  | .close _ => []

def calls (events : List Event) : Run Event Unit := ⟨events, some ()⟩

/-- The socket that all three programs receive from. -/
def listen (host : Host) : Run Event Int := do
  call (.getaddrinfo 0 (host.getaddrinfo 0)) ()
  require (host.getaddrinfo 0)
  call (.socket (some 0) (host.socket 0)) ()
  require (host.socket 0 ≠ -1)
  call (.bind (host.socket 0) (some 0) host.bind) ()
  require (host.bind = 0)
  call (.freeaddrinfo (some 0)) ()
  pure (host.socket 0)

/-- A socket to forward from. The test after `socket` looks at `sd_listen`. -/
def forward (host : Host) (sdListen : Int) (res : Nat) : Run Event Int := do
  call (.getaddrinfo res (host.getaddrinfo res)) ()
  require (host.getaddrinfo res)
  call (.socket (some res) (host.socket res)) ()
  require (sdListen ≠ -1)
  pure (host.socket res)

/-- `main` of `proxy.c` on two ports, as its child runs it after the `fork`. -/
def proxyMain (host : Host) (packets : List (List Byte)) : Run Event Unit := do
  let sdListen ← listen host
  let sdForward ← forward host sdListen 1
  calls ((ForwardProxy.main packets).map fun t => .sendto (some sdForward) (some 1) t.sent)

/-- `main` of `test.c` on a port: `sd_forward` is not set and `res` was given back. -/
def testMain (host : Host) (packets : List (List Byte)) : Run Event Unit := do
  let _ ← listen host
  calls ((ForwardProxy.main packets).map fun t => .sendto none (some 0) t.sent)

def number : PortProxy.Addr → Nat
  | .resClient => 1
  | .resClientXch => 2
  | .resServer => 3
  | .resServerXch => 4

def sockets (sdFwToclient sdFwToclientXch sdFwToserv sdFwToservXch : Int) :
    PortProxy.Addr → Int
  | .resClient => sdFwToclient
  | .resClientXch => sdFwToclientXch
  | .resServer => sdFwToserv
  | .resServerXch => sdFwToservXch

def event (sd : PortProxy.Addr → Int) : PortProxy.Event → Event
  | .sendto dest bytes => .sendto (some (sd dest)) (some (number dest)) bytes
  | .freeaddrinfo addr => .freeaddrinfo (some (number addr))

/-- `main` of `ib_proxy_two.c` on a port. -/
def portMain (host : Host) (clientPort serverPort : CString) (ds : List Datagram) :
    Run Event Unit := do
  let sdListen ← listen host
  let sdFwToclient ← forward host sdListen 1
  let sdFwToclientXch ← forward host sdListen 2
  let sdFwToserv ← forward host sdListen 3
  let sdFwToservXch ← forward host sdListen 4
  let sd := sockets sdFwToclient sdFwToclientXch sdFwToserv sdFwToservXch
  let turns := PortProxy.mainLoop (PortProxy.start clientPort serverPort) ds
  calls ((turns.flatMap PortProxy.Turn.events).map (event sd))

structure Listens (host : Host) : Prop where
  found : host.getaddrinfo 0 = true
  opened : host.socket 0 ≠ -1
  bound : host.bind = 0

theorem listen_run (host : Host) :
    (Listens host → (listen host).value = some (host.socket 0) ∧
        afterRun does [] (listen host) = some []) ∧
      (¬Listens host → (listen host).value = none ∧
        (afterRun does [] (listen host)).isSome) := by
  rw [listen, afterRun]
  cases found : host.getaddrinfo 0 with
  | false => exact ⟨fun h => absurd (h.found.symm.trans found) (by decide), fun _ => ⟨rfl, rfl⟩⟩
  | true =>
    by_cases opened : host.socket 0 = -1
    · refine ⟨fun h => absurd opened h.opened, fun _ => ?_⟩
      simp [opened, actions, does, after_use]
    · by_cases bound : host.bind = 0
      · refine ⟨fun _ => ?_, fun h => absurd ⟨found, opened, bound⟩ h⟩
        simp [opened, bound, actions, does, after_use, after_free]
      · refine ⟨fun h => absurd h.bound bound, fun _ => ?_⟩
        simp [opened, bound, actions, does, after_use]

theorem forward_run (host : Host) {sdListen : Int} (opened : sdListen ≠ -1) (res : Nat)
    (live : List Nat) :
    (host.getaddrinfo res = true → (forward host sdListen res).value = some (host.socket res) ∧
        afterRun does live (forward host sdListen res) = some (res :: live)) ∧
      (host.getaddrinfo res = false → (forward host sdListen res).value = none ∧
        afterRun does live (forward host sdListen res) = some live) := by
  rw [forward, afterRun]
  refine ⟨?_, ?_⟩
  · intro found
    simp [found, opened, actions, does, after_use]
  · intro missing
    simp [missing, actions, does]

theorem afterRun_calls (live : List Nat) (events : List Event) :
    afterRun does live (calls events) = after live (actions does events) := rfl

theorem calls_bind {β : Type} (events : List Event) (f : Unit → Run Event β) :
    calls events >>= f = ⟨events ++ (f ()).log, (f ()).value⟩ := rfl

theorem afterRun_forward_bind {β : Type} (host : Host) {sdListen : Int} (opened : sdListen ≠ -1)
    (res : Nat) (live : List Nat) (f : Int → Run Event β) :
    afterRun does live (forward host sdListen res >>= f) =
      if host.getaddrinfo res = true then afterRun does (res :: live) (f (host.socket res))
      else some live := by
  obtain ⟨resolved, missing⟩ := forward_run host opened res live
  cases found : host.getaddrinfo res with
  | true =>
    obtain ⟨value, alive⟩ := resolved found
    rw [afterRun_bind_some _ _ _ value, alive, Option.bind_some, if_pos rfl]
  | false =>
    obtain ⟨value, alive⟩ := missing found
    rw [afterRun_bind_none _ _ _ value, alive, if_neg Bool.false_ne_true]

theorem sound_listen_bind {β : Type} (host : Host) (f : Int → Run Event β) :
    (afterRun does [] (listen host >>= f)).isSome ↔
      (Listens host → (afterRun does [] (f (host.socket 0))).isSome) := by
  obtain ⟨listening, failed⟩ := listen_run host
  by_cases ready : Listens host
  · obtain ⟨value, alive⟩ := listening ready
    rw [afterRun_bind_some _ _ _ value, alive, Option.bind_some]
    exact (imp_iff_right ready).symm
  · obtain ⟨value, alive⟩ := failed ready
    rw [afterRun_bind_none _ _ _ value]
    exact iff_of_true alive fun h => absurd h ready

theorem actions_sends (sd : Option Int) (res : Option Nat) (turns : List ForwardProxy.Turn) :
    actions does (turns.map fun t => .sendto sd res t.sent) = turns.map fun _ => .use res := by
  rw [actions, List.flatMap_map]
  exact List.map_eq_flatMap.symm

def aliveAt : Nat → List Nat
  | 0 => [4, 3, 2, 1]
  | 1 => [3, 2, 1]
  | _ + 2 => [3, 1]

theorem eventsAt_alive (sd : PortProxy.Addr → Int) (i : Nat) (d : Datagram) :
    after (aliveAt i) (actions does ((PortProxy.eventsAt i d).map (event sd))) =
      some (aliveAt (i + 1)) := by
  match i with
  | 0 => rfl
  | 1 => rfl
  | i + 2 =>
    rw [PortProxy.eventsAt]
    split_ifs
    · rfl
    · rfl
    · rfl

/-- The run lemma: each turn starts with the addresses that are alive by then. -/
theorem mainLoop_alive (sd : PortProxy.Addr → Int) (ds : List Datagram) (i : Nat)
    (st : PortProxy.State) (head : PortProxy.HeadAt i st) :
    after (aliveAt i)
        (actions does (((PortProxy.mainLoop st ds).flatMap PortProxy.Turn.events).map
          (event sd))) = some (aliveAt (i + ds.length)) := by
  induction ds generalizing i st with
  | nil => rfl
  | cons d rest ih =>
    obtain ⟨events, next⟩ := PortProxy.turn_at st d i head
    rw [PortProxy.mainLoop, List.flatMap_cons, List.map_append, actions_append, after_append,
      events, eventsAt_alive, Option.bind_some, ih (i + 1) _ next, List.length_cons]
    congr 2
    omega

structure Resolves (host : Host) : Prop where
  client : host.getaddrinfo 1 = true
  clientXch : host.getaddrinfo 2 = true
  server : host.getaddrinfo 3 = true
  serverXch : host.getaddrinfo 4 = true

theorem loop_alive (host : Host) (clientPort serverPort : CString) (ds : List Datagram)
    (resolved : Resolves host) (listens : Listens host) :
    afterRun does [] (portMain host clientPort serverPort ds) = some (aliveAt ds.length) := by
  obtain ⟨value, alive⟩ := (listen_run host).1 listens
  rw [portMain, afterRun_bind_some _ _ _ value, alive, Option.bind_some,
    afterRun_forward_bind host listens.opened, if_pos resolved.client,
    afterRun_forward_bind host listens.opened, if_pos resolved.clientXch,
    afterRun_forward_bind host listens.opened, if_pos resolved.server,
    afterRun_forward_bind host listens.opened, if_pos resolved.serverXch, afterRun_calls]
  refine (mainLoop_alive _ ds 0 _ (PortProxy.start_headAt clientPort serverPort)).trans ?_
  rw [Nat.zero_add]

/-- `proxy.c` and `ib_proxy_two.c` only ever use addresses that are alive, whatever
their set-up calls return and whatever they receive; `test.c` does so exactly in the
runs that receive nothing. What is alive in `ib_proxy_two.c` after a number of datagrams
is what the turns to come can send to. -/
theorem mains_sound_iff (host : Host) (packets : List (List Byte))
    (clientPort serverPort : CString) (ds : List Datagram) :
    Sound (actions does (proxyMain host packets).log) ∧
      (Sound (actions does (testMain host packets).log) ↔ (Listens host → packets = [])) ∧
      Sound (actions does (portMain host clientPort serverPort ds).log) ∧
      (Listens host → Resolves host →
        after [] (actions does (portMain host clientPort serverPort ds).log) =
          some (aliveAt ds.length)) := by
  refine ⟨?_, ?_, ?_, fun listens resolved => loop_alive host _ _ ds resolved listens⟩
  · refine (sound_listen_bind host _).mpr fun listens => ?_
    rw [afterRun_forward_bind host listens.opened]
    split_ifs
    · rw [afterRun_calls, actions_sends, after_uses]
      · rfl
      · intro a member
        obtain ⟨_, -, rfl⟩ := List.mem_map.mp member
        exact ⟨1, List.mem_singleton_self 1, rfl⟩
    · rfl
  · refine (sound_listen_bind host _).trans (imp_congr_right fun _ => ?_)
    rw [afterRun_calls, actions_sends, ForwardProxy.main_eq]
    cases packets with
    | nil => exact iff_of_true rfl rfl
    | cons bytes rest =>
      rw [List.map_cons, List.map_cons, after_use_dead _ _ _ List.not_mem_nil]
      simp
  · by_cases listens : Listens host
    · by_cases resolved : Resolves host
      · exact Option.isSome_of_eq_some (loop_alive host clientPort serverPort ds resolved listens)
      · refine (sound_listen_bind host _).mpr fun _ => ?_
        simp only [afterRun_forward_bind host listens.opened]
        split_ifs with first second third fourth
        · exact absurd ⟨first, second, third, fourth⟩ resolved
        · rfl
        · rfl
        · rfl
        · rfl
    · exact (sound_listen_bind host _).mpr fun h => absurd h listens

def OverOpen : Event → Prop
  | .sendto sd _ _ => ∃ s, sd = some s ∧ s ≠ -1
  | _ => True

theorem overOpen_listen_bind {β : Type} (host : Host) (f : Int → Run Event β) :
    (∀ e ∈ (listen host >>= f).log, OverOpen e) ↔
      (Listens host → ∀ e ∈ (f (host.socket 0)).log, OverOpen e) := by
  have quiet : ∀ e ∈ (listen host).log, OverOpen e := by
    simp only [listen, require_bind, call_bind, pure_run]
    split_ifs <;> simp [OverOpen]
  obtain ⟨listening, failed⟩ := listen_run host
  rw [forall_log_bind, and_iff_right quiet]
  by_cases listens : Listens host
  · rw [(listening listens).1]
    simp [listens]
  · rw [(failed listens).1]
    simp [listens]

theorem overOpen_forward_bind {β : Type} (host : Host) {sdListen : Int} (opened : sdListen ≠ -1)
    (res : Nat) (f : Int → Run Event β) :
    (∀ e ∈ (forward host sdListen res >>= f).log, OverOpen e) ↔
      (host.getaddrinfo res = true → ∀ e ∈ (f (host.socket res)).log, OverOpen e) := by
  have quiet : ∀ e ∈ (forward host sdListen res).log, OverOpen e := by
    simp only [forward, require_bind, call_bind, pure_run]
    split_ifs <;> simp [OverOpen]
  obtain ⟨resolved, missing⟩ := forward_run host opened res []
  rw [forall_log_bind, and_iff_right quiet]
  cases found : host.getaddrinfo res with
  | true =>
    rw [(resolved found).1]
    simp
  | false =>
    rw [(missing found).1]
    simp

theorem proxyMain_overOpen (host : Host) (packets : List (List Byte)) :
    (∀ e ∈ (proxyMain host packets).log, OverOpen e) ↔
      (Listens host → host.getaddrinfo 1 = true → packets ≠ [] → host.socket 1 ≠ -1) := by
  refine (overOpen_listen_bind host _).trans (imp_congr_ctx Iff.rfl fun listens => ?_)
  refine (overOpen_forward_bind host listens.opened 1 _).trans (imp_congr_right fun _ => ?_)
  rw [calls, List.forall_mem_map, ForwardProxy.main_eq, List.forall_mem_map]
  refine ⟨?_, ?_⟩
  · intro sends some_packet
    obtain ⟨bytes, member⟩ := List.exists_mem_of_ne_nil packets some_packet
    obtain ⟨s, same, opened⟩ := sends bytes member
    rwa [← Option.some.inj same] at opened
  · intro opened bytes member
    exact ⟨host.socket 1, rfl, opened (List.ne_nil_of_mem member)⟩

theorem sockets_eq (host : Host) (dest : PortProxy.Addr) :
    sockets (host.socket 1) (host.socket 2) (host.socket 3) (host.socket 4) dest =
      host.socket (number dest) := by
  cases dest with
  | resClient => rfl
  | resClientXch => rfl
  | resServer => rfl
  | resServerXch => rfl

theorem event_overOpen (sd : PortProxy.Addr → Int) (e : PortProxy.Event) :
    OverOpen (event sd e) ↔ ∀ dest ∈ PortRouting.Event.dest e, sd dest ≠ -1 := by
  cases e with
  | sendto dest bytes => simp [event, OverOpen, PortRouting.Event.dest]
  | freeaddrinfo addr => simp [event, OverOpen, PortRouting.Event.dest]

theorem portMain_overOpen (host : Host) (clientPort serverPort : CString) (ds : List Datagram) :
    (∀ e ∈ (portMain host clientPort serverPort ds).log, OverOpen e) ↔
      (Listens host → Resolves host →
        ∀ t ∈ PortProxy.mainLoop (PortProxy.start clientPort serverPort) ds,
          ∀ dest ∈ PortRouting.dests t, host.socket (number dest) ≠ -1) := by
  rw [portMain, overOpen_listen_bind]
  refine imp_congr_ctx Iff.rfl fun listens => ?_
  rw [overOpen_forward_bind host listens.opened, overOpen_forward_bind host listens.opened,
    overOpen_forward_bind host listens.opened, overOpen_forward_bind host listens.opened]
  simp only [calls, List.forall_mem_map, List.mem_flatMap, event_overOpen, sockets_eq,
    PortRouting.dests, List.mem_filterMap, Option.mem_def]
  refine ⟨?_, ?_⟩
  · intro sends resolves t turn dest member
    obtain ⟨e, called, goes⟩ := member
    exact sends resolves.client resolves.clientXch resolves.server resolves.serverXch e
      ⟨t, turn, called⟩ dest goes
  · intro sends client clientXch server serverXch e member dest goes
    obtain ⟨t, turn, called⟩ := member
    exact sends ⟨client, clientXch, server, serverXch⟩ t turn dest ⟨e, called, goes⟩

def fromPort (port : CString) : Datagram := ⟨⟨port, port⟩, []⟩

def toAll : List Datagram :=
  [fromPort PortProxy.clientPortStd, fromPort PortProxy.clientPortStd,
    fromPort PortProxy.clientPortStd, fromPort PortProxy.serverPortStd]

theorem exists_turn_to (clientPort serverPort : CString) (dest : PortProxy.Addr) :
    ∃ t ∈ PortProxy.mainLoop (PortProxy.start clientPort serverPort) toAll,
      dest ∈ PortRouting.dests t := by
  have turnAt (i : Nat) (d : Datagram) (here : toAll[i]? = some d)
      (goes : dest ∈ (PortProxy.eventsAt i d).filterMap PortRouting.Event.dest) :
      ∃ t ∈ PortProxy.mainLoop (PortProxy.start clientPort serverPort) toAll,
        dest ∈ PortRouting.dests t := by
    obtain ⟨t, turn, received⟩ :=
      PortProxy.exists_turn (PortProxy.start clientPort serverPort) here
    obtain ⟨-, -, events⟩ := PortProxy.turn_facts turn
    refine ⟨t, List.mem_of_getElem? turn, ?_⟩
    rwa [PortRouting.dests, events, received]
  cases dest with
  | resServerXch => exact turnAt 0 _ rfl (by simp [PortProxy.eventsAt, PortRouting.Event.dest])
  | resClientXch => exact turnAt 1 _ rfl (by simp [PortProxy.eventsAt, PortRouting.Event.dest])
  | resServer =>
    refine turnAt 2 _ rfl ?_
    rw [PortRouting.dests_eventsAt, fromPort, if_pos rfl]
    exact List.mem_singleton_self _
  | resClient =>
    refine turnAt 3 _ rfl ?_
    rw [PortRouting.dests_eventsAt, fromPort, if_neg PortRouting.ports_differ, if_pos rfl]
    exact List.mem_singleton_self _

/-- The tests after the later calls of `socket` are about `sd_listen`: once a program
has its addresses, its sends go through open sockets in every run only if the system
opens every socket, tested or not. -/
theorem mains_overOpen_iff (host : Host) :
    (∀ packets, (∀ e ∈ (proxyMain host packets).log, OverOpen e) ↔
        (Listens host → host.getaddrinfo 1 = true → packets ≠ [] → host.socket 1 ≠ -1)) ∧
      ((∀ clientPort serverPort ds,
          ∀ e ∈ (portMain host clientPort serverPort ds).log, OverOpen e) ↔
        (Listens host → Resolves host → ∀ dest, host.socket (number dest) ≠ -1)) := by
  refine ⟨proxyMain_overOpen host, ?_, ?_⟩
  · intro runs listens resolves dest
    have run := (portMain_overOpen host PortProxy.clientPortStd PortProxy.serverPortStd toAll).mp
      (runs _ _ _) listens resolves
    obtain ⟨t, turn, goes⟩ :=
      exists_turn_to PortProxy.clientPortStd PortProxy.serverPortStd dest
    exact run t turn dest goes
  · intro opened clientPort serverPort ds
    refine (portMain_overOpen host clientPort serverPort ds).mpr ?_
    intro listens resolves _ _ dest _
    exact opened listens resolves dest

end RdmaFuzzing.AddressSetup
