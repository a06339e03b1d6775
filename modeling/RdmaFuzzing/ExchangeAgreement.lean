import RdmaFuzzing.ConnExchange

/-! The exchange agrees: whatever the order of steps and whatever is lost, a side
whose exchange returns 0 holds the identity of its partner. The world follows
the phases of the exchange, with at most one datagram on the network. -/

namespace RdmaFuzzing.ExchangeAgreement
open CText FrameLayout ReusedBuffer UdpSocket ConnInfo ConnExchange StepSystem

theorem idle_of_start {s : Party} {inf : ConnInf} {phase : Phase}
    (client : ClientIn s .start inf phase) : phase = .idle := by
  cases phase <;> simp [ClientIn] at client ⊢

theorem idle_of_ready {s : Party} {inf : ConnInf} {phase : Phase}
    (client : ClientIn s .ready inf phase) : phase = .idle := by
  cases phase <;> simp [ClientIn] at client ⊢

theorem serverIn_waiting {c : Party} {inf : ConnInf} {phase : Phase} {server : ServerAt}
    (waiting : server = .start ∨ server = .listening) (serverIn : ServerIn c server inf phase)
    (next : ServerAt) (quiet : next = .listening ∨ next = .returned 1) :
    ServerIn c next inf phase := by
  have early : phase = .idle ∨ phase = .helloSent ∨ phase = .helloRelayed := by
    rcases waiting with rfl | rfl <;> cases phase <;> simp [ServerIn] at serverIn ⊢
  rcases early with rfl | rfl | rfl <;> exact Or.inr quiet

theorem taken_of_heard {c : Party} {inf : ConnInf} {phase : Phase}
    {msgRecv : Vector Byte msgSize} {receivedLen : Nat}
    (server : ServerIn c (.heard msgRecv receivedLen) inf phase) :
    phase = .helloTaken ∧ msgRecv = c.hello ∧ receivedLen = msgSize := by
  cases phase <;> simp [ServerIn] at server ⊢
  exact server

theorem serverIn_parse {c : Party} {inf : ConnInf} {phase : Phase}
    {msgRecv : Vector Byte msgSize} {receivedLen : Nat}
    (server : ServerIn c (.answered msgRecv receivedLen) inf phase) :
    msgRecv = c.hello ∧ receivedLen = msgSize ∧
      ServerIn c (.returned 0) c.identity phase := by
  cases phase <;> simp [ServerIn] at server ⊢ <;> exact server

theorem inFlight_toClient {c s : Party} {phase : Phase} {bytes : List Byte}
    (known : inFlight c s phase = some (.fromProxy .resClientXch bytes)) :
    phase = .replyRelayed ∧ bytes = PortProxy.padded s.hello.toList := by
  cases phase <;> simp [inFlight] at known ⊢
  exact known.symm

theorem inFlight_toServer {c s : Party} {phase : Phase} {bytes : List Byte}
    (known : inFlight c s phase = some (.fromProxy .resServerXch bytes)) :
    phase = .helloRelayed ∧ bytes = PortProxy.padded c.hello.toList := by
  cases phase <;> simp [inFlight] at known ⊢
  exact known.symm

theorem inFlight_toProxy {c s : Party} {phase : Phase} {d : Datagram}
    (known : inFlight c s phase = some (.toProxy d)) :
    phase = .helloSent ∧ d = ⟨c.addr, c.hello.toList⟩ ∨
      phase = .replySent ∧ d = ⟨s.addr, s.hello.toList⟩ := by
  cases phase <;> simp [inFlight] at known ⊢ <;> exact known.symm

/-- The proxy relays the first datagram to the server, the second to the client. -/
theorem proxyTurn_simulates {c s : Party} {phase : Phase} {w : World} {d : Datagram}
    (related : At c s phase w) (known : inFlight c s phase = some (.toProxy d)) :
    ∃ phase', Phase.Next phase phase' ∧
      At c s phase'
        { w with
          proxy := (PortProxy.turn w.proxy d).1
          net := launched (PortProxy.turn w.proxy d).2 } := by
  have set := related.flags
  rcases inFlight_toProxy known with ⟨rfl, rfl⟩ | ⟨rfl, rfl⟩
  · obtain ⟨clientFlag, serverFlag⟩ := Prod.mk.inj set
    rw [PortProxy.turn_client _ _ related.buf clientFlag]
    exact ⟨.helloRelayed, .helloRelay, carries_new _ rfl, by simp [serverFlag, flags],
      related.buf, related.client, related.server⟩
  · obtain ⟨clientFlag, serverFlag⟩ := Prod.mk.inj set
    rw [PortProxy.turn_server _ _ related.buf clientFlag serverFlag]
    exact ⟨.replyRelayed, .replyRelay, carries_new _ rfl, by simp [clientFlag, flags],
      related.buf, related.client, related.server⟩

theorem step_simulates (o : LeftOpen) (c s : Party) (phase : Phase) (w w' : World)
    (related : At c s phase w) (step : Step o c s w w') :
    ∃ phase', (phase' = phase ∨ Phase.Next phase phase') ∧ At c s phase' w' := by
  obtain ⟨net, set, buf, client, server⟩ := related
  cases step with
  | clientSetup setup stands =>
    rw [stands] at client
    cases idle_of_start client
    refine ⟨.idle, Or.inl rfl, net, set, buf, ?_, server⟩
    change ClientIn s (if setup.succeeds then .ready else .returned 1) w.clientInf .idle
    split_ifs
    · exact Or.inr (Or.inl rfl)
    · exact Or.inr (Or.inr rfl)
  | clientSend stands prepared =>
    rw [stands] at client
    cases idle_of_ready client
    obtain rfl := Option.some.inj ((prepareMsg_eq _ _ _).symm.trans prepared)
    exact ⟨.helloSent, Or.inr .hello, carries_new _ (carries_nothing net), set, buf, rfl, server⟩
  | clientRefuse stands refused =>
    rw [prepareMsg_eq] at refused
    cases refused
  | clientReceive stands arrives =>
    obtain ⟨known, empty⟩ := carries_arrived net arrives
    obtain ⟨rfl, rfl⟩ := inFlight_toClient known
    rw [receiveParse_padded]
    exact ⟨.replyTaken, Or.inr .replyArrive, Or.inl empty, set, buf, ⟨rfl, rfl⟩, server⟩
  | serverSetup setup stands =>
    have next := serverIn_waiting (Or.inl stands) server
      (if setup.succeeds then .listening else .returned 1) (by split_ifs <;> simp)
    exact ⟨phase, Or.inl rfl, net, set, buf, client, next⟩
  | serverReceive stands arrives =>
    obtain ⟨known, empty⟩ := carries_arrived net arrives
    obtain ⟨rfl, rfl⟩ := inFlight_toServer known
    rw [receive_padded]
    exact ⟨.helloTaken, Or.inr .helloArrive, Or.inl empty, set, buf, client, rfl⟩
  | serverSend stands prepared =>
    rw [stands] at server
    obtain ⟨rfl, rfl, rfl⟩ := taken_of_heard server
    obtain rfl := Option.some.inj ((prepareMsg_eq _ _ _).symm.trans prepared)
    exact ⟨.replySent, Or.inr .reply, carries_new _ (carries_nothing net), set, buf, client,
      Or.inl rfl⟩
  | serverRefuse stands refused =>
    rw [prepareMsg_eq] at refused
    cases refused
  | serverParse stands =>
    rw [stands] at server
    obtain ⟨rfl, rfl, parsed⟩ := serverIn_parse server
    rw [parse_hello]
    exact ⟨phase, Or.inl rfl, net, set, buf, client, parsed⟩
  | proxyTurn arrives =>
    obtain ⟨known, rfl⟩ := carries_arrived net arrives
    obtain ⟨phase', next, related'⟩ :=
      proxyTurn_simulates ⟨net, set, buf, client, server⟩ known
    rw [add_zero]
    exact ⟨phase', Or.inr next, related'⟩
  | lose drops =>
    exact ⟨phase, Or.inl rfl, Or.inl (carries_arrived net drops).2, set, buf, client, server⟩

theorem system_simulates (o : LeftOpen) (c s : Party) :
    Simulates (system o c s) phases (At c s) where
  initial := by
    intro w first
    obtain ⟨clientPort, serverPort, proxy⟩ := first.proxy
    refine ⟨.idle, rfl, Or.inl first.net, ?_, ?_, Or.inl first.client, Or.inl first.server⟩
    · rw [proxy]
      rfl
    · rw [proxy]
      rfl
  step := step_simulates o c s

def ClientRan (o : LeftOpen) (c : Party) (w : World) : Prop :=
  ∀ rc, w.client = .returned rc → ∃ setup response cinf,
    xchConnInfClient o setup response (qpnText c.qpn) c.gid cinf = (rc, w.clientInf)

theorem step_clientRan (o : LeftOpen) (c s : Party) (w w' : World) (ran : ClientRan o c w)
    (step : Step o c s w w') : ClientRan o c w' := by
  cases step with
  | clientSetup setup stands =>
    intro rc returned
    by_cases up : setup.succeeds
    · simp [up] at returned
    · rw [if_neg up] at returned
      cases returned
      exact ⟨setup, [], w.clientInf, by rw [xchConnInfClient, if_neg up]⟩
  | clientSend stands prepared =>
    intro rc returned
    cases returned
  | clientRefuse stands refused =>
    rw [prepareMsg_eq] at refused
    cases refused
  | @clientReceive bytes _ stands arrives =>
    intro rc returned
    cases returned
    refine ⟨⟨true, true, true, true, true⟩, bytes, w.clientInf, ?_⟩
    rw [xchConnInfClient, prepareMsg_eq]
    rfl
  | serverSetup | serverReceive | serverSend | serverRefuse | serverParse | proxyTurn | lose =>
    exact ran

def ServerRan (o : LeftOpen) (s : Party) (w : World) : Prop :=
  (∀ msgRecv receivedLen,
    w.server = .heard msgRecv receivedLen ∨ w.server = .answered msgRecv receivedLen →
      ∃ request, receive request = (msgRecv, receivedLen)) ∧
  ∀ rc, w.server = .returned rc → ∃ setup request cinf,
    xchConnInfServer o setup request (qpnText s.qpn) s.gid cinf = (rc, w.serverInf)

theorem step_serverRan (o : LeftOpen) (c s : Party) (w w' : World) (ran : ServerRan o s w)
    (step : Step o c s w w') : ServerRan o s w' := by
  cases step with
  | serverSetup setup stands =>
    by_cases up : setup.succeeds
    · simp [ServerRan, up]
    · refine ⟨fun _ _ h => by simp [up] at h, fun rc returned => ?_⟩
      rw [if_neg up] at returned
      cases returned
      exact ⟨setup, [], w.serverInf, by rw [xchConnInfServer, if_neg up]⟩
  | serverReceive stands arrives =>
    refine ⟨fun msgRecv receivedLen h => ?_, fun rc returned => by cases returned⟩
    rcases h with h | h
    · cases h
      exact ⟨_, rfl⟩
    · cases h
  | serverSend stands prepared =>
    refine ⟨fun msgRecv receivedLen h => ?_, fun rc returned => by cases returned⟩
    rcases h with h | h
    · cases h
    · cases h
      exact ran.1 _ _ (Or.inl stands)
  | serverRefuse stands refused =>
    rw [prepareMsg_eq] at refused
    cases refused
  | serverParse stands =>
    obtain ⟨request, received⟩ := ran.1 _ _ (Or.inr stands)
    refine ⟨fun _ _ h => by simp at h, fun rc returned => ?_⟩
    cases returned
    refine ⟨⟨true, true, true, true, true⟩, request, w.serverInf, ?_⟩
    rw [xchConnInfServer, received, prepareMsg_eq]
    rfl
  | clientSetup | clientSend | clientRefuse | clientReceive | proxyTurn | lose => exact ran

/-- The steps of each side put together are the function it runs. -/
theorem system_runs (o : LeftOpen) (c s : Party) (w : World)
    (reach : Reachable (system o c s) w) : ClientRan o c w ∧ ServerRan o s w := by
  refine ⟨?_, ?_⟩
  · refine reach.invariant (fun w first rc returned => ?_) (step_clientRan o c s)
    rw [first.client] at returned
    cases returned
  · refine reach.invariant (fun w first => ?_) (step_serverRan o c s)
    rw [ServerRan, first.server]
    simp

def localAddr (port : CString) : SockAddr := ⟨⟨ofString "10.0.2.2", by decide⟩, port⟩

def localClient : Party := ⟨Vector.replicate 16 1, 17, localAddr ⟨ofString "40000", by decide⟩⟩

def localServer : Party :=
  ⟨Vector.replicate 16 2, 16777215, localAddr ⟨ofString "50000", by decide⟩⟩

end RdmaFuzzing.ExchangeAgreement
