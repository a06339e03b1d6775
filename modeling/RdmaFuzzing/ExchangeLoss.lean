import RdmaFuzzing.ExchangeAgreement

/-! Whether an exchange under way can still succeed. Neither program sends anything
twice, so it takes every one of the four datagrams; a run is beyond help exactly when
one is lost, or when one of the programs has given up before. -/

namespace RdmaFuzzing.ExchangeLoss
open CText FrameLayout UdpSocket StepSystem ConnInfo ConnExchange ExchangeAgreement

/-- Some run from here on ends with both functions returning 0. -/
def CanComplete (o : LeftOpen) (c s : Party) (w : World) : Prop :=
  ∃ v, Reachable ((system o c s).onward w) v ∧ v.client = .returned 0 ∧ v.server = .returned 0

/-- Before it has sent anything, the client depends on the server alone; while it waits,
a datagram has to be under way, or the server about to answer. -/
def Hopeful (w : World) : Prop :=
  match w.client with
  | .start | .ready => w.server ≠ .returned 1
  | .awaiting => w.net ≠ 0 ∧ w.server ≠ .returned 1 ∨
      ∃ msgRecv receivedLen, w.server = .heard msgRecv receivedLen
  | .returned rc => rc = 0

theorem can_step {o : LeftOpen} {c s : Party} {w v : World} (step : Step o c s w v)
    (can : CanComplete o c s v) : CanComplete o c s w := by
  obtain ⟨u, reach, returned⟩ := can
  exact ⟨u, reach.onward_step step, returned⟩

theorem can_replyTaken {o : LeftOpen} {c s : Party} {w : World}
    (related : At c s .replyTaken w) : CanComplete o c s w := by
  obtain ⟨client, -⟩ := related.client
  rcases related.server with answered | ⟨returned, -⟩
  · refine can_step (.serverParse answered) ⟨_, .initial rfl, client, ?_⟩
    rw [parse_hello]
  · exact ⟨w, .initial rfl, client, returned⟩

theorem can_replyRelayed {o : LeftOpen} {c s : Party} {w : World}
    (related : At c s .replyRelayed w) (under_way : w.net ≠ 0) : CanComplete o c s w := by
  obtain ⟨f, known, arrives⟩ := related.net.resolve_left under_way
  cases known
  have waits : w.client = .awaiting := related.client
  refine can_step (.clientReceive waits arrives) (can_replyTaken ?_)
  rw [receiveParse_padded]
  exact ⟨Or.inl rfl, related.flags, related.buf, ⟨rfl, rfl⟩, related.server⟩

theorem can_replySent {o : LeftOpen} {c s : Party} {w : World}
    (related : At c s .replySent w) (under_way : w.net ≠ 0) : CanComplete o c s w := by
  obtain ⟨f, known, arrives⟩ := related.net.resolve_left under_way
  cases known
  obtain ⟨clientFlag, serverFlag⟩ := Prod.mk.inj related.flags
  refine can_step (.proxyTurn arrives) (can_replyRelayed ?_ ?_)
  · rw [add_zero, PortProxy.turn_server _ _ related.buf clientFlag serverFlag]
    exact ⟨carries_new _ rfl, by simp [clientFlag, flags], related.buf, related.client,
      related.server⟩
  · rw [add_zero, PortProxy.turn_server _ _ related.buf clientFlag serverFlag]
    simp [launched]

theorem can_helloTaken {o : LeftOpen} {c s : Party} {w : World}
    (related : At c s .helloTaken w) : CanComplete o c s w := by
  refine can_step (.serverSend related.server (prepareMsg_eq _ _ _)) (can_replySent ?_ ?_)
  · exact ⟨carries_new _ (carries_nothing related.net), related.flags, related.buf,
      related.client, Or.inl rfl⟩
  · exact Multiset.cons_ne_zero

theorem can_helloRelayed {o : LeftOpen} {c s : Party} {w : World}
    (related : At c s .helloRelayed w) (under_way : w.net ≠ 0) (listens : w.server = .listening) :
    CanComplete o c s w := by
  obtain ⟨f, known, arrives⟩ := related.net.resolve_left under_way
  cases known
  refine can_step (.serverReceive listens arrives) (can_helloTaken ?_)
  rw [receive_padded]
  exact ⟨Or.inl rfl, related.flags, related.buf, related.client, rfl⟩

theorem can_helloSent {o : LeftOpen} {c s : Party} {w : World}
    (related : At c s .helloSent w) (under_way : w.net ≠ 0) (listens : w.server = .listening) :
    CanComplete o c s w := by
  obtain ⟨f, known, arrives⟩ := related.net.resolve_left under_way
  cases known
  obtain ⟨clientFlag, serverFlag⟩ := Prod.mk.inj related.flags
  refine can_step (.proxyTurn arrives) (can_helloRelayed ?_ ?_ listens)
  · rw [add_zero, PortProxy.turn_client _ _ related.buf clientFlag]
    exact ⟨carries_new _ rfl, by simp [serverFlag, flags], related.buf, related.client,
      related.server⟩
  · rw [add_zero, PortProxy.turn_client _ _ related.buf clientFlag]
    simp [launched]

def ready : Setup := ⟨true, true, true, true, true⟩

/-- A server that has not given up may as well be listening already. -/
theorem can_listening {o : LeftOpen} {c s : Party} {phase : Phase} {w : World}
    (related : At c s phase w) (waits : w.server = .start ∨ w.server = .listening)
    (can : ∀ v, At c s phase v → v.client = w.client → v.net = w.net →
      v.server = .listening → CanComplete o c s v) : CanComplete o c s w := by
  rcases waits with start | listening
  · have server := related.server
    rw [start] at server
    refine can_step (.serverSetup ready start) (can _ ?_ rfl rfl rfl)
    exact ⟨related.net, related.flags, related.buf, related.client,
      serverIn_waiting (Or.inl rfl) server _ (Or.inl rfl)⟩
  · exact can w related rfl rfl listening

theorem can_idle {o : LeftOpen} {c s : Party} {w : World} (related : At c s .idle w)
    (begins : w.client = .ready) (listens : w.server = .listening) : CanComplete o c s w := by
  refine can_step (.clientSend begins (prepareMsg_eq _ _ _)) (can_helloSent ?_ ?_ listens)
  · exact ⟨carries_new _ (carries_nothing related.net), related.flags, related.buf, rfl,
      related.server⟩
  · exact Multiset.cons_ne_zero

theorem hopeful_early {w : World} (hopeful : Hopeful w) (waits : w.client = .awaiting)
    (early : w.server = .start ∨ w.server = .listening ∨ w.server = .returned 1) :
    w.net ≠ 0 ∧ (w.server = .start ∨ w.server = .listening) := by
  rw [Hopeful, waits] at hopeful
  rcases hopeful with ⟨under_way, going⟩ | ⟨msgRecv, receivedLen, heard⟩
  · exact ⟨under_way, early.imp_right fun late => late.resolve_right going⟩
  · simp [heard] at early

theorem hopeful_late {c : Party} {w : World} (hopeful : Hopeful w) (waits : w.client = .awaiting)
    (late : w.server = .answered c.hello msgSize ∨
      w.server = .returned 0 ∧ w.serverInf = c.identity) : w.net ≠ 0 := by
  rw [Hopeful, waits] at hopeful
  rcases hopeful with ⟨under_way, _⟩ | ⟨msgRecv, receivedLen, heard⟩
  · exact under_way
  · simp [heard] at late

theorem can_of_hopeful {o : LeftOpen} {c s : Party} {phase : Phase} {w : World}
    (related : At c s phase w) (hopeful : Hopeful w) : CanComplete o c s w := by
  have client := related.client
  have server := related.server
  cases phase with
  | idle =>
    rcases client with start | begins | gone
    · rw [Hopeful, start] at hopeful
      have waits := server.imp_right fun late => late.resolve_right hopeful
      refine can_listening related waits fun v related' same _ listens => ?_
      refine can_step (.clientSetup ready (same.trans start)) (can_idle ?_ rfl listens)
      exact ⟨related'.net, related'.flags, related'.buf, Or.inr (Or.inl rfl), related'.server⟩
    · rw [Hopeful, begins] at hopeful
      have waits := server.imp_right fun late => late.resolve_right hopeful
      exact can_listening related waits fun v related' same _ listens =>
        can_idle related' (same.trans begins) listens
    · rw [Hopeful, gone] at hopeful
      cases hopeful
  | helloSent =>
    obtain ⟨under_way, waits⟩ := hopeful_early hopeful client server
    exact can_listening related waits fun v related' _ net listens =>
      can_helloSent related' (net ▸ under_way) listens
  | helloRelayed =>
    obtain ⟨under_way, waits⟩ := hopeful_early hopeful client server
    exact can_listening related waits fun v related' _ net listens =>
      can_helloRelayed related' (net ▸ under_way) listens
  | helloTaken => exact can_helloTaken related
  | replySent => exact can_replySent related (hopeful_late hopeful client server)
  | replyRelayed => exact can_replyRelayed related (hopeful_late hopeful client server)
  | replyTaken => exact can_replyTaken related

theorem awaiting_of_net {c s : Party} {phase : Phase} {w : World} {f : Flight}
    {rest : Multiset Flight} (related : At c s phase w) (arrives : w.net = f ::ₘ rest) :
    w.client = .awaiting := by
  have known := (carries_arrived related.net arrives).1
  have client := related.client
  cases phase with
  | idle | helloTaken | replyTaken => cases known
  | helloSent | helloRelayed | replySent | replyRelayed => exact client

theorem hopeless_awaiting {w : World} (waits : w.client = .awaiting) :
    ¬Hopeful w ↔ (w.net = 0 ∨ w.server = .returned 1) ∧
      ∀ msgRecv receivedLen, w.server ≠ .heard msgRecv receivedLen := by
  rw [Hopeful, waits]
  simp only [not_or, not_and_or, not_not, not_exists]

theorem hopeless_gone {w : World} (waits : w.client = .awaiting)
    (gone : w.server = .returned 1) : ¬Hopeful w := by
  refine (hopeless_awaiting waits).mpr ⟨Or.inr gone, fun _ _ heard => ?_⟩
  rw [gone] at heard
  cases heard

theorem gone_of_net {w : World} {f : Flight} {rest : Multiset Flight} (hopeless : ¬Hopeful w)
    (waits : w.client = .awaiting) (arrives : w.net = f ::ₘ rest) : w.server = .returned 1 := by
  refine ((hopeless_awaiting waits).mp hopeless).1.resolve_left ?_
  rw [arrives]
  exact Multiset.cons_ne_zero

theorem hopeless_server {w v : World} (hopeless : ¬Hopeful w) (going : w.server ≠ .returned 1)
    (client : v.client = w.client) (net : v.net = w.net)
    (quiet : ∀ msgRecv receivedLen, v.server ≠ .heard msgRecv receivedLen) : ¬Hopeful v := by
  cases stands : w.client with
  | start | ready =>
    rw [Hopeful, stands] at hopeless
    exact absurd going hopeless
  | awaiting =>
    obtain ⟨stuck, -⟩ := (hopeless_awaiting stands).mp hopeless
    refine (hopeless_awaiting (client.trans stands)).mpr ⟨Or.inl ?_, quiet⟩
    exact net.trans (stuck.resolve_right going)
  | returned rc =>
    rw [Hopeful, stands] at hopeless
    rw [Hopeful, client, stands]
    exact hopeless

theorem hopeless_step {o : LeftOpen} {c s : Party} {phase : Phase} {w w' : World}
    (related : At c s phase w) (hopeless : ¬Hopeful w) (step : Step o c s w w') :
    ¬Hopeful w' := by
  cases step with
  | clientSetup setup stands =>
    rw [Hopeful, stands] at hopeless
    have gone : w.server = .returned 1 := not_not.mp hopeless
    cases up : setup.succeeds with
    | false => simp [Hopeful]
    | true => simp [Hopeful, gone]
  | clientSend stands =>
    rw [Hopeful, stands] at hopeless
    exact hopeless_gone rfl (not_not.mp hopeless)
  | clientReceive stands arrives =>
    obtain ⟨known, -⟩ := carries_arrived related.net arrives
    obtain ⟨rfl, -⟩ := inFlight_toClient known
    have gone := gone_of_net hopeless stands arrives
    rcases related.server with answered | ⟨returned, -⟩
    · rw [gone] at answered
      cases answered
    · rw [gone] at returned
      cases returned
  | serverSetup setup stands =>
    refine hopeless_server hopeless (by simp [stands]) rfl rfl ?_
    intro msgRecv receivedLen
    cases setup.succeeds with
    | false => simp
    | true => simp
  | serverReceive stands arrives =>
    have gone := gone_of_net hopeless (awaiting_of_net related arrives) arrives
    rw [stands] at gone
    cases gone
  | serverSend stands =>
    have server := related.server
    rw [stands] at server
    obtain ⟨rfl, -⟩ := taken_of_heard server
    exact absurd stands (((hopeless_awaiting related.client).mp hopeless).2 _ _)
  | clientRefuse _ refused | serverRefuse _ refused =>
    rw [prepareMsg_eq] at refused
    cases refused
  | serverParse stands =>
    exact hopeless_server hopeless (by simp [stands]) rfl rfl fun _ _ heard => by cases heard
  | proxyTurn arrives | lose arrives =>
    have waits := awaiting_of_net related arrives
    have gone := gone_of_net hopeless waits arrives
    exact hopeless_gone waits gone

/-- In every state that a run can reach, the exchange can still be completed exactly
if no datagram of it is lost and neither side has given up. -/
theorem completes_iff (o : LeftOpen) (c s : Party) (w : World)
    (reach : Reachable (system o c s) w) : CanComplete o c s w ↔ Hopeful w := by
  obtain ⟨phase, -, related⟩ := (system_simulates o c s).reachable reach
  refine ⟨?_, can_of_hopeful related⟩
  rintro ⟨v, onward, client, -⟩
  by_contra hopeless
  have ends : (∃ phase, At c s phase v) ∧ ¬Hopeful v := by
    refine onward.invariant (I := fun v => (∃ phase, At c s phase v) ∧ ¬Hopeful v) ?_ ?_
    · rintro v rfl
      exact ⟨⟨phase, related⟩, hopeless⟩
    · rintro u v ⟨⟨phase, at_u⟩, stuck⟩ step
      obtain ⟨phase', -, at_v⟩ := step_simulates o c s phase u v at_u step
      exact ⟨⟨phase', at_v⟩, hopeless_step at_u stuck step⟩
  refine ends.2 ?_
  rw [Hopeful, client]

def begun : World :=
  ⟨.start, ⟨Vector.replicate 16 0, 0⟩, .start, ⟨Vector.replicate 16 0, 0⟩,
    PortProxy.start localClient.addr.port localServer.addr.port, 0⟩

def helloSent : World :=
  { begun with
    client := .awaiting
    net := {.toProxy ⟨localClient.addr, localClient.hello.toList⟩} }

def helloLost : World := { begun with client := .awaiting }

theorem reachable_helloSent : Reachable (system unspecified localClient localServer) helloSent := by
  have start : Reachable (system unspecified localClient localServer) begun :=
    .initial ⟨rfl, rfl, ⟨_, _, rfl⟩, rfl⟩
  exact (start.step (.clientSetup ready rfl)).step (.clientSend rfl (prepareMsg_eq _ _ _))

theorem reachable_helloLost : Reachable (system unspecified localClient localServer) helloLost :=
  reachable_helloSent.step (@Step.lose _ _ _ helloSent _ 0 rfl)

/-- The same client with its datagram under way, and after it is lost. -/
theorem hello_decides :
    CanComplete unspecified localClient localServer helloSent ∧
      ¬CanComplete unspecified localClient localServer helloLost := by
  refine ⟨?_, ?_⟩
  · exact (completes_iff _ _ _ helloSent reachable_helloSent).mpr
      (Or.inl ⟨Multiset.singleton_ne_zero _, ServerAt.noConfusion⟩)
  · rw [completes_iff _ _ _ helloLost reachable_helloLost]
    exact (hopeless_awaiting rfl).mpr ⟨Or.inl rfl, fun _ _ => ServerAt.noConfusion⟩

end RdmaFuzzing.ExchangeLoss
