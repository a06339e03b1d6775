import RdmaFuzzing.ExchangeProxy

/-! What the exchange proxy does for the two sides. It counts datagrams instead
of remembering whose they are, and whatever its address tests let through it
sends to the server, also what the server itself has sent. -/

namespace RdmaFuzzing.ExchangeRouting
open CText FrameLayout UdpSocket ExchangeProxy

def forwardedIn (t : Turn) : Option Datagram :=
  match t.received with
  | .datagram d => if t.sends.isEmpty then none else some d
  | .failed => none

def forwarded (exch : Exchange) : List Datagram := exch.turns.filterMap forwardedIn

theorem forwardedIn_datagramTurn (config : ConfigParams) (connRes : ConnResources)
    (d : Datagram) :
    forwardedIn (datagramTurn config connRes d) = if Recognised config d then some d else none := by
  simp only [forwardedIn, datagramTurn, route]
  by_cases known : Recognised config d
  · simp [known]
  · simp [known]

theorem forwarded_eq (config : ConfigParams) (connRes : ConnResources)
    (uninitialised : CString) (ds : List Datagram) :
    forwarded (fwdExchangeData config connRes uninitialised (ds.map .datagram)) =
      (ds.filter (Recognised config)).take 2 := by
  rw [forwarded, fwdExchangeData_turns, List.filterMap_map, ← reached_filter,
    ← List.filterMap_eq_filter]
  congr 1
  funext d
  rw [Function.comp_apply, forwardedIn_datagramTurn]
  by_cases known : Recognised config d
  · simp [known]
  · simp [known, Option.guard]

/-- The function returns when two datagrams have passed the address tests, from
whichever side, and these are the two it has forwarded. -/
theorem returns_after_two (config : ConfigParams) (connRes : ConnResources)
    (uninitialised : CString) (ds : List Datagram) :
    let exch := fwdExchangeData config connRes uninitialised (ds.map .datagram)
    let recognised := ds.filter (Recognised config)
    (exch.returned = true ↔ 2 ≤ recognised.length) ∧ forwarded exch = recognised.take 2 ∧
      exch.connRes = if exch.returned then { connRes with sdXch := -1 } else connRes := by
  refine ⟨fwdExchangeData_returned _ _ _ _, forwarded_eq _ _ _ _, ?_⟩
  rw [fwdExchangeData]
  split_ifs <;> simp_all

def clientTwice : List Datagram :=
  List.replicate 2 ⟨⟨config.clientAddress, config.exchangePort⟩, [1]⟩

theorem clientTwice_returns :
    ¬ ∀ (config : ConfigParams) (connRes : ConnResources) (uninitialised : CString)
      (ds : List Datagram),
      let exch := fwdExchangeData config connRes uninitialised (ds.map .datagram)
      exch.returned = true →
        (∃ d ∈ forwarded exch, d.sender.host = config.clientAddress) ∧
        ∃ d ∈ forwarded exch, d.sender.host = config.serverAddress := by
  intro claimed
  let peer : SockAddr := ⟨config.serverAddress, config.exchangePort⟩
  have both := claimed config ⟨3, 4, peer, peer⟩ config.clientAddress clientTwice
    ((fwdExchangeData_returned _ _ _ _).mpr (by decide))
  obtain ⟨d, hd, server⟩ := both.2
  rw [forwarded_eq] at hd
  have client : ∀ d ∈ (clientTwice.filter (Recognised config)).take 2,
      d.sender.host ≠ config.serverAddress := by decide
  exact client d hd server

def SentTo (sends : List Sent) (bytes : List Byte) (addr : Option SockAddr) : Prop :=
  ∃ dest, addr = some dest ∧ sends = [⟨bytes, dest⟩]

structure RoutesTurn (host : Host) (config : ConfigParams) (d : Datagram)
    (sends : List Sent) : Prop where
  fromClient : d.sender.host = config.clientAddress →
    SentTo sends (d.bytes.take 4096) (host.getaddrinfo config.serverAddress config.exchangePort)
  fromServer : d.sender.host = config.serverAddress →
    SentTo sends (d.bytes.take 4096) (host.getaddrinfo config.clientAddress config.exchangePort)
  notBackToClient : d.sender.host = config.clientAddress → ∀ s ∈ sends,
    host.getaddrinfo config.clientAddress config.exchangePort ≠ some s.dest
  notBackToServer : d.sender.host = config.serverAddress → ∀ s ∈ sends,
    host.getaddrinfo config.serverAddress config.exchangePort ≠ some s.dest

def Routes (host : Host) (config : ConfigParams) (exch : Exchange) : Prop :=
  ∀ t ∈ exch.turns, ∀ d, t.received = .datagram d → RoutesTurn host config d t.sends

theorem prepareConnResources_resolved {host : Host} {config : ConfigParams}
    {connRes : ConnResources} (prepared : prepareConnResources host config = some connRes) :
    host.getaddrinfo config.clientAddress config.exchangePort = some connRes.resClientXch ∧
      host.getaddrinfo config.serverAddress config.exchangePort = some connRes.resServerXch := by
  simp only [prepareConnResources, Option.bind_eq_bind, Option.bind_eq_some_iff] at prepared
  obtain ⟨_, _, _, _, _, _, _, _, _, _, _, _, client, hclient, server, hserver, made⟩ := prepared
  cases Option.some.inj made
  exact ⟨hclient, hserver⟩

theorem routesTurn_iff (host : Host) (config : ConfigParams) (connRes : ConnResources)
    (prepared : prepareConnResources host config = some connRes) (d : Datagram) :
    RoutesTurn host config d (route config connRes d) ↔
      d.sender.host ≠ config.serverAddress ∧
        (d.sender.host = config.clientAddress → connRes.resClientXch ≠ connRes.resServerXch) := by
  obtain ⟨client, server⟩ := prepareConnResources_resolved prepared
  have toServer (known : Recognised config d) :
      route config connRes d = [⟨d.bytes.take 4096, connRes.resServerXch⟩] := if_pos known
  refine ⟨?_, ?_⟩
  · intro routes
    refine ⟨?_, ?_⟩
    · intro sender
      have known : Recognised config d := Or.inr (sender ▸ sentFrom_self _)
      have back := routes.notBackToServer sender
      rw [toServer known] at back
      exact back _ List.mem_cons_self server
    · intro sender same
      have known : Recognised config d := Or.inl (sender ▸ sentFrom_self _)
      have back := routes.notBackToClient sender
      rw [toServer known] at back
      exact back _ List.mem_cons_self (same ▸ client)
  · intro ⟨notServer, apart⟩
    have known (sender : d.sender.host = config.clientAddress) : Recognised config d :=
      Or.inl (sender ▸ sentFrom_self _)
    refine ⟨?_, fun sender => absurd sender notServer, ?_, fun sender => absurd sender notServer⟩
    · intro sender
      exact ⟨connRes.resServerXch, server, toServer (known sender)⟩
    · intro sender s hs
      rw [toServer (known sender), List.mem_singleton] at hs
      rw [client, hs]
      exact fun same => apart sender (Option.some.inj same)

/-- The routing law holds along a run exactly when the server is never heard. -/
theorem routes_iff (host : Host) (config : ConfigParams) (uninitialised : CString)
    (ds : List Datagram) :
    (∀ exch ∈ main host config uninitialised (ds.map .datagram), Routes host config exch) ↔
      ∀ connRes ∈ prepareConnResources host config, ∀ d ∈ reached config 2 ds,
        d.sender.host ≠ config.serverAddress ∧
          (d.sender.host = config.clientAddress →
            connRes.resClientXch ≠ connRes.resServerXch) := by
  unfold main
  cases prepared : prepareConnResources host config with
  | none => simp
  | some connRes =>
    simp only [Option.mem_def, Option.some_inj, forall_eq', Option.bind_eq_bind,
      Option.bind_some, Option.pure_def, Routes, fwdExchangeData_turns, List.mem_map,
      forall_exists_index, and_imp, forall_apply_eq_imp_iff₂]
    refine forall₂_congr fun d _ => ?_
    rw [← routesTurn_iff host config connRes prepared d]
    refine ⟨?_, ?_⟩
    · intro routes
      exact routes d rfl
    · intro routes e same
      cases same
      exact routes

def reachableHost : Host := ⟨fun host port => some ⟨host, port⟩, 3, 0, 4, 0⟩

def serverOnce : List Datagram := [⟨⟨config.serverAddress, config.exchangePort⟩, [1]⟩]

theorem serverOnce_misrouted :
    ¬ ∀ (host : Host) (config : ConfigParams) (uninitialised : CString) (ds : List Datagram),
      ∀ exch ∈ main host config uninitialised (ds.map .datagram), Routes host config exch := by
  intro claimed
  let connRes : ConnResources := ⟨3, 4, ⟨config.clientAddress, config.exchangePort⟩,
    ⟨config.serverAddress, config.exchangePort⟩⟩
  have prepared : prepareConnResources reachableHost config = some connRes := rfl
  have routes := claimed reachableHost config config.clientAddress serverOnce
    (fwdExchangeData config connRes config.clientAddress (serverOnce.map .datagram)) rfl
  rw [Routes, fwdExchangeData_turns] at routes
  have turn := routes _ (List.mem_map_of_mem (a := serverOnce.head (by decide)) (by decide)) _ rfl
  exact ((routesTurn_iff reachableHost config connRes prepared _).mp turn).1 rfl

def Peer (config : ConfigParams) (h : CString) : Prop :=
  h = config.clientAddress ∨ h = config.serverAddress

def TakenUp (d : Datagram) (st next : Loop) : Prop :=
  next.i = st.i + 1 ∧
    ∃ dest, next.turns = st.turns ++ [⟨.datagram d, [⟨d.bytes.take 4096, dest⟩]⟩]

def Dropped (d : Datagram) (st next : Loop) : Prop :=
  next.i = st.i ∧ next.turns = st.turns ++ [⟨.datagram d, []⟩]

def loopAfter (config : ConfigParams) (connRes : ConnResources) (uninitialised : CString)
    (rs : List Received) : Loop :=
  fwdLoop config connRes ⟨Vector.replicate 4096 0, uninitialised, 0, []⟩ rs

/-- Whenever the loop hears from the host `h`, it takes up the datagram exactly if
`h` is a peer. -/
def PeersOnly (config : ConfigParams) (h : CString) : Prop :=
  ∀ connRes uninitialised rs d, d.sender.host = h →
    let st := loopAfter config connRes uninitialised rs
    let next := turn config connRes st (.datagram d)
    st.i < 2 → (Peer config h → TakenUp d st next) ∧ (¬ Peer config h → Dropped d st next)

theorem turn_takenUp {config : ConfigParams} (connRes : ConnResources) (st : Loop)
    {d : Datagram} (known : Recognised config d) :
    TakenUp d st (turn config connRes st (.datagram d)) := by
  rw [turn_datagram, route, if_pos known, if_pos known]
  exact ⟨rfl, connRes.resServerXch, rfl⟩

theorem turn_dropped {config : ConfigParams} (connRes : ConnResources) (st : Loop)
    {d : Datagram} (unknown : ¬ Recognised config d) :
    Dropped d st (turn config connRes st (.datagram d)) := by
  rw [turn_datagram, route, if_neg unknown, if_neg unknown]
  exact ⟨rfl, rfl⟩

theorem not_dropped_of_takenUp {d : Datagram} {st next : Loop} (taken : TakenUp d st next) :
    ¬ Dropped d st next := by
  intro dropped
  have counts := taken.1.symm.trans dropped.1
  omega

/-- The address tests compare prefixes: a peer passes them, and so does any host
whose text goes on behind the address of one. -/
theorem peersOnly_iff (config : ConfigParams) (h : CString) :
    PeersOnly config h ↔ Peer config h ∨
      ¬ config.clientAddress.chars <+: h.chars ∧ ¬ config.serverAddress.chars <+: h.chars := by
  have known_iff (d : Datagram) (sender : d.sender.host = h) : Recognised config d ↔
      config.clientAddress.chars <+: h.chars ∨ config.serverAddress.chars <+: h.chars := by
    rw [Recognised, sender, sentFrom_iff, sentFrom_iff]
  refine ⟨?_, ?_⟩
  · intro law
    by_contra mistaken
    obtain ⟨stranger, passes⟩ := not_or.mp mistaken
    let addr : SockAddr := ⟨h, config.exchangePort⟩
    let d : Datagram := ⟨addr, []⟩
    have dropped := (law ⟨0, 0, addr, addr⟩ h [] d rfl (by decide : 0 < 2)).2 stranger
    refine not_dropped_of_takenUp (turn_takenUp _ _ ((known_iff d rfl).mpr ?_)) dropped
    by_contra neither
    exact passes (not_or.mp neither)
  · intro told connRes uninitialised rs d sender st next _
    refine ⟨?_, ?_⟩
    · rintro (client | server)
      · exact turn_takenUp connRes st (Or.inl (sender.trans client ▸ sentFrom_self _))
      · exact turn_takenUp connRes st (Or.inr (sender.trans server ▸ sentFrom_self _))
    · intro stranger
      have neither := told.resolve_left stranger
      exact turn_dropped connRes st fun known =>
        ((known_iff d sender).mp known).elim neither.1 neither.2

def strangerHost : CString := ⟨ofString "172.0.0.150", by decide⟩

theorem stranger_takenUp : ¬ PeersOnly config strangerHost := by
  intro law
  let addr : SockAddr := ⟨strangerHost, config.exchangePort⟩
  have dropped := (law ⟨3, 4, addr, addr⟩ strangerHost [] ⟨addr, [1]⟩ rfl (by decide : 0 < 2)).2
    (by decide : ¬ (_ ∨ _))
  exact not_dropped_of_takenUp (turn_takenUp _ _ (by decide)) dropped

end RdmaFuzzing.ExchangeRouting
