import RdmaFuzzing.AddressSetup
import RdmaFuzzing.ExchangeProxy

/-! `ib_proxy.c` with its addresses: `prepare_conn_resources` as it jumps to its exit,
where a failure gives back `client_res` and `server_res`, which only its last calls
set, and `res`, which may have been given back before. -/

namespace RdmaFuzzing.ExchangeSetup
open CText FrameLayout ExitRun UdpSocket PointerLifetimes AddressSetup
open ExchangeProxy (ConfigParams ConnResources Exchange Received Sent)

/-- `prepare_sock_exit` with a return code that is not 0. -/
def prepareSockExit (clientRes serverRes res : Option Nat) : List Event :=
  [.freeaddrinfo clientRes, .freeaddrinfo serverRes, .freeaddrinfo res]

def resolve (k : Nat) (found : Option SockAddr) (clientRes serverRes res : Option Nat) :
    Run Event SockAddr :=
  match found with
  | some addr => ⟨[.getaddrinfo k true], some addr⟩
  | none => ⟨.getaddrinfo k false :: prepareSockExit clientRes serverRes res, none⟩

def orExit (ok : Bool) (clientRes serverRes res : Option Nat) : Run Event Unit :=
  if ok then pure () else ⟨prepareSockExit clientRes serverRes res, none⟩

/-- A pointer is the number of the call that set it; a failed call sets none. -/
def prepareConnResources (host : ExchangeProxy.Host) (config : ConfigParams) :
    Run Event ConnResources := do
  let _ ← resolve 0 (host.getaddrinfo config.proxyAddressClient config.exchangePort)
    none none none
  call (.socket (some 0) host.sdXch) ()
  orExit (0 ≤ host.sdXch) none none (some 0)
  call (.bind host.sdXch (some 0) host.bindXch) ()
  orExit (host.bindXch = 0) none none (some 0)
  call (.freeaddrinfo (some 0)) ()
  let _ ← resolve 1 (host.getaddrinfo config.proxyAddressClient config.rdmaPort)
    none none (some 0)
  call (.socket (some 1) host.sdRdma) ()
  orExit (0 ≤ host.sdRdma) none none (some 1)
  call (.bind host.sdRdma (some 1) host.bindRdma) ()
  orExit (host.bindRdma = 0) none none (some 1)
  let clientRes ← resolve 2 (host.getaddrinfo config.clientAddress config.exchangePort)
    none none (some 1)
  let serverRes ← resolve 3 (host.getaddrinfo config.serverAddress config.exchangePort)
    (some 2) none (some 1)
  call (.freeaddrinfo (some 1)) ()
  pure ⟨host.sdXch, host.sdRdma, clientRes, serverRes⟩

def sends (connRes : ConnResources) (turns : List ExchangeProxy.Turn) : List Event :=
  (turns.flatMap ExchangeProxy.Turn.sends).map fun s =>
    .sendto (some connRes.sdXch) (some 3) s.bytes

def main (host : ExchangeProxy.Host) (config : ConfigParams) (uninitialised : CString)
    (rs : List Received) : Run Event Exchange := do
  let connRes ← prepareConnResources host config
  let exchange := ExchangeProxy.fwdExchangeData config connRes uninitialised rs
  calls (sends connRes exchange.turns)
  calls (if exchange.returned then [.close connRes.sdXch] else [])
  pure exchange

theorem exit_after (live : List Nat) {clientRes serverRes : Option Nat} (res : Option Nat)
    (unset : clientRes = none ∨ serverRes = none) :
    after live (actions does (prepareSockExit clientRes serverRes res)) = none := by
  change after live [.free clientRes, .free serverRes, .free res] = none
  cases clientRes with
  | none => rfl
  | some i =>
    obtain rfl := unset.resolve_left (by simp)
    rw [after]
    cases act live (.free (some i)) with
    | none => rfl
    | some next => rfl

/-- A program returns what it is to return; then it kept to what is alive and leaves
`final` alive, and else it did not keep to it. -/
structure Outcome {α : Type} (final live : List Nat) (p : Run Event α) (result : Option α) :
    Prop where
  value : p.value = result
  alive : afterRun does live p = result.map fun _ => final

section
variable {α β : Type} {final live : List Nat}

theorem outcome_exit {p : Run Event α} (failed : List Event)
    {clientRes serverRes : Option Nat} {res : Option Nat}
    (log : p.log = failed ++ prepareSockExit clientRes serverRes res) (exited : p.value = none)
    (allocates : actions does failed = []) (unset : clientRes = none ∨ serverRes = none) :
    Outcome final live p none := by
  refine ⟨exited, ?_⟩
  rw [afterRun, log, actions_append, allocates, List.nil_append]
  exact exit_after live res unset

theorem resolve_bind {k : Nat} {found : Option SockAddr} {clientRes serverRes res : Option Nat}
    (unset : clientRes = none ∨ serverRes = none) {f : SockAddr → Run Event β}
    {g : SockAddr → Option β} (rest : ∀ addr, Outcome final (k :: live) (f addr) (g addr)) :
    Outcome final live (resolve k found clientRes serverRes res >>= f) (found >>= g) := by
  cases found with
  | none => exact outcome_exit [.getaddrinfo k false] rfl rfl rfl unset
  | some addr => exact ⟨(rest addr).value, (rest addr).alive⟩

theorem orExit_bind {ok : Prop} [Decidable ok] {res : Option Nat} {f : Unit → Run Event β}
    {g : Unit → Option β} (rest : Outcome final live (f ()) (g ())) :
    Outcome final live (orExit ok none none res >>= f) (guard ok >>= g) := by
  by_cases holds : ok
  · rw [orExit, if_pos (decide_eq_true holds), guard, if_pos holds]
    exact ⟨rest.value, rest.alive⟩
  · rw [orExit, if_neg (by simpa using holds), guard, if_neg holds]
    exact outcome_exit [] rfl rfl rfl (Or.inl rfl)

theorem use_bind {e : Event} {i : Nat} (uses : does e = [.use (some i)]) (alive : i ∈ live)
    {f : Unit → Run Event β} {result : Option β} (rest : Outcome final live (f ()) result) :
    Outcome final live (call e () >>= f) result := by
  refine ⟨rest.value, ?_⟩
  rw [afterRun, call_bind, actions_cons, uses, List.singleton_append, after_use live i _ alive]
  exact rest.alive

theorem free_bind {i : Nat} (alive : i ∈ live) {f : Unit → Run Event β} {result : Option β}
    (rest : Outcome final (live.erase i) (f ()) result) :
    Outcome final live (call (.freeaddrinfo (some i)) () >>= f) result :=
  ⟨rest.value, (after_free live i _ alive).trans rest.alive⟩

end

theorem prepare_outcome (host : ExchangeProxy.Host) (config : ConfigParams) :
    Outcome [3, 2] [] (prepareConnResources host config)
      (ExchangeProxy.prepareConnResources host config) := by
  -- the exchange socket
  refine resolve_bind (Or.inl rfl) fun _ => ?_
  refine use_bind rfl (List.mem_singleton_self 0) (orExit_bind ?_)
  refine use_bind rfl (List.mem_singleton_self 0) (orExit_bind ?_)
  refine free_bind (List.mem_singleton_self 0) ?_
  -- the socket for the other traffic
  refine resolve_bind (Or.inl rfl) fun _ => ?_
  refine use_bind rfl (List.mem_singleton_self 1) (orExit_bind ?_)
  refine use_bind rfl (List.mem_singleton_self 1) (orExit_bind ?_)
  -- the two addresses
  refine resolve_bind (Or.inl rfl) fun clientRes => ?_
  refine resolve_bind (Or.inr rfl) fun serverRes => ?_
  exact free_bind (by decide) ⟨rfl, rfl⟩

theorem exchange_after (connRes : ConnResources) (exchange : Exchange) :
    after [3, 2] (actions does (sends connRes exchange.turns ++
      if exchange.returned then [.close connRes.sdXch] else [])) = some [3, 2] := by
  refine after_uses ?_
  intro a member
  obtain ⟨e, called, acts⟩ := List.mem_flatMap.mp member
  rcases List.mem_append.mp called with sent | closed
  · obtain ⟨s, -, rfl⟩ := List.mem_map.mp sent
    exact ⟨3, by decide, List.mem_singleton.mp acts⟩
  · split_ifs at closed
    · rw [List.mem_singleton.mp closed] at acts
      cases acts
    · cases closed

theorem main_outcome (host : ExchangeProxy.Host) (config : ConfigParams)
    (uninitialised : CString) (rs : List Received) :
    Outcome [3, 2] [] (main host config uninitialised rs)
      (ExchangeProxy.main host config uninitialised rs) := by
  have setUp := prepare_outcome host config
  rw [ExchangeProxy.main]
  cases prepared : ExchangeProxy.prepareConnResources host config with
  | none =>
    rw [prepared] at setUp
    rw [main]
    refine ⟨?_, ?_⟩
    · rw [bind_none _ setUp.value]
      rfl
    · rw [afterRun_bind_none _ _ _ setUp.value]
      exact setUp.alive
  | some connRes =>
    rw [prepared] at setUp
    rw [main]
    refine ⟨?_, ?_⟩
    · rw [bind_some _ setUp.value]
      rfl
    · rw [afterRun_bind_some _ _ _ setUp.value, setUp.alive, Option.map_some, Option.bind_some,
        calls_bind, calls_bind, afterRun, pure_run, List.append_nil]
      exact exchange_after connRes _

/-- The program with its addresses does what it does without them, and keeps to the
addresses that are alive exactly in the runs whose set-up succeeds, whatever they
receive: on every other way out it gives back a pointer that was not set. -/
theorem main_sound_iff (host : ExchangeProxy.Host) (config : ConfigParams)
    (uninitialised : CString) (rs : List Received) :
    (main host config uninitialised rs).value =
        ExchangeProxy.main host config uninitialised rs ∧
      (Sound (actions does (main host config uninitialised rs).log) ↔
        (ExchangeProxy.prepareConnResources host config).isSome) ∧
      ((ExchangeProxy.prepareConnResources host config).isSome →
        after [] (actions does (main host config uninitialised rs).log) = some [3, 2]) := by
  obtain ⟨value, alive⟩ := main_outcome host config uninitialised rs
  rw [afterRun] at alive
  refine ⟨value, ?_, ?_⟩
  · rw [Sound, alive, Option.isSome_map, ExchangeProxy.main]
    cases ExchangeProxy.prepareConnResources host config with
    | none => rfl
    | some connRes => rfl
  · intro prepared
    obtain ⟨connRes, same⟩ := Option.isSome_iff_exists.mp prepared
    rw [alive, ExchangeProxy.main, same]
    rfl

end RdmaFuzzing.ExchangeSetup
