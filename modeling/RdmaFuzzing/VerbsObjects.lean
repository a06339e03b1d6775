import RdmaFuzzing.PointerLifetimes
import RdmaFuzzing.QueuePair

/-! The calls of libibverbs that the clients and servers make, from the device to the
end, with the objects that the calls take and return: the three pairs of programs and
`dev_info.c`. A call that fails returns no object. -/

namespace RdmaFuzzing.VerbsObjects
open ExitRun PointerLifetimes

inductive Object where
  | context
  | pd
  | cq
  | qp
  | mr
  deriving DecidableEq

/-- What is done with an object; `readLkey` is the access `mr->lkey`. -/
inductive Verb where
  | openDevice
  | queryGid
  | queryPort
  | allocPd
  | createCq
  | createQp
  | modifyQp
  | regMr
  | readLkey
  | postSend
  | postRecv
  | pollCq
  | deregMr
  | closeDevice
  deriving DecidableEq

structure Event where
  verb : Verb
  ok : Bool
  deriving DecidableEq

def takes : Verb → List Object
  | .openDevice => []
  | .queryGid | .queryPort | .allocPd | .createCq | .closeDevice => [.context]
  | .createQp => [.pd, .cq]
  | .modifyQp | .postSend | .postRecv => [.qp]
  | .regMr => [.pd]
  | .readLkey | .deregMr => [.mr]
  | .pollCq => [.cq]

def effect : Verb → List (Action Object)
  | .openDevice => [.alloc .context]
  | .allocPd => [.alloc .pd]
  | .createCq => [.alloc .cq]
  | .createQp => [.alloc .qp]
  | .regMr => [.alloc .mr]
  | .deregMr => [.free (some .mr)]
  | .closeDevice => [.free (some .context)]
  | _ => []

def does (e : Event) : List (Action Object) :=
  (takes e.verb).map (fun o => .use (some o)) ++ if e.ok then effect e.verb else []

def checked (verb : Verb) (ok : Bool) : Run Event Unit := do
  call ⟨verb, ok⟩ ()
  require ok

structure Answers where
  openDevice : Bool
  queryGid : Bool
  allocPd : Bool
  createCq : Bool
  createQp : Bool
  toInit : Bool
  queryPort : Bool
  toRtr : Bool
  toRts : Bool
  regMr : Bool

/-- `run_client` and `run_server` of the three pairs, up to RTS. -/
def connect (a : Answers) : Run Event Unit := do
  checked .openDevice a.openDevice
  checked .queryGid a.queryGid
  checked .allocPd a.allocPd
  checked .createCq a.createCq
  checked .createQp a.createQp
  checked .modifyQp a.toInit
  checked .queryPort a.queryPort
  checked .modifyQp a.toRtr
  checked .modifyQp a.toRts

/-- The servers test `mr` before they read its key. -/
def serverMr (a : Answers) : Run Event Unit := do
  checked .regMr a.regMr
  call ⟨.readLkey, true⟩ ()

/-- The clients test `mr` after they have read its key. -/
def clientMr (a : Answers) : Run Event Unit := do
  call ⟨.regMr, a.regMr⟩ ()
  call ⟨.readLkey, true⟩ ()
  require a.regMr

/-- One receive: the post, the polls that return 0, the last poll, and its status. -/
structure Receive where
  posted : Bool
  empty : Nat
  polled : Bool
  success : Bool

def polls (n : Nat) : Run Event Unit := ⟨List.replicate n ⟨.pollCq, true⟩, some ()⟩

def receive (r : Receive) : Run Event Unit := do
  checked .postRecv r.posted
  polls r.empty
  checked .pollCq r.polled
  require r.success

def serverLoop : List Receive → Run Event Unit
  | [] => pure ()
  | r :: rest => do
      receive r
      serverLoop rest

def clientLoop : List Bool → Run Event Unit
  | [] => pure ()
  | posted :: rest => do
      checked .postSend posted
      clientLoop rest

/-- `server.c` of `client-server` and of `key_based_improved`, in the turns so far. -/
def runServer (a : Answers) (receives : List Receive) : Run Event Unit := do
  connect a
  serverMr a
  serverLoop receives

/-- `client.c` of `client-server` and of `key_based_improved`. -/
def runClient (a : Answers) (posts : List Bool) : Run Event Unit := do
  connect a
  clientMr a
  clientLoop posts

/-- `server.c` of `key_based_storage`. -/
def storageServer (a : Answers) (r : Receive) (deregMr closed : Bool) : Run Event Unit := do
  connect a
  serverMr a
  receive r
  checked .deregMr deregMr
  call ⟨.closeDevice, closed⟩ ()

/-- `client.c` of `key_based_storage`. -/
def storageClient (a : Answers) (posted closed : Bool) : Run Event Unit := do
  connect a
  clientMr a
  checked .postSend posted
  call ⟨.closeDevice, closed⟩ ()

/-- `dev_info.c`; its port is queried first, and its `main` opens and closes the device. -/
def devInfo (a : Answers) (posted deregMr closed : Bool) : Run Event Unit := do
  checked .openDevice a.openDevice
  checked .queryPort a.queryPort
  checked .queryGid a.queryGid
  checked .allocPd a.allocPd
  checked .createCq a.createCq
  checked .createQp a.createQp
  checked .modifyQp a.toInit
  checked .modifyQp a.toRtr
  checked .modifyQp a.toRts
  serverMr a
  checked .postRecv posted
  checked .deregMr deregMr
  checked .closeDevice closed

theorem after_takes {live : List Object} {verb : Verb} (alive : takes verb ⊆ live) :
    after live ((takes verb).map fun o => .use (some o)) = some live := by
  refine after_uses ?_
  intro a member
  obtain ⟨o, taken, rfl⟩ := List.mem_map.mp member
  exact ⟨o, alive taken, rfl⟩

theorem passes_plain {live : List Object} {verb : Verb} (ok : Bool) (plain : effect verb = [])
    (alive : takes verb ⊆ live) : Passes does live (checked verb ok) (ok = true) live := by
  refine passes_checked live ?_
  rw [does, plain, ite_self, ite_self, List.append_nil]
  exact after_takes alive

theorem passes_alloc {live : List Object} {verb : Verb} {o : Object} (ok : Bool)
    (allocs : effect verb = [.alloc o]) (alive : takes verb ⊆ live) :
    Passes does live (checked verb ok) (ok = true) (o :: live) := by
  refine passes_checked live ?_
  rw [does, after_append, after_takes alive, Option.bind_some, allocs]
  cases ok with
  | true => rfl
  | false => rfl

theorem passes_lkey {live : List Object} (alive : .mr ∈ live) :
    Passes does live (call ⟨.readLkey, true⟩ ()) True live :=
  passes_call (after_use live .mr [] alive)

def Connects (a : Answers) : Prop :=
  a.openDevice = true ∧ a.queryGid = true ∧ a.allocPd = true ∧ a.createCq = true ∧
    a.createQp = true ∧ a.toInit = true ∧ a.queryPort = true ∧ a.toRtr = true ∧ a.toRts = true

def connected : List Object := [.qp, .cq, .pd, .context]

theorem connect_passes (a : Answers) : Passes does [] (connect a) (Connects a) connected := by
  refine passes_bind (passes_alloc _ rfl (by decide)) ?_
  refine passes_bind (passes_plain _ rfl (by decide)) ?_
  refine passes_bind (passes_alloc _ rfl (by decide)) ?_
  refine passes_bind (passes_alloc _ rfl (by decide)) ?_
  refine passes_bind (passes_alloc _ rfl (by decide)) ?_
  refine passes_bind (passes_plain _ rfl (by decide)) ?_
  refine passes_bind (passes_plain _ rfl (by decide)) ?_
  refine passes_bind (passes_plain _ rfl (by decide)) ?_
  exact passes_plain _ rfl (by decide)

def registered : List Object := [.mr, .qp, .cq, .pd, .context]

theorem serverMr_passes (a : Answers) :
    Passes does connected (serverMr a) (a.regMr = true ∧ True) registered :=
  passes_bind (passes_alloc _ rfl (by decide)) (passes_lkey (by decide))

theorem clientMr_after (a : Answers) :
    afterRun does connected (clientMr a) = if a.regMr then some registered else none := by
  rw [clientMr]
  cases a.regMr with
  | true => rfl
  | false => rfl

def Receive.completes (r : Receive) : Prop :=
  r.posted = true ∧ True ∧ r.polled = true ∧ r.success = true

theorem receive_passes (r : Receive) :
    Passes does registered (receive r) r.completes registered := by
  have empty : Passes does registered (polls r.empty) True registered := by
    refine ⟨fun _ => ⟨rfl, ?_⟩, fun h => absurd trivial h⟩
    rw [afterRun, polls]
    refine after_uses ?_
    intro a member
    obtain ⟨e, logged, acts⟩ := List.mem_flatMap.mp member
    rw [(List.mem_replicate.mp logged).2] at acts
    exact ⟨.cq, by decide, List.mem_singleton.mp acts⟩
  refine passes_bind (passes_plain _ rfl (by decide)) ?_
  refine passes_bind empty ?_
  exact passes_bind (passes_plain _ rfl (by decide)) (passes_require _)

theorem serverLoop_passes (receives : List Receive) :
    Passes does registered (serverLoop receives) (∀ r ∈ receives, r.completes) registered := by
  induction receives with
  | nil =>
    have whole : Passes does registered (pure ()) True registered := passes_pure
    simpa [serverLoop] using whole
  | cons r rest ih =>
    rw [List.forall_mem_cons]
    exact passes_bind (receive_passes r) ih

theorem clientLoop_passes (posts : List Bool) :
    Passes does registered (clientLoop posts) (∀ posted ∈ posts, posted = true) registered := by
  induction posts with
  | nil =>
    have whole : Passes does registered (pure ()) True registered := passes_pure
    simpa [clientLoop] using whole
  | cons posted rest ih =>
    rw [List.forall_mem_cons]
    exact passes_bind (passes_plain _ rfl (by decide)) ih

def answers (verbs : QueuePair.Verbs) (regMr : Bool) : Answers where
  openDevice := verbs.openDevice
  queryGid := verbs.queryGid
  allocPd := verbs.allocPd
  createCq := verbs.createCq
  createQp := verbs.createQp
  toInit := verbs.modifyQp .init = 0
  queryPort := verbs.queryPort
  toRtr := verbs.modifyQp .rtr = 0
  toRts := verbs.modifyQp .rts = 0
  regMr := regMr

theorem openQueuePair_value_iff (verbs : QueuePair.Verbs) :
    (QueuePair.openQueuePair verbs).value = some () ↔
      verbs.openDevice = true ∧ verbs.queryGid = true ∧ verbs.allocPd = true ∧
        verbs.createCq = true ∧ verbs.createQp = true ∧ verbs.modifyQp .init = 0 ∧
        verbs.queryPort = true := by
  simp only [QueuePair.openQueuePair, require_bind, QueuePair.qpResetToInit,
    QueuePair.ibvModifyQp, call_bind, QueuePair.initAttr_qpState]
  split_ifs <;> simp_all

/-- The programs that are followed with their attributes get to RTS in the same runs. -/
theorem connect_value_iff (host : QueuePair.Host) (result : Nat × ConnInfo.ConnInf)
    (dest : ConnInfo.ConnInf → ConnInfo.Gid × BitVec 32) (regMr : Bool) :
    (QueuePair.connect host result dest).value = some () ↔
      Connects (answers host.verbs regMr) := by
  have opens := openQueuePair_value_iff host.verbs
  by_cases opened : (QueuePair.openQueuePair host.verbs).value = some ()
  · obtain ⟨device, gid, pd, cq, qp, init, port⟩ := opens.mp opened
    rw [QueuePair.connect_run host result dest opened]
    simp [Connects, answers, device, gid, pd, cq, qp, init, port]
  · have exited : (QueuePair.openQueuePair host.verbs).value = none := by
      cases value : (QueuePair.openQueuePair host.verbs).value with
      | none => rfl
      | some u => exact absurd value opened
    rw [QueuePair.connect, bind_none _ exited]
    refine iff_of_false (by simp) ?_
    intro connects
    simp only [Connects, answers, decide_eq_true_eq] at connects
    exact opened (opens.mpr (by simp [connects]))

theorem runServer_passes (a : Answers) (receives : List Receive) :
    Passes does [] (runServer a receives)
      (Connects a ∧ (a.regMr = true ∧ True) ∧ ∀ r ∈ receives, r.completes) registered :=
  passes_bind (connect_passes a)
    (passes_bind (serverMr_passes a) (serverLoop_passes receives))

theorem closeDevice_passes (closed : Bool) :
    Passes does connected (call ⟨.closeDevice, closed⟩ ()) True
      (if closed then [.qp, .cq, .pd] else connected) := by
  refine passes_call ?_
  cases closed with
  | true => rfl
  | false => rfl

theorem deregMr_passes (deregMr : Bool) :
    Passes does registered (checked .deregMr deregMr) (deregMr = true) connected := by
  refine passes_checked registered ?_
  cases deregMr with
  | true => rfl
  | false => rfl

def DevInfoSucceeds (a : Answers) (posted deregMr closed : Bool) : Prop :=
  a.openDevice = true ∧ a.queryPort = true ∧ a.queryGid = true ∧ a.allocPd = true ∧
    a.createCq = true ∧ a.createQp = true ∧ a.toInit = true ∧ a.toRtr = true ∧
    a.toRts = true ∧ (a.regMr = true ∧ True) ∧ posted = true ∧ deregMr = true ∧ closed = true

theorem devInfo_passes (a : Answers) (posted deregMr closed : Bool) :
    Passes does [] (devInfo a posted deregMr closed) (DevInfoSucceeds a posted deregMr closed)
      [.qp, .cq, .pd] := by
  refine passes_bind (passes_alloc _ rfl (by decide)) ?_
  refine passes_bind (passes_plain _ rfl (by decide)) ?_
  refine passes_bind (passes_plain _ rfl (by decide)) ?_
  refine passes_bind (passes_alloc _ rfl (by decide)) ?_
  refine passes_bind (passes_alloc _ rfl (by decide)) ?_
  refine passes_bind (passes_alloc _ rfl (by decide)) ?_
  refine passes_bind (passes_plain _ rfl (by decide)) ?_
  refine passes_bind (passes_plain _ rfl (by decide)) ?_
  refine passes_bind (passes_plain _ rfl (by decide)) ?_
  refine passes_bind (serverMr_passes a) ?_
  refine passes_bind (passes_plain _ rfl (by decide)) ?_
  refine passes_bind (deregMr_passes deregMr) ?_
  refine passes_checked connected ?_
  cases closed with
  | true => rfl
  | false => rfl

theorem storageServer_passes (a : Answers) (r : Receive) (deregMr closed : Bool) :
    Passes does [] (storageServer a r deregMr closed)
      (Connects a ∧ (a.regMr = true ∧ True) ∧ r.completes ∧ deregMr = true ∧ True)
      (if closed then [.qp, .cq, .pd] else connected) := by
  refine passes_bind (connect_passes a) ?_
  refine passes_bind (serverMr_passes a) ?_
  refine passes_bind (receive_passes r) ?_
  exact passes_bind (deregMr_passes deregMr) (closeDevice_passes closed)

theorem client_sound_iff (a : Answers) {rest : Run Event Unit} {ready : Prop}
    {left : List Object} (passes : Passes does registered rest ready left) :
    (afterRun does [] (connect a >>= fun _ => clientMr a >>= fun _ => rest)).isSome ↔
      (Connects a → a.regMr = true) := by
  by_cases connects : Connects a
  · obtain ⟨value, alive⟩ := (connect_passes a).passes connects
    rw [imp_iff_right connects, afterRun_bind_some _ _ _ value, alive, Option.bind_some]
    have region := clientMr_after a
    cases registers : a.regMr with
    | true =>
      have got : (clientMr a).value = some () := by rw [clientMr, registers]; rfl
      rw [registers, if_pos rfl] at region
      rw [afterRun_bind_some _ _ _ got, region, Option.bind_some]
      exact iff_of_true passes.sound rfl
    | false =>
      have got : (clientMr a).value = none := by rw [clientMr, registers]; rfl
      rw [registers, if_neg Bool.false_ne_true] at region
      rw [afterRun_bind_none _ _ _ got, region]
      exact iff_of_false (by decide) (by decide)
  · obtain ⟨value, alive⟩ := (connect_passes a).stops connects
    rw [afterRun_bind_none _ _ _ value]
    exact iff_of_true alive fun h => absurd h connects

/-- In every run, whatever its calls return and however many messages it has handled:
the servers and `dev_info.c` use only objects they hold, and so do the clients except
when their region is not registered, where they read the key of a null pointer before
they test it. What a server that ends leaves behind is its queue pair, its completion
queue and its protection domain, and the device too if that could not be closed. -/
theorem programs_sound_iff (a : Answers) (receives : List Receive) (posts : List Bool)
    (r : Receive) (posted deregMr closed : Bool) :
    Sound (actions does (runServer a receives).log) ∧
      Sound (actions does (storageServer a r deregMr closed).log) ∧
      Sound (actions does (devInfo a posted deregMr closed).log) ∧
      (Sound (actions does (runClient a posts).log) ↔ (Connects a → a.regMr = true)) ∧
      (Sound (actions does (storageClient a posted closed).log) ↔
        (Connects a → a.regMr = true)) ∧
      ((storageServer a r deregMr closed).value = some () →
        after [] (actions does (storageServer a r deregMr closed).log) =
          some (if closed then [.qp, .cq, .pd] else [.qp, .cq, .pd, .context])) := by
  have server := storageServer_passes a r deregMr closed
  have storage : Passes does registered
      (checked .postSend posted >>= fun _ => call ⟨.closeDevice, closed⟩ ())
      (posted = true ∧ True) (if closed then [.mr, .qp, .cq, .pd] else registered) := by
    refine passes_bind (passes_plain _ rfl (by decide)) (passes_call ?_)
    cases closed with
    | true => rfl
    | false => rfl
  refine ⟨(runServer_passes a receives).sound, server.sound,
    (devInfo_passes a posted deregMr closed).sound, client_sound_iff a (clientLoop_passes posts),
    client_sound_iff a storage, ?_⟩
  intro ended
  by_cases ready : Connects a ∧ (a.regMr = true ∧ True) ∧ r.completes ∧ deregMr = true ∧ True
  · exact (server.passes ready).2
  · rw [(server.stops ready).1] at ended
    cases ended

end RdmaFuzzing.VerbsObjects
