import RdmaFuzzing.MalformedInfo
import RdmaFuzzing.QueuePair

/-! What `run_client` and `run_server` do after their exchange, down to the first
rounds of their loops. Neither looks at the return code of the exchange, so a
failed one stops them only where libibverbs does. -/

namespace RdmaFuzzing.FailedExchange
open CText FrameLayout ReusedBuffer ConnInfo ConnExchange ExitRun QueuePair MalformedInfo

inductive Call where
  | verbs (e : Event)
  | postSend (ret : Int)
  | postRecv (ret : Int)
  deriving DecidableEq

def lift {α : Type} (p : Run Event α) : Run Call α := ⟨p.log.map .verbs, p.value⟩

structure Sending where
  regMr : Bool
  posts : List Int

/-- One round of the listening loop: what `ibv_post_recv` and the polls return, and
the status of the completion. -/
structure Round where
  post : Int
  polls : List Int
  status : Nat

structure Listening where
  regMr : Bool
  rounds : List Round

def wcSuccess : Nat := 0

def sendLoop : List Int → Run Call Unit
  | [] => pure ()
  | ret :: posts => do
      call (.postSend ret) ()
      require (ret = 0)
      sendLoop posts

/-- Without a poll that finds something the program is still polling. -/
def listenLoop : List Round → Run Call Unit
  | [] => pure ()
  | round :: rounds => do
      call (.postRecv round.post) ()
      require (round.post = 0)
      match round.polls.find? (· ≠ 0) with
      | none => pure ()
      | some pollCqRet => do
          require (0 ≤ pollCqRet)
          require (round.status = wcSuccess)
          listenLoop rounds

def clientRun (o : LeftOpen) (host : Host) (sending : Sending) : Run Call Unit := do
  lift (runClient o host)
  require sending.regMr
  sendLoop sending.posts

def serverRun (o : LeftOpen) (host : Host) (listening : Listening) : Run Call Unit := do
  lift (runServer o host)
  require listening.regMr
  listenLoop listening.rounds

def Proceeds : Call → Prop
  | .verbs (.modifyQp attr _ ret) => ret = 0 ∧ (attr.qpState = .rtr ∨ attr.qpState = .rts)
  | .verbs (.exchanged _) => False
  | .postSend _ => True
  | .postRecv _ => True

/-- A nonzero return code of the exchange keeps the program from proceeding. -/
def Refuses (log : List Call) : Prop :=
  ∀ rc, .verbs (.exchanged rc) ∈ log → rc ≠ 0 → ∀ e ∈ log, ¬ Proceeds e

def Opens (verbs : Verbs) : Prop :=
  verbs.openDevice ∧ verbs.queryGid ∧ verbs.allocPd ∧ verbs.createCq ∧ verbs.createQp ∧
    verbs.modifyQp .init = 0 ∧ verbs.queryPort

def Exchanges (host : Host) : Prop := host.setup.succeeds ∧ 18 ≤ host.received.length

theorem openQueuePair_value (verbs : Verbs) :
    (openQueuePair verbs).value = some () ↔ Opens verbs := by
  simp only [openQueuePair, require_bind, qpResetToInit, ibvModifyQp, call_bind,
    initAttr_qpState, Opens]
  split_ifs with device gid pd cq qp init <;> simp_all

theorem mem_require {condition : Bool} {p : Unit → Run Call Unit} {e : Call}
    (h : e ∈ (require condition >>= p).log) : e ∈ (p ()).log := by
  rw [require_bind] at h
  split_ifs at h
  · exact h
  · cases h

theorem mem_sendLoop {posts : List Int} {e : Call} (h : e ∈ (sendLoop posts).log) :
    ∃ ret, e = .postSend ret := by
  induction posts with
  | nil => cases h
  | cons ret posts ih =>
    rw [sendLoop, call_bind] at h
    rcases List.mem_cons.mp h with rfl | later
    · exact ⟨ret, rfl⟩
    · exact ih (mem_require later)

theorem mem_listenLoop {rounds : List Round} {e : Call} (h : e ∈ (listenLoop rounds).log) :
    ∃ ret, e = .postRecv ret := by
  induction rounds with
  | nil => cases h
  | cons round rounds ih =>
    rw [listenLoop, call_bind] at h
    rcases List.mem_cons.mp h with rfl | later
    · exact ⟨round.post, rfl⟩
    · have polled := mem_require later
      split at polled
      · cases polled
      · exact ih (mem_require (mem_require polled))

theorem parse_rc (o : LeftOpen) (bytes : List Byte) (cinf : ConnInf) :
    (receiveParse o bytes cinf).1 = 0 ↔ 18 ≤ bytes.length := by
  by_cases short : bytes.length < 18
  · rw [receiveParse_short o short]
    exact ⟨fun accepted => absurd accepted Nat.one_ne_zero, fun whole => absurd short (by omega)⟩
  · have whole : 18 ≤ bytes.length := Nat.le_of_not_lt short
    rw [receiveParse_whole o whole]
    exact ⟨fun _ => whole, fun _ => rfl⟩

theorem client_rc (o : LeftOpen) (host : Host) (cinf : ConnInf) :
    (xchConnInfClient o host.setup host.received (qpnText host.verbs.qpNum)
      host.verbs.gid cinf).1 = 0 ↔ Exchanges host := by
  rw [xchConnInfClient, prepareMsg_eq, Exchanges]
  by_cases up : host.setup.succeeds = true
  · rw [if_pos up]
    exact (parse_rc o host.received cinf).trans ⟨fun whole => ⟨up, whole⟩, And.right⟩
  · rw [if_neg up]
    exact ⟨fun accepted => absurd accepted Nat.one_ne_zero, fun exchanged => absurd exchanged.1 up⟩

theorem server_rc (o : LeftOpen) (host : Host) (cinf : ConnInf) :
    (xchConnInfServer o host.setup host.received (qpnText host.verbs.qpNum)
      host.verbs.gid cinf).1 = 0 ↔ Exchanges host := by
  have same : xchConnInfServer o host.setup host.received (qpnText host.verbs.qpNum)
      host.verbs.gid cinf = xchConnInfClient o host.setup host.received
        (qpnText host.verbs.qpNum) host.verbs.gid cinf := by
    rw [xchConnInfServer, xchConnInfClient, prepareMsg_eq]
    rfl
  rw [same, client_rc]

theorem mem_lift_bind {p : Run Event Unit} {after : Unit → Run Call Unit} {e : Call}
    (h : e ∈ (lift p >>= after).log) :
    (∃ ev ∈ p.log, e = .verbs ev) ∨ p.value = some () ∧ e ∈ (after ()).log := by
  cases value : p.value with
  | none =>
    rw [bind_none after (show (lift p).value = none from value)] at h
    obtain ⟨ev, logged, rfl⟩ := List.mem_map.mp h
    exact Or.inl ⟨ev, logged, rfl⟩
  | some u =>
    rw [bind_some after (show (lift p).value = some u from value)] at h
    rcases List.mem_append.mp h with before | later
    · obtain ⟨ev, logged, rfl⟩ := List.mem_map.mp before
      exact Or.inl ⟨ev, logged, rfl⟩
    · exact Or.inr ⟨rfl, later⟩

theorem mem_lift {p : Run Event Unit} (after : Unit → Run Call Unit) {ev : Event}
    (logged : ev ∈ p.log) : .verbs ev ∈ (lift p >>= after).log := by
  have mapped : Call.verbs ev ∈ (lift p).log := List.mem_map_of_mem logged
  cases value : p.value with
  | none =>
    rw [bind_none after (show (lift p).value = none from value)]
    exact mapped
  | some u =>
    rw [bind_some after (show (lift p).value = some u from value)]
    exact List.mem_append_left _ mapped

theorem mem_connect {host : Host} {result : Nat × ConnInf} {dest : ConnInf → Gid × BitVec 32}
    {ev : Event} (opened : (openQueuePair host.verbs).value = some ())
    (stuck : host.verbs.modifyQp .rtr ≠ 0) (logged : ev ∈ (connect host result dest).log) :
    ¬ Proceeds (.verbs ev) := by
  rw [connect_run host result dest opened, if_neg stuck] at logged
  rcases List.mem_append.mp logged with early | late
  · rw [mem_openQueuePair early]
    rintro ⟨_, rtr | rts⟩
    · cases rtr
    · cases rts
  · rcases List.mem_cons.mp late with rfl | late
    · exact id
    · rw [List.mem_singleton.mp late]
      exact fun proceeds => stuck proceeds.1

theorem connect_refuses_iff (host : Host) (result : Nat × ConnInf)
    (dest : ConnInf → Gid × BitVec 32) {after : Unit → Run Call Unit}
    (posts : ∀ ev, .verbs ev ∉ (after ()).log) :
    Refuses (lift (connect host result dest) >>= after).log ↔
      ¬ Opens host.verbs ∨ result.1 = 0 ∨ host.verbs.modifyQp .rtr ≠ 0 := by
  refine ⟨?_, ?_⟩
  · intro refuses
    by_contra passed
    obtain ⟨opens, failed, rtr⟩ : Opens host.verbs ∧ result.1 ≠ 0 ∧
        host.verbs.modifyQp .rtr = 0 := by simpa only [not_or, not_not] using passed
    have opened := (openQueuePair_value host.verbs).mpr opens
    have moved : rtrEvent host (dest result.2) ∈ (connect host result dest).log := by
      rw [connect_run host result dest opened]
      exact List.mem_append_right _ (List.mem_cons_of_mem _ List.mem_cons_self)
    exact refuses result.1 (mem_lift after (exchanged_logged opened)) failed _
      (mem_lift after moved) ⟨rtr, Or.inl rfl⟩
  · intro passed rc exchanged failed e he
    have logged : .exchanged rc ∈ (connect host result dest).log := by
      rcases mem_lift_bind exchanged with ⟨ev, logged, same⟩ | ⟨_, later⟩
      · cases same
        exact logged
      · exact absurd later (posts _)
    have opened := opened_of_exchanged logged
    rcases passed with closed | succeeded | stuck
    · exact absurd ((openQueuePair_value host.verbs).mp opened) closed
    · exact absurd ((exchanged_rc logged).symm.trans succeeded) failed
    · rcases mem_lift_bind he with ⟨ev, logged, rfl⟩ | ⟨ready, _⟩
      · exact mem_connect opened stuck logged
      · rw [connect_run host result dest opened] at ready
        dsimp only at ready
        rw [if_neg fun up => stuck up.1] at ready
        cases ready

/-- The exchange does not fail, or libibverbs does not let the program proceed. -/
def Passes (host : Host) : Prop :=
  ¬ Opens host.verbs ∨ Exchanges host ∨ host.verbs.modifyQp .rtr ≠ 0

theorem clientRun_refuses (o : LeftOpen) (host : Host) (sending : Sending) :
    Refuses (clientRun o host sending).log ↔ Passes host := by
  rw [clientRun, runClient, Passes, ← client_rc o host zeroInf]
  refine connect_refuses_iff host _ _ fun ev later => ?_
  obtain ⟨ret, same⟩ := mem_sendLoop (mem_require later)
  cases same

theorem serverRun_refuses (o : LeftOpen) (host : Host) (listening : Listening) :
    Refuses (serverRun o host listening).log ↔ Passes host := by
  rw [serverRun, runServer, Passes, ← server_rc o host zeroInf]
  refine connect_refuses_iff host _ _ fun ev later => ?_
  obtain ⟨ret, same⟩ := mem_listenLoop (mem_require later)
  cases same

/-- A failed exchange is refused only where libibverbs fails as well. -/
theorem refuses_iff (o : LeftOpen) (host : Host) (sending : Sending) (listening : Listening) :
    (Refuses (clientRun o host sending).log ↔ Passes host) ∧
      (Refuses (serverRun o host listening).log ↔ Passes host) :=
  ⟨clientRun_refuses o host sending, serverRun_refuses o host listening⟩

def emptied : Host :=
  ⟨⟨true, true, Vector.replicate 16 0, true, true, true, 17, fun _ => 0, true⟩,
    ⟨true, true, true, true, true⟩, [], 0, 0⟩

theorem not_passes_emptied : ¬ Passes emptied := by
  rintro (closed | exchanged | stuck)
  · exact closed ⟨rfl, rfl, rfl, rfl, rfl, rfl, rfl⟩
  · exact absurd exchanged.2 (by decide)
  · exact stuck rfl

theorem emptied_proceeds :
    ¬ Refuses (clientRun unspecified emptied ⟨true, [0]⟩).log ∧
      ¬ Refuses (serverRun unspecified emptied ⟨true, [⟨0, [0, 1], wcSuccess⟩]⟩).log :=
  ⟨fun refuses => not_passes_emptied ((clientRun_refuses _ _ _).mp refuses),
    fun refuses => not_passes_emptied ((serverRun_refuses _ _ _).mp refuses)⟩

end RdmaFuzzing.FailedExchange
