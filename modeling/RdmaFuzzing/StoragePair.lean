import RdmaFuzzing.MessageOrder
import RdmaFuzzing.WorkQueue

/-! The two programs of `key_based_storage` from `malloc` on, and the device between
them, in any order of steps. The client copies its one message into a buffer that it
never cleared, posts all 256 bytes of it and closes the device without looking for the
completion. The server posts one receive, polls for it and prints what arrived. -/

namespace RdmaFuzzing.StoragePair
open FrameLayout ReusedBuffer StepSystem WorkQueue MessageLoops MessageOrder

def message : List Byte := [0x68, 0x65, 0x6C, 0x6C, 0x6F, 0x00]

def hello : List Byte := [0x68, 0x65, 0x6C, 0x6C, 0x6F]

def numCqe : Nat := 0x10

inductive Client where
  | copying (k : Nat)
  | posting
  | closing
  | closed
  | exited
  deriving DecidableEq

inductive Server where
  | posting
  | polling
  | printing
  | done
  | exited
  deriving DecidableEq

/-- The send is the one posted and not delivered. A completion of the server's
queue is there with its status, which is `true` for `IBV_WC_SUCCESS`. -/
structure World where
  client : Client
  mem : Memory
  send : Option Send
  server : Server
  serverMem : Memory
  recv : Queue Bool
  printed : List (List Byte)

/-- The device writes some of what it has read, in any order and more than once. -/
def place (got : Send) (chunk : Fin memLen → Bool) (mem : Memory) : Memory :=
  Vector.ofFn fun j => if chunk j then (got.get j).getD (mem.get j) else mem.get j

inductive Step (w : World) : World → Prop where
  | copy {k : Nat} (stands : w.client = .copying k) (more : k < message.length) :
      Step w
        { w with mem := store w.mem k [message.getD k 0], client := .copying (k + 1) }
  | regMr (stands : w.client = .copying message.length) : Step w { w with client := .posting }
  | regMrFails (stands : w.client = .copying message.length) :
      Step w { w with client := .exited }
  | postSend (stands : w.client = .posting) :
      Step w { w with send := some (Vector.replicate memLen none), client := .closing }
  | postSendFails (stands : w.client = .posting) : Step w { w with client := .exited }
  | close (stands : w.client = .closing) : Step w { w with client := .closed }
  | drop (stands : w.client = .closed) : Step w { w with send := none }
  | read (chunk : Fin memLen → Bool) : Step w { w with send := w.send.map (gather w.mem chunk) }
  | place {got : Send} (posted : 0 < w.recv.posted) (sending : w.send = some got)
      (chunk : Fin memLen → Bool) : Step w { w with serverMem := place got chunk w.serverMem }
  | deliver {got : Send} {bytes : Memory} (posted : 0 < w.recv.posted)
      (sending : w.send = some got) (whole : Whole got bytes) :
      Step w { w with send := none, serverMem := bytes, recv := w.recv.complete true }
  | recvFails (posted : 0 < w.recv.posted) : Step w { w with recv := w.recv.complete false }
  | postRecv (stands : w.server = .posting) :
      Step w { w with recv := w.recv.post, server := .polling }
  | postRecvFails (stands : w.server = .posting) : Step w { w with server := .exited }
  | pollCq {status : Bool} {rest : List Bool} (stands : w.server = .polling)
      (oldest : w.recv.completions = status :: rest) :
      Step w
        { w with
          recv := w.recv.poll (min numCqe w.recv.completions.length)
          server := if status then .printing else .exited }
  | pollCqFails (stands : w.server = .polling) : Step w { w with server := .exited }
  | print (stands : w.server = .printing) :
      Step w { w with printed := w.printed ++ [text w.serverMem], server := .done }

/-- Both programs past `malloc`; nothing is known of what either buffer holds. -/
structure Initial (heap : Memory) (w : World) : Prop where
  client : w.client = .copying 0
  mem : w.mem = heap
  send : w.send = none
  server : w.server = .posting
  recv : w.recv = Queue.empty
  printed : w.printed = []

def pair (heap : Memory) : System World := ⟨Initial heap, Step⟩

def sentMem (heap : Memory) : Memory := store heap 0 message

def received (w : World) : Option Memory :=
  match w.server with
  | .printing | .done => some w.serverMem
  | .posting | .polling | .exited => none

def Current (got : Send) (mem : Memory) : Prop :=
  ∀ j (hj : j < memLen), got[j] = none ∨ got[j] = some mem[j]

def ClientHolds (heap : Memory) (w : World) : Prop :=
  match w.client with
  | .copying k => k ≤ message.length ∧ w.mem = store heap 0 (message.take k) ∧ w.send = none
  | .posting => w.mem = sentMem heap ∧ w.send = none
  | .closing | .closed => w.mem = sentMem heap ∧ ∀ got, w.send = some got → Current got w.mem
  | .exited => w.send = none

theorem current_gather_one {got : Send} {mem : Memory} (chunk : Fin memLen → Bool)
    (current : Current got mem) : Current (gather mem chunk got) mem := by
  have alone : ∀ g ∈ [got], Current g mem := List.forall_mem_singleton.mpr current
  exact current_gather 0 chunk alone _ (List.mem_singleton_self _)

theorem current_unread (mem : Memory) : Current (Vector.replicate memLen none) mem :=
  fun _ _ => Or.inl (Vector.getElem_replicate _)

theorem store_next (heap : Memory) (k : Nat) (more : k < message.length) :
    store (store heap 0 (message.take k)) k [message.getD k 0] =
      store heap 0 (message.take (k + 1)) := by
  rw [List.getD_eq_getElem _ _ more, store_take_succ heap message k more]

theorem posted_holds {heap : Memory} {w : World} (holds : ClientHolds heap w) {got : Send}
    (sending : w.send = some got) : w.mem = sentMem heap ∧ Current got w.mem := by
  unfold ClientHolds at holds
  cases stands : w.client with
  | copying k =>
    rw [stands] at holds
    rw [holds.2.2] at sending
    cases sending
  | posting =>
    rw [stands] at holds
    rw [holds.2] at sending
    cases sending
  | closing | closed =>
    rw [stands] at holds
    exact ⟨holds.1, holds.2 got sending⟩
  | exited =>
    rw [stands] at holds
    rw [show w.send = none from holds] at sending
    cases sending

theorem clientHolds_sent {heap : Memory} {w w' : World} (holds : ClientHolds heap w)
    (stands : w'.client = w.client) (mem : w'.mem = w.mem)
    (sends : ∀ got, w'.send = some got → Current got w.mem)
    (none : w.send = none → w'.send = none) : ClientHolds heap w' := by
  unfold ClientHolds at holds ⊢
  rw [stands, mem]
  revert holds
  cases w.client with
  | copying k => exact fun holds => ⟨holds.1, holds.2.1, none holds.2.2⟩
  | posting => exact fun holds => ⟨holds.1, none holds.2⟩
  | closing | closed => exact fun holds => ⟨holds.1, sends⟩
  | exited => exact none

theorem clientHolds_step {heap : Memory} {w w' : World} (holds : ClientHolds heap w)
    (step : Step w w') : ClientHolds heap w' := by
  have untouched (v : World) (client : v.client = w.client) (mem : v.mem = w.mem)
      (send : v.send = w.send) : ClientHolds heap v := by
    refine clientHolds_sent holds client mem ?_ (send.trans ·)
    intro got sending
    exact (posted_holds holds (send.symm.trans sending)).2
  have unsent (v : World) (client : v.client = w.client) (mem : v.mem = w.mem)
      (send : v.send = none) : ClientHolds heap v := by
    refine clientHolds_sent holds client mem ?_ fun _ => send
    intro got sending
    rw [send] at sending
    cases sending
  cases step with
  | @copy k stands more =>
    rw [ClientHolds, stands] at holds
    refine ⟨more, ?_, holds.2.2⟩
    simp only [holds.2.1]
    exact store_next heap k more
  | regMr stands =>
    rw [ClientHolds, stands] at holds
    refine ⟨holds.2.1.trans ?_, holds.2.2⟩
    rw [List.take_length, sentMem]
  | regMrFails stands =>
    rw [ClientHolds, stands] at holds
    exact holds.2.2
  | postSend stands =>
    rw [ClientHolds, stands] at holds
    refine ⟨holds.1, ?_⟩
    intro got posted
    cases posted
    exact current_unread w.mem
  | postSendFails stands =>
    rw [ClientHolds, stands] at holds
    exact holds.2
  | close stands =>
    rw [ClientHolds, stands] at holds
    exact holds
  | drop stands => exact unsent _ rfl rfl rfl
  | read chunk =>
    refine clientHolds_sent holds rfl rfl ?_ ?_
    · intro got sending
      obtain ⟨before, sent, rfl⟩ := Option.map_eq_some_iff.mp sending
      exact current_gather_one chunk (posted_holds holds sent).2
    · intro none
      rw [none, Option.map_none]
  | deliver => exact unsent _ rfl rfl rfl
  | place | recvFails | postRecv | postRecvFails | pollCq | pollCqFails | print =>
    exact untouched _ rfl rfl rfl

def ServerHolds (heap : Memory) (w : World) : Prop :=
  match w.server with
  | .posting => w.recv = Queue.empty ∧ w.printed = []
  | .polling => w.printed = [] ∧
      (w.recv = ⟨1, []⟩ ∨ w.recv = ⟨0, [false]⟩ ∨
        w.recv = ⟨0, [true]⟩ ∧ w.serverMem = sentMem heap)
  | .printing => w.recv.posted = 0 ∧ w.printed = [] ∧ w.serverMem = sentMem heap
  | .done => w.recv.posted = 0 ∧ w.printed = [hello] ∧ w.serverMem = sentMem heap
  | .exited => w.printed = []

theorem serverHolds_posted {heap : Memory} {w : World} (holds : ServerHolds heap w)
    (posted : 0 < w.recv.posted) :
    w.server = .polling ∧ w.printed = [] ∧ w.recv = ⟨1, []⟩ ∨
      w.server = .exited ∧ w.printed = [] := by
  unfold ServerHolds at holds
  cases stands : w.server with
  | posting =>
    rw [stands] at holds
    rw [holds.1] at posted
    cases posted
  | polling =>
    rw [stands] at holds
    obtain ⟨silent, waiting | failed | arrived⟩ := holds
    · exact Or.inl ⟨rfl, silent, waiting⟩
    · rw [failed] at posted
      cases posted
    · rw [arrived.1] at posted
      cases posted
  | printing | done =>
    rw [stands] at holds
    rw [holds.1] at posted
    cases posted
  | exited =>
    rw [stands] at holds
    exact Or.inr ⟨rfl, holds⟩

theorem text_sentMem (heap : Memory) : text (sentMem heap) = hello := by
  have front : (sentMem heap).toList = hello ++ 0 :: heap.toList.drop 6 := by
    rw [sentMem, toList_store heap 0 message (by decide)]
    rfl
  rw [text, front, List.takeWhile_append_of_pos (by decide)]
  simp

theorem serverHolds_step {heap : Memory} {w w' : World} (client : ClientHolds heap w)
    (holds : ServerHolds heap w) (step : Step w w') : ServerHolds heap w' := by
  cases step with
  | copy | regMr | regMrFails | postSend | postSendFails | close | drop | read => exact holds
  | place posted sending chunk =>
    obtain ⟨stands, silent, waiting⟩ | ⟨stands, silent⟩ := serverHolds_posted holds posted
    · rw [ServerHolds, stands]
      exact ⟨silent, Or.inl waiting⟩
    · rw [ServerHolds, stands]
      exact silent
  | @deliver got bytes posted sending whole =>
    obtain ⟨sent, current⟩ := posted_holds client sending
    have arrived : bytes = sentMem heap := (whole_current whole current).trans sent
    obtain ⟨stands, silent, waiting⟩ | ⟨stands, silent⟩ := serverHolds_posted holds posted
    · rw [ServerHolds, stands, waiting]
      exact ⟨silent, Or.inr (Or.inr ⟨rfl, arrived⟩)⟩
    · rw [ServerHolds, stands]
      exact silent
  | recvFails posted =>
    obtain ⟨stands, silent, waiting⟩ | ⟨stands, silent⟩ := serverHolds_posted holds posted
    · rw [ServerHolds, stands, waiting]
      exact ⟨silent, Or.inr (Or.inl rfl)⟩
    · rw [ServerHolds, stands]
      exact silent
  | postRecv stands =>
    rw [ServerHolds, stands] at holds
    refine ⟨holds.2, Or.inl ?_⟩
    rw [holds.1]
    rfl
  | postRecvFails stands =>
    rw [ServerHolds, stands] at holds
    exact holds.2
  | @pollCq status rest stands oldest =>
    rw [ServerHolds, stands] at holds
    obtain ⟨silent, waiting | failed | ⟨queue, arrived⟩⟩ := holds
    · rw [waiting] at oldest
      cases oldest
    · rw [failed] at oldest
      cases oldest
      exact silent
    · rw [queue] at oldest
      cases oldest
      rw [queue]
      exact ⟨rfl, silent, arrived⟩
  | pollCqFails stands =>
    rw [ServerHolds, stands] at holds
    exact holds.1
  | print stands =>
    rw [ServerHolds, stands] at holds
    obtain ⟨taken, silent, arrived⟩ := holds
    refine ⟨taken, ?_, arrived⟩
    rw [silent, arrived, text_sentMem, List.nil_append]

def Holds (heap : Memory) (w : World) : Prop := ClientHolds heap w ∧ ServerHolds heap w

theorem holds_step {heap : Memory} {w w' : World} (holds : Holds heap w) (step : Step w w') :
    Holds heap w' :=
  ⟨clientHolds_step holds.1 step, serverHolds_step holds.1 holds.2 step⟩

theorem pair_holds {heap : Memory} {w : World} (reach : Reachable (pair heap) w) :
    Holds heap w := by
  refine reach.invariant (I := Holds heap) ?_ fun _ _ => holds_step
  intro w start
  refine ⟨?_, ?_⟩
  · rw [ClientHolds, start.client]
    exact ⟨Nat.zero_le _, start.mem.trans (store_nil heap 0).symm, start.send⟩
  · rw [ServerHolds, start.server]
    exact ⟨start.recv, start.printed⟩

def blank : Memory := Vector.replicate memLen 0

theorem copied_reachable (heap : Memory) (k : Nat) (within : k ≤ message.length) :
    Reachable (pair heap)
      ⟨.copying k, store heap 0 (message.take k), none, .posting, blank, Queue.empty, []⟩ := by
  induction k with
  | zero =>
    rw [List.take_zero, store_nil]
    exact .initial ⟨rfl, rfl, rfl, rfl, rfl, rfl⟩
  | succ k ih =>
    have more : k < message.length := within
    rw [← store_next heap k more]
    exact .step (ih (Nat.le_of_lt more)) (.copy rfl more)

theorem posted_reachable (heap : Memory) :
    Reachable (pair heap)
      ⟨.closing, sentMem heap, some (Vector.replicate memLen none), .polling, blank, ⟨1, []⟩,
        []⟩ := by
  have copied := copied_reachable heap message.length (Nat.le_refl _)
  rw [List.take_length] at copied
  have registered := Reachable.step copied (.regMr rfl)
  have sending := Reachable.step registered (.postSend rfl)
  exact .step sending (.postRecv rfl)

theorem printing_reachable (heap : Memory) :
    Reachable (pair heap)
      ⟨.closing, sentMem heap, none, .printing, sentMem heap, ⟨0, []⟩, []⟩ := by
  have whole : Whole (gather (sentMem heap) (fun _ => true) (Vector.replicate memLen none))
      (sentMem heap) := by
    intro j hj
    rw [gather, Vector.getElem_ofFn, if_pos rfl]
    rfl
  have read := Reachable.step (posted_reachable heap) (.read fun _ => true)
  have delivered := Reachable.step read (.deliver Nat.zero_lt_one rfl whole)
  have polled := Reachable.step delivered (.pollCq rfl rfl)
  exact polled

/-- In every order of steps the server has nothing, or all 256 bytes that the client
registered: the message, and behind it what `malloc` gave the client. -/
theorem received_iff (heap : Memory) (printed : List (List Byte)) (held : Option Memory) :
    (∃ w, Reachable (pair heap) w ∧ w.printed = printed ∧ received w = held) ↔
      printed = [] ∧ (held = none ∨ held = some (sentMem heap)) ∨
        printed = [hello] ∧ held = some (sentMem heap) := by
  refine ⟨?_, ?_⟩
  · rintro ⟨w, reach, rfl, rfl⟩
    have holds := (pair_holds reach).2
    unfold ServerHolds at holds
    unfold received
    cases stands : w.server with
    | posting =>
      rw [stands] at holds
      exact Or.inl ⟨holds.2, Or.inl rfl⟩
    | polling =>
      rw [stands] at holds
      exact Or.inl ⟨holds.1, Or.inl rfl⟩
    | printing =>
      rw [stands] at holds
      exact Or.inl ⟨holds.2.1, Or.inr (congrArg some holds.2.2)⟩
    | done =>
      rw [stands] at holds
      exact Or.inr ⟨holds.2.1, congrArg some holds.2.2⟩
    | exited =>
      rw [stands] at holds
      exact Or.inl ⟨holds, Or.inl rfl⟩
  · rintro (⟨rfl, rfl | rfl⟩ | ⟨rfl, rfl⟩)
    · exact ⟨_, posted_reachable heap, rfl, rfl⟩
    · exact ⟨_, printing_reachable heap, rfl, rfl⟩
    · refine ⟨_, .step (printing_reachable heap) (.print rfl), ?_, rfl⟩
      rw [text_sentMem, List.nil_append]

def Arrives (heap : Memory) (w : World) : Prop :=
  ∃ v, Reachable ((pair heap).onward w) v ∧ v.printed = [hello]

def Sendable (w : World) : Prop :=
  match w.client with
  | .copying _ | .posting => True
  | .closing | .closed => w.send ≠ none
  | .exited => False

def Pending (w : World) : Prop :=
  match w.server with
  | .posting => Sendable w
  | .polling => w.recv = ⟨1, []⟩ ∧ Sendable w ∨ w.recv = ⟨0, [true]⟩
  | .printing | .done => True
  | .exited => False

theorem arrives_step {heap : Memory} {w v : World} (step : Step w v)
    (arrives : Arrives heap v) : Arrives heap w := by
  obtain ⟨u, reach, printed⟩ := arrives
  exact ⟨u, reach.onward_step step, printed⟩

theorem arrives_printing {heap : Memory} {w : World} (holds : Holds heap w)
    (stands : w.server = .printing) : Arrives heap w := by
  have printing := holds.2
  rw [ServerHolds, stands] at printing
  refine arrives_step (.print stands) ⟨_, .initial rfl, ?_⟩
  rw [printing.2.1, printing.2.2, text_sentMem, List.nil_append]

theorem arrives_completed {heap : Memory} {w : World} (holds : Holds heap w)
    (stands : w.server = .polling) (completed : w.recv = ⟨0, [true]⟩) : Arrives heap w := by
  have oldest : w.recv.completions = [true] := congrArg Queue.completions completed
  have polled := Step.pollCq stands oldest
  exact arrives_step polled (arrives_printing (holds_step holds polled) rfl)

theorem arrives_sent {heap : Memory} {w : World} (holds : Holds heap w)
    (stands : w.server = .polling) (waiting : w.recv = ⟨1, []⟩) {got : Send}
    (sending : w.send = some got) : Arrives heap w := by
  let whole_read : World := { w with send := some (gather w.mem (fun _ => true) got) }
  have read : Step w whole_read := by
    have all := Step.read (w := w) fun _ => true
    rwa [sending] at all
  have whole : Whole (gather w.mem (fun _ => true) got) w.mem := by
    intro j hj
    rw [gather, Vector.getElem_ofFn, if_pos rfl]
    rfl
  have posted : 0 < w.recv.posted := by
    rw [waiting]
    exact Nat.zero_lt_one
  have later := holds_step holds read
  have delivered := Step.deliver (w := whole_read) posted rfl whole
  refine arrives_step read (arrives_step delivered ?_)
  refine arrives_completed (holds_step later delivered) stands ?_
  rw [waiting]
  rfl

theorem arrives_posting {heap : Memory} {w : World} (holds : Holds heap w)
    (stands : w.server = .polling) (waiting : w.recv = ⟨1, []⟩) (sends : w.client = .posting) :
    Arrives heap w := by
  have sent := Step.postSend sends
  exact arrives_step sent (arrives_sent (holds_step holds sent) stands waiting rfl)

theorem arrives_copying {heap : Memory} (left k : Nat) (ends : k + left = message.length)
    {w : World} (holds : Holds heap w) (stands : w.server = .polling)
    (waiting : w.recv = ⟨1, []⟩) (copies : w.client = .copying k) : Arrives heap w := by
  induction left generalizing k w with
  | zero =>
    obtain rfl : k = message.length := ends
    have registered := Step.regMr copies
    exact arrives_step registered
      (arrives_posting (holds_step holds registered) stands waiting rfl)
  | succ left ih =>
    have copied := Step.copy copies (by omega)
    exact arrives_step copied
      (ih (k + 1) (by omega) (holds_step holds copied) stands waiting rfl)

theorem arrives_sendable {heap : Memory} {w : World} (holds : Holds heap w)
    (stands : w.server = .polling) (waiting : w.recv = ⟨1, []⟩) (sendable : Sendable w) :
    Arrives heap w := by
  rw [Sendable] at sendable
  cases client : w.client with
  | copying k =>
    have within := holds.1
    rw [ClientHolds, client] at within
    exact arrives_copying (message.length - k) k (by have := within.1; omega) holds stands
      waiting client
  | posting => exact arrives_posting holds stands waiting client
  | closing | closed =>
    rw [client] at sendable
    obtain ⟨got, sending⟩ := Option.ne_none_iff_exists'.mp sendable
    exact arrives_sent holds stands waiting sending
  | exited =>
    rw [client] at sendable
    exact sendable.elim

theorem arrives_of_pending {heap : Memory} {w : World} (holds : Holds heap w)
    (pending : Pending w) : Arrives heap w := by
  have server := holds.2
  rw [Pending] at pending
  rw [ServerHolds] at server
  cases stands : w.server with
  | posting =>
    rw [stands] at pending server
    have posted := Step.postRecv stands
    refine arrives_step posted (arrives_sendable (holds_step holds posted) rfl ?_ pending)
    rw [server.1]
    rfl
  | polling =>
    rw [stands] at pending
    rcases pending with ⟨waiting, sendable⟩ | completed
    · exact arrives_sendable holds stands waiting sendable
    · exact arrives_completed holds stands completed
  | printing => exact arrives_printing holds stands
  | done =>
    rw [stands] at server
    exact ⟨w, .initial rfl, server.2.1⟩
  | exited =>
    rw [stands] at pending
    exact pending.elim

/-- What the server's side does not see can only take the message away. -/
theorem pending_client {w v : World} (pending : Pending v) (server : v.server = w.server)
    (recv : v.recv = w.recv) (sendable : Sendable v → Sendable w) : Pending w := by
  rw [Pending, server, recv] at pending
  rw [Pending]
  cases stands : w.server with
  | posting =>
    rw [stands] at pending
    exact sendable pending
  | polling =>
    rw [stands] at pending
    exact pending.imp_left fun waiting => ⟨waiting.1, sendable waiting.2⟩
  | printing | done => trivial
  | exited =>
    rw [stands] at pending
    exact pending

theorem sendable_of_sending {heap : Memory} {w : World} (holds : ClientHolds heap w) {got : Send}
    (sending : w.send = some got) : Sendable w := by
  rw [ClientHolds] at holds
  rw [Sendable]
  cases stands : w.client with
  | copying | posting => trivial
  | closing | closed => simp [sending]
  | exited =>
    rw [stands] at holds
    rw [show w.send = none from holds] at sending
    cases sending

theorem pending_back {heap : Memory} {w v : World} (holds : Holds heap w) (step : Step w v)
    (pending : Pending v) : Pending w := by
  cases step with
  | copy stands | regMr stands | regMrFails stands | postSend stands | postSendFails stands =>
    refine pending_client pending rfl rfl fun _ => ?_
    rw [Sendable, stands]
    trivial
  | close stands =>
    refine pending_client pending rfl rfl fun sendable => ?_
    rw [Sendable, stands]
    exact sendable
  | drop stands =>
    refine pending_client pending rfl rfl fun sendable => ?_
    rw [Sendable, stands] at sendable
    exact absurd rfl sendable
  | read chunk =>
    refine pending_client pending rfl rfl fun sendable => ?_
    cases sending : w.send with
    | some got => exact sendable_of_sending holds.1 sending
    | none =>
      rw [Sendable] at sendable ⊢
      simpa only [sending, Option.map_none] using sendable
  | place =>
    refine pending_client pending rfl rfl fun sendable => ?_
    rw [Sendable] at sendable ⊢
    exact sendable
  | deliver posted sending =>
    obtain ⟨stands, -, waiting⟩ | ⟨gone, -⟩ := serverHolds_posted holds.2 posted
    · rw [Pending, stands]
      exact Or.inl ⟨waiting, sendable_of_sending holds.1 sending⟩
    · rw [Pending, gone] at pending
      exact pending.elim
  | recvFails posted =>
    obtain ⟨stands, -, waiting⟩ | ⟨gone, -⟩ := serverHolds_posted holds.2 posted
    · rw [Pending, stands, waiting] at pending
      simp [Queue.complete] at pending
    · rw [Pending, gone] at pending
      exact pending.elim
  | postRecv stands =>
    have empty := holds.2
    rw [ServerHolds, stands] at empty
    rw [Pending, stands]
    rcases pending with ⟨-, sendable⟩ | completed
    · exact sendable
    · rw [empty.1] at completed
      cases completed
  | postRecvFails | pollCqFails => exact pending.elim
  | @pollCq status rest stands oldest =>
    have server := holds.2
    rw [ServerHolds, stands] at server
    rw [Pending, stands]
    obtain ⟨-, waiting | failed | ⟨completed, -⟩⟩ := server
    · rw [waiting] at oldest
      cases oldest
    · rw [failed] at oldest
      cases oldest
      exact pending.elim
    · exact Or.inr completed
  | print stands =>
    rw [Pending, stands]
    trivial

/-- The message can still arrive exactly if its send is not gone and the server did not
fail: with the device closed, all depends on whether the device still has the send. -/
theorem arrives_iff (heap : Memory) (w : World) (reach : Reachable (pair heap) w) :
    Arrives heap w ↔ Pending w := by
  have holds := pair_holds reach
  refine ⟨?_, arrives_of_pending holds⟩
  rintro ⟨v, onward, printed⟩
  have back : Holds heap v ∧ (Pending v → Pending w) := by
    refine onward.invariant (I := fun v => Holds heap v ∧ (Pending v → Pending w)) ?_ ?_
    · rintro u rfl
      exact ⟨holds, id⟩
    · intro u v before step
      exact ⟨holds_step before.1 step, fun pending => before.2 (pending_back before.1 step pending)⟩
  refine back.2 ?_
  have server := back.1.2
  rw [ServerHolds, printed] at server
  rw [Pending]
  cases stands : v.server with
  | printing | done => trivial
  | posting | polling | exited =>
    rw [stands] at server
    simp at server

/-- Both programs did all they had to, and the client's device was closed too early. -/
def closedEarly : World :=
  ⟨.closed, sentMem blank, none, .polling, blank, ⟨1, []⟩, []⟩

theorem closedEarly_reachable : Reachable (pair blank) closedEarly := by
  have closed := Reachable.step (posted_reachable blank) (.close rfl)
  exact .step closed (.drop rfl)

theorem closedEarly_lost : ¬Arrives blank closedEarly := by
  rw [arrives_iff blank closedEarly closedEarly_reachable]
  rintro (⟨-, sendable⟩ | completed)
  · exact sendable rfl
  · cases completed

end RdmaFuzzing.StoragePair
