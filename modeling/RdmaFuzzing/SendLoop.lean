import Mathlib.Logic.Relation
import RdmaFuzzing.MessageLoops
import RdmaFuzzing.WorkQueue

/-! The send loop of `run_client` and the device it posts sends to, call by call.
The loop never polls, so every completion stays, and a send may be posted while
the one before is not completed. -/

namespace RdmaFuzzing.SendLoop
open FrameLayout ReusedBuffer StepSystem WorkQueue
open MessageLoops (Memory Word memLen)

def numCqe : Nat := 0x10

def maxSendWr : Nat := 1

/-- What `scanf` leaves in the cleared `input_buf`: a word, or nothing once the
input has ended. -/
abbrev Input : Type := Option Word

def copied : Input → List Byte
  | some word => word.copied
  | none => [0]

/-- Where `run_client` stands: before `scanf`, before `strcpy`, before
`ibv_post_send`, or gone. -/
inductive Client where
  | reading
  | copying (input : Input)
  | posting (input : Input)
  | exited

structure World where
  client : Client
  typed : List Input
  mem : Memory
  queue : Queue Nat

inductive Action where
  | scan
  | copy
  | post
  | postFails
  | complete
  deriving DecidableEq

inductive Step : Action → World → World → Prop where
  | scan {w : World} (input : Input) (stands : w.client = .reading) :
      Step .scan w { w with typed := w.typed ++ [input], client := .copying input }
  | copy {w : World} {input : Input} (stands : w.client = .copying input) :
      Step .copy w { w with mem := store w.mem 0 (copied input), client := .posting input }
  | post {w : World} {input : Input} (stands : w.client = .posting input) :
      Step .post w { w with queue := w.queue.post, client := .reading }
  | postFails {w : World} {input : Input} (stands : w.client = .posting input) :
      Step .postFails w { w with client := .exited }
  | complete {w : World} (status : Nat) (posted : 0 < w.queue.posted) :
      Step .complete w { w with queue := w.queue.complete status }

structure Initial (w : World) : Prop where
  client : w.client = .reading
  typed : w.typed = []
  queue : w.queue = .empty

def loop (allowed : Action → World → Prop) : System World where
  Initial := Initial
  Step w w' := ∃ a, Step a w w' ∧ allowed a w

def anyOrder : Action → World → Prop := fun _ _ => True

/-- No send is outstanding, and the completion queue has room for one more. -/
def Quiet (w : World) : Prop := w.queue.posted = 0 ∧ w.queue.completions.length < numCqe

/-- `scanf` returns only where all is quiet. -/
def Paced : Action → World → Prop := fun a w => a = .scan → Quiet w

/-- `ibv_post_send` is called only with room for a request, and no completion is
one too many. -/
structure Within (w : World) : Prop where
  sends : ∀ input, w.client = .posting input → w.queue.posted < maxSendWr
  completions : w.queue.completions.length ≤ numCqe

def holding : Client → Bool
  | .copying _ | .posting _ => true
  | .reading | .exited => false

structure InPace (w : World) : Prop where
  load : w.queue.load ≤ numCqe
  quiet : holding w.client = true → Quiet w

theorem initial_inPace (w : World) (initial : Initial w) : InPace w := by
  refine ⟨?_, ?_⟩
  · rw [initial.queue]
    exact Nat.zero_le _
  · rw [initial.client]
    exact fun h => by cases h

theorem step_inPace {a : Action} {w w' : World} (inv : InPace w) (paced : Paced a w)
    (step : Step a w w') : InPace w' := by
  cases step with
  | scan input stands => exact ⟨inv.load, fun _ => paced rfl⟩
  | copy stands => exact ⟨inv.load, fun _ => inv.quiet (by rw [stands]; rfl)⟩
  | post stands =>
    obtain ⟨none, room⟩ := inv.quiet (by rw [stands]; rfl)
    refine ⟨?_, fun h => by cases h⟩
    change w.queue.post.load ≤ numCqe
    rw [Queue.load_post, Queue.load, none]
    omega
  | postFails stands => exact ⟨inv.load, fun h => by cases h⟩
  | complete status posted =>
    refine ⟨?_, ?_⟩
    · change (w.queue.complete status).load ≤ numCqe
      rw [Queue.load_complete status posted]
      exact inv.load
    · intro held
      have none := (inv.quiet held).1
      omega

theorem within_of_inPace {w : World} (inv : InPace w) : Within w := by
  refine ⟨?_, Nat.le_trans (Queue.completions_le_load w.queue) inv.load⟩
  intro input stands
  have quiet := inv.quiet (by rw [stands]; rfl)
  rw [quiet.1, maxSendWr]
  exact Nat.one_pos

theorem reachable_inPace {w : World} (reach : Reachable (loop Paced) w) : InPace w :=
  reach.invariant initial_inPace fun _ _ inv ⟨_, step, paced⟩ => step_inPace inv paced step

/-- Input that comes while a send is outstanding, or the completion queue is full,
can be followed by steps that overrun a queue. -/
theorem overrun_of_scan {w w' : World} (scan : Step .scan w w') (busy : ¬ Quiet w) :
    ∃ broken, Relation.ReflTransGen (loop anyOrder).Step w' broken ∧ ¬ Within broken := by
  cases scan with
  | scan input stands =>
    let typed : World := { w with typed := w.typed ++ [input], client := .copying input }
    let full : World :=
      { typed with mem := store w.mem 0 (copied input), client := .posting input }
    have copies : Relation.ReflTransGen (loop anyOrder).Step typed full :=
      Relation.ReflTransGen.single ⟨.copy, .copy rfl, trivial⟩
    by_cases posted : w.queue.posted = 0
    · have waiting : numCqe ≤ w.queue.completions.length := by
        by_contra room
        exact busy ⟨posted, by omega⟩
      let sent : World := { full with queue := w.queue.post, client := .reading }
      let done : World := { sent with queue := w.queue.post.complete 0 }
      have posts : Relation.ReflTransGen (loop anyOrder).Step typed sent :=
        copies.tail ⟨.post, .post rfl, trivial⟩
      refine ⟨done, posts.tail ⟨.complete, .complete 0 (Nat.succ_pos _), trivial⟩, ?_⟩
      intro within
      have room : (w.queue.completions ++ [0]).length ≤ numCqe := within.completions
      rw [List.length_append, List.length_singleton] at room
      omega
    · refine ⟨full, copies, fun within => ?_⟩
      have room : w.queue.posted < 1 := within.sends input rfl
      omega

/-- The queues hold what they are given as long as all input comes in a quiet
state; input that comes in any other can overrun them. -/
theorem within_of_paced {w : World} (reach : Reachable (loop Paced) w) :
    Within w ∧ ∀ w', Step .scan w w' → ¬ Quiet w →
      ∃ broken, Relation.ReflTransGen (loop anyOrder).Step w' broken ∧ ¬ Within broken :=
  ⟨within_of_inPace (reachable_inPace reach), fun _ scan busy => overrun_of_scan scan busy⟩

def standsAs : MessageLoops.Client → Client
  | .ready => .reading
  | .copying word _ => .copying (some word)
  | .posting word => .posting (some word)
  | .exited _ => .exited

def copiedTo (mem : Memory) : MessageLoops.Client → Memory
  | .copying word k => store mem 0 (word.copied.take k)
  | _ => mem

structure Follows (w : World) (m : MessageLoops.World) : Prop where
  client : w.client = standsAs m.client
  typed : w.typed = m.typed.map some
  mem : m.mem = copiedTo w.mem m.client
  posted : w.queue.posted = m.sends.length + m.unacked
  completions : w.queue.completions.length = m.completions

theorem store_copied (mem : Memory) (word : Word) (k : Nat) (inside : k < word.copied.length) :
    store (store mem 0 (word.copied.take k)) k [word.copied.getD k 0] =
      store mem 0 (word.copied.take (k + 1)) := by
  have entry : word.copied.getD k 0 = word.copied[k] := (List.getElem_eq_getD 0).symm
  rw [entry, store_take_succ mem word.copied k inside]

theorem unseen_follows {w : World} {m m' : MessageLoops.World} (follows : Follows w m)
    (client : m'.client = m.client) (typed : m'.typed = m.typed) (mem : m'.mem = m.mem)
    (posted : m'.sends.length + m'.unacked = m.sends.length + m.unacked)
    (completions : m'.completions = m.completions) : Follows w m' := by
  refine ⟨?_, ?_, ?_, ?_, ?_⟩
  · rw [client, follows.client]
  · rw [typed, follows.typed]
  · rw [mem, client, follows.mem]
  · rw [posted, follows.posted]
  · rw [completions, follows.completions]

theorem copied_all (mem : Memory) (word : Word) :
    store (store mem 0 (word.copied.take word.chars.length)) word.chars.length
      [word.copied.getD word.chars.length 0] = store mem 0 word.copied := by
  have length : word.copied.length = word.chars.length + 1 := by
    rw [Word.copied, List.length_append, List.length_singleton]
  have all : word.copied.take (word.chars.length + 1) = word.copied :=
    List.take_of_length_le (Nat.le_of_eq length)
  rw [store_copied mem word _ (by omega), all]

theorem step_follows {w : World} {m m' : MessageLoops.World} {a : MessageLoops.Action}
    (follows : Follows w m) (step : MessageLoops.Step a m m') :
    ∃ w', Follows w' m' ∧ (w' = w ∨ ∃ b, Step b w w' ∧ (b = .scan → a = .scan)) := by
  obtain ⟨client, typed, mem, posted, completions⟩ := follows
  cases step with
  | scan word stands =>
    rw [stands] at client mem
    refine ⟨{ w with typed := w.typed ++ [some word], client := .copying (some word) }, ?_,
      Or.inr ⟨.scan, .scan (some word) client, fun _ => rfl⟩⟩
    refine ⟨rfl, by rw [typed, List.map_append]; rfl, ?_, posted, completions⟩
    change m.mem = store w.mem 0 []
    rw [store_nil, mem]
    rfl
  | @copy _ word k stands more =>
    rw [stands] at client mem
    refine ⟨w, ⟨client, typed, ?_, posted, completions⟩, Or.inl rfl⟩
    have inside : k < word.copied.length := by
      rw [Word.copied, List.length_append]
      omega
    dsimp only
    rw [mem]
    exact store_copied w.mem word k inside
  | @copyEnd _ word stands =>
    rw [stands] at client mem
    refine ⟨{ w with mem := store w.mem 0 word.copied, client := .posting (some word) }, ?_,
      Or.inr ⟨.copy, .copy client, fun scan => by cases scan⟩⟩
    refine ⟨rfl, typed, ?_, posted, completions⟩
    dsimp only
    rw [mem]
    exact copied_all w.mem word
  | post stands =>
    rw [stands] at client mem
    refine ⟨{ w with queue := w.queue.post, client := .reading }, ?_,
      Or.inr ⟨.post, .post client, fun scan => by cases scan⟩⟩
    refine ⟨rfl, typed, mem, ?_, completions⟩
    rw [Queue.posted_post, posted, List.length_append, List.length_singleton, Nat.add_right_comm]
  | postFails stands =>
    rw [stands] at client mem
    exact ⟨{ w with client := .exited }, ⟨rfl, typed, mem, posted, completions⟩,
      Or.inr ⟨.postFails, .postFails client, fun scan => by cases scan⟩⟩
  | complete delivered =>
    refine ⟨{ w with queue := w.queue.complete 0 }, ?_,
      Or.inr ⟨.complete, .complete 0 (by omega), fun scan => by cases scan⟩⟩
    refine ⟨client, typed, mem, ?_, ?_⟩
    · rw [Queue.posted_complete, posted]
      exact Nat.add_sub_assoc delivered _
    · rw [Queue.completions_complete, List.length_append, completions, List.length_singleton]
  | read i chunk =>
    refine ⟨w, unseen_follows ⟨client, typed, mem, posted, completions⟩ rfl rfl rfl ?_ rfl,
      Or.inl rfl⟩
    rw [List.length_modify]
  | deliver oldest =>
    refine ⟨w, unseen_follows ⟨client, typed, mem, posted, completions⟩ rfl rfl rfl ?_ rfl,
      Or.inl rfl⟩
    rw [oldest, List.length_cons]
    dsimp only
    omega
  | recvPost | print | serverFails =>
    exact ⟨w, ⟨client, typed, mem, posted, completions⟩, Or.inl rfl⟩

/-- The client reads a word only when the device has completed all sends, and the
completion queue has room for one more. -/
def Unrushed : MessageLoops.Action → MessageLoops.World → Prop := fun a m =>
  a = .scan → m.sends = [] ∧ m.unacked = 0 ∧ m.completions < numCqe

theorem quiet_of_follows {w : World} {m : MessageLoops.World} (follows : Follows w m)
    (unrushed : m.sends = [] ∧ m.unacked = 0 ∧ m.completions < numCqe) : Quiet w := by
  obtain ⟨sends, unacked, room⟩ := unrushed
  refine ⟨?_, ?_⟩
  · rw [follows.posted, sends, unacked]
    rfl
  · rw [follows.completions]
    exact room

theorem loops_simulates : Simulates (MessageLoops.loops Unrushed) (loop Paced) Follows where
  initial := by
    intro m first
    refine ⟨⟨.reading, [], m.mem, .empty⟩, ⟨rfl, rfl, rfl⟩, ?_, ?_, ?_, ?_, ?_⟩
    · rw [first.client]
      rfl
    · rw [first.typed]
      rfl
    · rw [first.client]
      rfl
    · rw [first.sends, first.unacked]
      rfl
    · rw [first.completions]
      rfl
  step := by
    intro w m m' follows ⟨a, step, unrushed⟩
    obtain ⟨w', follows', still | ⟨b, moved, scans⟩⟩ := step_follows follows step
    · exact ⟨w', Or.inl still, follows'⟩
    · exact ⟨w', Or.inr ⟨b, moved, fun scan =>
        quiet_of_follows follows (unrushed (scans scan))⟩, follows'⟩

/-- Nor do the loops of `MessageLoops` overrun the client's queues, if they are unrushed. -/
theorem loops_within {m : MessageLoops.World}
    (reach : Reachable (MessageLoops.loops Unrushed) m) :
    (∀ word, m.client = .posting word → m.sends = [] ∧ m.unacked = 0) ∧
      m.completions ≤ numCqe := by
  obtain ⟨w, reaches, follows⟩ := loops_simulates.reachable reach
  have within := within_of_inPace (reachable_inPace reaches)
  refine ⟨?_, ?_⟩
  · intro word stands
    have client := follows.client
    rw [stands] at client
    have room := within.sends (some word) client
    rw [follows.posted, maxSendWr] at room
    exact ⟨List.eq_nil_of_length_eq_zero (by omega), by omega⟩
  · rw [← follows.completions]
    exact within.completions

def greeting : Word := ⟨[0x68, 0x69], by decide, by decide, by decide⟩

def atStart : World := ⟨.reading, [], Vector.replicate memLen 0, .empty⟩

def sentOne : World :=
  ⟨.reading, [some greeting], store (Vector.replicate memLen 0) 0 greeting.copied,
    Queue.empty.post⟩

theorem reachable_sentOne {allowed : Action → World → Prop}
    (scans : allowed .scan atStart) (others : ∀ a w, a ≠ .scan → allowed a w) :
    Reachable (loop allowed) sentOne := by
  have begun : Reachable (loop allowed) atStart := .initial ⟨rfl, rfl, rfl⟩
  have scanned := begun.step ⟨.scan, .scan (some greeting) rfl, scans⟩
  have copied := scanned.step ⟨.copy, .copy rfl, others _ _ (by decide)⟩
  exact copied.step ⟨.post, .post rfl, others _ _ (by decide)⟩

def reply : Word := ⟨[0x6F, 0x6B], by decide, by decide, by decide⟩

def sentTwo : World :=
  ⟨.reading, [some greeting, some reply],
    store (store (Vector.replicate memLen 0) 0 greeting.copied) 0 reply.copied,
    (Queue.empty.post.complete 0).post⟩

theorem reachable_sentTwo : Reachable (loop Paced) sentTwo := by
  have others (a : Action) (w : World) (other : a ≠ .scan) : Paced a w :=
    fun scan => absurd scan other
  have sent : Reachable (loop Paced) sentOne :=
    reachable_sentOne (fun _ => ⟨rfl, by decide⟩) others
  have done := sent.step ⟨.complete, .complete 0 Nat.one_pos, others _ _ (by decide)⟩
  have scanned := done.step ⟨.scan, .scan (some reply) rfl, fun _ => ⟨rfl, by decide⟩⟩
  have copied := scanned.step ⟨.copy, .copy rfl, others _ _ (by decide)⟩
  exact copied.step ⟨.post, .post rfl, others _ _ (by decide)⟩

/-- All is well after two words; a third one would come while the second is outstanding. -/
theorem greeting_within :
    Within sentTwo ∧ ∀ w', Step .scan sentTwo w' →
      ∃ broken, Relation.ReflTransGen (loop anyOrder).Step w' broken ∧ ¬ Within broken := by
  obtain ⟨within, overruns⟩ := within_of_paced reachable_sentTwo
  exact ⟨within, fun w' scan => overruns w' scan fun quiet => absurd quiet.1 (by decide)⟩

theorem second_overruns : ∃ w, Reachable (loop anyOrder) w ∧ ¬ Within w := by
  have sent : Reachable (loop anyOrder) sentOne :=
    reachable_sentOne trivial fun _ _ _ => trivial
  have scanned := sent.step ⟨.scan, .scan (some greeting) rfl, trivial⟩
  refine ⟨_, scanned.step ⟨.copy, .copy rfl, trivial⟩, fun within => ?_⟩
  exact absurd (within.sends (some greeting) rfl) (by decide)

end RdmaFuzzing.SendLoop
