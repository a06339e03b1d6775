import Mathlib.Logic.Relation
import RdmaFuzzing.MessageLoops
import RdmaFuzzing.WorkQueue

/-! The listening loop of `run_server` and the device it posts receives to, call by
call. The poll asks for 16 completions and has room for one: that there is never
more than one comes from the loop, which posts only after it has polled. -/

namespace RdmaFuzzing.ReceiveLoop
open FrameLayout ReusedBuffer StepSystem MessageLoops WorkQueue

def numCqe : Nat := 0x10

def maxRecvWr : Nat := 1

def wcSuccess : Nat := 0

/-- Where `run_server` stands: before `ibv_post_recv`, polling, with a completion
in `wc`, before it clears its buffer, or gone. -/
inductive Server where
  | posting
  | polling
  | polled
  | clearing
  | exited
  deriving DecidableEq

/-- The program's variables and what its device holds; a completion is its status. -/
structure World where
  server : Server
  wc : Nat
  mem : Memory
  printed : List (List Byte)
  queue : Queue Nat

inductive Action where
  | postRecv
  | postRecvFails
  | place
  | complete
  | poll (k : Nat)
  | pollFails
  | statusFails
  | read
  | clear
  deriving DecidableEq

inductive Step : Action → World → World → Prop where
  | postRecv {w : World} (stands : w.server = .posting) :
      Step .postRecv w { w with queue := w.queue.post, wc := 0, server := .polling }
  | postRecvFails {w : World} (stands : w.server = .posting) :
      Step .postRecvFails w { w with server := .exited }
  | place {w : World} (mem : Memory) (posted : 0 < w.queue.posted) :
      Step .place w { w with mem := mem }
  | complete {w : World} (status : Nat) (posted : 0 < w.queue.posted) :
      Step .complete w { w with queue := w.queue.complete status }
  | poll {w : World} (k : Nat) (stands : w.server = .polling) (asked : k ≤ numCqe)
      (pending : k ≤ w.queue.completions.length) :
      Step (.poll k) w
        { w with
          queue := w.queue.poll k
          wc := (w.queue.completions.take k).headD w.wc
          server := if k = 0 then .polling else .polled }
  | pollFails {w : World} (stands : w.server = .polling) :
      Step .pollFails w { w with server := .exited }
  | statusFails {w : World} (stands : w.server = .polled) (failed : w.wc ≠ wcSuccess) :
      Step .statusFails w { w with server := .exited }
  | read {w : World} (stands : w.server = .polled) (succeeded : w.wc = wcSuccess) :
      Step .read w { w with printed := w.printed ++ [text w.mem], server := .clearing }
  | clear {w : World} (stands : w.server = .clearing) :
      Step .clear w { w with mem := fill w.mem memLen 0, server := .posting }

structure Initial (w : World) : Prop where
  server : w.server = .posting
  printed : w.printed = []
  queue : w.queue = .empty

def loop : System World := ⟨Initial, fun w w' => ∃ a, Step a w w'⟩

/-- What the calls in a step need that no line of the code checks. -/
structure Fits (a : Action) (w : World) : Prop where
  stores : ∀ k, a = .poll k → k ≤ 1
  posts : a = .postRecv ∨ a = .postRecvFails → w.queue.posted < maxRecvWr
  buffer : a = .read ∨ a = .clear → w.queue.posted = 0

/-- Only while it polls does the loop leave anything with the device. -/
structure AtMostOne (w : World) : Prop where
  load : w.queue.load ≤ 1
  idle : w.server = .posting ∨ w.server = .polled ∨ w.server = .clearing → w.queue.load = 0

theorem initial_atMostOne (w : World) (initial : Initial w) : AtMostOne w := by
  have nothing : w.queue.load = 0 := by
    rw [initial.queue]
    rfl
  exact ⟨by omega, fun _ => nothing⟩

theorem poll_atMostOne {w : World} {k : Nat} (inv : AtMostOne w)
    (pending : k ≤ w.queue.completions.length) :
    (w.queue.poll k).load ≤ 1 ∧ (k ≠ 0 → (w.queue.poll k).load = 0) := by
  have one := inv.load
  have taken := Queue.load_poll pending
  omega

theorem step_atMostOne {a : Action} {w w' : World} (inv : AtMostOne w) (step : Step a w w') :
    AtMostOne w' := by
  cases step with
  | postRecv stands =>
    have nothing := inv.idle (Or.inl stands)
    have more := Queue.load_post w.queue
    exact ⟨by dsimp only; omega, by simp⟩
  | postRecvFails | pollFails | statusFails => exact ⟨inv.load, by simp⟩
  | place mem posted => exact ⟨inv.load, inv.idle⟩
  | complete status posted =>
    have same := Queue.load_complete status posted
    exact ⟨Nat.le_trans (Nat.le_of_eq same) inv.load, fun stands => same.trans (inv.idle stands)⟩
  | poll k stands asked pending =>
    obtain ⟨load, idle⟩ := poll_atMostOne inv pending
    refine ⟨load, ?_⟩
    by_cases none : k = 0
    · simp [none]
    · exact fun _ => idle none
  | read stands succeeded => exact ⟨inv.load, fun _ => inv.idle (Or.inr (Or.inl stands))⟩
  | clear stands => exact ⟨inv.load, fun _ => inv.idle (Or.inr (Or.inr stands))⟩

theorem reachable_atMostOne {w : World} (reach : Reachable loop w) : AtMostOne w :=
  reach.invariant initial_atMostOne fun _ _ inv ⟨_, step⟩ => step_atMostOne inv step

theorem step_fits {a : Action} {w w' : World} (inv : AtMostOne w) (step : Step a w w') :
    Fits a w := by
  have some_posted := Queue.posted_le_load w.queue
  have some_pending := Queue.completions_le_load w.queue
  have one := inv.load
  cases step with
  | postRecv stands | postRecvFails stands =>
    have nothing := inv.idle (Or.inl stands)
    exact ⟨by simp, fun _ => by rw [maxRecvWr]; omega, by simp⟩
  | place | complete | pollFails | statusFails => exact ⟨by simp, by simp, by simp⟩
  | poll k stands asked pending =>
    refine ⟨?_, by simp, by simp⟩
    intro k' same
    cases same
    omega
  | read stands =>
    have nothing := inv.idle (Or.inr (Or.inl stands))
    exact ⟨by simp, by simp, fun _ => by omega⟩
  | clear stands =>
    have nothing := inv.idle (Or.inr (Or.inr stands))
    exact ⟨by simp, by simp, fun _ => by omega⟩

/-- At most one receive is with the device, so one `wc` has room for what a poll
stores, and the buffer is the program's own when it reads and clears it. -/
theorem polls_one {w : World} (reach : Reachable loop w) :
    w.queue.load ≤ 1 ∧ ∀ a w', Step a w w' → Fits a w :=
  ⟨(reachable_atMostOne reach).load, fun _ _ step => step_fits (reachable_atMostOne reach) step⟩

def atStart : World := ⟨.posting, 0, Vector.replicate memLen 0, [], .empty⟩

def arrived : World :=
  { atStart with server := .polling, queue := Queue.empty.post.complete wcSuccess }

theorem reachable_arrived : Reachable loop arrived := by
  have begun : Reachable loop atStart := .initial ⟨rfl, rfl, rfl⟩
  have posted := begun.step ⟨.postRecv, .postRecv rfl⟩
  exact posted.step ⟨.complete, .complete wcSuccess Nat.one_pos⟩

theorem arrived_polls : arrived.queue.completions = [wcSuccess] ∧ Fits (.poll 1) arrived := by
  refine ⟨rfl, ?_⟩
  exact (polls_one reachable_arrived).2 _ _ (.poll 1 rfl (by decide) (by decide))

theorem turn_run {w : World} (stands : w.server = .posting) (idle : w.queue = .empty)
    (mem : Memory) :
    Relation.ReflTransGen loop.Step w
      ⟨.posting, 0, fill mem memLen 0, w.printed ++ [text mem], .empty⟩ := by
  obtain ⟨server, wc, before, printed, queue⟩ := w
  subst stands
  subst idle
  have posts : loop.Step ⟨.posting, wc, before, printed, .empty⟩
      ⟨.polling, 0, before, printed, ⟨1, []⟩⟩ := ⟨.postRecv, .postRecv rfl⟩
  have places : loop.Step ⟨.polling, 0, before, printed, ⟨1, []⟩⟩
      ⟨.polling, 0, mem, printed, ⟨1, []⟩⟩ := ⟨.place, .place mem Nat.one_pos⟩
  have completes : loop.Step ⟨.polling, 0, mem, printed, ⟨1, []⟩⟩
      ⟨.polling, 0, mem, printed, ⟨0, [wcSuccess]⟩⟩ :=
    ⟨.complete, .complete wcSuccess Nat.one_pos⟩
  have polls : loop.Step ⟨.polling, 0, mem, printed, ⟨0, [wcSuccess]⟩⟩
      ⟨.polled, 0, mem, printed, .empty⟩ :=
    ⟨.poll 1, .poll 1 rfl (by decide) (Nat.le_refl 1)⟩
  have reads : loop.Step ⟨.polled, 0, mem, printed, .empty⟩
      ⟨.clearing, 0, mem, printed ++ [text mem], .empty⟩ := ⟨.read, .read rfl rfl⟩
  have clears : loop.Step ⟨.clearing, 0, mem, printed ++ [text mem], .empty⟩
      ⟨.posting, 0, fill mem memLen 0, printed ++ [text mem], .empty⟩ := ⟨.clear, .clear rfl⟩
  exact (((((Relation.ReflTransGen.single posts).tail places).tail completes).tail polls).tail
    reads).tail clears

end RdmaFuzzing.ReceiveLoop
