import RdmaFuzzing.StepSystem

/-! Relays: processes that take one item at a time from a queue, turn it into
another with the help of a state of their own, and hand that on. Items arrive at
any time, and between taking an item and handing on its successor a relay may be
held up for as long as the others please. Nothing is lost, doubled or reordered:
the items handed on are those of the relay run by itself on the items taken.

Systems that share nothing are interleaved by `interleave`; what is reachable in
the whole is what is reachable in each part. -/

namespace RdmaFuzzing.Relays
open StepSystem

structure Relay (σ α β : Type) where
  start : σ
  turn : σ → α → σ × β

namespace Relay

def stateAfter {σ α β : Type} (r : Relay σ α β) (s : σ) (xs : List α) : σ :=
  xs.foldl (fun s x => (r.turn s x).1) s

def outputs {σ α β : Type} (r : Relay σ α β) : σ → List α → List β
  | _, [] => []
  | s, x :: xs => (r.turn s x).2 :: r.outputs (r.turn s x).1 xs

theorem stateAfter_snoc {σ α β : Type} (r : Relay σ α β) (s : σ) (xs : List α) (x : α) :
    r.stateAfter s (xs ++ [x]) = (r.turn (r.stateAfter s xs) x).1 := by
  simp [stateAfter]

theorem outputs_snoc {σ α β : Type} (r : Relay σ α β) (s : σ) (xs : List α) (x : α) :
    r.outputs s (xs ++ [x]) = r.outputs s xs ++ [(r.turn (r.stateAfter s xs) x).2] := by
  induction xs generalizing s with
  | nil => rfl
  | cons y ys ih =>
    rw [List.cons_append, outputs, outputs, ih, List.cons_append]
    rfl

theorem length_outputs {σ α β : Type} (r : Relay σ α β) (s : σ) (xs : List α) :
    (r.outputs s xs).length = xs.length := by
  induction xs generalizing s with
  | nil => rfl
  | cons x xs ih => rw [outputs, List.length_cons, List.length_cons, ih]

end Relay

inductive Phase (σ β : Type) where
  | taking (s : σ)
  | holding (s : σ) (out : β)

structure Station (σ α β : Type) where
  arrived : List α
  queue : List α
  phase : Phase σ β
  sent : List β

inductive Step {σ α β : Type} (r : Relay σ α β) : Station σ α β → Station σ α β → Prop where
  | arrive {w : Station σ α β} (x : α) :
      Step r w { w with arrived := w.arrived ++ [x], queue := w.queue ++ [x] }
  | take {w : Station σ α β} {s : σ} {x : α} {rest : List α} (waits : w.phase = .taking s)
      (first : w.queue = x :: rest) :
      Step r w { w with queue := rest, phase := .holding (r.turn s x).1 (r.turn s x).2 }
  | send {w : Station σ α β} {s : σ} {out : β} (holds : w.phase = .holding s out) :
      Step r w { w with phase := .taking s, sent := w.sent ++ [out] }

def idle {σ α β : Type} (r : Relay σ α β) : Station σ α β := ⟨[], [], .taking r.start, []⟩

def station {σ α β : Type} (r : Relay σ α β) : System (Station σ α β) := ⟨(· = idle r), Step r⟩

def held {σ β : Type} : Phase σ β → List β
  | .taking _ => []
  | .holding _ out => [out]

def within {σ β : Type} : Phase σ β → σ
  | .taking s => s
  | .holding s _ => s

/-- The items taken so far account for all that the relay has done. -/
structure Accounts {σ α β : Type} (r : Relay σ α β) (w : Station σ α β) (taken : List α) :
    Prop where
  arrived : w.arrived = taken ++ w.queue
  state : within w.phase = r.stateAfter r.start taken
  outputs : w.sent ++ held w.phase = r.outputs r.start taken

theorem step_accounts {σ α β : Type} {r : Relay σ α β} {w w' : Station σ α β}
    (known : ∃ taken, Accounts r w taken) (next : Step r w w') :
    ∃ taken, Accounts r w' taken := by
  obtain ⟨taken, arrived, state, outputs⟩ := known
  cases next with
  | arrive x => exact ⟨taken, by simp [arrived], state, outputs⟩
  | take waits first =>
    rename_i s x rest
    rw [waits] at state outputs
    have now : s = r.stateAfter r.start taken := state
    refine ⟨taken ++ [x], ?_, ?_, ?_⟩
    · simp [arrived, first]
    · rw [r.stateAfter_snoc, ← now]
      rfl
    · rw [r.outputs_snoc, ← outputs, ← now]
      simp [held]
  | send holds =>
    rename_i s out
    rw [holds] at state outputs
    refine ⟨taken, arrived, state, ?_⟩
    rw [← outputs]
    simp [held]

theorem accounts {σ α β : Type} {r : Relay σ α β} {w : Station σ α β}
    (reach : Reachable (station r) w) : ∃ taken, Accounts r w taken := by
  refine reach.invariant (I := fun w => ∃ taken, Accounts r w taken) ?_ ?_
  · rintro w rfl
    exact ⟨[], rfl, rfl, rfl⟩
  · exact fun _ _ known next => step_accounts known next

/-- Runs in which nothing arrives. -/
inductive Drains {σ α β : Type} (r : Relay σ α β) : Station σ α β → Station σ α β → Prop where
  | done (w : Station σ α β) : Drains r w w
  | step {w v u : Station σ α β} (next : Step r w v) (same : v.arrived = w.arrived)
      (rest : Drains r v u) : Drains r w u

theorem Drains.reachable {σ α β : Type} {r : Relay σ α β} {w u : Station σ α β}
    (reach : Reachable (station r) w) (drains : Drains r w u) :
    Reachable (station r) u ∧ u.arrived = w.arrived := by
  induction drains with
  | done => exact ⟨reach, rfl⟩
  | step next same _ ih =>
    obtain ⟨reach', arrived⟩ := ih (.step reach next)
    exact ⟨reach', arrived.trans same⟩

theorem Drains.onward {σ α β : Type} {r : Relay σ α β} {w u : Station σ α β}
    (drains : Drains r w u) : Reachable ((station r).onward w) u := by
  induction drains with
  | done => exact .initial rfl
  | step next _ _ ih => exact ih.onward_step next

theorem drains_taking {σ α β : Type} (r : Relay σ α β) (queue : List α) (s : σ)
    (w : Station σ α β) (waits : w.phase = .taking s) (items : w.queue = queue) :
    ∃ u, Drains r w u ∧ u.queue = [] ∧ held u.phase = [] := by
  induction queue generalizing s w with
  | nil => exact ⟨w, .done w, items, by rw [waits]; rfl⟩
  | cons x rest ih =>
    let taken : Station σ α β :=
      { w with queue := rest, phase := .holding (r.turn s x).1 (r.turn s x).2 }
    let sent : Station σ α β :=
      { taken with phase := .taking (r.turn s x).1, sent := taken.sent ++ [(r.turn s x).2] }
    obtain ⟨u, drains, empty, free⟩ := ih (r.turn s x).1 sent rfl rfl
    exact ⟨u, .step (.take waits items) rfl (.step (v := sent) (.send rfl) rfl drains), empty, free⟩

theorem drains {σ α β : Type} (r : Relay σ α β) (w : Station σ α β) :
    ∃ u, Drains r w u ∧ u.queue = [] ∧ held u.phase = [] := by
  cases phase : w.phase with
  | taking s => exact drains_taking r w.queue s w phase rfl
  | holding s out =>
    let sent : Station σ α β := { w with phase := .taking s, sent := w.sent ++ [out] }
    obtain ⟨u, rest, empty, free⟩ := drains_taking r w.queue s sent rfl rfl
    exact ⟨u, .step (v := sent) (.send phase) rfl rest, empty, free⟩

theorem sent_of_drained {σ α β : Type} {r : Relay σ α β} {w : Station σ α β}
    (reach : Reachable (station r) w) (empty : w.queue = []) (free : held w.phase = []) :
    w.sent = r.outputs r.start w.arrived := by
  obtain ⟨taken, arrived, _, outputs⟩ := accounts reach
  rw [empty, List.append_nil] at arrived
  rw [free, List.append_nil] at outputs
  rw [outputs, arrived]

theorem sent_starts {σ α β : Type} {r : Relay σ α β} {w : Station σ α β}
    (reach : Reachable (station r) w) : w.sent <+: r.outputs r.start w.arrived := by
  obtain ⟨u, run, empty, free⟩ := drains r w
  obtain ⟨reach', arrived⟩ := run.reachable reach
  have grows : w.sent <+: u.sent := by
    clear reach reach' empty free arrived
    induction run with
    | done => exact List.prefix_refl _
    | step next _ _ ih =>
      refine List.IsPrefix.trans ?_ ih
      cases next with
      | arrive | take => exact List.prefix_refl _
      | send => exact List.prefix_append _ _
  rw [← arrived, ← sent_of_drained reach' empty free]
  exact grows

inductive StepEither {σ τ : Type} (A : System σ) (B : System τ) : σ × τ → σ × τ → Prop where
  | left {s s' : σ} {t : τ} (next : A.Step s s') : StepEither A B (s, t) (s', t)
  | right {s : σ} {t t' : τ} (next : B.Step t t') : StepEither A B (s, t) (s, t')

def interleave {σ τ : Type} (A : System σ) (B : System τ) : System (σ × τ) :=
  ⟨fun w => A.Initial w.1 ∧ B.Initial w.2, StepEither A B⟩

theorem interleave_parts {σ τ : Type} {A : System σ} {B : System τ} {w : σ × τ}
    (reach : Reachable (interleave A B) w) : Reachable A w.1 ∧ Reachable B w.2 := by
  refine reach.invariant (I := fun w => Reachable A w.1 ∧ Reachable B w.2) ?_ ?_
  · exact fun w start => ⟨.initial start.1, .initial start.2⟩
  · intro w w' parts next
    cases next with
    | left next => exact ⟨.step parts.1 next, parts.2⟩
    | right next => exact ⟨parts.1, .step parts.2 next⟩

/-- Any two states of the parts occur together: no part holds up the other. -/
theorem reachable_interleave {σ τ : Type} {A : System σ} {B : System τ} {s : σ} {t : τ}
    (left : Reachable A s) (right : Reachable B t) : Reachable (interleave A B) (s, t) := by
  induction left with
  | initial startA =>
    induction right with
    | initial startB => exact .initial ⟨startA, startB⟩
    | step _ next ih => exact .step ih (.right next)
  | step _ next ih => exact .step ih (.left next)

/-- The steps of the parts from where they stand are steps of the whole. -/
theorem onward_interleave {σ τ : Type} {A : System σ} {B : System τ} {s s' : σ} {t t' : τ}
    (left : Reachable (A.onward s) s') (right : Reachable (B.onward t) t') :
    Reachable ((interleave A B).onward (s, t)) (s', t') := by
  refine (reachable_interleave left right).invariant
    (I := fun w => Reachable ((interleave A B).onward (s, t)) w) ?_ ?_
  · rintro w ⟨standsA, standsB⟩
    exact .initial (Prod.ext standsA standsB)
  · intro w w' before next
    cases next with
    | left next => exact .step before (.left next)
    | right next => exact .step before (.right next)

end RdmaFuzzing.Relays
