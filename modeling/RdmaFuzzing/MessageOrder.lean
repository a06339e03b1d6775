import RdmaFuzzing.MessageLoops
import Mathlib.Data.List.GetD
import Mathlib.Data.List.Induction

/-! Whether messages arrive as they were typed. The client never waits for a send
to complete, so it may overwrite a message that the device has yet to read. As
long as it does not, every word is either printed, or in the server's buffer, or
in the client's buffer under a posted send, or not posted yet, in this order. -/

namespace RdmaFuzzing.MessageOrder
open FrameLayout ReusedBuffer StepSystem MessageLoops

def Holds (mem : Memory) (word : Word) (k : Nat) : Prop :=
  ∀ j, j < k → ∀ hj : j < memLen, mem[j] = word.copied.getD j 0

theorem holds_store (mem : Memory) (word : Word) (k : Nat) (held : Holds mem word k) :
    Holds (store mem k [word.copied.getD k 0]) word (k + 1) := by
  intro j before hj
  rw [getElem_store]
  by_cases here : j = k
  · subst here
    simp
  · rw [if_neg (by omega)]
    exact held j (by omega) hj

theorem length_copied (word : Word) : word.copied.length = word.chars.length + 1 := by
  rw [Word.copied, List.length_append, List.length_singleton]

theorem text_eq (mem : Memory) (word : Word)
    (held : Holds mem word (word.chars.length + 1)) : text mem = word.chars := by
  have short := word.short
  have front : mem.toList.take (word.chars.length + 1) = word.copied := by
    apply List.ext_getElem
    · rw [List.length_take, Vector.length_toList, length_copied, memLen]
      omega
    · intro j hj hw
      rw [length_copied] at hw
      rw [List.getElem_take, Vector.getElem_toList, held j hw, List.getD_eq_getElem]
  have plain : ∀ c ∈ word.chars, decide (c ≠ 0) = true := fun c hc => by
    simpa using (word.plain c hc).1
  rw [text, ← List.take_append_drop (word.chars.length + 1) mem.toList, front, Word.copied,
    List.append_assoc, List.takeWhile_append_of_pos plain]
  simp

def unposted : Client → List (List Byte)
  | .ready => []
  | .copying word _ | .posting word | .exited word => [word.chars]

/-- Whether the server has a message that it did not print. -/
def holding : Server → Bool
  | .posting | .waiting => false
  | .received => true
  | .exited held => held

def delivered (w : World) : List (List Byte) :=
  w.printed ++ if holding w.server then [text w.serverMem] else []

def ClientHolds (w : World) : Prop :=
  match w.client with
  | .ready | .exited _ => True
  | .copying word k => Holds w.mem word k ∧ (0 < k → w.sends = [])
  | .posting word => Holds w.mem word (word.chars.length + 1) ∧ w.sends = []

structure InOrder (w : World) : Prop where
  single : w.sends.length ≤ 1
  current : ∀ got ∈ w.sends, ∀ j (hj : j < memLen), got[j] = none ∨ got[j] = some w.mem[j]
  client : ClientHolds w
  balance : delivered w ++ List.replicate w.sends.length (text w.mem) ++ unposted w.client =
    w.typed.map Word.chars

theorem initial_inOrder (w : World) (initial : Initial w) : InOrder w := by
  obtain ⟨typed, client, sends, unacked, completions, server, printed⟩ := initial
  refine ⟨?_, ?_, ?_, ?_⟩
  · simp [sends]
  · simp [sends]
  · simp [ClientHolds, client]
  · simp [delivered, holding, unposted, typed, client, sends, server, printed]

theorem clientHolds_of {w w' : World} (holds : ClientHolds w) (stands : w'.client = w.client)
    (mem : w'.mem = w.mem) (none : w.sends = [] → w'.sends = []) : ClientHolds w' := by
  unfold ClientHolds at holds ⊢
  rw [stands, mem]
  revert holds
  cases w.client with
  | ready | exited word => exact id
  | copying word k => exact fun holds => ⟨holds.1, fun copied => none (holds.2 copied)⟩
  | posting word => exact fun holds => ⟨holds.1, none holds.2⟩

theorem current_gather {mem : Memory} {sends : List Send} (i : Nat) (chunk : Fin memLen → Bool)
    (current : ∀ got ∈ sends, ∀ j (hj : j < memLen), got[j] = none ∨ got[j] = some mem[j]) :
    ∀ got ∈ sends.modify i (gather mem chunk), ∀ j (hj : j < memLen),
      got[j] = none ∨ got[j] = some mem[j] := by
  intro got posted j hj
  obtain ⟨k, hk, rfl⟩ := List.getElem_of_mem posted
  rw [List.length_modify] at hk
  have before := current sends[k] (List.getElem_mem hk) j hj
  rw [List.getElem_modify]
  by_cases here : i = k
  · rw [if_pos here, gather, Vector.getElem_ofFn]
    by_cases hit : chunk ⟨j, hj⟩ = true
    · exact Or.inr (if_pos hit)
    · rw [if_neg hit]
      exact before
  · rw [if_neg here]
    exact before

theorem whole_current {mem bytes : Memory} {got : Send} (whole : Whole got bytes)
    (current : ∀ j (hj : j < memLen), got[j] = none ∨ got[j] = some mem[j]) : bytes = mem := by
  apply Vector.ext
  intro j hj
  have read := whole j hj
  obtain unread | same := current j hj
  · rw [unread] at read
    exact absurd read (by simp)
  · exact Option.some.inj (read.symm.trans same)

theorem holding_running {server : Server} (running : ∀ holding, server ≠ .exited holding) :
    holding server = decide (server = .received) := by
  cases server with
  | posting | waiting | received => rfl
  | exited held => exact absurd rfl (running held)

/-- Copying is calm, so there is no send that the new bytes could end up in. -/
theorem copy_inOrder {w : World} (inv : InOrder w) (none : w.sends = []) (mem : Memory)
    (client : Client) (same : unposted client = unposted w.client)
    (holds : ClientHolds { w with mem := mem, client := client }) :
    InOrder { w with mem := mem, client := client } := by
  refine ⟨inv.single, ?_, holds, ?_⟩
  · simp [none]
  · have balance := inv.balance
    rw [none, List.length_nil, List.replicate_zero, ← same] at balance
    simp only [none, List.length_nil, List.replicate_zero]
    exact balance

theorem server_inOrder {w : World} (inv : InOrder w) (server : Server) (serverMem : Memory)
    (printed : List (List Byte))
    (same : delivered { w with server := server, serverMem := serverMem, printed := printed } =
      delivered w) :
    InOrder { w with server := server, serverMem := serverMem, printed := printed } := by
  refine ⟨inv.single, inv.current, inv.client, ?_⟩
  rw [same]
  exact inv.balance

theorem deliver_inOrder {w : World} (inv : InOrder w) {got : Send} {rest : List Send}
    {bytes : Memory} (oldest : w.sends = got :: rest) (whole : Whole got bytes)
    (posted : w.server = .waiting) :
    InOrder
      { w with
        sends := rest
        unacked := w.unacked + 1
        server := .received
        serverMem := bytes } := by
  obtain ⟨single, current, client, balance⟩ := inv
  -- One send is posted at most, and it was read from the buffer as it still is.
  rw [oldest, List.length_cons] at single
  have last := List.length_eq_zero_iff.mp (Nat.le_zero.mp (Nat.le_of_succ_le_succ single))
  have same := whole_current whole fun j hj => current _ (oldest ▸ List.mem_cons_self) j hj
  subst last same
  rw [delivered, posted, oldest] at balance
  refine ⟨by simp, by simp, ?_, ?_⟩
  · exact clientHolds_of client rfl rfl fun none => absurd (oldest.symm.trans none) (by simp)
  · rw [← balance]
    simp [delivered, holding]

theorem post_inOrder {w : World} (inv : InOrder w) {word : Word}
    (stands : w.client = .posting word) :
    InOrder { w with sends := w.sends ++ [Vector.replicate memLen none], client := .ready } := by
  obtain ⟨_, _, client, balance⟩ := inv
  rw [ClientHolds, stands] at client
  obtain ⟨held, none⟩ := client
  rw [stands, none] at balance
  refine ⟨by simp [none], ?_, trivial, ?_⟩
  · intro got posted j hj
    rw [none, List.nil_append, List.mem_singleton] at posted
    rw [posted, Vector.getElem_replicate]
    exact Or.inl rfl
  · rw [← balance]
    simp [none, unposted, text_eq _ _ held, delivered]

/-- The step lemma, a case for each step. -/
theorem step_inOrder {a : Action} {w w' : World} (inv : InOrder w) (calm : Unhurried a w)
    (next : Step a w w') : InOrder w' := by
  have client := inv.client
  have balance := inv.balance
  cases next with
  | scan word stands =>
    refine ⟨inv.single, inv.current, ⟨fun j before => absurd before (Nat.not_lt_zero j),
      fun copied => absurd copied (Nat.lt_irrefl 0)⟩, ?_⟩
    rw [stands, unposted, List.append_nil] at balance
    rw [List.map_append, ← balance]
    rfl
  | copy stands more =>
    rw [ClientHolds, stands] at client
    exact copy_inOrder inv (calm rfl) _ _ (by rw [stands]; rfl)
      ⟨holds_store _ _ _ client.1, fun _ => calm rfl⟩
  | copyEnd stands =>
    rw [ClientHolds, stands] at client
    exact copy_inOrder inv (calm rfl) _ _ (by rw [stands]; rfl)
      ⟨holds_store _ _ _ client.1, calm rfl⟩
  | post stands => exact post_inOrder inv stands
  | postFails stands =>
    rw [stands] at balance
    exact ⟨inv.single, inv.current, trivial, balance⟩
  | read i chunk =>
    refine ⟨?_, current_gather i chunk inv.current, ?_, ?_⟩
    · rw [List.length_modify]
      exact inv.single
    · exact clientHolds_of client rfl rfl fun none => by simp [none]
    · simp only [List.length_modify]
      exact balance
  | deliver oldest whole posted => exact deliver_inOrder inv oldest whole posted
  | complete pending => exact ⟨inv.single, inv.current, client, balance⟩
  | recvPost stands =>
    refine server_inOrder inv _ _ _ ?_
    rw [delivered, delivered, stands]
    rfl
  | print stands =>
    refine server_inOrder inv _ _ _ ?_
    simp [delivered, stands, holding]
  | serverFails running =>
    refine server_inOrder inv _ _ _ ?_
    rw [delivered, delivered, holding_running running]
    rfl

theorem reachable_inOrder {w : World} (reach : Reachable (loops Unhurried) w) : InOrder w :=
  reach.invariant initial_inOrder fun _ _ inv ⟨_, next, calm⟩ => step_inOrder inv calm next

/-- Whatever the order of steps, the strings that the server has printed are the
first of the words typed, if the client writes to its buffer only when all it has
posted is delivered. -/
theorem prints_prefix {w : World} (reach : Reachable (loops Unhurried) w) :
    w.printed <+: w.typed.map Word.chars := by
  have balance := (reachable_inOrder reach).balance
  rw [delivered, List.append_assoc, List.append_assoc] at balance
  exact ⟨_, balance⟩

theorem copy_all {allowed : Action → World → Prop} {w : World} {word : Word} (d k : Nat)
    (reach : Reachable (loops allowed) w) (stands : w.client = .copying word k)
    (left : k + d = word.chars.length) (held : Holds w.mem word k)
    (ok : ∀ w' : World, w'.sends = w.sends → allowed .copy w') :
    ∃ mem, Reachable (loops allowed) { w with mem := mem, client := .posting word } ∧
      Holds mem word (word.chars.length + 1) := by
  induction d generalizing w k with
  | zero =>
    obtain rfl : k = word.chars.length := left
    exact ⟨_, reach.step ⟨.copy, .copyEnd stands, ok w rfl⟩, holds_store _ _ _ held⟩
  | succ d ih =>
    have next := reach.step ⟨.copy, .copy stands (by omega), ok w rfl⟩
    obtain ⟨mem, reached, all⟩ :=
      ih (k + 1) next rfl (by omega) (holds_store _ _ _ held) ok
    exact ⟨mem, reached, all⟩

theorem type_word {allowed : Action → World → Prop} {w : World} (word : Word)
    (reach : Reachable (loops allowed) w) (stands : w.client = .ready)
    (scan : allowed .scan w) (ok : ∀ w' : World, w'.sends = w.sends → allowed .copy w') :
    ∃ mem, Reachable (loops allowed)
        { w with typed := w.typed ++ [word], mem := mem, client := .posting word } ∧
      Holds mem word (word.chars.length + 1) :=
  copy_all word.chars.length 0 (reach.step ⟨.scan, .scan word stands, scan⟩) rfl
    (Nat.zero_add _) (fun j before => absurd before (Nat.not_lt_zero j)) ok

theorem relay_oldest {allowed : Action → World → Prop} {w : World} {got : Send}
    {rest : List Send} (reach : Reachable (loops allowed) w) (oldest : w.sends = got :: rest)
    (stands : w.server = .posting) (ok : ∀ a, a ≠ .copy → ∀ w', allowed a w') :
    ∃ w', Reachable (loops allowed) w' ∧ w'.typed = w.typed ∧ w'.client = w.client ∧
      w'.sends = rest ∧ w'.server = .posting ∧ w'.printed = w.printed ++ [text w.mem] := by
  have posted := reach.step ⟨.recvPost, .recvPost stands, ok _ (by decide) _⟩
  have read := posted.step ⟨.read, .read 0 fun _ => true, ok _ (by decide) _⟩
  have whole : Whole (gather w.mem (fun _ => true) got) w.mem := by
    intro j hj
    rw [gather, Vector.getElem_ofFn]
    rfl
  have first : w.sends.modify 0 (gather w.mem fun _ => true) =
      gather w.mem (fun _ => true) got :: rest := by
    rw [oldest]
    rfl
  have arrived := read.step ⟨.deliver, .deliver first whole rfl, ok _ (by decide) _⟩
  have printed := arrived.step ⟨.print, .print rfl, ok _ (by decide) _⟩
  exact ⟨_, printed, rfl, rfl, rfl, rfl, rfl⟩

def atStart : World :=
  ⟨[], .ready, Vector.replicate memLen 0, [], 0, 0, .posting, Vector.replicate memLen 0, []⟩

theorem reachable_atStart (allowed : Action → World → Prop) :
    Reachable (loops allowed) atStart :=
  .initial ⟨rfl, rfl, rfl, rfl, rfl, rfl, rfl⟩

/-- An unhurried client gets every sequence of words through. -/
theorem delivers_all (words : List Word) :
    ∃ w, Reachable (loops Unhurried) w ∧ w.client = .ready ∧ w.sends = [] ∧
      w.server = .posting ∧ w.typed = words ∧ w.printed = words.map Word.chars := by
  induction words using List.reverseRecOn with
  | nil => exact ⟨atStart, reachable_atStart _, rfl, rfl, rfl, rfl, rfl⟩
  | append_singleton words word ih =>
    obtain ⟨w, reach, client, sends, server, typed, printed⟩ := ih
    have calm (a : Action) (other : a ≠ .copy) (w' : World) : Unhurried a w' :=
      fun copy => absurd copy other
    obtain ⟨mem, copied, held⟩ := type_word word reach client (calm _ (by decide) _)
      fun w' same _ => same.trans sends
    have posted := copied.step ⟨.post, .post rfl, calm _ (by decide) _⟩
    have oldest : w.sends ++ [Vector.replicate memLen none] = [Vector.replicate memLen none] := by
      rw [sends, List.nil_append]
    obtain ⟨w', reach', typed', client', sends', server', printed'⟩ :=
      relay_oldest posted oldest server calm
    refine ⟨w', reach', client', sends', server', ?_, ?_⟩
    · rw [typed', typed]
    · rw [printed', printed, text_eq _ _ held, List.map_append]
      rfl

theorem hurried_replaces (first second : Word) :
    ∃ w, Reachable (loops anyOrder) w ∧ w.typed = [first, second] ∧
      w.printed = [second.chars] := by
  obtain ⟨mem, copied, _⟩ := type_word first (reachable_atStart anyOrder) rfl trivial
    fun _ _ => trivial
  have posted := copied.step ⟨.post, .post rfl, trivial⟩
  obtain ⟨mem', replaced, held⟩ := type_word second posted rfl trivial fun _ _ => trivial
  obtain ⟨w, reach, typed, _, _, _, printed⟩ :=
    relay_oldest replaced (show _ = [Vector.replicate memLen none] from rfl) rfl
      fun _ _ _ => trivial
  refine ⟨w, reach, typed, ?_⟩
  rw [printed, text_eq _ _ held]
  rfl

def letterA : Word := ⟨[0x61], by decide, by decide, by decide⟩

def letterB : Word := ⟨[0x62], by decide, by decide, by decide⟩

theorem letters_arrive :
    ∃ w : World, Reachable (loops Unhurried) w ∧ w.typed = [letterA, letterB] ∧
      w.printed = [[0x61], [0x62]] ∧ w.printed <+: w.typed.map Word.chars := by
  obtain ⟨w, reach, _, _, _, typed, printed⟩ := delivers_all [letterA, letterB]
  exact ⟨w, reach, typed, printed, prints_prefix reach⟩

theorem letter_replaced :
    ¬ ∀ w : World, Reachable (loops anyOrder) w → w.printed <+: w.typed.map Word.chars := by
  intro claimed
  obtain ⟨w, reach, typed, printed⟩ := hurried_replaces letterA letterB
  have arrived := claimed w reach
  rw [typed, printed] at arrived
  exact absurd arrived (by decide)

end RdmaFuzzing.MessageOrder
