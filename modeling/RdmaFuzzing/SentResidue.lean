import Mathlib.Data.List.Induction
import Mathlib.Data.List.TakeWhile
import RdmaFuzzing.SendLoop
import RdmaFuzzing.TerminatorScan

/-! The bytes that `run_client` sends. A turn clears `input_buf`, reads a word into
it and copies its text into the registered buffer, of which `ibv_post_send` then
hands over all 256 bytes; the registered buffer itself is never cleared. Past the
text just copied the peer gets what earlier words, or the allocator, left there.
Both copies of the client have this loop. -/

namespace RdmaFuzzing.SentResidue
open FrameLayout ReusedBuffer StepSystem TerminatorScan SendLoop
open MessageLoops (Memory memLen IsSpace)

/-- What `scanf("%50s", input_buf)` finds; no byte at all once the input has ended. -/
structure Scanned where
  bytes : List Byte
  short : bytes.length ≤ 50
  plain : ∀ c ∈ bytes, ¬ IsSpace c

/-- `scanf` ends the word with a zero, which the buffer has anyway. -/
def inputBuf (scanned : Scanned) : Memory :=
  store (Vector.replicate memLen 0) 0 (scanned.bytes ++ [0])

/-- A turn up to `ibv_post_send`: `strcpy(mem, input_buf)`. -/
def turn (mem : Memory) (scanned : Scanned) : Memory := copyText 0 mem (inputBuf scanned)

def runClient (mem : Memory) : List Scanned → List Memory
  | [] => []
  | scanned :: rest => turn mem scanned :: runClient (turn mem scanned) rest

/-- The message sent for `current`, after the words of `history`. -/
def transmitted (initial : Memory) (history : List Scanned) (current : Scanned) : Memory :=
  turn (history.foldl turn initial) current

def message (scanned : Scanned) : List Byte := textOf 0 scanned.bytes

/-- Byte `j` as the last earlier word that reaches so far has left it, with its
terminator; the initial byte if there is none. -/
def leftover (initial : Memory) (history : List Scanned) (j : Fin memLen) : Byte :=
  match history.reverse.find? fun scanned => j ≤ (message scanned).length with
  | some scanned => (message scanned)[j.val]?.getD 0
  | none => initial.get j

theorem runClient_append (initial : Memory) (history : List Scanned) (current : Scanned) :
    runClient initial (history ++ [current]) =
      runClient initial history ++ [transmitted initial history current] := by
  induction history generalizing initial with
  | nil => rfl
  | cons scanned rest ih =>
    rw [List.cons_append, runClient, runClient, ih, List.cons_append, transmitted, transmitted,
      List.foldl_cons]

theorem length_message_le (scanned : Scanned) : (message scanned).length ≤ 50 := by
  have short := scanned.short
  have part := (List.takeWhile_sublist (l := scanned.bytes) fun c => c ≠ 0).length_le
  rw [message, textOf]
  omega

theorem textOf_inputBuf (scanned : Scanned) :
    textOf 0 (inputBuf scanned).toList = message scanned := by
  have fits : (scanned.bytes ++ [0]).length ≤ memLen := by
    have short := scanned.short
    rw [List.length_append, List.length_singleton, memLen]
    omega
  rw [inputBuf, toList_store_replicate _ _ fits, List.append_assoc, List.singleton_append,
    textOf_append, message]

theorem getElem_turn (mem : Memory) (scanned : Scanned) (j : Nat) (hj : j < memLen) :
    (turn mem scanned)[j] =
      if j ≤ (message scanned).length then (message scanned)[j]?.getD 0 else mem[j] := by
  rw [turn, getElem_copyText, textOf_inputBuf]

theorem leftover_append (initial : Memory) (history : List Scanned) (last : Scanned)
    (j : Fin memLen) :
    leftover initial (history ++ [last]) j =
      if j ≤ (message last).length then (message last)[j.val]?.getD 0
      else leftover initial history j := by
  rw [leftover, List.reverse_append, List.reverse_singleton, List.singleton_append,
    List.find?_cons]
  by_cases reaches : j ≤ (message last).length
  · simp [reaches]
  · simp [reaches, leftover]

theorem getElem_foldl_turn (initial : Memory) (history : List Scanned) (j : Fin memLen) :
    (history.foldl turn initial)[j.val] = leftover initial history j := by
  induction history using List.reverseRecOn with
  | nil => rfl
  | append_singleton history last ih =>
    rw [List.foldl_append, List.foldl_cons, List.foldl_nil, getElem_turn, ih, leftover_append]

theorem getElem_transmitted (initial : Memory) (history : List Scanned) (current : Scanned)
    (j : Fin memLen) :
    (transmitted initial history current)[j.val] =
      if j ≤ (message current).length then (message current)[j.val]?.getD 0
      else leftover initial history j := by
  rw [transmitted, getElem_turn, getElem_foldl_turn]

theorem leftover_far (initial : Memory) (history : List Scanned) (j : Fin memLen)
    (far : 50 < j.val) : leftover initial history j = initial.get j := by
  have none : history.reverse.find? (fun scanned => j ≤ (message scanned).length) = none := by
    rw [List.find?_eq_none]
    intro scanned _
    have short := length_message_le scanned
    rw [decide_eq_true_eq]
    omega
  rw [leftover, none]

theorem transmitted_same_iff (initial₁ initial₂ : Memory) (history₁ history₂ : List Scanned)
    (current : Scanned) :
    transmitted initial₁ history₁ current = transmitted initial₂ history₂ current ↔
      ∀ j : Fin memLen, (message current).length < j →
        leftover initial₁ history₁ j = leftover initial₂ history₂ j := by
  refine ⟨?_, ?_⟩
  · intro same j past
    have first := getElem_transmitted initial₁ history₁ current j
    rw [if_neg (Nat.not_le_of_lt past)] at first
    have second := getElem_transmitted initial₂ history₂ current j
    rw [if_neg (Nat.not_le_of_lt past), ← same] at second
    exact first.symm.trans second
  · intro same
    apply Vector.ext
    intro i hi
    have first := getElem_transmitted initial₁ history₁ current ⟨i, hi⟩
    have second := getElem_transmitted initial₂ history₂ current ⟨i, hi⟩
    rw [first, second]
    by_cases reaches : i ≤ (message current).length
    · rw [if_pos reaches, if_pos reaches]
    · rw [if_neg reaches, if_neg reaches]
      exact same ⟨i, hi⟩ (Nat.lt_of_not_le reaches)

theorem transmitted_far (initial : Memory) (history : List Scanned) (current : Scanned)
    (j : Fin memLen) (far : 50 < j.val) :
    (transmitted initial history current)[j.val] = initial.get j := by
  have short := length_message_le current
  rw [getElem_transmitted, if_neg (by omega), leftover_far _ _ _ far]

def pin : Scanned := ⟨[0x31, 0x32, 0x33, 0x34], by decide, by decide⟩

theorem letter_short : ([0x61] : List Byte).length ≤ 50 := by decide

theorem letter_plain : ∀ c ∈ ([0x61] : List Byte), ¬ IsSpace c := by decide

def letter : Scanned := ⟨[0x61], letter_short, letter_plain⟩

def cleared : Memory := Vector.replicate memLen 0

def dirty : Memory := Vector.replicate memLen 0x7A

theorem residue_sent :
    transmitted cleared [pin] letter ≠ transmitted cleared [] letter ∧
      transmitted dirty [] letter ≠ transmitted cleared [] letter := by
  refine ⟨?_, ?_⟩
  · intro same
    have byte := getElem_transmitted cleared [pin] letter ⟨3, by decide⟩
    rw [same, getElem_transmitted] at byte
    exact absurd byte (by decide)
  · intro same
    have byte := transmitted_far dirty [] letter ⟨51, by decide⟩ (by decide)
    rw [same, transmitted_far _ _ _ _ (by decide)] at byte
    exact absurd byte (by decide)

def scanned : Input → Scanned
  | some word => ⟨word.chars, word.short, fun c typed => (word.plain c typed).2⟩
  | none => ⟨[], by simp, by simp⟩

theorem message_scanned (input : Input) : message (scanned input) ++ [0] = copied input := by
  cases input with
  | none => rfl
  | some word =>
    have whole : textOf 0 word.chars = word.chars := by
      rw [textOf, List.takeWhile_eq_self_iff]
      intro c typed
      simpa using (word.plain c typed).1
    rw [message, scanned, whole, copied, MessageLoops.Word.copied]

theorem turn_scanned (mem : Memory) (input : Input) :
    turn mem (scanned input) = store mem 0 (copied input) := by
  rw [turn, copyText, textOf_inputBuf, message_scanned]

structure Accounts (initial : Memory) (w : World) : Prop where
  copying : ∀ input, w.client = .copying input → ∃ history, w.typed = history ++ [input] ∧
    w.mem = (history.map scanned).foldl turn initial
  posting : ∀ input, w.client = .posting input → ∃ history, w.typed = history ++ [input] ∧
    w.mem = transmitted initial (history.map scanned) (scanned input)
  reading : w.client = .reading → w.mem = (w.typed.map scanned).foldl turn initial

theorem step_accounts {initial : Memory} {a : Action} {w w' : World}
    (inv : Accounts initial w) (step : Step a w w') : Accounts initial w' := by
  cases step with
  | scan input stands =>
    refine ⟨?_, by simp, by simp⟩
    intro input' copies
    cases copies
    exact ⟨w.typed, rfl, inv.reading stands⟩
  | copy stands =>
    refine ⟨by simp, ?_, by simp⟩
    intro input' posts
    cases posts
    obtain ⟨history, typed, mem⟩ := inv.copying _ stands
    refine ⟨history, typed, ?_⟩
    rw [transmitted, ← mem, turn_scanned]
  | post stands =>
    refine ⟨by simp, by simp, ?_⟩
    intro _
    obtain ⟨history, typed, mem⟩ := inv.posting _ stands
    rw [mem, typed, List.map_append, List.foldl_append]
    rfl
  | postFails stands => exact ⟨by simp, by simp, by simp⟩
  | complete status posted => exact ⟨inv.copying, inv.posting, inv.reading⟩

/-- `ibv_post_send` hands over what `transmitted` says, in any order of steps. -/
theorem posted_transmitted {w₀ w : World} (initial : Initial w₀)
    (run : Relation.ReflTransGen (loop anyOrder).Step w₀ w) {input : Input}
    (stands : w.client = .posting input) :
    ∃ history, w.typed = history ++ [input] ∧
      w.mem = transmitted w₀.mem (history.map scanned) (scanned input) := by
  suffices inv : Accounts w₀.mem w from inv.posting input stands
  clear stands
  induction run with
  | refl =>
    refine ⟨by simp [initial.client], by simp [initial.client], ?_⟩
    intro _
    rw [initial.typed]
    rfl
  | tail _ next ih =>
    obtain ⟨_, step, _⟩ := next
    exact step_accounts ih step

end RdmaFuzzing.SentResidue
