import RdmaFuzzing.ExitRun
import RdmaFuzzing.ReceiveLoop
import RdmaFuzzing.TerminatorScan

/-! What a turn of `run_server` reads and writes while it uses the message in its
registered buffer: `strcpy` to a buffer on the stack, and `printf` with `%s`. Both
buffers have 256 bytes, as many as the longest message, and both calls go on to the
first zero. A call that leaves the buffers ends the run, as C says nothing about
what happens then. Both copies of the server have this loop. -/

namespace RdmaFuzzing.MessageCopies
open FrameLayout ReusedBuffer TerminatorScan ExitRun MessageLoops StepSystem

/-- What the peer can have delivered into the registered buffer. -/
structure Message where
  bytes : List Byte
  fits : bytes.length ≤ memLen

inductive Access where
  | reads (i : Nat)
  | writes (i : Nat)
  deriving DecidableEq

def Access.index : Access → Nat
  | .reads i | .writes i => i

structure State where
  mem : Memory
  buffer : Memory
  printed : List (List Byte)

/-- `strcpy(buffer, mem)`: each byte is read and written at the same index. -/
def strcpy (buffer mem : Memory) : Run Access Memory :=
  ⟨(looks 0 0 mem.toList).flatMap fun i => [.reads i, .writes i],
    if (textOf 0 mem.toList).length < memLen then some (copyText 0 buffer mem) else none⟩

/-- `printf("we received: %s\n", mem)`, of which the text is kept. -/
def printf (mem : Memory) : Run Access (List Byte) :=
  ⟨(looks 0 0 mem.toList).map .reads,
    if (textOf 0 mem.toList).length < memLen then some (textOf 0 mem.toList) else none⟩

def turn (s : State) (message : Message) : Run Access State := do
  let mem := store s.mem 0 message.bytes
  let buffer ← strcpy s.buffer mem
  let line ← printf mem
  pure ⟨fill mem memLen 0, fill buffer memLen 0, s.printed ++ [line]⟩

def listen (s : State) : List Message → Run Access State
  | [] => pure s
  | message :: rest => do
      let s ← turn s message
      listen s rest

/-- `buffer` is cleared before the first turn, the registered buffer is not. -/
def runServer (initial : Memory) (messages : List Message) : Run Access State :=
  listen ⟨initial, Vector.replicate memLen 0, []⟩ messages

def Inside (a : Access) : Prop := a.index < memLen

/-- Every turn finds a zero in the registered buffer: in its message, or past it. -/
def Terminated (initial : Memory) : List Message → Prop
  | [] => True
  | first :: rest =>
      (0 ∈ first.bytes ∨ 0 ∈ initial.toList.drop first.bytes.length) ∧
        ∀ message ∈ rest, message.bytes.length < memLen ∨ 0 ∈ message.bytes

theorem looks_inside_iff (mem : Memory) : (∀ i ∈ looks 0 0 mem.toList, i < memLen) ↔
    (textOf 0 mem.toList).length < memLen := by
  have inside := looks_lt_iff (0 : Byte) mem.toList
  have ends := length_textOf_lt (0 : Byte) mem.toList
  rw [Vector.length_toList] at inside ends
  exact inside.trans ends.symm

theorem strcpy_inside_iff (buffer mem : Memory) : (∀ a ∈ (strcpy buffer mem).log, Inside a) ↔
    (textOf 0 mem.toList).length < memLen := by
  rw [← looks_inside_iff, strcpy]
  refine ⟨?_, ?_⟩
  · intro inside i looked
    exact inside (.reads i) (List.mem_flatMap.mpr ⟨i, looked, List.mem_cons_self⟩)
  · intro inside a accessed
    obtain ⟨i, looked, same⟩ := List.mem_flatMap.mp accessed
    rw [List.mem_cons, List.mem_singleton] at same
    rcases same with rfl | rfl
    · exact inside i looked
    · exact inside i looked

theorem printf_inside_iff (mem : Memory) : (∀ a ∈ (printf mem).log, Inside a) ↔
    (textOf 0 mem.toList).length < memLen := by
  rw [← looks_inside_iff, printf, List.forall_mem_map]
  rfl

theorem strcpy_value (buffer mem : Memory) (ends : (textOf 0 mem.toList).length < memLen) :
    (strcpy buffer mem).value = some (copyText 0 buffer mem) := if_pos ends

theorem printf_value (mem : Memory) (ends : (textOf 0 mem.toList).length < memLen) :
    (printf mem).value = some (textOf 0 mem.toList) := if_pos ends

theorem turn_value (s : State) (message : Message)
    (ends : (textOf 0 (store s.mem 0 message.bytes).toList).length < memLen) :
    (turn s message).value = some
      ⟨Vector.replicate memLen 0, Vector.replicate memLen 0,
        s.printed ++ [textOf 0 (store s.mem 0 message.bytes).toList]⟩ := by
  rw [turn, bind_some _ (strcpy_value _ _ ends), bind_some _ (printf_value _ ends), fill_all,
    fill_all]
  rfl

theorem turn_inside_iff (s : State) (message : Message) :
    (∀ a ∈ (turn s message).log, Inside a) ↔
      (textOf 0 (store s.mem 0 message.bytes).toList).length < memLen := by
  rw [turn, forall_log_bind, strcpy_inside_iff]
  refine ⟨And.left, ?_⟩
  intro ends
  refine ⟨ends, ?_⟩
  intro buffer _
  rw [forall_log_bind, printf_inside_iff]
  exact ⟨ends, by simp⟩

theorem ends_iff (mem : Memory) (message : Message) :
    (textOf 0 (store mem 0 message.bytes).toList).length < memLen ↔
      0 ∈ message.bytes ∨ 0 ∈ mem.toList.drop message.bytes.length := by
  rw [← mem_store_iff _ _ _ message.fits, ← length_textOf_lt, Vector.length_toList]

theorem ends_clear_iff (message : Message) :
    (textOf 0 (store (Vector.replicate memLen 0) 0 message.bytes).toList).length < memLen ↔
      message.bytes.length < memLen ∨ 0 ∈ message.bytes := by
  rw [← mem_store_clear_iff _ _ message.fits, ← length_textOf_lt, Vector.length_toList]

theorem listen_cons_inside_iff (s : State) (message : Message) (rest : List Message) :
    (∀ a ∈ (listen s (message :: rest)).log, Inside a) ↔
      (textOf 0 (store s.mem 0 message.bytes).toList).length < memLen ∧
        ∀ a ∈ (listen ⟨Vector.replicate memLen 0, Vector.replicate memLen 0,
          s.printed ++ [textOf 0 (store s.mem 0 message.bytes).toList]⟩ rest).log, Inside a := by
  rw [listen, forall_log_bind, turn_inside_iff]
  refine and_congr_right ?_
  intro ends
  rw [turn_value s message ends]
  simp

theorem listen_clear_inside_iff (s : State) (clear : s.mem = Vector.replicate memLen 0)
    (messages : List Message) : (∀ a ∈ (listen s messages).log, Inside a) ↔
      ∀ message ∈ messages, message.bytes.length < memLen ∨ 0 ∈ message.bytes := by
  induction messages generalizing s with
  | nil => simp [listen]
  | cons message rest ih =>
    rw [listen_cons_inside_iff, ih _ rfl, clear, ends_clear_iff, List.forall_mem_cons]

theorem runServer_inside_iff (initial : Memory) (messages : List Message) :
    (∀ a ∈ (runServer initial messages).log, Inside a) ↔ Terminated initial messages := by
  cases messages with
  | nil => simp [runServer, listen, Terminated]
  | cons first rest =>
    rw [runServer, listen_cons_inside_iff, listen_clear_inside_iff _ rfl, ends_iff, Terminated]

def fullMessage : Message := ⟨List.replicate memLen 0x41, Nat.le_of_eq List.length_replicate⟩

def shortMessage : Message := ⟨[0x41], by decide⟩

theorem leaves_buffer :
    (¬ ∀ a ∈ (runServer (Vector.replicate memLen 0) [fullMessage]).log, Inside a) ∧
      ¬ ∀ a ∈ (runServer (Vector.replicate memLen 0x41) [shortMessage]).log, Inside a := by
  refine ⟨?_, ?_⟩
  · intro inside
    have ends := ((listen_cons_inside_iff _ _ _).mp inside).1
    rw [ends_clear_iff] at ends
    simp [fullMessage] at ends
  · intro inside
    have ends := ((listen_cons_inside_iff _ _ _).mp inside).1
    rw [ends_iff] at ends
    simp [shortMessage] at ends

structure Shows (w : ReceiveLoop.World) (s : State) : Prop where
  stands : w.server = .posting
  idle : w.queue = .empty
  mem : w.mem = s.mem
  printed : w.printed = s.printed

theorem turn_steps {w : ReceiveLoop.World} {s : State} (shows : Shows w s) (message : Message)
    (ends : (textOf 0 (store s.mem 0 message.bytes).toList).length < memLen) :
    ∃ w' s', (turn s message).value = some s' ∧
      Relation.ReflTransGen ReceiveLoop.loop.Step w w' ∧ Shows w' s' := by
  refine ⟨_, _, turn_value s message ends,
    ReceiveLoop.turn_run shows.stands shows.idle (store w.mem 0 message.bytes), ?_⟩
  refine ⟨rfl, rfl, fill_all _ _, ?_⟩
  rw [shows.printed, shows.mem]
  rfl

/-- A run that stays inside is a run of the loop with its device. -/
theorem listen_steps {w : ReceiveLoop.World} {s : State} (shows : Shows w s)
    (messages : List Message) (inside : ∀ a ∈ (listen s messages).log, Inside a) :
    ∃ w' s', (listen s messages).value = some s' ∧
      Relation.ReflTransGen ReceiveLoop.loop.Step w w' ∧ Shows w' s' := by
  induction messages generalizing w s with
  | nil => exact ⟨w, s, rfl, .refl, shows⟩
  | cons message rest ih =>
    obtain ⟨ends, inside'⟩ := (listen_cons_inside_iff s message rest).mp inside
    obtain ⟨w', s', value, steps, shows'⟩ := turn_steps shows message ends
    rw [turn_value s message ends, Option.some.injEq] at value
    subst value
    obtain ⟨w'', s'', value'', steps'', shows''⟩ := ih shows' inside'
    refine ⟨w'', s'', ?_, steps.trans steps'', shows''⟩
    rw [listen, bind_some _ (turn_value s message ends)]
    exact value''

end RdmaFuzzing.MessageCopies
