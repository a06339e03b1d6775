import RdmaFuzzing.FrameLayout
import RdmaFuzzing.ReusedBuffer
import RdmaFuzzing.StepSystem

/-! The send loop of `run_client`, the listening loop of `run_server` and the
device between them, in any order of steps. Each side has one registered buffer
of 256 bytes. The device reads a posted buffer piece by piece, as often as it
likes until the message is delivered; it delivers in the order of the posts, into
the buffer of the one receive that the server has posted. Every `scanf` here reads a
word: what the client sends once its input has ended is left to `SendLoop`. -/

namespace RdmaFuzzing.MessageLoops
open FrameLayout ReusedBuffer StepSystem

def memLen : Nat := 0x100

abbrev Memory : Type := Vector Byte memLen

abbrev IsSpace (c : Byte) : Prop :=
  c = 0x20 ∨ c = 0x09 ∨ c = 0x0A ∨ c = 0x0B ∨ c = 0x0C ∨ c = 0x0D

structure Word where
  chars : List Byte
  nonempty : 0 < chars.length
  short : chars.length ≤ 50
  plain : ∀ c ∈ chars, c ≠ 0 ∧ ¬ IsSpace c

def Word.copied (word : Word) : List Byte := word.chars ++ [0]

def text (mem : Memory) : List Byte := mem.toList.takeWhile (· ≠ 0)

/-- Where `run_client` stands in its loop: before `scanf`, in `strcpy` with so
many bytes copied, before `ibv_post_send`, or gone because that call failed. -/
inductive Client where
  | ready
  | copying (word : Word) (k : Nat)
  | posting (word : Word)
  | exited (word : Word)

/-- Where `run_server` stands in its loop: before `ibv_post_recv`, polling, or
polling with a message in its buffer; or gone from one of these. -/
inductive Server where
  | posting
  | waiting
  | received
  | exited (holding : Bool)
  deriving DecidableEq

/-- What the device has read of a posted send. -/
abbrev Send : Type := Vector (Option Byte) memLen

/-- The sends are those posted and not delivered, oldest first; after them come
the delivered ones that are not completed, and the completions, which no one
polls for. -/
structure World where
  typed : List Word
  client : Client
  mem : Memory
  sends : List Send
  unacked : Nat
  completions : Nat
  server : Server
  serverMem : Memory
  printed : List (List Byte)

def gather (mem : Memory) (chunk : Fin memLen → Bool) (got : Send) : Send :=
  Vector.ofFn fun j => if chunk j then some (mem.get j) else got.get j

def Whole (got : Send) (bytes : Memory) : Prop :=
  ∀ j (hj : j < memLen), got[j] = some bytes[j]

inductive Action where
  | scan
  | copy
  | post
  | postFails
  | read
  | deliver
  | complete
  | recvPost
  | print
  | serverFails
  deriving DecidableEq

inductive Step : Action → World → World → Prop where
  | scan {w : World} (word : Word) (stands : w.client = .ready) :
      Step .scan w { w with typed := w.typed ++ [word], client := .copying word 0 }
  | copy {w : World} {word : Word} {k : Nat} (stands : w.client = .copying word k)
      (more : k < word.chars.length) :
      Step .copy w
        { w with
          mem := store w.mem k [word.copied.getD k 0]
          client := .copying word (k + 1) }
  | copyEnd {w : World} {word : Word} (stands : w.client = .copying word word.chars.length) :
      Step .copy w
        { w with
          mem := store w.mem word.chars.length [word.copied.getD word.chars.length 0]
          client := .posting word }
  | post {w : World} {word : Word} (stands : w.client = .posting word) :
      Step .post w
        { w with sends := w.sends ++ [Vector.replicate memLen none], client := .ready }
  | postFails {w : World} {word : Word} (stands : w.client = .posting word) :
      Step .postFails w { w with client := .exited word }
  | read {w : World} (i : Nat) (chunk : Fin memLen → Bool) :
      Step .read w { w with sends := w.sends.modify i (gather w.mem chunk) }
  | deliver {w : World} {got : Send} {rest : List Send} {bytes : Memory}
      (oldest : w.sends = got :: rest) (whole : Whole got bytes) (posted : w.server = .waiting) :
      Step .deliver w
        { w with
          sends := rest
          unacked := w.unacked + 1
          server := .received
          serverMem := bytes }
  | complete {w : World} (delivered : 0 < w.unacked) :
      Step .complete w { w with unacked := w.unacked - 1, completions := w.completions + 1 }
  | recvPost {w : World} (stands : w.server = .posting) :
      Step .recvPost w { w with server := .waiting }
  | print {w : World} (stands : w.server = .received) :
      Step .print w
        { w with
          server := .posting
          serverMem := fill w.serverMem memLen 0
          printed := w.printed ++ [text w.serverMem] }
  | serverFails {w : World} (running : ∀ holding, w.server ≠ .exited holding) :
      Step .serverFails w { w with server := .exited (decide (w.server = .received)) }

structure Initial (w : World) : Prop where
  typed : w.typed = []
  client : w.client = .ready
  sends : w.sends = []
  unacked : w.unacked = 0
  completions : w.completions = 0
  server : w.server = .posting
  printed : w.printed = []

def loops (allowed : Action → World → Prop) : System World where
  Initial := Initial
  Step w w' := ∃ a, Step a w w' ∧ allowed a w

def anyOrder : Action → World → Prop := fun _ _ => True

/-- The client writes to its buffer only when all it has posted is delivered. -/
def Unhurried : Action → World → Prop := fun a w => a = .copy → w.sends = []

end RdmaFuzzing.MessageLoops
