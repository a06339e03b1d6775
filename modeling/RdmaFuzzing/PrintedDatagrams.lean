import RdmaFuzzing.ExitRun
import RdmaFuzzing.ForwardProxy
import RdmaFuzzing.HexText
import RdmaFuzzing.TerminatorScan

/-! The receive loops of `proxy.c` and `test.c` with what they print. A turn prints
the buffer up to the first zero, whatever was received, before it hands the buffer
to `sendto` and clears it. The printing has no other bound: without a zero in the
buffer it goes on past the end, and C says nothing about the rest of the run. On
datagrams that end, `proxy.c` sends here what it sends in `ForwardProxy`. -/

namespace RdmaFuzzing.PrintedDatagrams
open FrameLayout ReusedBuffer TerminatorScan UdpSocket CText HexText ExitRun
open ForwardProxy (bufSize zeroBuf)

inductive Event where
  | looks (i : Nat)
  | prints (text : List Char8)
  | sends (bytes : List Byte)
  deriving DecidableEq

/-- `while (*p != '\0')`, with `p` at index `i` and the buffer from there on. -/
def printLoop (format : Byte → List Char8) : Nat → List Byte → Run Event Unit
  | i, [] => ⟨[.looks i], none⟩
  | i, c :: rest => do
      call (.looks i) ()
      if c = 0 then pure ()
      else do
        call (.prints (format c)) ()
        printLoop format (i + 1) rest

/-- How a program prints a byte, and what it prints about the sender. -/
structure Program where
  format : Byte → List Char8
  report : SockAddr → List (List Char8)

def turn (program : Program) (buf : Vector Byte bufSize) (datagram : Datagram) :
    Run Event (Vector Byte bufSize) := do
  let buf := (recvfrom buf datagram.bytes).1
  printLoop program.format 0 buf.toList
  ⟨(program.report datagram.sender).map .prints, some ()⟩
  call (.sends buf.toList) ()
  pure (fill buf bufSize 0)

/-- The loop ends when `recvfrom` fails, which is the end of the list. -/
def receiveLoop (program : Program) (buf : Vector Byte bufSize) :
    List Datagram → Run Event Unit
  | [] => pure ()
  | datagram :: rest => do
      let buf ← turn program buf datagram
      receiveLoop program buf rest

def main (program : Program) (datagrams : List Datagram) : Run Event Unit :=
  receiveLoop program zeroBuf datagrams

/-- `printf(" %x ", *p)`, where `*p` is converted from `char` to `int`. -/
def printHex (c : Byte) : List Char8 := 0x20 :: hex .lower (c.signExtend 32).toNat ++ [0x20]

/-- `printf(" %c ", *p)`. -/
def printChar (c : Byte) : List Char8 := [0x20, c, 0x20]

/-- `getnameinfo` with numeric host and port, and the `printf` after it. -/
def reportSender (sender : SockAddr) : List (List Char8) :=
  [ofString "got from host: " ++ sender.host.chars ++ ofString ", port: " ++ sender.port.chars ++
    [0x0A]]

def proxyMain : List Datagram → Run Event Unit := main ⟨printHex, fun _ => []⟩

/-- `test.c`. Its `sendto` has a descriptor that nothing set and an address that was
freed, so that nothing is said here of where its buffers go. -/
def testMain : List Datagram → Run Event Unit := main ⟨printChar, reportSender⟩

def Inside : Event → Prop
  | .looks i => i < bufSize
  | .prints _ | .sends _ => True

/-- What of the datagram is received leaves room for a zero, or has one. -/
def Ends (datagram : Datagram) : Prop :=
  datagram.bytes.length < bufSize ∨ 0 ∈ datagram.bytes.take bufSize

theorem printLoop_stop (format : Byte → List Char8) (i : Nat) (rest : List Byte) :
    printLoop format i (0 :: rest) = ⟨[.looks i], some ()⟩ := by
  rw [printLoop, call_bind, if_pos rfl, pure_run]

theorem printLoop_more (format : Byte → List Char8) (i : Nat) {c : Byte} (rest : List Byte)
    (more : c ≠ 0) : printLoop format i (c :: rest) =
      ⟨.looks i :: .prints (format c) :: (printLoop format (i + 1) rest).log,
        (printLoop format (i + 1) rest).value⟩ := by
  rw [printLoop, call_bind, if_neg more, call_bind]

theorem printLoop_inside_iff (format : Byte → List Char8) (i : Nat) (xs : List Byte) :
    (∀ e ∈ (printLoop format i xs).log, Inside e) ↔ ∀ j ∈ looks 0 i xs, j < bufSize := by
  induction xs generalizing i with
  | nil => simp [printLoop, looks, Inside]
  | cons c rest ih =>
    rw [looks, List.forall_mem_cons]
    by_cases stops : c = 0
    · rw [stops, printLoop_stop, if_pos rfl]
      simp [Inside]
    · rw [printLoop_more format i rest stops, if_neg stops, ← ih, List.forall_mem_cons,
        List.forall_mem_cons]
      simp [Inside]

theorem printLoop_value (format : Byte → List Char8) (i : Nat) (xs : List Byte)
    (ends : 0 ∈ xs) : (printLoop format i xs).value = some () := by
  induction xs generalizing i with
  | nil => cases ends
  | cons c rest ih =>
    by_cases stops : c = 0
    · rw [stops, printLoop_stop]
    · rw [printLoop_more format i rest stops]
      exact ih (i + 1) ((List.mem_cons.mp ends).resolve_left (Ne.symm stops))

theorem ends_iff (datagram : Datagram) :
    0 ∈ (store zeroBuf 0 datagram.bytes).toList ↔ Ends datagram := by
  have fits : (datagram.bytes.take bufSize).length ≤ bufSize := List.length_take_le _ _
  have room : (datagram.bytes.take bufSize).length < bufSize ↔
      datagram.bytes.length < bufSize := by
    rw [List.length_take]
    omega
  rw [← store_take, zeroBuf, mem_store_clear_iff _ _ fits, room, Ends]

theorem turn_inside_iff (program : Program) (datagram : Datagram) :
    (∀ e ∈ (turn program zeroBuf datagram).log, Inside e) ↔ Ends datagram := by
  have scan := looks_lt_iff (0 : Byte) (store zeroBuf 0 datagram.bytes).toList
  rw [Vector.length_toList, ends_iff] at scan
  have rest : ∀ e ∈ (program.report datagram.sender).map Event.prints, Inside e := by
    rw [List.forall_mem_map]
    exact fun _ _ => trivial
  rw [turn, forall_log_bind, printLoop_inside_iff]
  refine (and_iff_left ?_).trans scan
  intro _ _
  rw [forall_log_bind]
  refine ⟨rest, ?_⟩
  intro _ _
  rw [call_bind]
  simp [Inside]

theorem turn_value (program : Program) (datagram : Datagram) (ends : Ends datagram) :
    (turn program zeroBuf datagram).value = some zeroBuf := by
  have printed := printLoop_value program.format 0 _ ((ends_iff datagram).mpr ends)
  rw [turn, recvfrom, bind_some _ printed, bind_some (a := ()) _ rfl, call_bind, fill_all]
  rfl

theorem receiveLoop_inside_iff (program : Program) (datagrams : List Datagram) :
    (∀ e ∈ (receiveLoop program zeroBuf datagrams).log, Inside e) ↔
      ∀ datagram ∈ datagrams, Ends datagram := by
  induction datagrams with
  | nil => simp [receiveLoop]
  | cons datagram rest ih =>
    rw [receiveLoop, forall_log_bind, turn_inside_iff, List.forall_mem_cons]
    refine and_congr_right ?_
    intro ends
    rw [turn_value program datagram ends]
    simpa using ih

theorem mains_inside_iff (datagrams : List Datagram) :
    ((∀ e ∈ (proxyMain datagrams).log, Inside e) ↔ ∀ datagram ∈ datagrams, Ends datagram) ∧
      ((∀ e ∈ (testMain datagrams).log, Inside e) ↔ ∀ datagram ∈ datagrams, Ends datagram) :=
  ⟨receiveLoop_inside_iff _ datagrams, receiveLoop_inside_iff _ datagrams⟩

theorem host_terminated : 0 ∉ ofString "10.0.0.2" := by decide

theorem port_terminated : 0 ∉ ofString "4791" := by decide

def somebody : SockAddr :=
  ⟨⟨ofString "10.0.0.2", host_terminated⟩, ⟨ofString "4791", port_terminated⟩⟩

def fullDatagram : Datagram := ⟨somebody, List.replicate bufSize 0x41⟩

theorem fullDatagram_goes_on : ¬ Ends fullDatagram := by
  simp [Ends, fullDatagram]

theorem fullDatagram_outside (program : Program) :
    ¬ ∀ e ∈ (main program [fullDatagram]).log, Inside e := by
  intro inside
  have first := (receiveLoop_inside_iff _ _).mp inside
  exact fullDatagram_goes_on (first _ List.mem_cons_self)

theorem full_datagram_outside :
    (¬ ∀ e ∈ (proxyMain [fullDatagram]).log, Inside e) ∧
      ¬ ∀ e ∈ (testMain [fullDatagram]).log, Inside e :=
  ⟨fullDatagram_outside _, fullDatagram_outside _⟩

def sent : Event → Option (List Byte)
  | .sends bytes => some bytes
  | .looks _ | .prints _ => none

theorem printLoop_sends (format : Byte → List Char8) (i : Nat) (xs : List Byte) :
    (printLoop format i xs).log.filterMap sent = [] := by
  induction xs generalizing i with
  | nil => rfl
  | cons c rest ih =>
    by_cases stops : c = 0
    · rw [stops, printLoop_stop]
      rfl
    · rw [printLoop_more format i rest stops]
      exact ih (i + 1)

theorem turn_sends (program : Program) (datagram : Datagram) (ends : Ends datagram) :
    (turn program zeroBuf datagram).log.filterMap sent =
      [(store zeroBuf 0 datagram.bytes).toList] := by
  have printed := printLoop_value program.format 0 _ ((ends_iff datagram).mpr ends)
  have reported : ((program.report datagram.sender).map Event.prints).filterMap sent = [] := by
    rw [List.filterMap_map, List.filterMap_eq_nil_iff]
    exact fun _ _ => rfl
  rw [turn, recvfrom, bind_some _ printed, bind_some (a := ()) _ rfl, call_bind,
    List.filterMap_append, List.filterMap_append, printLoop_sends, reported]
  rfl

/-- Run to its end, the loop sends what it sends without the printing. -/
theorem receiveLoop_sends (program : Program) (datagrams : List Datagram)
    (ends : ∀ datagram ∈ datagrams, Ends datagram) :
    (receiveLoop program zeroBuf datagrams).log.filterMap sent =
      (ForwardProxy.main (datagrams.map Datagram.bytes)).map ForwardProxy.Turn.sent := by
  rw [ForwardProxy.main_eq]
  induction datagrams with
  | nil => rfl
  | cons datagram rest ih =>
    obtain ⟨first, later⟩ := List.forall_mem_cons.mp ends
    rw [receiveLoop, bind_some _ (turn_value program datagram first), List.filterMap_append,
      turn_sends program datagram first, ih later, List.map_cons, List.map_cons, List.map_cons,
      List.singleton_append]

end RdmaFuzzing.PrintedDatagrams
