import RdmaFuzzing.UdpSocket

/-! `ib_proxy_two.c`: the proxy that takes the sender of the first datagram for
the client and the sender of the second for the server, and from then on routes
by the source port. Every send hands over the whole buffer. -/

namespace RdmaFuzzing.PortProxy
open CText FrameLayout ReusedBuffer UdpSocket

def clientPortStd : CString := ⟨ofString "9001", by decide⟩

def serverPortStd : CString := ⟨ofString "8001", by decide⟩

def bufSize : Nat := 4096

inductive Addr where
  | resClient
  | resClientXch
  | resServer
  | resServerXch
  deriving DecidableEq, Repr

inductive Event where
  | sendto (dest : Addr) (bytes : List Byte)
  | freeaddrinfo (addr : Addr)
  deriving DecidableEq

structure State where
  buf : Vector Byte bufSize
  clientFlag : Bool
  serverFlag : Bool
  clientPort : CString
  serverPort : CString

/-- The ports of the record are not initialised. -/
def start (clientPort serverPort : CString) : State :=
  ⟨Vector.replicate bufSize 0, false, false, clientPort, serverPort⟩

def turn (st : State) (d : Datagram) : State × List Event :=
  let (buf, _) := recvfrom st.buf d.bytes
  let cleared := fill buf bufSize 0
  if !st.clientFlag then
    ({ st with buf := cleared, clientPort := d.sender.port, clientFlag := true },
      [.sendto .resServerXch buf.toList, .freeaddrinfo .resServerXch])
  else if !st.serverFlag then
    ({ st with buf := cleared, serverPort := d.sender.port, serverFlag := true },
      [.sendto .resClientXch buf.toList, .freeaddrinfo .resClientXch])
  else if strcmp clientPortStd d.sender.port = 0 then
    ({ st with buf := cleared }, [.sendto .resServer buf.toList])
  else if strcmp serverPortStd d.sender.port = 0 then
    ({ st with buf := cleared }, [.sendto .resClient buf.toList])
  else ({ st with buf := cleared }, [])

structure Turn where
  head : State
  received : Datagram
  events : List Event

def mainLoop (st : State) : List Datagram → List Turn
  | [] => []
  | d :: rest => ⟨st, d, (turn st d).2⟩ :: mainLoop (turn st d).1 rest

/-- What every send hands over: the datagram, padded to the size of the buffer. -/
def padded (bytes : List Byte) : List Byte :=
  (store (Vector.replicate bufSize (0 : Byte)) 0 bytes).toList

theorem turn_client (st : State) (d : Datagram)
    (clear : st.buf = Vector.replicate bufSize 0) (unset : st.clientFlag = false) :
    turn st d =
      ({ st with clientPort := d.sender.port, clientFlag := true },
        [.sendto .resServerXch (padded d.bytes), .freeaddrinfo .resServerXch]) := by
  simp only [turn, recvfrom, fill_all, unset, clear, padded]
  rfl

theorem turn_server (st : State) (d : Datagram)
    (clear : st.buf = Vector.replicate bufSize 0) (set : st.clientFlag = true)
    (unset : st.serverFlag = false) :
    turn st d =
      ({ st with serverPort := d.sender.port, serverFlag := true },
        [.sendto .resClientXch (padded d.bytes), .freeaddrinfo .resClientXch]) := by
  simp only [turn, recvfrom, fill_all, set, unset, clear, padded]
  rfl

theorem turn_routes (st : State) (d : Datagram)
    (clear : st.buf = Vector.replicate bufSize 0) (set : st.clientFlag = true)
    (both : st.serverFlag = true) :
    turn st d =
      (st,
        if d.sender.port = clientPortStd then [.sendto .resServer (padded d.bytes)]
        else if d.sender.port = serverPortStd then [.sendto .resClient (padded d.bytes)]
        else []) := by
  cases st
  subst clear set both
  simp only [turn, recvfrom, fill_all, padded, strcmp_eq_zero, Bool.not_true, if_false,
    Bool.false_eq_true, @eq_comm _ clientPortStd, @eq_comm _ serverPortStd]
  split_ifs <;> rfl

theorem padded_eq (bytes : List Byte) (fits : bytes.length ≤ bufSize) :
    padded bytes = bytes ++ List.replicate (bufSize - bytes.length) 0 :=
  toList_store_replicate 0 bytes fits

theorem padded_eq_iff (bytes : List Byte) : padded bytes = bytes ↔ bytes.length = bufSize :=
  toList_store_replicate_iff 0 bytes

attribute [irreducible] padded

def eventsAt (i : Nat) (d : Datagram) : List Event :=
  match i with
  | 0 => [.sendto .resServerXch (padded d.bytes), .freeaddrinfo .resServerXch]
  | 1 => [.sendto .resClientXch (padded d.bytes), .freeaddrinfo .resClientXch]
  | _ + 2 =>
      if d.sender.port = clientPortStd then [.sendto .resServer (padded d.bytes)]
      else if d.sender.port = serverPortStd then [.sendto .resClient (padded d.bytes)]
      else []

/-- At the head of a turn the buffer is clear, and the flags tell how many
datagrams have been received. -/
structure HeadAt (i : Nat) (st : State) : Prop where
  clear : st.buf = Vector.replicate bufSize 0
  client : st.clientFlag = decide (0 < i)
  server : st.serverFlag = decide (1 < i)

theorem start_headAt (clientPort serverPort : CString) : HeadAt 0 (start clientPort serverPort) :=
  ⟨rfl, rfl, rfl⟩

theorem turn_at (st : State) (d : Datagram) (i : Nat) (head : HeadAt i st) :
    (turn st d).2 = eventsAt i d ∧ HeadAt (i + 1) (turn st d).1 := by
  obtain ⟨clear, client, server⟩ := head
  match i with
  | 0 =>
    rw [turn_client st d clear client]
    exact ⟨rfl, clear, rfl, server⟩
  | 1 =>
    rw [turn_server st d clear client server]
    exact ⟨rfl, clear, client, rfl⟩
  | i + 2 =>
    rw [turn_routes st d clear (client.trans (by simp)) (server.trans (by simp))]
    exact ⟨rfl, clear, client.trans (by simp), server.trans (by simp)⟩

theorem mainLoop_at (ds : List Datagram) (i : Nat) (st : State) (head : HeadAt i st) (k : Nat)
    (t : Turn) (here : (mainLoop st ds)[k]? = some t) :
    HeadAt (i + k) t.head ∧ ds[k]? = some t.received ∧ t.events = eventsAt (i + k) t.received := by
  induction ds generalizing i st k with
  | nil => simp [mainLoop] at here
  | cons d rest ih =>
    obtain ⟨events, next⟩ := turn_at st d i head
    cases k with
    | zero =>
      obtain rfl := Option.some.inj here
      exact ⟨head, rfl, events⟩
    | succ k =>
      obtain ⟨headK, received, eventsK⟩ := ih (i + 1) _ next k here
      rw [Nat.add_right_comm] at headK eventsK
      exact ⟨headK, received, eventsK⟩

theorem mainLoop_received (st : State) (ds : List Datagram) :
    (mainLoop st ds).map Turn.received = ds := by
  induction ds generalizing st with
  | nil => rfl
  | cons d rest ih => rw [mainLoop, List.map_cons, ih]

theorem turn_facts {clientPort serverPort : CString} {ds : List Datagram} {i : Nat} {t : Turn}
    (here : (mainLoop (start clientPort serverPort) ds)[i]? = some t) :
    HeadAt i t.head ∧ ds[i]? = some t.received ∧ t.events = eventsAt i t.received := by
  have facts := mainLoop_at ds 0 _ (start_headAt clientPort serverPort) i t here
  rwa [Nat.zero_add] at facts

theorem exists_turn (st : State) {ds : List Datagram} {i : Nat} {d : Datagram}
    (here : ds[i]? = some d) : ∃ t, (mainLoop st ds)[i]? = some t ∧ t.received = d := by
  rw [← mainLoop_received st ds, List.getElem?_map] at here
  exact Option.map_eq_some_iff.mp here

end RdmaFuzzing.PortProxy
