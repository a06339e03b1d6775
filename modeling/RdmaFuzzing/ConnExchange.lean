import Mathlib.Data.Multiset.ZeroCons
import Mathlib.Data.Multiset.AddSub
import RdmaFuzzing.ConnInfo
import RdmaFuzzing.PortProxy
import RdmaFuzzing.StepSystem

/-! The exchange of connection information: `xch_conn_inf_client`,
`xch_conn_inf_server` and the loop of `ib_proxy_two.c` between them, each taking
its steps in any order. The network loses and reorders datagrams but does not
duplicate them, nobody else sends, and a receive blocks until a datagram is
there. The exchange addresses of the proxy are those of the two sockets. -/

namespace RdmaFuzzing.ConnExchange
open CText FrameLayout ReusedBuffer UdpSocket ConnInfo StepSystem

structure Setup where
  bindLookup : Bool
  socket : Bool
  bind : Bool
  proxyLookup : Bool
  partnerSocket : Bool

def Setup.succeeds (setup : Setup) : Bool :=
  setup.bindLookup && setup.socket && setup.bind && setup.proxyLookup && setup.partnerSocket

/-- What a program announces, and where the proxy sees its datagrams come from. -/
structure Party where
  gid : Gid
  qpn : BitVec 24
  addr : SockAddr

def Party.identity (p : Party) : ConnInf := ⟨p.gid, p.qpn.toNat⟩

def Party.hello (p : Party) : Vector Byte msgSize := message p.gid p.qpn

inductive ClientAt where
  | start
  | ready
  | awaiting
  | returned (rc : Nat)

/-- Where `xch_conn_inf_server` stands; it answers before it parses. -/
inductive ServerAt where
  | start
  | listening
  | heard (msgRecv : Vector Byte msgSize) (receivedLen : Nat)
  | answered (msgRecv : Vector Byte msgSize) (receivedLen : Nat)
  | returned (rc : Nat)

inductive Flight where
  | toProxy (d : Datagram)
  | fromProxy (dest : PortProxy.Addr) (bytes : List Byte)

def launched : List PortProxy.Event → Multiset Flight
  | [] => 0
  | .sendto dest bytes :: rest => .fromProxy dest bytes ::ₘ launched rest
  | .freeaddrinfo _ :: rest => launched rest

structure World where
  client : ClientAt
  clientInf : ConnInf
  server : ServerAt
  serverInf : ConnInf
  proxy : PortProxy.State
  net : Multiset Flight

def receive (bytes : List Byte) : Vector Byte msgSize × Nat :=
  recvfrom (Vector.replicate msgSize 0) bytes

def receiveParse (o : LeftOpen) (bytes : List Byte) (cinf : ConnInf) : Nat × ConnInf :=
  parseConnInf o (receive bytes).1 (receive bytes).2 cinf

/-- The whole function, from the calls it starts with and the datagram it gets. -/
def xchConnInfClient (o : LeftOpen) (setup : Setup) (response : List Byte) (qpn : CString)
    (gid : Gid) (cinf : ConnInf) : Nat × ConnInf :=
  if setup.succeeds then
    match prepareMsg qpn gid o.msgSend with
    | none => (1, cinf)
    | some _ => receiveParse o response cinf
  else (1, cinf)

def xchConnInfServer (o : LeftOpen) (setup : Setup) (request : List Byte) (qpn : CString)
    (gid : Gid) (cinf : ConnInf) : Nat × ConnInf :=
  if setup.succeeds then
    let (msgRecv, receivedLen) := receive request
    match prepareMsg qpn gid o.msgSend with
    | none => (1, cinf)
    | some _ => parseConnInf o msgRecv receivedLen cinf
  else (1, cinf)

inductive Step (o : LeftOpen) (c s : Party) : World → World → Prop where
  | clientSetup {w : World} (setup : Setup) (stands : w.client = .start) :
      Step o c s w { w with client := if setup.succeeds then .ready else .returned 1 }
  | clientSend {w : World} {msg : Vector Byte msgSize} (stands : w.client = .ready)
      (prepared : prepareMsg (qpnText c.qpn) c.gid o.msgSend = some msg) :
      Step o c s w
        { w with client := .awaiting, net := .toProxy ⟨c.addr, msg.toList⟩ ::ₘ w.net }
  | clientRefuse {w : World} (stands : w.client = .ready)
      (refused : prepareMsg (qpnText c.qpn) c.gid o.msgSend = none) :
      Step o c s w { w with client := .returned 1 }
  | clientReceive {w : World} {bytes : List Byte} {rest : Multiset Flight}
      (stands : w.client = .awaiting) (arrives : w.net = .fromProxy .resClientXch bytes ::ₘ rest) :
      Step o c s w
        { w with
          client := .returned (receiveParse o bytes w.clientInf).1
          clientInf := (receiveParse o bytes w.clientInf).2
          net := rest }
  | serverSetup {w : World} (setup : Setup) (stands : w.server = .start) :
      Step o c s w { w with server := if setup.succeeds then .listening else .returned 1 }
  | serverReceive {w : World} {bytes : List Byte} {rest : Multiset Flight}
      (stands : w.server = .listening)
      (arrives : w.net = .fromProxy .resServerXch bytes ::ₘ rest) :
      Step o c s w { w with server := .heard (receive bytes).1 (receive bytes).2, net := rest }
  | serverSend {w : World} {msg msgRecv : Vector Byte msgSize} {receivedLen : Nat}
      (stands : w.server = .heard msgRecv receivedLen)
      (prepared : prepareMsg (qpnText s.qpn) s.gid o.msgSend = some msg) :
      Step o c s w
        { w with
          server := .answered msgRecv receivedLen
          net := .toProxy ⟨s.addr, msg.toList⟩ ::ₘ w.net }
  | serverRefuse {w : World} {msgRecv : Vector Byte msgSize} {receivedLen : Nat}
      (stands : w.server = .heard msgRecv receivedLen)
      (refused : prepareMsg (qpnText s.qpn) s.gid o.msgSend = none) :
      Step o c s w { w with server := .returned 1 }
  | serverParse {w : World} {msgRecv : Vector Byte msgSize} {receivedLen : Nat}
      (stands : w.server = .answered msgRecv receivedLen) :
      Step o c s w
        { w with
          server := .returned (parseConnInf o msgRecv receivedLen w.serverInf).1
          serverInf := (parseConnInf o msgRecv receivedLen w.serverInf).2 }
  | proxyTurn {w : World} {d : Datagram} {rest : Multiset Flight}
      (arrives : w.net = .toProxy d ::ₘ rest) :
      Step o c s w
        { w with
          proxy := (PortProxy.turn w.proxy d).1
          net := launched (PortProxy.turn w.proxy d).2 + rest }
  | lose {w : World} {f : Flight} {rest : Multiset Flight} (drops : w.net = f ::ₘ rest) :
      Step o c s w { w with net := rest }

structure Initial (w : World) : Prop where
  client : w.client = .start
  server : w.server = .start
  proxy : ∃ clientPort serverPort, w.proxy = PortProxy.start clientPort serverPort
  net : w.net = 0

def system (o : LeftOpen) (c s : Party) : System World := ⟨Initial, Step o c s⟩

/-- How far the exchange has come. A lost datagram leaves it where it is. -/
inductive Phase where
  | idle
  | helloSent
  | helloRelayed
  | helloTaken
  | replySent
  | replyRelayed
  | replyTaken
  deriving DecidableEq, Repr

inductive Phase.Next : Phase → Phase → Prop where
  | hello : Next .idle .helloSent
  | helloRelay : Next .helloSent .helloRelayed
  | helloArrive : Next .helloRelayed .helloTaken
  | reply : Next .helloTaken .replySent
  | replyRelay : Next .replySent .replyRelayed
  | replyArrive : Next .replyRelayed .replyTaken

def phases : System Phase := ⟨(· = .idle), Phase.Next⟩

def inFlight (c s : Party) : Phase → Option Flight
  | .helloSent => some (.toProxy ⟨c.addr, c.hello.toList⟩)
  | .helloRelayed => some (.fromProxy .resServerXch (PortProxy.padded c.hello.toList))
  | .replySent => some (.toProxy ⟨s.addr, s.hello.toList⟩)
  | .replyRelayed => some (.fromProxy .resClientXch (PortProxy.padded s.hello.toList))
  | .idle | .helloTaken | .replyTaken => none

def flags : Phase → Bool × Bool
  | .idle | .helloSent => (false, false)
  | .helloRelayed | .helloTaken | .replySent => (true, false)
  | .replyRelayed | .replyTaken => (true, true)

def ClientIn (s : Party) (client : ClientAt) (clientInf : ConnInf) : Phase → Prop
  | .idle => client = .start ∨ client = .ready ∨ client = .returned 1
  | .replyTaken => client = .returned 0 ∧ clientInf = s.identity
  | _ => client = .awaiting

def ServerIn (c : Party) (server : ServerAt) (serverInf : ConnInf) : Phase → Prop
  | .idle | .helloSent | .helloRelayed =>
      server = .start ∨ server = .listening ∨ server = .returned 1
  | .helloTaken => server = .heard c.hello msgSize
  | .replySent | .replyRelayed | .replyTaken =>
      server = .answered c.hello msgSize ∨ server = .returned 0 ∧ serverInf = c.identity

/-- The datagram of the phase is on the network, unless it was lost. -/
def Carries (expected : Option Flight) (net : Multiset Flight) : Prop :=
  net = 0 ∨ ∃ f, expected = some f ∧ net = {f}

structure At (c s : Party) (phase : Phase) (w : World) : Prop where
  net : Carries (inFlight c s phase) w.net
  flags : (w.proxy.clientFlag, w.proxy.serverFlag) = flags phase
  buf : w.proxy.buf = Vector.replicate PortProxy.bufSize 0
  client : ClientIn s w.client w.clientInf phase
  server : ServerIn c w.server w.serverInf phase

theorem carries_arrived {expected : Option Flight} {net : Multiset Flight} {f : Flight}
    {rest : Multiset Flight} (carries : Carries expected net) (arrives : net = f ::ₘ rest) :
    expected = some f ∧ rest = 0 := by
  rw [arrives] at carries
  rcases carries with none | ⟨g, known, only⟩
  · exact absurd none Multiset.cons_ne_zero
  · obtain ⟨same, empty⟩ := (Multiset.singleton_eq_cons_iff rest).mp only.symm
    exact ⟨same ▸ known, empty⟩

theorem carries_nothing {net : Multiset Flight} (carries : Carries none net) : net = 0 := by
  rcases carries with empty | ⟨f, known, _⟩
  · exact empty
  · cases known

theorem carries_new (f : Flight) {net : Multiset Flight} (empty : net = 0) :
    Carries (some f) (f ::ₘ net) :=
  Or.inr ⟨f, rfl, empty ▸ rfl⟩

theorem receive_prefix (msg : Vector Byte msgSize) (rest : List Byte) :
    receive (msg.toList ++ rest) = (msg, msgSize) := by
  have size : msg.toList.length = msgSize := Vector.length_toList
  refine Prod.ext ?_ ?_
  · apply Vector.ext
    intro i hi
    simp only [receive, recvfrom]
    rw [getElem_store_front _ _ _ _ (by rw [List.length_append]; omega),
      List.getElem_append_left (by omega), Vector.getElem_toList]
  · simp only [receive, recvfrom, List.length_append, size]
    omega

theorem receive_padded (msg : Vector Byte msgSize) :
    receive (PortProxy.padded msg.toList) = (msg, msgSize) := by
  rw [PortProxy.padded_eq _ (by rw [Vector.length_toList]; decide), receive_prefix]

attribute [irreducible] receive

theorem parse_hello (o : LeftOpen) (p : Party) (cinf : ConnInf) :
    parseConnInf o p.hello (msgSize : Nat) cinf = (0, p.identity) :=
  parse_message o p.gid p.qpn _ (by decide) cinf

theorem receiveParse_padded (o : LeftOpen) (p : Party) (cinf : ConnInf) :
    receiveParse o (PortProxy.padded p.hello.toList) cinf = (0, p.identity) := by
  rw [receiveParse, receive_padded]
  exact parse_hello o p cinf

theorem xchConnInfClient_message (o : LeftOpen) (setup : Setup) (gid : Gid) (qpn : BitVec 24)
    (cinf : ConnInf) (theirs : Gid) (theirQpn : BitVec 24) (rest : List Byte) :
    xchConnInfClient o setup ((message theirs theirQpn).toList ++ rest) (qpnText qpn) gid cinf =
      if setup.succeeds then (0, ⟨theirs, theirQpn.toNat⟩) else (1, cinf) := by
  rw [xchConnInfClient, prepareMsg_eq]
  simp only [receiveParse, receive_prefix, parse_message o _ _ (msgSize : Nat) (by decide)]

theorem xchConnInfServer_message (o : LeftOpen) (setup : Setup) (gid : Gid) (qpn : BitVec 24)
    (cinf : ConnInf) (theirs : Gid) (theirQpn : BitVec 24) (rest : List Byte) :
    xchConnInfServer o setup ((message theirs theirQpn).toList ++ rest) (qpnText qpn) gid cinf =
      if setup.succeeds then (0, ⟨theirs, theirQpn.toNat⟩) else (1, cinf) := by
  rw [xchConnInfServer, receive_prefix, prepareMsg_eq]
  simp only [parse_message o _ _ (msgSize : Nat) (by decide)]

end RdmaFuzzing.ConnExchange
