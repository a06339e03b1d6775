import RdmaFuzzing.UdpSocket

/-! `ib_proxy.c`: the proxy that forwards two datagrams of connection information
and then closes its exchange socket. A turn of the loop is one `recvfrom`; the
history of the turns is kept beside the loop's own variables. -/

namespace RdmaFuzzing.ExchangeProxy
open CText FrameLayout ReusedBuffer UdpSocket

structure ConfigParams where
  rdmaPort : CString
  exchangePort : CString
  clientAddress : CString
  serverAddress : CString
  proxyAddressClient : CString
  deriving DecidableEq

def config : ConfigParams where
  rdmaPort := ⟨ofString "4791", by decide⟩
  exchangePort := ⟨ofString "4793", by decide⟩
  clientAddress := ⟨ofString "172.0.0.15", by decide⟩
  serverAddress := ⟨ofString "172.0.0.16", by decide⟩
  proxyAddressClient := ⟨ofString "172.0.0.1", by decide⟩

/-- What the system answers while the proxy sets up its sockets. -/
structure Host where
  getaddrinfo : CString → CString → Option SockAddr
  sdXch : Int
  bindXch : Int
  sdRdma : Int
  bindRdma : Int

structure ConnResources where
  sdXch : Int
  sdRdma : Int
  resClientXch : SockAddr
  resServerXch : SockAddr

/-- `none` is the return code 1. -/
def prepareConnResources (host : Host) (config : ConfigParams) : Option ConnResources := do
  let _ ← host.getaddrinfo config.proxyAddressClient config.exchangePort
  guard (0 ≤ host.sdXch)
  guard (host.bindXch = 0)
  let _ ← host.getaddrinfo config.proxyAddressClient config.rdmaPort
  guard (0 ≤ host.sdRdma)
  guard (host.bindRdma = 0)
  let clientRes ← host.getaddrinfo config.clientAddress config.exchangePort
  let serverRes ← host.getaddrinfo config.serverAddress config.exchangePort
  pure ⟨host.sdXch, host.sdRdma, clientRes, serverRes⟩

inductive Received where
  | datagram (d : Datagram)
  | failed
  deriving DecidableEq

structure Sent where
  bytes : List Byte
  dest : SockAddr
  deriving DecidableEq

structure Turn where
  received : Received
  sends : List Sent

structure Loop where
  buf : Vector Byte 4096
  senderHostname : CString
  i : Nat
  turns : List Turn

/-- A negative length becomes a `size_t` that no datagram has: nothing is sent. -/
def sendto (buf : Vector Byte 4096) (receivedBytes : Int) (dest : SockAddr) : List Sent :=
  if receivedBytes < 0 then [] else [⟨front buf receivedBytes.toNat, dest⟩]

/-- A failed receive leaves the buffer and the sender of the turn before. -/
def receive (st : Loop) : Received → Vector Byte 4096 × Int × CString
  | .datagram d => ((recvfrom st.buf d.bytes).1, (recvfrom st.buf d.bytes).2, d.sender.host)
  | .failed => (st.buf, -1, st.senderHostname)

def sentFrom (address senderHostname : CString) : Prop :=
  strncmp address senderHostname (strlen address) = 0

instance (address senderHostname : CString) : Decidable (sentFrom address senderHostname) :=
  inferInstanceAs (Decidable (_ = _))

def turn (config : ConfigParams) (connRes : ConnResources) (st : Loop) (r : Received) : Loop :=
  let (buf, receivedBytes, senderHostname) := receive st r
  if sentFrom config.clientAddress senderHostname then
    let sends := sendto buf receivedBytes connRes.resServerXch
    ⟨buf, senderHostname, st.i + 1, st.turns ++ [⟨r, sends⟩]⟩
  else if sentFrom config.serverAddress senderHostname then
    let sends := sendto buf receivedBytes connRes.resServerXch
    ⟨buf, senderHostname, st.i + 1, st.turns ++ [⟨r, sends⟩]⟩
  else ⟨buf, senderHostname, st.i, st.turns ++ [⟨r, []⟩]⟩

def fwdLoop (config : ConfigParams) (connRes : ConnResources) (st : Loop) :
    List Received → Loop
  | [] => st
  | r :: rest => if st.i < 2 then fwdLoop config connRes (turn config connRes st r) rest else st

structure Exchange where
  connRes : ConnResources
  turns : List Turn
  returned : Bool

/-- The function on the receives to come; it returns once it has counted to two. -/
def fwdExchangeData (config : ConfigParams) (connRes : ConnResources)
    (uninitialised : CString) (rs : List Received) : Exchange :=
  let last := fwdLoop config connRes ⟨Vector.replicate 4096 0, uninitialised, 0, []⟩ rs
  if last.i < 2 then ⟨connRes, last.turns, false⟩
  else ⟨{ connRes with sdXch := -1 }, last.turns, true⟩

/-- `none` is `exit(1)`: the connection resources could not be prepared. -/
def main (host : Host) (config : ConfigParams) (uninitialised : CString)
    (rs : List Received) : Option Exchange := do
  let connRes ← prepareConnResources host config
  pure (fwdExchangeData config connRes uninitialised rs)

def Recognised (config : ConfigParams) (d : Datagram) : Prop :=
  sentFrom config.clientAddress d.sender.host ∨ sentFrom config.serverAddress d.sender.host

instance (config : ConfigParams) : DecidablePred (Recognised config) := fun _ =>
  inferInstanceAs (Decidable (_ ∨ _))

theorem sentFrom_iff (address host : CString) :
    sentFrom address host ↔ address.chars <+: host.chars :=
  strncmp_strlen address host

theorem sentFrom_self (address : CString) : sentFrom address address :=
  (sentFrom_iff address address).mpr (List.prefix_refl _)

def route (config : ConfigParams) (connRes : ConnResources) (d : Datagram) : List Sent :=
  if Recognised config d then [⟨d.bytes.take 4096, connRes.resServerXch⟩] else []

theorem sendto_received (buf : Vector Byte 4096) (d : Datagram) (dest : SockAddr) :
    sendto (recvfrom buf d.bytes).1 (recvfrom buf d.bytes).2 dest =
      [⟨d.bytes.take 4096, dest⟩] := by
  rw [sendto, if_neg (by omega), Int.toNat_natCast, front_recvfrom]

theorem turn_eq (config : ConfigParams) (connRes : ConnResources) (st : Loop) (r : Received) :
    turn config connRes st r =
      let (buf, receivedBytes, host) := receive st r
      let known := sentFrom config.clientAddress host ∨ sentFrom config.serverAddress host
      ⟨buf, host, st.i + (if known then 1 else 0),
        st.turns ++ [⟨r, if known then sendto buf receivedBytes connRes.resServerXch else []⟩]⟩ := by
  rw [turn]
  generalize receive st r = received
  obtain ⟨buf, receivedBytes, host⟩ := received
  dsimp only
  by_cases client : sentFrom config.clientAddress host
  · simp only [client, if_true, true_or]
  · by_cases server : sentFrom config.serverAddress host
    · simp only [client, server, if_true, if_false, or_true]
    · simp only [client, server, if_false, or_self, Nat.add_zero]

theorem turn_datagram (config : ConfigParams) (connRes : ConnResources) (st : Loop)
    (d : Datagram) :
    turn config connRes st (.datagram d) =
      ⟨(recvfrom st.buf d.bytes).1, d.sender.host,
        st.i + (if Recognised config d then 1 else 0),
        st.turns ++ [⟨.datagram d, route config connRes d⟩]⟩ := by
  rw [turn_eq]
  simp only [receive, sendto_received]
  rfl

def reached (config : ConfigParams) : Nat → List Datagram → List Datagram
  | 0, _ => []
  | _ + 1, [] => []
  | n + 1, d :: rest => d :: reached config (if Recognised config d then n else n + 1) rest

def datagramTurn (config : ConfigParams) (connRes : ConnResources) (d : Datagram) : Turn :=
  ⟨.datagram d, route config connRes d⟩

theorem fwdLoop_turns (config : ConfigParams) (connRes : ConnResources) (st : Loop)
    (ds : List Datagram) :
    (fwdLoop config connRes st (ds.map .datagram)).turns =
      st.turns ++ (reached config (2 - st.i) ds).map (datagramTurn config connRes) := by
  induction ds generalizing st with
  | nil => cases 2 - st.i <;> simp [fwdLoop, reached]
  | cons d rest ih =>
    rw [List.map_cons, fwdLoop]
    split_ifs with waiting
    · obtain ⟨n, hn⟩ : ∃ n, 2 - st.i = n + 1 := ⟨1 - st.i, by omega⟩
      have next : 2 - (st.i + if Recognised config d then 1 else 0) =
          if Recognised config d then n else n + 1 := by
        split_ifs <;> omega
      rw [ih, turn_datagram, hn, reached]
      simp only [next]
      rw [List.map_cons, List.append_assoc]
      rfl
    · have full : 2 - st.i = 0 := by omega
      simp [full, reached]

theorem fwdLoop_i (config : ConfigParams) (connRes : ConnResources) (st : Loop)
    (ds : List Datagram) :
    (fwdLoop config connRes st (ds.map .datagram)).i =
      st.i + min (2 - st.i) (ds.filter (Recognised config)).length := by
  induction ds generalizing st with
  | nil => simp [fwdLoop]
  | cons d rest ih =>
    rw [List.map_cons, fwdLoop]
    split_ifs with waiting
    · rw [ih, turn_datagram]
      by_cases known : Recognised config d
      · simp [known]
        omega
      · simp [known]
    · omega

theorem reached_filter (config : ConfigParams) (n : Nat) (ds : List Datagram) :
    (reached config n ds).filter (Recognised config) =
      (ds.filter (Recognised config)).take n := by
  induction ds generalizing n with
  | nil => cases n <;> rfl
  | cons d rest ih =>
    cases n with
    | zero => rfl
    | succ n =>
      rw [reached]
      by_cases known : Recognised config d
      · simp [known, ih]
      · simp [known, ih]

theorem fwdExchangeData_turns (config : ConfigParams) (connRes : ConnResources)
    (uninitialised : CString) (ds : List Datagram) :
    (fwdExchangeData config connRes uninitialised (ds.map .datagram)).turns =
      (reached config 2 ds).map (datagramTurn config connRes) := by
  rw [fwdExchangeData]
  split_ifs
  · exact fwdLoop_turns config connRes _ ds
  · exact fwdLoop_turns config connRes _ ds

theorem fwdExchangeData_returned (config : ConfigParams) (connRes : ConnResources)
    (uninitialised : CString) (ds : List Datagram) :
    (fwdExchangeData config connRes uninitialised (ds.map .datagram)).returned = true ↔
      2 ≤ (ds.filter (Recognised config)).length := by
  rw [fwdExchangeData, fwdLoop_i]
  split_ifs with waiting
  · simp only [false_iff]
    simp only at waiting
    omega
  · simp only [true_iff]
    simp only at waiting
    omega

end RdmaFuzzing.ExchangeProxy
