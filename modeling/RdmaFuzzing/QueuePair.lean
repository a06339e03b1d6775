import RdmaFuzzing.ConnExchange
import RdmaFuzzing.ExitRun

/-! `qp_transitions.c`, and `run_client` and `run_server` up to the state RTS. The
calls of libibverbs are logged; `ibv_modify_qp`, when it returns 0, stores the
attributes that its mask names. -/

namespace RdmaFuzzing.QueuePair
open CText FrameLayout ReusedBuffer ConnInfo ConnExchange ExitRun

inductive QpState where
  | reset
  | init
  | rtr
  | rts
  deriving DecidableEq, Repr

structure AhAttr where
  isGlobal : Bool
  dgid : Gid
  sl : Byte
  srcPathBits : Byte
  portNum : Byte
  dlid : BitVec 16
  deriving DecidableEq

structure QpAttr where
  qpState : QpState
  portNum : Byte
  pkeyIndex : BitVec 16
  qpAccessFlags : Nat
  pathMtu : Nat
  rqPsn : BitVec 32
  maxDestRdAtomic : Byte
  minRnrTimer : Byte
  destQpNum : BitVec 32
  ahAttr : AhAttr
  sqPsn : BitVec 32
  maxRdAtomic : Byte
  retryCnt : Byte
  rnrRetry : Byte
  timeout : Byte
  deriving DecidableEq

inductive AttrMask where
  | state
  | pkeyIndex
  | port
  | accessFlags
  | av
  | pathMtu
  | destQpn
  | rqPsn
  | maxDestRdAtomic
  | minRnrTimer
  | sqPsn
  | maxQpRdAtomic
  | retryCnt
  | rnrRetry
  | timeout
  deriving DecidableEq

/-- `memset(&attr, 0, sizeof(attr))`. -/
def zeroAttr : QpAttr :=
  ⟨.reset, 0, 0, 0, 0, 0, 0, 0, 0, ⟨false, Vector.replicate 16 0, 0, 0, 0, 0⟩, 0, 0, 0, 0, 0⟩

/-- `IBV_ACCESS_LOCAL_WRITE | IBV_ACCESS_REMOTE_WRITE | IBV_ACCESS_REMOTE_READ`. -/
def accessFlags : Nat := 1 ||| 2 ||| 4

def mtu4096 : Nat := 5

inductive Event where
  | modifyQp (attr : QpAttr) (mask : List AttrMask) (ret : Int)
  | exchanged (rc : Nat)
  deriving DecidableEq

/-- What libibverbs answers on one host: whether the calls succeed, the GID and
the queue pair number they give, and what `ibv_modify_qp` returns by state. -/
structure Verbs where
  openDevice : Bool
  queryGid : Bool
  gid : Gid
  allocPd : Bool
  createCq : Bool
  createQp : Bool
  qpNum : BitVec 24
  modifyQp : QpState → Int
  queryPort : Bool

def ibvModifyQp (verbs : Verbs) (attr : QpAttr) (mask : List AttrMask) : Run Event Int :=
  call (.modifyQp attr mask (verbs.modifyQp attr.qpState)) (verbs.modifyQp attr.qpState)

def initAttr (portNum : Byte) : QpAttr :=
  { zeroAttr with
    qpState := .init
    portNum := portNum
    pkeyIndex := 0
    qpAccessFlags := accessFlags }

@[simp] theorem initAttr_qpState (portNum : Byte) : (initAttr portNum).qpState = .init := rfl

def initMask : List AttrMask := [.state, .pkeyIndex, .port, .accessFlags]

def qpResetToInit (verbs : Verbs) (portNum : Byte) : Run Event Int :=
  ibvModifyQp verbs (initAttr portNum) initMask

def rtrAttr (gid : Gid) (destQp : BitVec 32) (destinationLocalId : BitVec 16)
    (portNum : Byte) : QpAttr :=
  { zeroAttr with
    qpState := .rtr
    pathMtu := mtu4096
    rqPsn := 0
    maxDestRdAtomic := 1
    minRnrTimer := 0x12
    destQpNum := destQp
    ahAttr := ⟨true, gid, 0, 0, portNum, destinationLocalId⟩ }

@[simp] theorem rtrAttr_qpState (gid : Gid) (destQp : BitVec 32)
    (destinationLocalId : BitVec 16) (portNum : Byte) :
    (rtrAttr gid destQp destinationLocalId portNum).qpState = .rtr := rfl

def rtrMask : List AttrMask :=
  [.state, .av, .pathMtu, .destQpn, .rqPsn, .maxDestRdAtomic, .minRnrTimer]

def qpInitToRtr (verbs : Verbs) (gid : Gid) (destQp : BitVec 32)
    (destinationLocalId : BitVec 16) (portNum : Byte) : Run Event Int :=
  ibvModifyQp verbs (rtrAttr gid destQp destinationLocalId portNum) rtrMask

def rtsAttr : QpAttr :=
  { zeroAttr with
    qpState := .rts
    sqPsn := 0
    maxRdAtomic := 0
    retryCnt := 7
    rnrRetry := 7
    timeout := 18 }

@[simp] theorem rtsAttr_qpState : rtsAttr.qpState = .rts := rfl

def rtsMask : List AttrMask :=
  [.state, .sqPsn, .maxQpRdAtomic, .retryCnt, .rnrRetry, .timeout]

def qpRtrToRts (verbs : Verbs) : Run Event Int := ibvModifyQp verbs rtsAttr rtsMask

/-- The attributes of the queue pair after a successful `ibv_modify_qp`. -/
def storeAttr (qp attr : QpAttr) (mask : List AttrMask) : QpAttr where
  qpState := if .state ∈ mask then attr.qpState else qp.qpState
  portNum := if .port ∈ mask then attr.portNum else qp.portNum
  pkeyIndex := if .pkeyIndex ∈ mask then attr.pkeyIndex else qp.pkeyIndex
  qpAccessFlags := if .accessFlags ∈ mask then attr.qpAccessFlags else qp.qpAccessFlags
  pathMtu := if .pathMtu ∈ mask then attr.pathMtu else qp.pathMtu
  rqPsn := if .rqPsn ∈ mask then attr.rqPsn else qp.rqPsn
  maxDestRdAtomic := if .maxDestRdAtomic ∈ mask then attr.maxDestRdAtomic else qp.maxDestRdAtomic
  minRnrTimer := if .minRnrTimer ∈ mask then attr.minRnrTimer else qp.minRnrTimer
  destQpNum := if .destQpn ∈ mask then attr.destQpNum else qp.destQpNum
  ahAttr := if .av ∈ mask then attr.ahAttr else qp.ahAttr
  sqPsn := if .sqPsn ∈ mask then attr.sqPsn else qp.sqPsn
  maxRdAtomic := if .maxQpRdAtomic ∈ mask then attr.maxRdAtomic else qp.maxRdAtomic
  retryCnt := if .retryCnt ∈ mask then attr.retryCnt else qp.retryCnt
  rnrRetry := if .rnrRetry ∈ mask then attr.rnrRetry else qp.rnrRetry
  timeout := if .timeout ∈ mask then attr.timeout else qp.timeout

def storeEvent (qp : QpAttr) : Event → QpAttr
  | .modifyQp attr mask ret => if ret = 0 then storeAttr qp attr mask else qp
  | .exchanged _ => qp

def queuePair (log : List Event) : QpAttr := log.foldl storeEvent zeroAttr

/-- One host: its device, its network, the datagram its exchange receives, and
what its uninitialised variables hold. -/
structure Host where
  verbs : Verbs
  setup : Setup
  received : List Byte
  destQp : BitVec 32
  destinationLocalId : BitVec 16

def portNum : Byte := 1

def openQueuePair (verbs : Verbs) : Run Event Unit := do
  require verbs.openDevice
  require verbs.queryGid
  require verbs.allocPd
  require verbs.createCq
  require verbs.createQp
  let ret ← qpResetToInit verbs portNum
  require (ret = 0)
  require verbs.queryPort

/-- Both programs read the connection information and drop the return code. -/
def exchange (result : Nat × ConnInf) : Run Event ConnInf :=
  call (.exchanged result.1) result.2

/-- What both programs do, up to RTS; they differ in the destination they name. -/
def connect (host : Host) (result : Nat × ConnInf) (dest : ConnInf → Gid × BitVec 32) :
    Run Event Unit := do
  openQueuePair host.verbs
  let cinf ← exchange result
  let ret ← qpInitToRtr host.verbs (dest cinf).1 (dest cinf).2 host.destinationLocalId portNum
  require (ret = 0)
  let ret ← qpRtrToRts host.verbs
  require (ret = 0)

def zeroInf : ConnInf := ⟨Vector.replicate 16 0, 0⟩

def theirGid (cinf : ConnInf) : Gid := store (Vector.replicate 16 0) 0 cinf.gid.toList

def runClient (o : LeftOpen) (host : Host) : Run Event Unit :=
  connect host
    (xchConnInfClient o host.setup host.received (qpnText host.verbs.qpNum) host.verbs.gid zeroInf)
    fun cinf => (theirGid cinf, BitVec.ofInt 32 cinf.qpn)

/-- The server has `their_gid` too, but passes `gid` and `dest_qp`, which nothing
has assigned. -/
def runServer (o : LeftOpen) (host : Host) : Run Event Unit :=
  connect host
    (xchConnInfServer o host.setup host.received (qpnText host.verbs.qpNum) host.verbs.gid zeroInf)
    fun _ => (host.verbs.gid, host.destQp)

theorem mem_openQueuePair {verbs : Verbs} {e : Event} (h : e ∈ (openQueuePair verbs).log) :
    e = .modifyQp (initAttr portNum) initMask (verbs.modifyQp .init) := by
  simp only [openQueuePair, require_bind, qpResetToInit, ibvModifyQp, call_bind,
    initAttr_qpState] at h
  split_ifs at h <;> simp at h <;> exact h

def rtrEvent (host : Host) (dest : Gid × BitVec 32) : Event :=
  .modifyQp (rtrAttr dest.1 dest.2 host.destinationLocalId portNum) rtrMask
    (host.verbs.modifyQp .rtr)

def rtsEvent (host : Host) : Event := .modifyQp rtsAttr rtsMask (host.verbs.modifyQp .rts)

theorem connect_run (host : Host) (result : Nat × ConnInf) (dest : ConnInf → Gid × BitVec 32)
    (opened : (openQueuePair host.verbs).value = some ()) :
    connect host result dest =
      ⟨(openQueuePair host.verbs).log ++ .exchanged result.1 :: rtrEvent host (dest result.2) ::
          (if host.verbs.modifyQp .rtr = 0 then [rtsEvent host] else []),
        if host.verbs.modifyQp .rtr = 0 ∧ host.verbs.modifyQp .rts = 0 then some () else none⟩ := by
  rw [connect, bind_some _ opened]
  simp only [exchange, qpInitToRtr, qpRtrToRts, ibvModifyQp, call_bind, require_bind]
  by_cases rtr : host.verbs.modifyQp .rtr = 0
  · by_cases rts : host.verbs.modifyQp .rts = 0
    · simp [rtr, rts, rtrEvent, rtsEvent]
    · simp [rtr, rts, rtrEvent, rtsEvent]
  · simp [rtr, rtrEvent]

theorem opened_of_exchanged {host : Host} {result : Nat × ConnInf}
    {dest : ConnInf → Gid × BitVec 32} {rc : Nat}
    (h : .exchanged rc ∈ (connect host result dest).log) :
    (openQueuePair host.verbs).value = some () := by
  rcases mem_log_bind h with early | ⟨_, value⟩
  · cases mem_openQueuePair early
  · exact value

theorem exchanged_rc {host : Host} {result : Nat × ConnInf}
    {dest : ConnInf → Gid × BitVec 32} {rc : Nat}
    (h : .exchanged rc ∈ (connect host result dest).log) : result.1 = rc := by
  rw [connect_run host result dest (opened_of_exchanged h)] at h
  rcases List.mem_append.mp h with early | late
  · cases mem_openQueuePair early
  · split_ifs at late <;> simp [rtrEvent, rtsEvent] at late <;> exact late.symm

theorem exchanged_logged {host : Host} {result : Nat × ConnInf}
    {dest : ConnInf → Gid × BitVec 32} (opened : (openQueuePair host.verbs).value = some ()) :
    .exchanged result.1 ∈ (connect host result dest).log := by
  rw [connect_run host result dest opened]
  exact List.mem_append_right _ List.mem_cons_self

end RdmaFuzzing.QueuePair
