import RdmaFuzzing.Destinations

/-! `dev_info.c` up to its memory region: one set of attributes for all three moves of
the queue pair. The `memset` before the second move is meant for the address handle and
has its size, but starts at the attributes themselves, so that it clears the members
that lie in front. Where they lie is a matter of the header of libibverbs. -/

namespace RdmaFuzzing.DevInfo
open FrameLayout ConnInfo ExitRun QueuePair

/-- Which moves a device makes, by the queue pair as it is. -/
structure Device where
  accepts : QpAttr → QpAttr → List AttrMask → Bool

def einval : Int := 22

def Device.modifyQp (device : Device) (qp attr : QpAttr) (mask : List AttrMask) : Int :=
  if device.accepts qp attr mask then 0 else einval

def move (device : Device) (qp attr : QpAttr) (mask : List AttrMask) : Run Event QpAttr := do
  call (.modifyQp attr mask (device.modifyQp qp attr mask)) ()
  require (device.modifyQp qp attr mask = 0)
  pure (storeAttr qp attr mask)

def mtu256 : Nat := 1

def devInfoRtrMask : List AttrMask := [.state, .av, .pathMtu, .destQpn, .rqPsn]

/-- Where the members of `struct ibv_qp_attr` lie, each by the name it has in a mask, and
`sizeof(qp_attr.ah_attr)`. -/
structure Layout where
  offset : AttrMask → Nat
  size : AttrMask → Nat
  sizeofAhAttr : Nat

def Layout.inFront (layout : Layout) (member : AttrMask) : Bool :=
  layout.offset member + layout.size member ≤ layout.sizeofAhAttr

/-- What the header says: `qp_state` is an enumeration and comes first, `ah_attr` holds
a GID, `dest_qp_num` ends no later than `ah_attr` is long, and so many bytes end between
two members. -/
structure Documented (layout : Layout) : Prop where
  first : layout.offset .state = 0
  enumSize : layout.size .state = 4
  gidSize : 16 ≤ layout.sizeofAhAttr
  destQpn : layout.offset .destQpn + layout.size .destQpn ≤ layout.sizeofAhAttr
  whole : ∀ member, layout.inFront member ∨ layout.sizeofAhAttr ≤ layout.offset member

def members : List AttrMask :=
  [.state, .pathMtu, .rqPsn, .sqPsn, .destQpn, .accessFlags, .av, .pkeyIndex, .maxQpRdAtomic,
    .maxDestRdAtomic, .minRnrTimer, .port, .timeout, .retryCnt, .rnrRetry]

/-- `memset(&qp_attr, 0, sizeof(qp_attr.ah_attr))`. -/
def memset (layout : Layout) (attr : QpAttr) : QpAttr :=
  storeAttr attr zeroAttr (members.filter layout.inFront)

def attrInit (uninitialised : QpAttr) : QpAttr :=
  { uninitialised with
    qpState := .init
    pkeyIndex := 0
    portNum := portNum
    qpAccessFlags := 0 }

def attrRtr (layout : Layout) (attr : QpAttr) (gid : Gid) (destQpn : BitVec 32) : QpAttr :=
  let attr := memset layout { attr with
    qpState := .rtr
    pkeyIndex := 0
    pathMtu := mtu256
    destQpNum := destQpn
    rqPsn := 0 }
  { attr with ahAttr := { attr.ahAttr with dgid := gid, isGlobal := true, portNum := portNum } }

def attrRts (attr : QpAttr) : QpAttr :=
  { attr with
    qpState := .rts
    sqPsn := 0
    maxRdAtomic := 0
    retryCnt := 7
    rnrRetry := 7
    timeout := 18 }

/-- The three moves of `run_server`, with the queue pair number that was typed. -/
def connect (device : Device) (layout : Layout) (uninitialised : QpAttr) (gid : Gid)
    (destQpn : BitVec 32) : Run Event QpAttr := do
  let attr := attrInit uninitialised
  let qp ← move device zeroAttr attr initMask
  let attr := attrRtr layout attr gid destQpn
  let qp ← move device qp attr devInfoRtrMask
  let attr := attrRts attr
  move device qp attr rtsMask

structure StateOrder (device : Device) : Prop where
  toRts : ∀ qp attr mask, device.accepts qp attr mask = true → .state ∈ mask →
    attr.qpState = .rts → qp.qpState = .rtr ∨ qp.qpState = .rts

theorem move_accepted {device : Device} {qp attr : QpAttr} {mask : List AttrMask}
    (accepted : device.accepts qp attr mask = true) :
    move device qp attr mask = ⟨[.modifyQp attr mask 0], some (storeAttr qp attr mask)⟩ := by
  have ret : device.modifyQp qp attr mask = 0 := if_pos accepted
  rw [move, ret]
  rfl

theorem move_refused {device : Device} {qp attr : QpAttr} {mask : List AttrMask}
    (refused : ¬device.accepts qp attr mask = true) :
    move device qp attr mask = ⟨[.modifyQp attr mask einval], none⟩ := by
  have ret : device.modifyQp qp attr mask = einval := if_neg refused
  rw [move, ret]
  rfl

theorem move_bind {β : Type} (device : Device) (qp attr : QpAttr) (mask : List AttrMask)
    (f : QpAttr → Run Event β) :
    move device qp attr mask >>= f =
      if device.accepts qp attr mask = true then
        ⟨.modifyQp attr mask 0 :: (f (storeAttr qp attr mask)).log,
          (f (storeAttr qp attr mask)).value⟩
      else ⟨[.modifyQp attr mask einval], none⟩ := by
  split_ifs with accepted
  · rw [move_accepted accepted]
    rfl
  · rw [move_refused accepted]
    rfl

theorem move_log (device : Device) (qp attr : QpAttr) (mask : List AttrMask) :
    (move device qp attr mask).log = [.modifyQp attr mask (device.modifyQp qp attr mask)] := by
  by_cases accepted : device.accepts qp attr mask = true
  · rw [move_accepted accepted, Device.modifyQp, if_pos accepted]
  · rw [move_refused accepted, Device.modifyQp, if_neg accepted]

theorem storeAttr_qpState (qp attr : QpAttr) {mask : List AttrMask} (named : .state ∈ mask) :
    (storeAttr qp attr mask).qpState = attr.qpState :=
  if_pos named

theorem mem_members (member : AttrMask) : member ∈ members := by
  cases member <;> decide

theorem mem_front {layout : Layout} {member : AttrMask} (front : layout.inFront member = true) :
    member ∈ members.filter layout.inFront :=
  List.mem_filter.mpr ⟨mem_members member, front⟩

/-- `qp_state` begins where the `memset` does, and is shorter. -/
theorem attrRtr_qpState {layout : Layout} (documented : Documented layout) (attr : QpAttr)
    (gid : Gid) (destQpn : BitVec 32) : (attrRtr layout attr gid destQpn).qpState = .reset := by
  have front : layout.inFront .state = true := by
    have long := documented.gidSize
    rw [Layout.inFront, documented.first, documented.enumSize, decide_eq_true_eq]
    omega
  exact storeAttr_qpState _ zeroAttr (mem_front front)

theorem attrRtr_destQpNum {layout : Layout} (documented : Documented layout) (attr : QpAttr)
    (gid : Gid) (destQpn : BitVec 32) : (attrRtr layout attr gid destQpn).destQpNum = 0 :=
  if_pos (mem_front (decide_eq_true documented.destQpn))

theorem rts_refused {device : Device} (order : StateOrder device) {qp : QpAttr}
    (state : qp.qpState = .reset) (attr : QpAttr) :
    ¬device.accepts qp (attrRts attr) rtsMask = true := by
  intro accepted
  rcases order.toRts qp _ _ accepted List.mem_cons_self rfl with rtr | rts
  · rw [state] at rtr
    cases rtr
  · rw [state] at rts
    cases rts

theorem connect_refused {device : Device} (order : StateOrder device) {layout : Layout}
    (documented : Documented layout) (uninitialised : QpAttr) (gid : Gid) (destQpn : BitVec 32) :
    (connect device layout uninitialised gid destQpn).value = none := by
  rw [connect]
  simp only [move_bind]
  split_ifs with toInit toRtr
  · have state : (storeAttr (storeAttr zeroAttr (attrInit uninitialised) initMask)
        (attrRtr layout (attrInit uninitialised) gid destQpn) devInfoRtrMask).qpState = .reset :=
      (storeAttr_qpState _ _ List.mem_cons_self).trans (attrRtr_qpState documented _ gid destQpn)
    rw [move_refused (rts_refused order state _)]
  · rfl
  · rfl

/-- A move to a state that is not RTR, and no other destination than 0. -/
def Asks : Event → Prop
  | .modifyQp attr mask _ => attr.qpState ≠ .rtr ∧ (.destQpn ∈ mask → attr.destQpNum = 0)
  | _ => True

theorem connect_asks (device : Device) {layout : Layout} (documented : Documented layout)
    (uninitialised : QpAttr) (gid : Gid) (destQpn : BitVec 32) :
    ∀ e ∈ (connect device layout uninitialised gid destQpn).log, Asks e := by
  have asked := attrRtr_qpState documented (attrInit uninitialised) gid destQpn
  rw [connect]
  simp only [forall_log_bind, move_log, List.forall_mem_singleton]
  refine ⟨?_, fun _ _ => ⟨?_, fun _ _ => ?_⟩⟩
  · exact ⟨QpState.noConfusion, fun named => absurd named (by decide)⟩
  · exact ⟨by simp [asked], fun _ => attrRtr_destQpNum documented _ gid destQpn⟩
  · exact ⟨QpState.noConfusion, fun named => absurd named (by decide)⟩

/-- Whatever is typed, whatever the attributes held before and whichever of the moves
the device makes: the program asks for INIT, RESET and at most RTS, never for RTR, the
number that was typed does not get to the device, and the program exits before it
registers its memory. -/
theorem devInfo_exits (device : Device) (order : StateOrder device) (layout : Layout)
    (documented : Documented layout) (uninitialised : QpAttr) (gid : Gid)
    (destQpn : BitVec 32) :
    (connect device layout uninitialised gid destQpn).value = none ∧
      ∀ attr mask ret,
        .modifyQp attr mask ret ∈ (connect device layout uninitialised gid destQpn).log →
          attr.qpState ≠ .rtr ∧ (.destQpn ∈ mask → attr.destQpNum = 0) := by
  refine ⟨connect_refused order documented uninitialised gid destQpn, ?_⟩
  intro attr mask ret logged
  exact connect_asks device documented uninitialised gid destQpn _ logged

def lenient : Device :=
  ⟨fun qp attr _ => attr.qpState ≠ .rts || qp.qpState = .rtr || qp.qpState = .rts⟩

theorem lenient_stateOrder : StateOrder lenient := by
  refine ⟨?_⟩
  intro qp attr mask accepted _ rts
  simpa [lenient, rts] using accepted

def headerLayout : Layout where
  offset
    | .state => 0
    | .pathMtu => 8
    | .rqPsn => 20
    | .sqPsn => 24
    | .destQpn => 28
    | .accessFlags => 32
    | .av => 56
    | .pkeyIndex => 120
    | .maxQpRdAtomic => 126
    | .maxDestRdAtomic => 127
    | .minRnrTimer => 128
    | .port => 129
    | .timeout => 130
    | .retryCnt => 131
    | .rnrRetry => 132
  size
    | .state | .pathMtu | .rqPsn | .sqPsn | .destQpn | .accessFlags => 4
    | .av => 32
    | .pkeyIndex => 2
    | _ => 1
  sizeofAhAttr := 32

theorem headerLayout_documented : Documented headerLayout := by
  refine ⟨rfl, rfl, by decide, by decide, ?_⟩
  intro member
  cases member <;> decide

theorem lenient_exits :
    (connect lenient headerLayout zeroAttr (Vector.replicate 16 1) 17).value = none :=
  (devInfo_exits lenient lenient_stateOrder headerLayout headerLayout_documented zeroAttr _ 17).1

end RdmaFuzzing.DevInfo
