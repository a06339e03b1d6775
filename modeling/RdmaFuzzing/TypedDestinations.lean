import RdmaFuzzing.Destinations

/-! The pairs `key_based_improved` and `key_based_storage`, whose destination is typed
in: a queue pair number and a local id, but no GID, for which a program names its own. -/

namespace RdmaFuzzing.TypedDestinations
open FrameLayout ConnInfo ExitRun QueuePair Destinations

/-- What the two calls of `scanf` leave in `dest_qp` and `destination_local_id`. -/
structure Typed where
  destQp : BitVec 32
  destinationLocalId : BitVec 16

/-- `client.c` and `server.c` of `key_based_improved` up to RTS. -/
def improvedConnect (verbs : Verbs) (typed : Typed) : Run Event Unit := do
  openQueuePair verbs
  let ret ← qpInitToRtr verbs verbs.gid typed.destQp typed.destinationLocalId portNum
  require (ret = 0)
  let ret ← qpRtrToRts verbs
  require (ret = 0)

def mtu1024 : Nat := 3

/-- The attributes that `key_based_storage` writes out in place. -/
def storageRtrAttr (gid : Gid) (typed : Typed) : QpAttr :=
  { zeroAttr with
    qpState := .rtr
    pathMtu := mtu1024
    rqPsn := 0
    maxDestRdAtomic := 1
    minRnrTimer := 0x12
    destQpNum := typed.destQp
    ahAttr := ⟨true, gid, 0, 0, portNum, typed.destinationLocalId⟩ }

/-- `client.c` and `server.c` of `key_based_storage` up to RTS; the other moves are
those of the functions. -/
def storageConnect (verbs : Verbs) (typed : Typed) : Run Event Unit := do
  openQueuePair verbs
  let ret ← ibvModifyQp verbs (storageRtrAttr verbs.gid typed) rtrMask
  require (ret = 0)
  let ret ← ibvModifyQp verbs rtsAttr rtsMask
  require (ret = 0)

def connectWith (verbs : Verbs) (attr : QpAttr) : Run Event Unit := do
  openQueuePair verbs
  let ret ← ibvModifyQp verbs attr rtrMask
  require (ret = 0)
  let ret ← ibvModifyQp verbs rtsAttr rtsMask
  require (ret = 0)

theorem improvedConnect_eq (verbs : Verbs) (typed : Typed) :
    improvedConnect verbs typed =
      connectWith verbs
        (rtrAttr verbs.gid typed.destQp typed.destinationLocalId portNum) := rfl

theorem storageConnect_eq (verbs : Verbs) (typed : Typed) :
    storageConnect verbs typed = connectWith verbs (storageRtrAttr verbs.gid typed) := rfl

def Works (verbs : Verbs) : Prop :=
  (openQueuePair verbs).value = some () ∧ verbs.modifyQp .rtr = 0 ∧ verbs.modifyQp .rts = 0

theorem connectWith_run {verbs : Verbs} {attr : QpAttr} (state : attr.qpState = .rtr) :
    ((connectWith verbs attr).value = some () ↔ Works verbs) ∧
      (Works verbs → (connectWith verbs attr).log = (openQueuePair verbs).log ++
        [.modifyQp attr rtrMask 0, .modifyQp rtsAttr rtsMask 0]) := by
  rw [connectWith, Works]
  cases opened : (openQueuePair verbs).value with
  | none =>
    rw [bind_none _ opened]
    exact ⟨iff_of_false (by simp) (by simp), fun works => nomatch works.1⟩
  | some u =>
    rw [bind_some _ opened]
    simp only [ibvModifyQp, call_bind, require_bind, require_log, require_value, state,
      rtsAttr_qpState]
    by_cases rtr : verbs.modifyQp .rtr = 0
    · by_cases rts : verbs.modifyQp .rts = 0
      · simp [rtr, rts]
      · simp [rtr, rts]
    · simp [rtr]

theorem connectWith_queuePair {verbs : Verbs} {attr : QpAttr} (state : attr.qpState = .rtr)
    (works : Works verbs) :
    (queuePair (connectWith verbs attr).log).ahAttr = attr.ahAttr ∧
      (queuePair (connectWith verbs attr).log).destQpNum = attr.destQpNum ∧
      (queuePair (connectWith verbs attr).log).pathMtu = attr.pathMtu ∧
      (queuePair (connectWith verbs attr).log).qpState = .rts := by
  rw [(connectWith_run state).2 works, queuePair, List.foldl_append]
  exact ⟨rfl, rfl, rfl, rfl⟩

/-- The program gets to RTS, and its queue pair names the other. -/
def ReadyFor (p : Run Event Unit) (partner : Verbs) : Prop :=
  p.value = some () ∧ Names (queuePair p.log) partner

theorem readyFor_iff {verbs : Verbs} {attr : QpAttr} (state : attr.qpState = .rtr)
    (partner : Verbs) :
    ReadyFor (connectWith verbs attr) partner ↔
      Works verbs ∧ attr.ahAttr.dgid = partner.gid ∧
        attr.destQpNum = partner.qpNum.setWidth 32 := by
  rw [ReadyFor, (connectWith_run state).1]
  refine and_congr_right fun works => ?_
  obtain ⟨handle, number, -, -⟩ := connectWith_queuePair state works
  rw [Names, handle, number]

def program (improved : Bool) (verbs : Verbs) (typed : Typed) : Run Event Unit :=
  if improved then improvedConnect verbs typed else storageConnect verbs typed

theorem program_readyFor_iff (improved : Bool) (verbs partner : Verbs) (typed : Typed) :
    ReadyFor (program improved verbs typed) partner ↔
      Works verbs ∧ verbs.gid = partner.gid ∧ typed.destQp = partner.qpNum.setWidth 32 := by
  rw [program]
  cases improved with
  | true =>
    rw [if_pos rfl, improvedConnect_eq]
    exact readyFor_iff rfl partner
  | false =>
    rw [if_neg Bool.false_ne_true, storageConnect_eq]
    exact readyFor_iff rfl partner

/-- Two programs end up in RTS with each other as their destination exactly if all
their calls succeed, each was given the number of the other, and both hosts have one
and the same GID; the local ids that were typed do not matter. -/
theorem typed_pair_iff (improved improved' : Bool) (verbs verbs' : Verbs)
    (typed typed' : Typed) :
    ReadyFor (program improved verbs typed) verbs' ∧
        ReadyFor (program improved' verbs' typed') verbs ↔
      Works verbs ∧ Works verbs' ∧ verbs.gid = verbs'.gid ∧
        typed.destQp = verbs'.qpNum.setWidth 32 ∧ typed'.destQp = verbs.qpNum.setWidth 32 := by
  rw [program_readyFor_iff, program_readyFor_iff]
  refine ⟨?_, ?_⟩
  · rintro ⟨⟨works, same, number⟩, works', -, number'⟩
    exact ⟨works, works', same, number, number'⟩
  · rintro ⟨works, works', same, number, number'⟩
    exact ⟨⟨works, same, number⟩, works', same.symm, number'⟩

end RdmaFuzzing.TypedDestinations
