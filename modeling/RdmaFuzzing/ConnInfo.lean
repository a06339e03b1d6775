import RdmaFuzzing.UdpSocket

/-! `xch-qpn.c`: the message that carries a GID and the text of a queue pair
number, and how the other side takes it apart. A message that is cut off behind
the text, or padded by a proxy, is still received whole. -/

namespace RdmaFuzzing.ConnInfo
open CText FrameLayout ReusedBuffer UdpSocket

abbrev Gid : Type := Vector Byte 16

structure ConnInf where
  gid : Gid
  qpn : Int

def msgSize : Nat := 100

/-- What C leaves open: the value `sscanf` stores for a number that no `int` can
hold, the bytes behind the buffer it scans, and what `msg_send` holds at first. -/
structure LeftOpen where
  overflow : Int → Int
  beyond : List Byte
  msgSend : Vector Byte msgSize

def unspecified : LeftOpen := ⟨id, [], Vector.replicate msgSize 0⟩

/-- `none` is the return code 1. -/
def prepareMsg {n : Nat} (qpn : CString) (gid : Gid) (msg : Vector Byte n) :
    Option (Vector Byte n) :=
  if n < 20 then none
  else some (store (store (fill msg n 0) 0 gid.toList) 16 (qpn.chars ++ [0]))

/-- `sscanf(msg_c, "%d", &qpn)`; a matching failure stores nothing. -/
def scanQpn (o : LeftOpen) (text : List Byte) (qpn : Int) : Int :=
  match sscanfD text with
  | none => qpn
  | some v => if -2 ^ 31 ≤ v ∧ v < 2 ^ 31 then v else o.overflow v

def parseConnInf (o : LeftOpen) (msg : Vector Byte msgSize) (receivedLen : Int)
    (cinf : ConnInf) : Nat × ConnInf :=
  if receivedLen < 18 then (1, cinf)
  else
    let gid : Gid := store (fill cinf.gid 16 0) 0 (front msg 16)
    let qpn := scanQpn o (msg.toList.drop 16 ++ o.beyond) cinf.qpn
    (0, ⟨gid, qpn⟩)

def qpnText (qpn : BitVec 24) : CString := textD qpn.toNat

def message (gid : Gid) (qpn : BitVec 24) : Vector Byte msgSize :=
  store (store (Vector.replicate msgSize 0) 0 gid.toList) 16 ((qpnText qpn).chars ++ [0])

theorem prepareMsg_eq (gid : Gid) (qpn : BitVec 24) (msg : Vector Byte msgSize) :
    prepareMsg (qpnText qpn) gid msg = some (message gid qpn) := by
  rw [prepareMsg, if_neg (by decide), fill_all]
  rfl

theorem qpnText_chars (qpn : BitVec 24) : (qpnText qpn).chars = decimal qpn.toNat := by
  have positive : ¬ (qpn.toNat : Int) < 0 := by omega
  change sprintfD qpn.toNat = decimal qpn.toNat
  rw [sprintfD, if_neg positive, Int.natAbs_natCast]

theorem length_qpnText (qpn : BitVec 24) : (qpnText qpn).chars.length ≤ 8 := by
  rw [qpnText_chars]
  exact length_decimal_le (Nat.lt_trans qpn.isLt (by decide))

theorem toList_message (gid : Gid) (qpn : BitVec 24) :
    (message gid qpn).toList =
      gid.toList ++ ((qpnText qpn).chars ++
        List.replicate (84 - (qpnText qpn).chars.length) 0) := by
  have short := length_qpnText qpn
  have gids : gid.toList.length = 16 := Vector.length_toList
  have text : ((qpnText qpn).chars ++ [0]).length = (qpnText qpn).chars.length + 1 := by simp
  have pastGid : gid.toList.drop (16 + ((qpnText qpn).chars.length + 1)) = [] :=
    List.drop_eq_nil_of_le (by omega)
  have zeros : [0] ++ List.replicate (84 - ((qpnText qpn).chars.length + 1)) (0 : Byte) =
      List.replicate (84 - (qpnText qpn).chars.length) 0 := by
    rw [← List.replicate_one, List.replicate_append_replicate]
    congr 1
    omega
  rw [message, toList_store _ _ _ (by rw [text, msgSize]; omega),
    toList_store _ _ _ (by rw [gids]; decide), text]
  simp only [Vector.toList_replicate, List.take_zero, List.nil_append, Nat.zero_add, gids,
    List.drop_replicate, List.take_left' gids, List.drop_append, pastGid,
    Nat.add_sub_cancel_left, List.append_assoc, ← zeros]
  rfl

theorem receive_message (gid : Gid) (qpn : BitVec 24) (l : Nat) (whole : 24 ≤ l) :
    store (Vector.replicate msgSize 0) 0 ((message gid qpn).toList.take l) =
      message gid qpn := by
  have short := length_qpnText qpn
  have cut : ((message gid qpn).toList.take l).length = min l msgSize := by simp
  have text : (gid.toList ++ (qpnText qpn).chars).length ≤ l := by
    rw [List.length_append, Vector.length_toList]
    omega
  have rest : (message gid qpn).toList.drop l = List.replicate (msgSize - min l msgSize) 0 := by
    rw [toList_message, ← List.append_assoc, List.drop_append, List.drop_eq_nil_of_le text,
      List.nil_append, List.drop_replicate, List.length_append, Vector.length_toList, msgSize]
    congr 1
    omega
  apply Vector.toList_inj.mp
  rw [toList_store _ _ _ (by rw [cut, Nat.zero_add]; exact Nat.min_le_right _ _), cut,
    Vector.toList_replicate, List.take_zero, List.nil_append, Nat.zero_add,
    List.drop_replicate, ← rest, List.take_append_drop]

theorem scanQpn_text (o : LeftOpen) (qpn : BitVec 24) (rest : List Byte) (stops : Stops rest)
    (old : Int) : scanQpn o ((qpnText qpn).chars ++ rest) old = qpn.toNat := by
  have scanned : sscanfD ((qpnText qpn).chars ++ rest) = some (qpn.toNat : Int) :=
    sscanfD_sprintfD qpn.toNat stops
  have bound := qpn.isLt
  rw [scanQpn, scanned]
  exact if_pos (by omega)

theorem parse_message (o : LeftOpen) (gid : Gid) (qpn : BitVec 24) (receivedLen : Int)
    (whole : 18 ≤ receivedLen) (cinf : ConnInf) :
    parseConnInf o (message gid qpn) receivedLen cinf = (0, ⟨gid, qpn.toNat⟩) := by
  have short := length_qpnText qpn
  have gids : gid.toList.length = 16 := Vector.length_toList
  have first : front (message gid qpn) 16 = gid.toList := by
    rw [front, toList_message, List.take_left' gids]
  have rest : (message gid qpn).toList.drop 16 ++ o.beyond =
      (qpnText qpn).chars ++
        (List.replicate (84 - (qpnText qpn).chars.length) 0 ++ o.beyond) := by
    rw [toList_message, List.drop_left' gids, List.append_assoc]
  have stops : Stops (List.replicate (84 - (qpnText qpn).chars.length) 0 ++ o.beyond) := by
    obtain ⟨k, hk⟩ : ∃ k, 84 - (qpnText qpn).chars.length = k + 1 :=
      ⟨83 - (qpnText qpn).chars.length, by omega⟩
    rw [hk, List.replicate_succ, List.cons_append]
    intro c hc
    cases Option.some.inj hc
    rfl
  simp only [parseConnInf, if_neg (not_lt.mpr whole), first, store_toList, rest,
    scanQpn_text o qpn _ stops]

attribute [irreducible] message

end RdmaFuzzing.ConnInfo
