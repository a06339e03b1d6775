import Mathlib.Data.List.TakeWhile
import RdmaFuzzing.ConnInfo

/-! The way of a queue pair number from one program to the other: printed into a
buffer of 10 bytes, put into the message behind the GID, cut off in transit, and
parsed. Every write is checked against the buffer it goes to. -/

namespace RdmaFuzzing.InfoRoundTrip
open CText FrameLayout ReusedBuffer UdpSocket ConnInfo

def qpnSize : Nat := 10

/-- `memset(qpn, 0, 10)` and `sprintf(qpn, "%d", qp->qp_num)`. -/
def printQpn (qpn : Vector Byte qpnSize) (qpNum : BitVec 24) : Option (Vector Byte qpnSize) := do
  let qpn ← storeWithin qpn 0 (List.replicate 10 0)
  storeWithin qpn 0 (sprintfD qpNum.toNat ++ [0])

def textAt {n : Nat} (buf : Vector Byte n) : CString where
  chars := buf.toList.takeWhile (· != 0)
  terminated := fun h => absurd (List.mem_takeWhile_imp h) (by decide)

/-- `prepare_msg` with its writes checked, and its return code. -/
def prepareMsgWithin {n : Nat} (qpn : CString) (gid : Gid) (msg : Vector Byte n)
    (msgSize : Nat) : Option (Nat × Vector Byte n) :=
  if msgSize < 20 then some (1, msg)
  else do
    let msg ← storeWithin msg 0 (List.replicate msgSize 0)
    let msg ← storeWithin msg 0 gid.toList
    let msg ← storeWithin msg 16 (qpn.chars ++ [0])
    return (0, msg)

theorem store_zeros {n : Nat} (buf : Vector Byte n) :
    store buf 0 (List.replicate n 0) = Vector.replicate n 0 := by
  rw [← Vector.toList_replicate, store_toList]

theorem prepareMsgWithin_eq {n : Nat} (qpn : CString) (gid : Gid) (msg : Vector Byte n)
    (room : 16 + (qpn.chars.length + 1) ≤ n) :
    prepareMsgWithin qpn gid msg n =
      some (match prepareMsg qpn gid msg with
        | none => (1, msg)
        | some sent => (0, sent)) := by
  rw [prepareMsgWithin, prepareMsg]
  split_ifs with short
  · rfl
  · have gids : gid.toList.length = 16 := Vector.length_toList
    rw [storeWithin_eq _ _ _ (by rw [List.length_replicate, Nat.zero_add]), store_zeros, fill_all]
    simp only [Option.bind_eq_bind, Option.bind_some]
    rw [storeWithin_eq _ _ _ (by omega), Option.bind_some,
      storeWithin_eq _ _ _ (by rw [List.length_append]; exact room)]
    rfl

theorem textAt_print {n : Nat} (text : CString) (fits : text.chars.length + 1 ≤ n) :
    textAt (store (Vector.replicate n 0) 0 (text.chars ++ [0])) = text := by
  apply CString.ext
  have length : (text.chars ++ [0]).length = text.chars.length + 1 := by simp
  have inside : ∀ c ∈ text.chars, (c != 0) = true := by
    intro c hc
    have notNul : c ≠ 0 := fun nul => text.terminated (nul ▸ hc)
    simpa using notNul
  change List.takeWhile _ (Vector.toList _) = text.chars
  rw [toList_store_replicate _ _ (by omega), List.append_assoc,
    List.takeWhile_append_of_pos inside, List.singleton_append,
    List.takeWhile_cons_of_neg (by decide), List.append_nil]

theorem printQpn_text (old : Vector Byte qpnSize) (qpNum : BitVec 24) :
    ∃ printed, printQpn old qpNum = some printed ∧ textAt printed = qpnText qpNum := by
  have short := length_qpnText qpNum
  have length : ((qpnText qpNum).chars ++ [0]).length ≤ 10 := by
    rw [List.length_append]
    exact Nat.add_le_add_right (short.trans (by decide)) 1
  refine ⟨store (Vector.replicate qpnSize 0) 0 ((qpnText qpNum).chars ++ [0]), ?_, ?_⟩
  · have cleared : storeWithin old 0 (List.replicate 10 0) = some (Vector.replicate qpnSize 0) := by
      rw [storeWithin_eq _ _ _ (by rw [List.length_replicate]; decide)]
      exact congrArg some (store_zeros old)
    rw [printQpn, cleared, Option.bind_eq_bind, Option.bind_some]
    exact storeWithin_eq _ _ _ (by rw [Nat.zero_add]; exact length)
  · exact textAt_print _ (by rw [qpnSize]; omega)

/-- What one program prints and sends, the other parses, however much of the
message behind the text is cut off. -/
theorem round_trip (gid : Gid) (qpNum : BitVec 24) (qpn : Vector Byte qpnSize)
    (msg : Vector Byte msgSize) :
    ∃ printed sent, printQpn qpn qpNum = some printed ∧
      prepareMsgWithin (textAt printed) gid msg 100 = some (0, sent) ∧
      ∀ (o : LeftOpen) (cinf : ConnInf) (l : Nat), 24 ≤ l → l ≤ 100 →
        parseConnInf o (store (Vector.replicate msgSize 0) 0 (sent.toList.take l)) l cinf =
          (0, ⟨gid, qpNum.toNat⟩) := by
  obtain ⟨printed, fits, text⟩ := printQpn_text qpn qpNum
  have short := length_qpnText qpNum
  refine ⟨printed, message gid qpNum, fits, ?_, ?_⟩
  · have prepared := prepareMsgWithin_eq (qpnText qpNum) gid msg (by rw [msgSize]; omega)
    rw [prepareMsg_eq] at prepared
    rw [text]
    exact prepared
  · intro o cinf l whole _
    rw [receive_message gid qpNum l whole]
    exact parse_message o gid qpNum l (by omega) cinf

theorem largest_round_trip :
    ∃ sent : Vector Byte msgSize, ∀ (o : LeftOpen) (cinf : ConnInf),
      parseConnInf o (store (Vector.replicate msgSize 0) 0 (sent.toList.take 24)) (24 : Nat) cinf =
        (0, ⟨Vector.replicate 16 0, 16777215⟩) := by
  obtain ⟨_, sent, _, _, parsed⟩ := round_trip (Vector.replicate 16 0) 16777215
    (Vector.replicate qpnSize 255) (Vector.replicate msgSize 255)
  exact ⟨sent, fun o cinf => parsed o cinf 24 (by decide) (by decide)⟩

end RdmaFuzzing.InfoRoundTrip
