import RdmaFuzzing.ConnExchange
import RdmaFuzzing.DecimalScan

/-! What `parse_conn_inf` makes of an arbitrary datagram in the cleared buffer. It
ignores what `sscanf` returns and reserves no byte for a terminator: a datagram
without a number is accepted, and one that fills the buffer can be read past its
end. -/

namespace RdmaFuzzing.MalformedInfo
open CText FrameLayout ReusedBuffer UdpSocket ConnInfo ConnExchange DecimalScan

/-- The bytes of `msg_recv` that the scan of the number starts on. -/
def infoText (bytes : List Byte) : List Byte := (receive bytes).1.toList.drop 16

theorem length_infoText (bytes : List Byte) : (infoText bytes).length = 84 := by
  rw [infoText, List.length_drop, Vector.length_toList, msgSize]

theorem receive_len (bytes : List Byte) : (receive bytes).2 = min bytes.length msgSize := by
  rw [receive]
  rfl

theorem receive_short (bytes : List Byte) :
    ((receive bytes).2 : Int) < 18 ↔ bytes.length < 18 := by
  rw [receive_len, msgSize]
  omega

theorem not_runsOn_of_short {bytes : List Byte} (short : bytes.length < msgSize) :
    ¬ RunsOn (infoText bytes) := by
  have room : msgSize - bytes.length = (msgSize - bytes.length - 1) + 1 := by omega
  have last : (receive bytes).1.toList =
      (bytes ++ List.replicate (msgSize - bytes.length - 1) 0) ++ [0] := by
    rw [receive, recvfrom, toList_store_replicate _ _ (Nat.le_of_lt short), List.append_assoc,
      ← List.replicate_succ', ← room]
  have before :
      16 ≤ (bytes ++ List.replicate (msgSize - bytes.length - 1) (0 : Byte)).length := by
    rw [List.length_append, List.length_replicate, msgSize] at *
    omega
  intro runsOn
  refine runsOn.no_nul ?_
  rw [infoText, last, List.drop_append_of_le_length before]
  exact List.mem_append_right _ List.mem_cons_self

theorem front_receive {bytes : List Byte} (whole : 18 ≤ bytes.length) :
    front (receive bytes).1 16 = bytes.take 16 := by
  have cut := front_recvfrom (Vector.replicate msgSize (0 : Byte)) bytes
  have most : min 16 (min bytes.length msgSize) = 16 := by
    rw [msgSize]
    omega
  rw [← receive, receive_len, front] at cut
  rw [front, ← most, ← List.take_take, cut, List.take_take, most, msgSize]
  rfl

def parsedGid (bytes : List Byte) (old : Gid) : Gid := store (fill old 16 0) 0 (bytes.take 16)

theorem toList_parsedGid {bytes : List Byte} (whole : 18 ≤ bytes.length) (old : Gid) :
    (parsedGid bytes old).toList = bytes.take 16 := by
  have length : (bytes.take 16).length = 16 := by
    rw [List.length_take]
    omega
  rw [parsedGid, fill_all, toList_store_replicate _ _ (Nat.le_of_eq length), length, Nat.sub_self,
    List.replicate_zero, List.append_nil]

theorem receiveParse_short (o : LeftOpen) {bytes : List Byte} (short : bytes.length < 18)
    (cinf : ConnInf) : receiveParse o bytes cinf = (1, cinf) := by
  rw [receiveParse, parseConnInf, if_pos ((receive_short bytes).mpr short)]

theorem receiveParse_whole (o : LeftOpen) {bytes : List Byte} (whole : 18 ≤ bytes.length)
    (cinf : ConnInf) :
    receiveParse o bytes cinf =
      (0, ⟨parsedGid bytes cinf.gid, scanQpn o (infoText bytes ++ o.beyond) cinf.qpn⟩) := by
  have notShort : ¬ ((receive bytes).2 : Int) < 18 := fun short =>
    absurd ((receive_short bytes).mp short) (by omega)
  rw [receiveParse, parseConnInf, if_neg notShort, front_receive whole]
  rfl

/-- What a caller of `parse_conn_inf` takes its answer to mean. -/
def Answers (bytes : List Byte) (cinf : ConnInf) (answer : Nat × ConnInf) : Prop :=
  (answer.1 = 0 → ∃ v, Numeral (infoText bytes) v ∧ -2 ^ 31 ≤ v ∧ v < 2 ^ 31 ∧
    answer.2.gid.toList = bytes.take 16 ∧ answer.2.qpn = v) ∧
  (answer.1 ≠ 0 → answer.2 = cinf)

theorem scanQpn_numeral (o : LeftOpen) {text : List Byte} {v : Int} (numeral : Numeral text v)
    (old : Int) :
    scanQpn o text old = if -2 ^ 31 ≤ v ∧ v < 2 ^ 31 then v else o.overflow v := by
  rw [scanQpn, (sscanfD_eq_some text v).mpr numeral]

theorem scanQpn_ends (o : LeftOpen) {text : List Byte} (ends : ¬ RunsOn text)
    (behind : List Byte) (old : Int) : scanQpn o (text ++ behind) old = scanQpn o text old := by
  rw [scanQpn, scanQpn, sscanfD_append ends]

theorem scanQpn_runsOn {text : List Byte} {v : Int} (numeral : Numeral text v)
    (runsOn : RunsOn text) (old : Int) :
    ∃ o : LeftOpen, scanQpn o (text ++ o.beyond) old ≠ v := by
  obtain ⟨v', scanned, differ⟩ := sscanfD_runsOn numeral runsOn
  refine ⟨⟨fun _ => v + 1, [49], Vector.replicate msgSize 0⟩, ?_⟩
  rw [scanQpn_numeral _ ((sscanfD_eq_some _ v').mp scanned)]
  split_ifs
  · exact differ
  · change v + 1 ≠ v
    omega

/-- A parse answers for what it stored if the datagram is refused, or has an `int`
in it that the buffer itself ends. -/
theorem answers_iff (bytes : List Byte) (cinf : ConnInf) :
    (∀ o, Answers bytes cinf (receiveParse o bytes cinf)) ↔
      bytes.length < 18 ∨
        (∃ v, Numeral (infoText bytes) v ∧ -2 ^ 31 ≤ v ∧ v < 2 ^ 31) ∧
          ¬ RunsOn (infoText bytes) := by
  by_cases short : bytes.length < 18
  · refine ⟨fun _ => Or.inl short, fun _ o => ?_⟩
    rw [receiveParse_short o short]
    exact ⟨fun accepted => absurd accepted Nat.one_ne_zero, fun _ => rfl⟩
  · have whole : 18 ≤ bytes.length := Nat.le_of_not_lt short
    refine ⟨?_, ?_⟩
    · intro answers
      have answer := answers unspecified
      rw [receiveParse_whole _ whole] at answer
      obtain ⟨v, numeral, low, high, _⟩ := answer.1 rfl
      refine Or.inr ⟨⟨v, numeral, low, high⟩, fun runsOn => ?_⟩
      obtain ⟨o, other⟩ := scanQpn_runsOn numeral runsOn cinf.qpn
      have stored := answers o
      rw [receiveParse_whole _ whole] at stored
      obtain ⟨w, same, _, _, _, qpn⟩ := stored.1 rfl
      exact other (qpn.trans (same.unique numeral))
    · rintro (refused | ⟨⟨v, numeral, low, high⟩, ends⟩) o
      · exact absurd refused short
      · rw [receiveParse_whole o whole]
        refine ⟨fun _ => ⟨v, numeral, low, high, toList_parsedGid whole _, ?_⟩, fun refused =>
          absurd rfl refused⟩
        dsimp only
        rw [scanQpn_ends o ends, scanQpn_numeral o numeral, if_pos ⟨low, high⟩]

theorem infoText_zeros : infoText (List.replicate 18 0) = List.replicate 84 0 := by
  rw [infoText, receive, recvfrom, toList_store_replicate _ _ (by decide), List.length_replicate,
    List.replicate_append_replicate, List.drop_replicate]
  rfl

theorem zeros_numeral (v : Int) : ¬ Numeral (infoText (List.replicate 18 0)) v := by
  intro numeral
  have scanned := (sscanfD_eq_some _ v).mpr numeral
  rw [infoText_zeros] at scanned
  cases scanned

def stale : ConnInf := ⟨Vector.replicate 16 1, 17⟩

theorem zeros_accepted :
    (receiveParse unspecified (List.replicate 18 0) stale).1 = 0 ∧
      (receiveParse unspecified (List.replicate 18 0) stale).2.qpn = 17 ∧
      ¬ Answers (List.replicate 18 0) stale
        (receiveParse unspecified (List.replicate 18 0) stale) := by
  have whole : 18 ≤ (List.replicate 18 (0 : Byte)).length := by rw [List.length_replicate]
  rw [receiveParse_whole _ whole]
  refine ⟨rfl, ?_, ?_⟩
  · rw [infoText_zeros]
    rfl
  · intro answers
    obtain ⟨v, numeral, _⟩ := answers.1 rfl
    exact zeros_numeral v numeral

/-- The indices of `msg` that a parse reads: the GID, then the scan of the number. -/
def parseReads (o : LeftOpen) (msg : Vector Byte msgSize) (receivedLen : Int) : List Nat :=
  if receivedLen < 18 then []
  else List.range 16 ++
    (List.range (examined .spaces (msg.toList.drop 16 ++ o.beyond))).map (16 + ·)

/-- A parse that reads the buffer alone does not depend on what is behind it. -/
theorem parse_inside (o : LeftOpen) (behind : List Byte) (bytes : List Byte) (cinf : ConnInf)
    (ends : ¬ RunsOn (infoText bytes)) :
    receiveParse { o with beyond := behind } bytes cinf = receiveParse o bytes cinf := by
  by_cases short : bytes.length < 18
  · rw [receiveParse_short _ short, receiveParse_short _ short]
  · have whole : 18 ≤ bytes.length := Nat.le_of_not_lt short
    rw [receiveParse_whole _ whole, receiveParse_whole _ whole, scanQpn_ends _ ends,
      scanQpn_ends _ ends]
    rfl

theorem scan_inside (o : LeftOpen) (bytes : List Byte) :
    (∀ i ∈ (List.range (examined .spaces (infoText bytes ++ o.beyond))).map (16 + ·),
        i < msgSize) ↔ ¬ RunsOn (infoText bytes) := by
  have bound := examined_append .spaces (infoText bytes) o.beyond
  rw [length_infoText] at bound
  rw [← runs_iff, Bool.not_eq_true, ← bound, msgSize]
  refine ⟨?_, ?_⟩
  · intro inside
    by_contra past
    have last := inside (16 + 84) (List.mem_map_of_mem (List.mem_range.mpr (by omega)))
    omega
  · intro most i hi
    obtain ⟨k, hk, rfl⟩ := List.mem_map.mp hi
    have before := List.mem_range.mp hk
    change 16 + k < 100
    omega

/-- A parse reads inside the buffer unless its scan finds nothing there that ends it. -/
theorem reads_inside_iff (o : LeftOpen) (bytes : List Byte) :
    (∀ i ∈ parseReads o (receive bytes).1 (receive bytes).2, i < msgSize) ↔
      bytes.length < msgSize ∨ ¬ RunsOn (infoText bytes) := by
  by_cases short : bytes.length < 18
  · rw [parseReads, if_pos ((receive_short bytes).mpr short)]
    have small : bytes.length < msgSize := Nat.lt_trans short (by decide)
    exact ⟨fun _ => Or.inl small, fun _ i hi => absurd hi List.not_mem_nil⟩
  · have whole : ¬ ((receive bytes).2 : Int) < 18 := fun h =>
      short ((receive_short bytes).mp h)
    rw [parseReads, if_neg whole]
    refine ⟨?_, ?_⟩
    · intro inside
      exact Or.inr ((scan_inside o bytes).mp fun i hi => inside i (List.mem_append_right _ hi))
    · intro ended i hi
      have ends : ¬ RunsOn (infoText bytes) := ended.elim not_runsOn_of_short id
      rcases List.mem_append.mp hi with gid | text
      · exact Nat.lt_trans (List.mem_range.mp gid) (by decide)
      · exact (scan_inside o bytes).mpr ends i text

theorem digits_read_past :
    ¬ ∀ i ∈ parseReads unspecified (receive (List.replicate 100 49)).1
        (receive (List.replicate 100 49)).2, i < msgSize := by
  have long : ¬ ((receive (List.replicate 100 49)).2 : Int) < 18 := fun short =>
    absurd ((receive_short _).mp short) (by rw [List.length_replicate]; decide)
  have text : infoText (List.replicate 100 49) = List.replicate 84 49 := by
    rw [infoText, receive, recvfrom, toList_store_replicate _ _ (by decide), List.length_replicate,
      msgSize, Nat.sub_self, List.replicate_zero, List.append_nil, List.drop_replicate]
  have digit : ∀ c ∈ List.replicate 84 (49 : Byte), isdigit c = true := fun c hc => by
    rw [List.eq_of_mem_replicate hc]
    rfl
  have runsOn : RunsOn (infoText (List.replicate 100 49)) := by
    rw [text]
    exact ⟨⟨[], [], List.replicate 84 49, [], by simp, by simp, Or.inl rfl, digit⟩, rfl⟩
  rw [parseReads, if_neg long]
  intro inside
  exact (scan_inside unspecified _).mp (fun i hi => inside i (List.mem_append_right _ hi)) runsOn

end RdmaFuzzing.MalformedInfo
