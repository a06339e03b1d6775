import RdmaFuzzing.ExitRun
import RdmaFuzzing.FrameLayout
import RdmaFuzzing.HexText

/-! `dump_buffer_bytes` of `proxy-f.c` and `print_buf_bytes` of `ib_proxy_two.c`: a
buffer in rows of sixteen bytes, each with the offset of its first byte. The two
loops are the same but for what is printed before the `return` in the inner one,
through which every call leaves. No `int` of theirs grows past the size given. -/

namespace RdmaFuzzing.HexDump
open FrameLayout CText HexText ExitRun

/-- A byte read through `p`, or a `printf`. -/
inductive Event where
  | reads (i : Nat)
  | prints (text : List Char8)
  deriving DecidableEq

/-- `printf("%02X", (*p) & 0xFF)`. -/
def byteText (c : Byte) : List Char8 := padded .upper 2 (c.signExtend 32 &&& 0xFF).toNat

/-- The inner loop with `left` turns to go, in which `i` is `17 - left`, and `p` at
index `k`. It returns with `ending` printed at the end of the buffer. -/
def innerLoop (ending : List (List Char8)) (buf : List Byte) : Nat → Nat → Run Event Nat
  | 0, k => pure k
  | left + 1, k =>
      if buf.length ≤ k then ⟨ending.map .prints, none⟩
      else do
        call (.reads k) ()
        call (.prints (byteText (buf.getD k 0))) ()
        if (16 - left) % 2 = 0 then call (.prints [0x20]) () else pure ()
        innerLoop ending buf left (k + 1)

theorem innerLoop_end (ending : List (List Char8)) (buf : List Byte) (left : Nat) {k : Nat}
    (past : buf.length ≤ k) :
    innerLoop ending buf (left + 1) k = ⟨ending.map .prints, none⟩ := by
  rw [innerLoop, if_pos past]

theorem innerLoop_more (ending : List (List Char8)) (buf : List Byte) (left : Nat) {k : Nat}
    (inside : k < buf.length) :
    innerLoop ending buf (left + 1) k =
      ⟨.reads k :: .prints (byteText (buf.getD k 0)) ::
        (if (16 - left) % 2 = 0 then [.prints [0x20]] else []) ++
          (innerLoop ending buf left (k + 1)).log,
        (innerLoop ending buf left (k + 1)).value⟩ := by
  rw [innerLoop, if_neg (Nat.not_le_of_lt inside), call_bind, call_bind]
  split_ifs with even
  · rfl
  · rfl

theorem innerLoop_value (ending : List (List Char8)) (buf : List Byte) (left : Nat) {k : Nat}
    (inside : k ≤ buf.length) : (innerLoop ending buf left k).value =
      if k + left ≤ buf.length then some (k + left) else none := by
  induction left generalizing k with
  | zero => rw [innerLoop, Nat.add_zero, if_pos inside, pure_run]
  | succ left ih =>
    rcases Nat.lt_or_ge k buf.length with more | done
    · rw [innerLoop_more ending buf left more, ih more, Nat.succ_add_eq_add_succ]
    · rw [innerLoop_end ending buf left done, if_neg (by omega)]

/-- The outer loop; what follows it is one more end of a line. -/
def outerLoop (ending : List (List Char8)) (buf : List Byte) (k bytesRange : Nat) :
    Run Event Unit :=
  if _inside : k ≤ buf.length then
    let label := Event.prints (padded .upper 4 (bytesRange &&& 0xFFFF) ++ ofString ": ")
    let row := innerLoop ending buf 16 k
    match _next : row.value with
    | none => ⟨label :: row.log, none⟩
    | some k' =>
        let rest := outerLoop ending buf k' (bytesRange + 16)
        ⟨label :: row.log ++ .prints [0x0A] :: rest.log, rest.value⟩
  else call (.prints [0x0A]) ()
termination_by buf.length + 1 - k
decreasing_by
  rw [innerLoop_value ending buf 16 _inside] at _next
  split_ifs at _next with room
  cases _next
  omega

def heading : List Char8 := ofString "received: \n"

def dump (ending : List (List Char8)) (buf : List Byte) : List Event :=
  .prints heading :: (outerLoop ending buf 0 0).log

def dumpBufferBytes : List Byte → List Event := dump [[0x0A]]

def printBufBytes : List Byte → List Event := dump []

def printed (events : List Event) : List Char8 :=
  events.flatMap fun e => match e with
    | .prints text => text
    | .reads _ => []

def readIndices (events : List Event) : List Nat :=
  events.filterMap fun e => match e with
    | .reads i => some i
    | .prints _ => none

def pairs : Bool → List Byte → List Char8
  | _, [] => []
  | second, c :: rest =>
      byteText c ++ (if second then [0x20] else []) ++ pairs (!second) rest

def rowBytes (buf : List Byte) (j : Nat) : List Byte := (buf.drop (16 * j)).take 16

def rowText (buf : List Byte) (j : Nat) : List Char8 :=
  padded .upper 4 (16 * j % 65536) ++ ofString ": " ++ pairs false (rowBytes buf j)

/-- The bytes that the lines after the first stand for: behind the label, the digits. -/
def parse (text : List Char8) : List Byte :=
  unhex (((text.splitOn 0x0A).drop 1).flatMap fun line => (line.drop 6).filter (· ≠ 0x20))

structure Faithful (events : List Event) (buf : List Byte) (ending : List Char8) : Prop where
  reads : readIndices events = List.range buf.length
  text : printed events = heading ++
    [0x0A].intercalate ((List.range (buf.length / 16 + 1)).map (rowText buf)) ++ ending
  parsed : parse (printed events) = buf

@[simp] theorem printed_cons_reads (i : Nat) (events : List Event) :
    printed (.reads i :: events) = printed events := rfl

@[simp] theorem printed_cons_prints (t : List Char8) (events : List Event) :
    printed (.prints t :: events) = t ++ printed events := rfl

@[simp] theorem printed_append (e₁ e₂ : List Event) :
    printed (e₁ ++ e₂) = printed e₁ ++ printed e₂ := List.flatMap_append

@[simp] theorem printed_map_prints (ts : List (List Char8)) :
    printed (ts.map .prints) = ts.flatten := by
  induction ts with
  | nil => rfl
  | cons t ts ih => rw [List.map_cons, printed_cons_prints, ih, List.flatten_cons]

@[simp] theorem readIndices_cons_reads (i : Nat) (events : List Event) :
    readIndices (.reads i :: events) = i :: readIndices events := rfl

@[simp] theorem readIndices_cons_prints (t : List Char8) (events : List Event) :
    readIndices (.prints t :: events) = readIndices events := rfl

@[simp] theorem readIndices_append (e₁ e₂ : List Event) :
    readIndices (e₁ ++ e₂) = readIndices e₁ ++ readIndices e₂ := List.filterMap_append

@[simp] theorem readIndices_map_prints (ts : List (List Char8)) :
    readIndices (ts.map .prints) = [] := by
  induction ts with
  | nil => rfl
  | cons t ts ih => rw [List.map_cons, readIndices_cons_prints, ih]

theorem innerLoop_indices (ending : List (List Char8)) (buf : List Byte) (left k : Nat) :
    readIndices (innerLoop ending buf left k).log =
      List.range' k (min left (buf.length - k)) := by
  induction left generalizing k with
  | zero =>
    rw [Nat.zero_min]
    rfl
  | succ left ih =>
    rcases Nat.lt_or_ge k buf.length with more | done
    · have turns : min (left + 1) (buf.length - k) = min left (buf.length - (k + 1)) + 1 := by
        omega
      have space : readIndices (if (16 - left) % 2 = 0 then [.prints [0x20]] else []) = [] := by
        split_ifs
        · rfl
        · rfl
      rw [innerLoop_more ending buf left more, turns, List.range'_succ, List.cons_append,
        List.cons_append, readIndices_cons_reads, readIndices_cons_prints, readIndices_append,
        space, ih, List.nil_append]
    · rw [innerLoop_end ending buf left done, Nat.sub_eq_zero_of_le done, Nat.min_zero]
      exact readIndices_map_prints ending

theorem printed_space {left : Nat} (short : left + 1 ≤ 16) :
    printed (if (16 - left) % 2 = 0 then [.prints [0x20]] else []) =
      if (left + 1) % 2 == 1 then [0x20] else [] := by
  have flag : ((left + 1) % 2 == 1) = decide ((16 - left) % 2 = 0) := by
    rw [Bool.eq_iff_iff, beq_iff_eq, decide_eq_true_iff]
    omega
  rw [flag]
  by_cases even : (16 - left) % 2 = 0
  · rw [if_pos even, if_pos (decide_eq_true even)]
    rfl
  · rw [if_neg even, if_neg (by rw [decide_eq_true_iff]; exact even)]
    rfl

theorem innerLoop_text (ending : List (List Char8)) (buf : List Byte) {left k : Nat}
    (short : left ≤ 16) (inside : k ≤ buf.length) :
    printed (innerLoop ending buf left k).log =
      pairs (left % 2 == 1) ((buf.drop k).take left) ++
        if k + left ≤ buf.length then [] else ending.flatten := by
  induction left generalizing k with
  | zero => simp [innerLoop, printed, pairs, inside]
  | succ left ih =>
    rcases Nat.lt_or_ge k buf.length with more | done
    · have toggled : (!((left + 1) % 2 == 1)) = (left % 2 == 1) := by
        rw [Bool.eq_iff_iff, Bool.not_eq_true', beq_eq_false_iff_ne, beq_iff_eq]
        omega
      have entry : buf.getD k 0 = buf[k] := (List.getElem_eq_getD 0).symm
      have row : (buf.drop k).take (left + 1) = buf[k] :: (buf.drop (k + 1)).take left := by
        rw [List.drop_eq_getElem_cons more, List.take_succ_cons]
      rw [innerLoop_more ending buf left more, List.cons_append, List.cons_append,
        printed_cons_reads, printed_cons_prints, printed_append, printed_space short,
        ih (by omega) more, row, pairs, toggled, entry, Nat.succ_add_eq_add_succ,
        List.append_assoc, List.append_assoc]
    · rw [innerLoop_end ending buf left done, if_neg (by omega), List.drop_eq_nil_of_le done,
        List.take_nil, pairs, List.nil_append]
      exact printed_map_prints ending

theorem outerLoop_next (ending : List (List Char8)) (buf : List Byte) {k : Nat}
    (bytesRange : Nat) (room : k + 16 ≤ buf.length) :
    outerLoop ending buf k bytesRange =
      ⟨.prints (padded .upper 4 (bytesRange &&& 0xFFFF) ++ ofString ": ") ::
          (innerLoop ending buf 16 k).log ++
            .prints [0x0A] :: (outerLoop ending buf (k + 16) (bytesRange + 16)).log,
        (outerLoop ending buf (k + 16) (bytesRange + 16)).value⟩ := by
  have inside : k ≤ buf.length := by omega
  have value : (innerLoop ending buf 16 k).value = some (k + 16) := by
    rw [innerLoop_value ending buf 16 inside, if_pos room]
  rw [outerLoop, dif_pos inside]
  dsimp only
  split
  · next returned =>
    rw [value] at returned
    cases returned
  · next k' goesOn =>
    rw [value] at goesOn
    cases goesOn
    rfl

theorem outerLoop_last (ending : List (List Char8)) (buf : List Byte) {k : Nat}
    (bytesRange : Nat) (inside : k ≤ buf.length) (last : buf.length < k + 16) :
    outerLoop ending buf k bytesRange =
      ⟨.prints (padded .upper 4 (bytesRange &&& 0xFFFF) ++ ofString ": ") ::
        (innerLoop ending buf 16 k).log, none⟩ := by
  have value : (innerLoop ending buf 16 k).value = none := by
    rw [innerLoop_value ending buf 16 inside, if_neg (by omega)]
  rw [outerLoop, dif_pos inside]
  dsimp only
  split
  · rfl
  · next k' goesOn =>
    rw [value] at goesOn
    cases goesOn

/-- What stands behind the outer loop is never reached. -/
theorem outerLoop_returns (ending : List (List Char8)) (buf : List Byte) {j m : Nat}
    (bytesRange : Nat) (rows : j + m = buf.length / 16) :
    (outerLoop ending buf (16 * j) bytesRange).value = none := by
  induction m generalizing j bytesRange with
  | zero => rw [outerLoop_last ending buf bytesRange (by omega) (by omega)]
  | succ m ih =>
    rw [outerLoop_next ending buf bytesRange (by omega)]
    exact ih (j := j + 1) _ (by omega)

theorem label_eq (n : Nat) : n &&& 0xFFFF = n % 65536 := Nat.and_two_pow_sub_one_eq_mod n 16

theorem outerLoop_reads (ending : List (List Char8)) (buf : List Byte) {j m : Nat}
    (bytesRange : Nat) (rows : j + m = buf.length / 16) :
    readIndices (outerLoop ending buf (16 * j) bytesRange).log =
      List.range' (16 * j) (buf.length - 16 * j) := by
  induction m generalizing j bytesRange with
  | zero =>
    have turns : min 16 (buf.length - 16 * j) = buf.length - 16 * j := by omega
    rw [outerLoop_last ending buf bytesRange (by omega) (by omega), readIndices_cons_prints,
      innerLoop_indices, turns]
  | succ m ih =>
    have turns : min 16 (buf.length - 16 * j) = 16 := by omega
    have more : buf.length - 16 * j = 16 + (buf.length - 16 * (j + 1)) := by omega
    rw [outerLoop_next ending buf bytesRange (by omega), List.cons_append,
      readIndices_cons_prints, readIndices_append, innerLoop_indices, readIndices_cons_prints,
      turns, ← Nat.mul_succ, ih _ (by omega), more, Nat.mul_succ, List.range'_append_1]

theorem intercalate_rows (buf : List Byte) (j m : Nat) :
    [0x0A].intercalate ((List.range' j (m + 2)).map (rowText buf)) =
      rowText buf j ++ [0x0A] ++
        [0x0A].intercalate ((List.range' (j + 1) (m + 1)).map (rowText buf)) := by
  rw [List.range'_succ, List.map_cons, List.intercalate_cons_of_ne_nil (by simp)]

theorem outerLoop_text (ending : List (List Char8)) (buf : List Byte) {j m : Nat}
    (rows : j + m = buf.length / 16) :
    printed (outerLoop ending buf (16 * j) (16 * j)).log =
      [0x0A].intercalate ((List.range' j (m + 1)).map (rowText buf)) ++ ending.flatten := by
  induction m generalizing j with
  | zero =>
    rw [outerLoop_last ending buf _ (by omega) (by omega), printed_cons_prints,
      innerLoop_text ending buf (Nat.le_refl 16) (by omega), if_neg (by omega), label_eq,
      List.range'_one, List.map_singleton, List.intercalate_singleton, ← List.append_assoc]
    rfl
  | succ m ih =>
    rw [outerLoop_next ending buf _ (by omega), List.cons_append, printed_cons_prints,
      printed_append, innerLoop_text ending buf (Nat.le_refl 16) (by omega), if_pos (by omega),
      label_eq, printed_cons_prints, ← Nat.mul_succ, ih (by omega), intercalate_rows,
      rowText, rowBytes, List.append_nil]
    simp only [List.append_assoc]
    rfl

theorem byteText_eq (c : Byte) : byteText c = padded .upper 2 c.toNat := by
  have same : (c.signExtend 32 &&& 0xFF).toNat = c.toNat := by
    revert c
    decide
  rw [byteText, same]

theorem filter_byteText (c : Byte) : (byteText c).filter (· ≠ 0x20) = byteText c := by
  rw [List.filter_eq_self]
  intro digit written
  rw [byteText_eq] at written
  have above := space_lt_padded _ _ _ digit written
  rw [decide_eq_true_iff]
  intro space
  rw [space] at above
  exact absurd above (by decide)

theorem filter_pairs (second : Bool) (bytes : List Byte) :
    (pairs second bytes).filter (· ≠ 0x20) = bytes.flatMap byteText := by
  induction bytes generalizing second with
  | nil => rfl
  | cons c rest ih =>
    have space : (if second then [0x20] else []).filter (· ≠ (0x20 : Char8)) = [] := by
      cases second with
      | true => rfl
      | false => rfl
    rw [pairs, List.filter_append, List.filter_append, filter_byteText, space, ih,
      List.append_nil, List.flatMap_cons]

theorem drop_rowText (buf : List Byte) (j : Nat) :
    (rowText buf j).drop 6 = pairs false (rowBytes buf j) := by
  have four : (padded .upper 4 (16 * j % 65536)).length = 4 :=
    length_padded (k := 3) .upper (Nat.mod_lt _ (by decide))
  have label : (padded .upper 4 (16 * j % 65536) ++ ofString ": ").length = 6 := by
    rw [List.length_append, four]
    rfl
  rw [rowText, ← label, List.drop_left]

theorem space_le_pairs (second : Bool) (bytes : List Byte) :
    ∀ c ∈ pairs second bytes, 0x20 ≤ c.toNat := by
  induction bytes generalizing second with
  | nil => exact fun c none => by cases none
  | cons b rest ih =>
    rw [pairs, List.forall_mem_append, List.forall_mem_append]
    refine ⟨⟨?_, ?_⟩, ih _⟩
    · intro c digit
      rw [byteText_eq] at digit
      exact Nat.le_of_lt (space_lt_padded _ _ _ c digit)
    · cases second with
      | true => decide
      | false => decide

theorem newline_notMem_rowText (buf : List Byte) (j : Nat) : 0x0A ∉ rowText buf j := by
  have above : ∀ c ∈ rowText buf j, 0x20 ≤ c.toNat := by
    rw [rowText, List.forall_mem_append, List.forall_mem_append]
    refine ⟨⟨?_, by decide⟩, space_le_pairs _ _⟩
    intro c digit
    exact Nat.le_of_lt (space_lt_padded _ _ _ c digit)
  intro newline
  exact absurd (above _ newline) (by decide)

theorem rows_flatMap (buf : List Byte) (m : Nat) :
    (List.range m).flatMap (rowBytes buf) = buf.take (16 * m) := by
  induction m with
  | zero => rfl
  | succ m ih =>
    rw [List.range_succ, List.flatMap_append, ih, List.flatMap_singleton, rowBytes, Nat.mul_succ,
      List.take_add]

theorem parse_lines (buf : List Byte) (tail : List (List Char8)) (empty : ∀ l ∈ tail, l = []) :
    parse ([0x0A].intercalate (ofString "received: " ::
      ((List.range (buf.length / 16 + 1)).map (rowText buf) ++ tail))) = buf := by
  have lines : ∀ l ∈ ofString "received: " ::
      ((List.range (buf.length / 16 + 1)).map (rowText buf) ++ tail), 0x0A ∉ l := by
    rw [List.forall_mem_cons, List.forall_mem_append, List.forall_mem_map]
    refine ⟨by decide, fun j _ => newline_notMem_rowText buf j, ?_⟩
    intro l rest
    rw [empty l rest]
    exact List.not_mem_nil
  have nothing : tail.flatMap (fun l => (l.drop 6).filter (· ≠ 0x20)) = [] := by
    rw [List.flatMap_eq_nil_iff]
    intro l rest
    rw [empty l rest]
    rfl
  have digits : ((List.range (buf.length / 16 + 1)).map (rowText buf)).flatMap
      (fun l => (l.drop 6).filter (· ≠ 0x20)) = buf.flatMap byteText := by
    have whole : buf.length ≤ 16 * (buf.length / 16 + 1) := by omega
    simp only [List.flatMap_map, drop_rowText, filter_pairs]
    rw [← List.flatMap_assoc, rows_flatMap, List.take_of_length_le whole]
  have bytes : byteText = fun c => padded .upper 2 c.toNat := funext byteText_eq
  rw [parse, List.splitOn_intercalate _ lines (by simp), List.drop_one, List.tail_cons,
    List.flatMap_append, nothing, digits, List.append_nil, bytes, unhex_flatMap]

theorem intercalate_concat_nil {α : Type} (sep : List α) (line : List α) (lines : List (List α)) :
    sep.intercalate (line :: (lines ++ [[]])) = sep.intercalate (line :: lines) ++ sep := by
  induction lines generalizing line with
  | nil => simp
  | cons next rest ih =>
    rw [List.cons_append, List.intercalate_cons_cons, ih, List.intercalate_cons_cons,
      List.append_assoc, List.append_assoc, List.append_assoc]

theorem dump_reads (ending : List (List Char8)) (buf : List Byte) :
    readIndices (dump ending buf) = List.range buf.length := by
  have rows := outerLoop_reads ending buf 0 (Nat.zero_add (buf.length / 16))
  rw [Nat.mul_zero] at rows
  rw [dump, readIndices_cons_prints, rows, Nat.sub_zero, List.range_eq_range']

theorem dump_text (ending : List (List Char8)) (buf : List Byte) :
    printed (dump ending buf) = heading ++
      [0x0A].intercalate ((List.range (buf.length / 16 + 1)).map (rowText buf)) ++
        ending.flatten := by
  have rows := outerLoop_text ending buf (Nat.zero_add (buf.length / 16))
  rw [Nat.mul_zero] at rows
  rw [dump, printed_cons_prints, rows, List.range_eq_range', List.append_assoc]

theorem heading_rows (buf : List Byte) :
    heading ++ [0x0A].intercalate ((List.range (buf.length / 16 + 1)).map (rowText buf)) =
      [0x0A].intercalate (ofString "received: " ::
        (List.range (buf.length / 16 + 1)).map (rowText buf)) := by
  rw [List.intercalate_cons_of_ne_nil (by simp)]
  rfl

theorem printBufBytes_faithful (buf : List Byte) : Faithful (printBufBytes buf) buf [] := by
  refine ⟨dump_reads [] buf, dump_text [] buf, ?_⟩
  have read := parse_lines buf [] (by simp)
  rw [List.append_nil] at read
  rw [printBufBytes, dump_text, heading_rows, List.flatten_nil, List.append_nil, read]

theorem dumpBufferBytes_faithful (buf : List Byte) :
    Faithful (dumpBufferBytes buf) buf [0x0A] := by
  refine ⟨dump_reads _ buf, dump_text _ buf, ?_⟩
  have read := parse_lines buf [[]] (by simp)
  rw [intercalate_concat_nil, ← heading_rows] at read
  rw [dumpBufferBytes, dump_text]
  exact read

theorem Faithful.injective {events₁ events₂ : List Event} {buf₁ buf₂ : List Byte}
    {ending₁ ending₂ : List Char8} (first : Faithful events₁ buf₁ ending₁)
    (second : Faithful events₂ buf₂ ending₂) (same : printed events₁ = printed events₂) :
    buf₁ = buf₂ := by
  rw [← first.parsed, ← second.parsed, same]

theorem dumps_faithful (buf : List Byte) :
    Faithful (dumpBufferBytes buf) buf [0x0A] ∧ Faithful (printBufBytes buf) buf [] ∧
      (∀ other, buf ≠ other → printed (dumpBufferBytes buf) ≠ printed (dumpBufferBytes other) ∧
        printed (printBufBytes buf) ≠ printed (printBufBytes other)) ∧
      printed (dumpBufferBytes buf) = printed (printBufBytes buf) ++ [0x0A] := by
  have dumped := dumpBufferBytes_faithful
  have print := printBufBytes_faithful
  refine ⟨dumped buf, print buf, ?_, ?_⟩
  · intro other differ
    exact ⟨fun same => differ ((dumped buf).injective (dumped other) same),
      fun same => differ ((print buf).injective (print other) same)⟩
  · rw [(dumped buf).text, (print buf).text, List.append_nil]

end RdmaFuzzing.HexDump
