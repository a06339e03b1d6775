import RdmaFuzzing.CText
import RdmaFuzzing.HeaderDecoding

/-! `print_ib_hdr`, all that `deserialize_ib_pkt` of `proxy.c` lets a reader see of a
datagram, and the line that the copy in `ib_proxy_two.c` prints behind it. The texts
keep their numbers apart, so two datagrams print the same only if every number is the
same; which bits of the header the numbers depend on is a matter of the masks and
bit-fields. -/

namespace RdmaFuzzing.PrintedHeader
open FrameLayout CText BitField ExitRun DeserializePkt
open HeaderDecoding (toNat_short)

/-- One `printf`: each text is followed by its number, and the last by a newline. -/
def line (parts : List (String × Int)) : List Char8 :=
  (parts.flatMap fun part => ofString part.1 ++ sprintfD part.2) ++ [0x0A]

def title : List Char8 := ofString "IB Base Transport Header:" ++ [0x0A]

def headerLines (h : IbBth) : List (List (String × Int)) :=
  [[("\topcode: ", h.opcode.toNat)],
    [("\tsolicited event: ", h.solicitedEvent.value), (", mig_req: ", h.migReg.value),
      (", pad_count: ", h.padCount.value), (", tver: ", h.tver.value)],
    [("\tp_key: ", h.pKey.toNat)],
    [("\tfr_br_reserved: ", h.frBrReserved.toNat)],
    [("\tdest_qp_1: ", h.destQp1.toNat)],
    [("\tdest_qp_2: ", h.destQp2.toNat)],
    [("\tdest_qp_3: ", h.destQp3.toNat)],
    [("\tack_rq: ", h.ackRq.value), (", reserved: ", h.reserved.value)],
    [("\tpsn_1: ", h.psn1.toNat)],
    [("\tpsn_2: ", h.psn2.toNat)],
    [("\tpsn_3: ", h.psn3.toNat)]]

def printIbHdr (h : IbBth) : List Char8 := title ++ (headerLines h).flatMap line

def lengths (bufferLen payloadLen : Int) : List (String × Int) :=
  [("\tbuffer_len: ", bufferLen), (", payload_len: ", payloadLen)]

/-- What `proxy.c` prints. -/
def printedProxy (r : Deserialized) : List Char8 := printIbHdr r.header

/-- What `ib_proxy_two.c` prints: the header, and a `printf` of the two lengths. -/
def printedTwo (bufferLen : Int) (r : Deserialized) : List Char8 :=
  printIbHdr r.header ++ line (lengths bufferLen r.payloadLen)

/-- The bits of the byte at an index that reach the console. -/
def visible (i : Nat) : Byte := if i = 1 then 0x0F else if i = 8 then 0x7F else 0xFF

abbrev Apart (label : String) : Prop := (ofString label).head?.any (! isdigit ·) = true

theorem apart_stops {label : String} (apart : Apart label) (rest : List Char8) :
    Stops (ofString label ++ rest) := by
  intro c head
  cases first : (ofString label).head? with
  | none =>
    rw [Apart, first] at apart
    cases apart
  | some d =>
    rw [List.head?_append, first, Option.some_or] at head
    cases head
    rw [Apart, first] at apart
    simpa using apart

theorem line_cons (part : String × Int) (parts : List (String × Int)) :
    line (part :: parts) = ofString part.1 ++ (sprintfD part.2 ++ line parts) := by
  rw [line, line, List.flatMap_cons, List.append_assoc, List.append_assoc]

theorem line_stops {parts : List (String × Int)}
    (apart : ∀ label ∈ parts.map Prod.fst, Apart label) (rest : List Char8) :
    Stops (line parts ++ rest) := by
  cases parts with
  | nil =>
    intro c head
    cases head
    rfl
  | cons part parts =>
    rw [line_cons, List.append_assoc]
    exact apart_stops (apart _ List.mem_cons_self) _

theorem line_inj {ps qs : List (String × Int)} (labels : ps.map Prod.fst = qs.map Prod.fst)
    (apart : ∀ label ∈ ps.map Prod.fst, Apart label) {rest rest' : List Char8}
    (same : line ps ++ rest = line qs ++ rest') : ps = qs ∧ rest = rest' := by
  induction ps generalizing qs with
  | nil =>
    rw [List.map_nil, eq_comm, List.map_eq_nil_iff] at labels
    rw [labels] at same ⊢
    exact ⟨rfl, List.append_cancel_left same⟩
  | cons p ps ih =>
    cases qs with
    | nil => cases labels
    | cons q qs =>
      obtain ⟨label, value⟩ := p
      obtain ⟨label', value'⟩ := q
      rw [List.map_cons, List.map_cons, List.cons.injEq] at labels
      obtain ⟨rfl, labels⟩ := labels
      have later : ∀ label ∈ ps.map Prod.fst, Apart label :=
        fun label member => apart label (List.mem_cons_of_mem _ member)
      rw [line_cons, line_cons, List.append_assoc, List.append_assoc, List.append_assoc,
        List.append_assoc] at same
      have numbers := List.append_cancel_left same
      have scanned := congrArg sscanfD numbers
      rw [sscanfD_sprintfD _ (line_stops later rest),
        sscanfD_sprintfD _ (line_stops (labels ▸ later) rest')] at scanned
      cases scanned
      obtain ⟨rfl, rfl⟩ := ih labels later (List.append_cancel_left numbers)
      exact ⟨rfl, rfl⟩

theorem lines_inj {ls ks : List (List (String × Int))}
    (labels : ls.map (List.map Prod.fst) = ks.map (List.map Prod.fst))
    (apart : ∀ texts ∈ ls.map (List.map Prod.fst), ∀ label ∈ texts, Apart label)
    {rest rest' : List Char8} (same : ls.flatMap line ++ rest = ks.flatMap line ++ rest') :
    ls = ks ∧ rest = rest' := by
  induction ls generalizing ks with
  | nil =>
    rw [List.map_nil, eq_comm, List.map_eq_nil_iff] at labels
    rw [labels] at same ⊢
    exact ⟨rfl, same⟩
  | cons l ls ih =>
    cases ks with
    | nil => cases labels
    | cons k ks =>
      rw [List.map_cons, List.forall_mem_cons] at apart
      rw [List.map_cons, List.map_cons, List.cons.injEq] at labels
      rw [List.flatMap_cons, List.flatMap_cons, List.append_assoc, List.append_assoc] at same
      obtain ⟨rfl, later⟩ := line_inj labels.1 apart.1 same
      obtain ⟨rfl, rfl⟩ := ih labels.2 apart.2 later
      exact ⟨rfl, rfl⟩

def labels : List (List String) :=
  [["\topcode: "], ["\tsolicited event: ", ", mig_req: ", ", pad_count: ", ", tver: "],
    ["\tp_key: "], ["\tfr_br_reserved: "], ["\tdest_qp_1: "], ["\tdest_qp_2: "],
    ["\tdest_qp_3: "], ["\tack_rq: ", ", reserved: "], ["\tpsn_1: "], ["\tpsn_2: "],
    ["\tpsn_3: "]]

theorem headerLines_labels (h : IbBth) : (headerLines h).map (List.map Prod.fst) = labels := rfl

theorem labels_apart : ∀ texts ∈ labels, ∀ label ∈ texts, Apart label := by decide

theorem lengths_apart : ∀ label ∈ (lengths 0 0).map Prod.fst, Apart label := by decide

theorem printIbHdr_inj {h h' : IbBth} {rest rest' : List Char8}
    (same : printIbHdr h ++ rest = printIbHdr h' ++ rest') :
    headerLines h = headerLines h' ∧ rest = rest' := by
  rw [printIbHdr, printIbHdr, List.append_assoc, List.append_assoc] at same
  have texts : (headerLines h).map (List.map Prod.fst) =
      (headerLines h').map (List.map Prod.fst) :=
    (headerLines_labels h).trans (headerLines_labels h').symm
  exact lines_inj texts labels_apart (List.append_cancel_left same)

theorem printedProxy_inj {r r' : Deserialized} :
    printedProxy r = printedProxy r' ↔ headerLines r.header = headerLines r'.header := by
  refine ⟨?_, ?_⟩
  · intro same
    exact (printIbHdr_inj (congrArg (· ++ []) same)).1
  · intro header
    rw [printedProxy, printedProxy, printIbHdr, printIbHdr, header]

theorem printedTwo_inj {n n' : Int} {r r' : Deserialized} :
    printedTwo n r = printedTwo n' r' ↔
      headerLines r.header = headerLines r'.header ∧ n = n' ∧ r.payloadLen = r'.payloadLen := by
  refine ⟨?_, ?_⟩
  · intro same
    have behind : (lengths n r.payloadLen).map Prod.fst =
        (lengths n' r'.payloadLen).map Prod.fst := rfl
    obtain ⟨header, rest⟩ := printIbHdr_inj same
    obtain ⟨numbers, -⟩ := line_inj behind lengths_apart (congrArg (· ++ []) rest)
    simp only [lengths, List.cons.injEq, Prod.mk.injEq, true_and, and_true] at numbers
    exact ⟨header, numbers⟩
  · rintro ⟨header, rfl, payloadLen⟩
    rw [printedTwo, printedTwo, printIbHdr, printIbHdr, header, payloadLen]

theorem toNat_same (a b : Byte) : (a.toNat : Int) = b.toNat ↔ a &&& 0xFF = b &&& 0xFF := by
  have whole (c : Byte) : c &&& 0xFF = c := BitVec.and_allOnes
  rw [whole, whole, Int.ofNat_inj, BitVec.toNat_inj]

theorem flags_value (c : Byte) : (assign 1 (masked c 0x80)).value = 0 ∧
    (assign 1 (masked c 0x40)).value = 0 ∧ (assign 2 (masked c 0x30)).value = 0 ∧
      (assign 4 (masked c 0x0F)).value = (c.extractLsb' 0 4).toInt := by
  revert c
  decide

theorem ack_value (c : Byte) : (assign 1 (masked c 0x80)).value = 0 ∧
    (assign 7 (masked c 0x7F)).value = (c.extractLsb' 0 7).toInt := by
  revert c
  decide

theorem low_same {k : Nat} {mask : Byte} (a b : Byte)
    (cut : ∀ c : Byte, c &&& mask = (c.extractLsb' 0 k).setWidth 8)
    (keeps : ∀ c : Byte, (c &&& mask).extractLsb' 0 k = c.extractLsb' 0 k) :
    (a.extractLsb' 0 k).toInt = (b.extractLsb' 0 k).toInt ↔ a &&& mask = b &&& mask := by
  rw [BitVec.toInt_inj]
  refine ⟨?_, ?_⟩
  · intro same
    rw [cut, cut, same]
  · intro same
    rw [← keeps, ← keeps b, same]

theorem copyShort_same (host : ByteOrder) (a b a' b' : Byte) :
    ((copyShort host a b).toNat : Int) = (copyShort host a' b').toNat ↔
      a &&& 0xFF = a' &&& 0xFF ∧ b &&& 0xFF = b' &&& 0xFF := by
  have bounds := a.isLt
  have bounds' := a'.isLt
  have low := b.isLt
  have low' := b'.isLt
  rw [← toNat_same, ← toNat_same]
  cases host with
  | little =>
    rw [copyShort, copyShort, toNat_short, toNat_short]
    omega
  | big =>
    rw [copyShort, copyShort, toNat_short, toNat_short]
    omega

theorem headerLines_inj (host : ByteOrder) (mem mem' : List Byte) :
    headerLines (headerOf host mem) = headerLines (headerOf host mem') ↔
      ∀ i < sizeofIbBth, byteAt mem i &&& visible i = byteAt mem' i &&& visible i := by
  have tver (c d : Byte) : (c.extractLsb' 0 4).toInt = (d.extractLsb' 0 4).toInt ↔
      c &&& 0x0F = d &&& 0x0F := low_same c d (by decide) (by decide)
  have reserved (c d : Byte) : (c.extractLsb' 0 7).toInt = (d.extractLsb' 0 7).toInt ↔
      c &&& 0x7F = d &&& 0x7F := low_same c d (by decide) (by decide)
  simp only [headerLines, headerOf, List.cons.injEq, Prod.mk.injEq, true_and, and_true,
    flags_value, ack_value, tver, reserved, toNat_same, copyShort_same, sizeofIbBth,
    Nat.forall_lt_succ_right, visible]
  simp [and_assoc]

theorem deserialize_value {α : Type} (trailer : Nat) (host : ByteOrder) (mem : List Byte)
    (n : Int) (shown : Deserialized → α) :
    (deserialize trailer host mem n).value.map shown =
      some (shown ⟨headerOf host mem, ibPayloadLen n 0 trailer⟩) := by
  rw [deserialize_eq]
  rfl

/-- Two datagrams look the same on the console of `ib_proxy_two.c` exactly if they have
one length and agree on the visible bits of their headers, and on that of `proxy.c`
whatever their lengths are: the solicited event, the migration request, the pad count and
the request for an acknowledgement never show. -/
theorem looks_same_iff (host : ByteOrder) (mem mem' : List Byte) (n n' : Int) :
    ((deserializeTwo host mem n).value.map (printedTwo n) =
        (deserializeTwo host mem' n').value.map (printedTwo n') ↔
      n = n' ∧ ∀ i < sizeofIbBth, byteAt mem i &&& visible i = byteAt mem' i &&& visible i) ∧
    ((deserializeProxy host mem n).value.map printedProxy =
        (deserializeProxy host mem' n').value.map printedProxy ↔
      ∀ i < sizeofIbBth, byteAt mem i &&& visible i = byteAt mem' i &&& visible i) := by
  refine ⟨?_, ?_⟩
  · rw [deserializeTwo, deserialize_value, deserialize_value, Option.some_inj, printedTwo_inj,
      headerLines_inj]
    refine ⟨fun same => ⟨same.2.1, same.1⟩, ?_⟩
    rintro ⟨rfl, bits⟩
    exact ⟨bits, rfl, rfl⟩
  · rw [deserializeProxy, deserialize_value, deserialize_value, Option.some_inj,
      printedProxy_inj, headerLines_inj]

end RdmaFuzzing.PrintedHeader
