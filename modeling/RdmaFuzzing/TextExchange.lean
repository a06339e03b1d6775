import RdmaFuzzing.ConnExchange
import RdmaFuzzing.ExitRun
import RdmaFuzzing.TerminatorScan

/-! The earlier exchange, of `xch-qpn/xch-qpn.c`: both sides send one text with their
queue pair number and GUID and keep the text of the other as it came. The client
hands over its whole `msg`, the server only the text in it. -/

namespace RdmaFuzzing.TextExchange
open CText FrameLayout ReusedBuffer UdpSocket TerminatorScan ExitRun
open ConnExchange (Setup)

def msgSize : Nat := 100

def bufSize : Nat := 500

structure Party where
  qpn : CString
  guid : CString

/-- The conversion of `"qpn:%s giud:%s"`. -/
def info (p : Party) : List Byte :=
  ofString "qpn:" ++ p.qpn.chars ++ (ofString " giud:" ++ p.guid.chars)

inductive Event where
  | sprintf (len : Nat)
  | sendto (bytes : List Byte)
  deriving DecidableEq

/-- Nothing is said about a program whose `sprintf` leaves `msg`. -/
def sprintf (msg : Vector Byte msgSize) (p : Party) : Run Event (Vector Byte msgSize) :=
  ⟨[.sprintf ((info p).length + 1)], storeWithin msg 0 (info p ++ [0])⟩

/-- `recvfrom` into the cleared `buf`. -/
def receive (bytes : List Byte) : Vector Byte bufSize :=
  (recvfrom (Vector.replicate bufSize 0) bytes).1

/-- The text up to the size of `conn_inf`, then zeros. It is looked for in `buf` alone,
unless `conn_inf` is larger and there is no end in it. -/
def strncpy {n : Nat} (connInf : Vector Byte n) (buf : Vector Byte bufSize) :
    Run Event (Vector Byte n) := do
  require (0 ∈ buf.toList ∨ n ≤ bufSize)
  pure (store (fill connInf n 0) 0 ((textOf 0 buf.toList).take n))

def xchConnInfClient {n : Nat} (setup : Setup) (msg : Vector Byte msgSize) (response : List Byte)
    (p : Party) (connInf : Vector Byte n) : Run Event (Nat × Vector Byte n) :=
  if setup.succeeds then do
    let msg ← sprintf msg p
    call (.sendto msg.toList) ()
    let connInf ← strncpy connInf (receive response)
    pure (0, connInf)
  else pure (1, connInf)

def xchConnInfServer {n : Nat} (setup : Setup) (msg : Vector Byte msgSize) (request : List Byte)
    (p : Party) (connInf : Vector Byte n) : Run Event (Nat × Vector Byte n) :=
  if setup.succeeds then do
    let connInf ← strncpy connInf (receive request)
    let msg ← sprintf msg p
    call (.sendto (textOf 0 msg.toList)) ()
    pure (0, connInf)
  else pure (1, connInf)

theorem qpn_label : 0 ∉ ofString "qpn:" := by decide

theorem guid_label : 0 ∉ ofString " giud:" := by decide

theorem info_terminated (p : Party) : 0 ∉ info p := by
  simp only [info, List.mem_append, not_or]
  exact ⟨⟨qpn_label, p.qpn.terminated⟩, guid_label, p.guid.terminated⟩

theorem length_info (p : Party) : (info p).length = strlen p.qpn + strlen p.guid + 10 := by
  have labels : (ofString "qpn:").length = 4 ∧ (ofString " giud:").length = 6 := by decide
  rw [info, List.length_append, List.length_append, List.length_append, labels.1, labels.2,
    strlen, strlen]
  omega

def Fits (p : Party) : Prop := strlen p.qpn + strlen p.guid ≤ 89

instance : DecidablePred Fits := fun _ => inferInstanceAs (Decidable (_ ≤ _))

theorem fits_iff (p : Party) : Fits p ↔ (info p ++ [0]).length ≤ msgSize := by
  rw [List.length_append, length_info, List.length_singleton, msgSize, Fits]
  omega

def written (msg : Vector Byte msgSize) (p : Party) : Vector Byte msgSize :=
  store msg 0 (info p ++ [0])

theorem toList_written (msg : Vector Byte msgSize) {p : Party} (fits : Fits p) :
    (written msg p).toList = info p ++ 0 :: msg.toList.drop ((info p).length + 1) := by
  rw [written, toList_store _ _ _ (by rw [Nat.zero_add]; exact (fits_iff p).mp fits),
    List.take_zero, List.nil_append, Nat.zero_add, List.length_append, List.length_singleton,
    List.append_assoc]
  rfl

theorem sprintf_fits (msg : Vector Byte msgSize) {p : Party} (fits : Fits p) :
    sprintf msg p = ⟨[.sprintf ((info p).length + 1)], some (written msg p)⟩ := by
  rw [sprintf, storeWithin_eq _ _ _ (by rw [Nat.zero_add]; exact (fits_iff p).mp fits)]
  rfl

theorem sprintf_outside (msg : Vector Byte msgSize) {p : Party} (outside : ¬Fits p) :
    sprintf msg p = ⟨[.sprintf ((info p).length + 1)], none⟩ := by
  rw [sprintf, storeWithin, if_neg]
  rwa [Nat.zero_add, ← fits_iff]

theorem textOf_written (msg : Vector Byte msgSize) {p : Party} (fits : Fits p) :
    textOf 0 (written msg p).toList = info p := by
  rw [toList_written msg fits]
  exact textOf_terminated (info_terminated p) _

theorem textOf_info (p : Party) : textOf 0 (info p) = info p := by
  have whole := textOf_terminated (info_terminated p) []
  rwa [textOf_append] at whole

theorem textOf_receive (bytes : List Byte) :
    textOf 0 (receive bytes).toList = (textOf 0 bytes).take bufSize := by
  have cut : (bytes.take bufSize).length ≤ bufSize := List.length_take_le _ _
  rw [receive, recvfrom, ← store_take, toList_store_replicate _ _ cut, textOf_append_replicate,
    textOf_take]

/-- A datagram with the text of a party, on its way or padded by a proxy. -/
def Carries (bytes : List Byte) (p : Party) : Prop := textOf 0 bytes = info p

theorem textOf_carried {bytes : List Byte} {p : Party} (fits : Fits p) (carries : Carries bytes p) :
    textOf 0 (receive bytes).toList = info p := by
  rw [textOf_receive, carries, List.take_of_length_le]
  have short := (fits_iff p).mp fits
  rw [List.length_append, List.length_singleton, msgSize] at short
  rw [bufSize]
  omega

def kept (n : Nat) (text : List Byte) : Vector Byte n := store (Vector.replicate n 0) 0 text

theorem strncpy_carried {n : Nat} (connInf : Vector Byte n) {bytes : List Byte} {p : Party}
    (fits : Fits p) (carries : Carries bytes p) :
    strncpy connInf (receive bytes) = ⟨[], some (kept n (info p))⟩ := by
  have text := textOf_carried fits carries
  have ends : 0 ∈ (receive bytes).toList := by
    rw [← length_textOf_lt, text, Vector.length_toList, bufSize]
    have short := (fits_iff p).mp fits
    rw [List.length_append, List.length_singleton, msgSize] at short
    omega
  rw [strncpy, require_bind, if_pos (decide_eq_true (Or.inl ends)), fill_all, text, store_take]
  rfl

/-- A text that is cut to the array, or just fits in it, has no end there. -/
theorem kept_ends_iff (n : Nat) (p : Party) :
    0 ∈ (kept n (info p)).toList ↔ (info p).length < n := by
  have plain : 0 ∉ (info p).take n := fun member => info_terminated p (List.mem_of_mem_take member)
  rw [kept, ← store_take, mem_store_clear_iff _ _ (List.length_take_le _ _),
    or_iff_left plain, List.length_take]
  omega

def Reaches {α : Type} (run : Run Event α) (bytes : List Byte) : Prop :=
  ∃ sent, .sendto sent ∈ run.log ∧ ∃ k, bytes = sent ++ List.replicate k 0

theorem strncpy_log {n : Nat} (connInf : Vector Byte n) (buf : Vector Byte bufSize) :
    (strncpy connInf buf).log = [] := by
  rw [strncpy, require_bind]
  split_ifs
  · rfl
  · rfl

section
variable {n : Nat} {setup : Setup} {msg : Vector Byte msgSize} {received sent : List Byte}
  {p : Party} {connInf : Vector Byte n}

theorem client_run (succeeds : setup.succeeds = true) (fits : Fits p) :
    xchConnInfClient setup msg received p connInf =
      ⟨[.sprintf ((info p).length + 1), .sendto (written msg p).toList],
        (strncpy connInf (receive received)).value.map fun connInf => (0, connInf)⟩ := by
  rw [xchConnInfClient, if_pos succeeds, sprintf_fits msg fits, bind_some _ rfl, call_bind]
  cases value : (strncpy connInf (receive received)).value with
  | none => rw [bind_none _ value, strncpy_log]; rfl
  | some kept => rw [bind_some _ value, strncpy_log]; rfl

theorem client_sends
    (sends : .sendto sent ∈ (xchConnInfClient setup msg received p connInf).log) :
    setup.succeeds = true ∧ Fits p ∧ sent = (written msg p).toList := by
  by_cases succeeds : setup.succeeds = true
  · by_cases fits : Fits p
    · rw [client_run succeeds fits] at sends
      exact ⟨succeeds, fits, by simpa using sends⟩
    · rw [xchConnInfClient, if_pos succeeds, sprintf_outside msg fits, bind_none _ rfl] at sends
      simp at sends
  · rw [xchConnInfClient, if_neg succeeds] at sends
    cases sends

theorem server_run {kept : Vector Byte n} (succeeds : setup.succeeds = true) (fits : Fits p)
    (copied : (strncpy connInf (receive received)).value = some kept) :
    xchConnInfServer setup msg received p connInf =
      ⟨[.sprintf ((info p).length + 1), .sendto (info p)], some (0, kept)⟩ := by
  rw [xchConnInfServer, if_pos succeeds, bind_some _ copied, strncpy_log, sprintf_fits msg fits,
    bind_some _ rfl, call_bind, textOf_written msg fits]
  rfl

theorem server_sends
    (sends : .sendto sent ∈ (xchConnInfServer setup msg received p connInf).log) :
    setup.succeeds = true ∧ Fits p ∧ sent = info p := by
  by_cases succeeds : setup.succeeds = true
  · cases copied : (strncpy connInf (receive received)).value with
    | none =>
      rw [xchConnInfServer, if_pos succeeds, bind_none _ copied] at sends
      simp only [strncpy_log] at sends
      cases sends
    | some kept =>
      by_cases fits : Fits p
      · rw [server_run succeeds fits copied] at sends
        exact ⟨succeeds, fits, by simpa using sends⟩
      · rw [xchConnInfServer, if_pos succeeds, bind_some _ copied, strncpy_log,
          sprintf_outside msg fits, bind_none _ rfl] at sends
        simp at sends
  · rw [xchConnInfServer, if_neg succeeds] at sends
    cases sends

theorem client_reaches_iff {bytes : List Byte} :
    Reaches (xchConnInfClient setup msg received p connInf) bytes ↔
      setup.succeeds = true ∧ Fits p ∧
        ∃ k, bytes = (written msg p).toList ++ List.replicate k 0 := by
  refine ⟨?_, ?_⟩
  · intro reaches
    obtain ⟨sent, goes, k, padded⟩ := reaches
    obtain ⟨succeeds, fits, same⟩ := client_sends goes
    exact ⟨succeeds, fits, k, same ▸ padded⟩
  · intro reaches
    obtain ⟨succeeds, fits, k, padded⟩ := reaches
    refine ⟨(written msg p).toList, ?_, k, padded⟩
    rw [client_run succeeds fits]
    exact List.mem_cons_of_mem _ (List.mem_singleton_self _)

theorem server_reaches (succeeds : setup.succeeds = true) (fits : Fits p) {q : Party}
    (fitsQ : Fits q) (carries : Carries received q) :
    Reaches (xchConnInfServer setup msg received p connInf) (info p) := by
  refine ⟨info p, ?_, 0, (List.append_nil _).symm⟩
  rw [server_run succeeds fits (congrArg Run.value (strncpy_carried connInf fitsQ carries))]
  exact List.mem_cons_of_mem _ (List.mem_singleton_self _)

end

/-- Whatever lay in either `msg` and either `conn_inf` before, and however many zeros
a proxy puts behind a datagram: if both datagrams get through, each side returns 0 with
the text of the other, cut to `conn_inf` and ended there exactly if that has room for
the end. The bytes of `msg` behind the client's text go out with it; the server sends its text alone. -/
theorem texts_exchanged {m n : Nat} {setupC setupS : Setup} {msgC msgS : Vector Byte msgSize}
    {c s : Party} {infC : Vector Byte m} {infS : Vector Byte n} {request response : List Byte}
    (there : Reaches (xchConnInfClient setupC msgC response c infC) request)
    (back : Reaches (xchConnInfServer setupS msgS request s infS) response) :
    (xchConnInfClient setupC msgC response c infC).value = some (0, kept m (info s)) ∧
      (xchConnInfServer setupS msgS request s infS).value = some (0, kept n (info c)) ∧
      (0 ∈ (kept m (info s)).toList ↔ (info s).length < m) ∧
      (0 ∈ (kept n (info c)).toList ↔ (info c).length < n) ∧
      msgC.toList.drop ((info c).length + 1) <+: request.drop ((info c).length + 1) := by
  obtain ⟨sentC, goes, k, rfl⟩ := there
  obtain ⟨sentS, comes, l, rfl⟩ := back
  obtain ⟨succeedsC, fitsC, sameC⟩ := client_sends goes
  obtain ⟨succeedsS, fitsS, sameS⟩ := server_sends comes
  have carriesC : Carries (sentC ++ List.replicate k 0) c := by
    rw [Carries, textOf_append_replicate, sameC, textOf_written msgC fitsC]
  have carriesS : Carries (sentS ++ List.replicate l 0) s := by
    rw [Carries, textOf_append_replicate, sameS, textOf_info]
  have copied := strncpy_carried infS fitsC carriesC
  refine ⟨?_, ?_, kept_ends_iff m s, kept_ends_iff n c, ?_⟩
  · rw [client_run succeedsC fitsC, strncpy_carried infC fitsS carriesS, Option.map_some]
  · rw [server_run succeedsS fitsS (congrArg Run.value copied)]
  · refine ⟨List.replicate k 0, ?_⟩
    rw [sameC, toList_written msgC fitsC, List.append_assoc, List.cons_append, List.drop_append,
      List.drop_eq_nil_of_le (Nat.le_succ _), Nat.add_sub_cancel_left, List.nil_append,
      List.drop_succ_cons, List.drop_zero]

theorem left_qpn : 0 ∉ ofString "17" := by decide

theorem right_qpn : 0 ∉ ofString "18" := by decide

theorem link_guid : 0 ∉ ofString "fe80" := by decide

def left : Party := ⟨⟨ofString "17", left_qpn⟩, ⟨ofString "fe80", link_guid⟩⟩

def right : Party := ⟨⟨ofString "18", right_qpn⟩, ⟨ofString "fe80", link_guid⟩⟩

def ready : Setup := ⟨true, true, true, true, true⟩

def blank : Vector Byte msgSize := Vector.replicate msgSize 0

theorem left_fits : Fits left := by decide

theorem right_fits : Fits right := by decide

theorem left_request :
    Reaches (xchConnInfClient ready blank (info right) left blank) (written blank left).toList :=
  client_reaches_iff.mpr ⟨rfl, left_fits, 0, (List.append_nil _).symm⟩

def narrow : Vector Byte 8 := Vector.replicate 8 0

theorem right_response :
    Reaches (xchConnInfServer ready blank (written blank left).toList right narrow)
      (info right) :=
  server_reaches rfl right_fits left_fits (textOf_written blank left_fits)

/-- Two neighbours without a proxy between them; the server's copy is cut, without an end. -/
theorem neighbours_exchanged :
    (xchConnInfClient ready blank (info right) left blank).value =
        some (0, kept msgSize (info right)) ∧
      (xchConnInfServer ready blank (written blank left).toList right narrow).value =
        some (0, kept 8 (info left)) ∧
      0 ∈ (kept msgSize (info right)).toList ∧ 0 ∉ (kept 8 (info left)).toList := by
  obtain ⟨client, server, ends, cut, -⟩ := texts_exchanged left_request right_response
  exact ⟨client, server, ends.mpr (by decide), fun ended => absurd (cut.mp ended) (by decide)⟩

end RdmaFuzzing.TextExchange
