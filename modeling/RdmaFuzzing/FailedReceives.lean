import RdmaFuzzing.ExchangeProxy

/-! Receives of the exchange proxy that fail. The host text of the turn before is
tested again, so a failure behind a datagram of a peer counts as another one. -/

namespace RdmaFuzzing.FailedReceives
open CText FrameLayout ReusedBuffer UdpSocket ExchangeProxy

def datagram : Received → Option Datagram
  | .datagram d => some d
  | .failed => none

def datagrams (rs : List Received) : List Datagram := rs.filterMap datagram

def sent (turns : List Turn) : List Sent := turns.flatMap Turn.sends

def heard (turns : List Turn) : List Datagram := turns.filterMap fun t => datagram t.received

/-- A run forwards the same datagrams, and ends at the same point, as the run
without the failures. -/
structure Unmoved (config : ConfigParams) (connRes : ConnResources) (uninitialised : CString)
    (rs : List Received) : Prop where
  sent : sent (fwdExchangeData config connRes uninitialised rs).turns =
    sent (fwdExchangeData config connRes uninitialised ((datagrams rs).map .datagram)).turns
  heard : heard (fwdExchangeData config connRes uninitialised rs).turns =
    heard (fwdExchangeData config connRes uninitialised ((datagrams rs).map .datagram)).turns
  returned : (fwdExchangeData config connRes uninitialised rs).returned =
    (fwdExchangeData config connRes uninitialised ((datagrams rs).map .datagram)).returned

def Known (config : ConfigParams) (host : CString) : Prop :=
  sentFrom config.clientAddress host ∨ sentFrom config.serverAddress host

instance (config : ConfigParams) : DecidablePred (Known config) := fun _ =>
  inferInstanceAs (Decidable (_ ∨ _))

/-- The datagrams heard until `n` receives were counted, and how many are left to count. -/
def hears (config : ConfigParams) : CString → Nat → List Received → List Datagram × Nat
  | _, 0, _ => ([], 0)
  | _, n + 1, [] => ([], n + 1)
  | _, n + 1, .datagram d :: rs =>
      let next := hears config d.sender.host (if Recognised config d then n else n + 1) rs
      (d :: next.1, next.2)
  | host, n + 1, .failed :: rs => hears config host (if Known config host then n else n + 1) rs

theorem sendto_failed (buf : Vector Byte 4096) (dest : SockAddr) : sendto buf (-1) dest = [] :=
  rfl

theorem turn_failed (config : ConfigParams) (connRes : ConnResources) (st : Loop) :
    turn config connRes st .failed =
      ⟨st.buf, st.senderHostname, st.i + (if Known config st.senderHostname then 1 else 0),
        st.turns ++ [⟨.failed, []⟩]⟩ := by
  have nothing : (if Known config st.senderHostname
      then sendto st.buf (-1) connRes.resServerXch else []) = [] := by
    rw [sendto_failed, ite_self]
  rw [← nothing]
  exact turn_eq config connRes st .failed

theorem sent_append (turns : List Turn) (t : Turn) :
    sent (turns ++ [t]) = sent turns ++ t.sends := by
  simp [sent]

theorem heard_append (turns : List Turn) (t : Turn) :
    heard (turns ++ [t]) = heard turns ++ (datagram t.received).toList := by
  cases known : datagram t.received <;> simp [heard, known]

theorem left_step {i n : Nat} (left : 2 - i = n + 1) (counts : Prop) [Decidable counts] :
    2 - (i + if counts then 1 else 0) = if counts then n else n + 1 := by
  split_ifs <;> omega

theorem fwdLoop_hears (config : ConfigParams) (connRes : ConnResources) (st : Loop)
    (rs : List Received) :
    let run := hears config st.senderHostname (2 - st.i) rs
    heard (fwdLoop config connRes st rs).turns = heard st.turns ++ run.1 ∧
      sent (fwdLoop config connRes st rs).turns =
        sent st.turns ++ run.1.flatMap (route config connRes) ∧
      2 - (fwdLoop config connRes st rs).i = run.2 := by
  induction rs generalizing st with
  | nil =>
    rw [fwdLoop]
    cases left : 2 - st.i <;> simp [hears]
  | cons r rs ih =>
    rw [fwdLoop]
    split_ifs with waiting
    · obtain ⟨n, left⟩ : ∃ n, 2 - st.i = n + 1 := ⟨1 - st.i, by omega⟩
      have next := ih (turn config connRes st r)
      rw [left]
      cases r with
      | datagram d =>
        rw [turn_datagram] at next ⊢
        simp only [left_step left, heard_append, sent_append, List.append_assoc] at next
        simpa [hears, datagram] using next
      | failed =>
        rw [turn_failed] at next ⊢
        simp only [left_step left, heard_append, sent_append, List.append_assoc] at next
        simpa [hears, datagram] using next
    · have full : 2 - st.i = 0 := by omega
      simp [full, hears]

def Agree (a b : List Datagram × Nat) : Prop := a.1 = b.1 ∧ (a.2 = 0 ↔ b.2 = 0)

def clean (rs : List Received) : List Received := (datagrams rs).map .datagram

@[simp] theorem clean_datagram (d : Datagram) (rs : List Received) :
    clean (.datagram d :: rs) = .datagram d :: clean rs := rfl

@[simp] theorem clean_failed (rs : List Received) : clean (.failed :: rs) = clean rs := rfl

/-- The function hears, sends and returns what `hears` says of its loop. -/
theorem fwdExchangeData_hears (config : ConfigParams) (connRes : ConnResources)
    (uninitialised : CString) (rs : List Received) :
    let exch := fwdExchangeData config connRes uninitialised rs
    let run := hears config uninitialised 2 rs
    heard exch.turns = run.1 ∧ sent exch.turns = run.1.flatMap (route config connRes) ∧
      (exch.returned = true ↔ run.2 = 0) := by
  obtain ⟨hearing, sending, left⟩ :=
    fwdLoop_hears config connRes ⟨Vector.replicate 4096 0, uninitialised, 0, []⟩ rs
  change 2 - _ = (hears config uninitialised 2 rs).2 at left
  rw [fwdExchangeData]
  split_ifs with waiting
  · refine ⟨hearing, sending, ?_⟩
    rw [← left]
    simp only [Bool.false_eq_true, false_iff]
    exact Nat.sub_ne_zero_of_lt waiting
  · refine ⟨hearing, sending, ?_⟩
    rw [← left]
    simp only [true_iff]
    exact Nat.sub_eq_zero_of_le (Nat.le_of_not_lt waiting)

theorem unmoved_agree (config : ConfigParams) (connRes : ConnResources) (uninitialised : CString)
    (rs : List Received) :
    Unmoved config connRes uninitialised rs ↔
      Agree (hears config uninitialised 2 rs) (hears config uninitialised 2 (clean rs)) := by
  obtain ⟨heard₁, sent₁, returned₁⟩ := fwdExchangeData_hears config connRes uninitialised rs
  obtain ⟨heard₂, sent₂, returned₂⟩ :=
    fwdExchangeData_hears config connRes uninitialised (clean rs)
  refine ⟨?_, ?_⟩
  · intro unmoved
    refine ⟨heard₁.symm.trans (unmoved.heard.trans heard₂), ?_⟩
    exact returned₁.symm.trans ((Bool.eq_iff_iff.mp unmoved.returned).trans returned₂)
  · intro agree
    have same := congrArg (List.flatMap (route config connRes)) agree.1
    refine ⟨sent₁.trans (same.trans sent₂.symm), heard₁.trans (agree.1.trans heard₂.symm), ?_⟩
    exact Bool.eq_iff_iff.mpr (returned₁.trans (agree.2.trans returned₂.symm))

def FirstStands (config : ConfigParams) (rs : List Received) : Prop :=
  ∀ before d after, rs = before ++ .datagram d :: .failed :: after → Recognised config d →
    ∃ e, .datagram e ∈ before ∧ Recognised config e

/-- What the variable for the host text happens to hold is not tested, does not
pass, or is counted once in a run that counts nothing else. -/
def StartStands (config : ConfigParams) (uninitialised : CString) (rs : List Received) : Prop :=
  ¬ Known config uninitialised ∨ rs.head? ≠ some .failed ∨
    rs[1]? ≠ some .failed ∧ ∀ d, .datagram d ∈ rs → ¬ Recognised config d

theorem not_agree_ended (config : ConfigParams) (host : CString) (n : Nat)
    (rs : List Received) : ¬ Agree ([], 0) (hears config host (n + 1) (clean rs)) := by
  intro agree
  cases ds : datagrams rs with
  | nil => simp [Agree, clean, ds, hears] at agree
  | cons d ds' => simp [Agree, clean, ds, hears] at agree

theorem agree_cons (d : Datagram) (a b : List Datagram × Nat) :
    Agree (d :: a.1, a.2) (d :: b.1, b.2) ↔ Agree a b := by
  simp [Agree]

theorem agree_failed (config : ConfigParams) (host : CString) (n : Nat) (rs : List Received) :
    Agree (hears config host 1 (.failed :: rs))
        (hears config host (n + 1) (clean (.failed :: rs))) ↔
      ¬ Known config host ∧
        Agree (hears config host 1 rs) (hears config host (n + 1) (clean rs)) := by
  rw [clean_failed, hears]
  by_cases known : Known config host
  · rw [if_pos known, hears]
    simpa [known] using not_agree_ended config host n rs
  · simp [known]

theorem agree_one (config : ConfigParams) (host : CString) (rs : List Received) :
    Agree (hears config host 1 rs) (hears config host 1 (clean rs)) ↔
      ¬ (Known config host ∧ rs.head? = some .failed) := by
  induction rs generalizing host with
  | nil => simp [hears, clean, datagrams, Agree]
  | cons r rs ih =>
    cases r with
    | failed =>
      rw [agree_failed, ih host]
      by_cases known : Known config host
      · simp [known]
      · simp [known]
    | datagram d =>
      rw [clean_datagram, hears, hears, agree_cons]
      by_cases known : Recognised config d
      · simp [known, hears, Agree]
      · have unknown : ¬ Known config d.sender.host := known
        rw [if_neg known, ih d.sender.host]
        simp [unknown]

theorem agree_ahead (config : ConfigParams) (host : CString) (rs : List Received) :
    Agree (hears config host 1 rs) (hears config host 2 (clean rs)) ↔
      ¬ (Known config host ∧ rs.head? = some .failed) ∧
        ∀ d, .datagram d ∈ rs → ¬ Recognised config d := by
  induction rs generalizing host with
  | nil => simp [hears, clean, datagrams, Agree]
  | cons r rs ih =>
    cases r with
    | failed =>
      rw [agree_failed, ih host]
      by_cases known : Known config host
      · simp [known]
      · simp [known]
    | datagram d =>
      rw [clean_datagram, hears, hears, agree_cons]
      by_cases known : Recognised config d
      · have ended := not_agree_ended config d.sender.host 0 rs
        rw [if_pos known, if_pos known, hears]
        simp [ended, known]
      · have unknown : ¬ Known config d.sender.host := known
        rw [if_neg known, if_neg known, ih d.sender.host]
        simp [unknown, known]

theorem firstStands_nil (config : ConfigParams) : FirstStands config [] := by
  intro before d after split _
  simp at split

theorem firstStands_of_none {config : ConfigParams} {rs : List Received}
    (none : ∀ d, .datagram d ∈ rs → ¬ Recognised config d) : FirstStands config rs := by
  intro before d after split known
  refine absurd known (none d ?_)
  rw [split]
  exact List.mem_append_right before List.mem_cons_self

theorem firstStands_failed (config : ConfigParams) (rs : List Received) :
    FirstStands config (.failed :: rs) ↔ FirstStands config rs := by
  refine ⟨?_, ?_⟩
  · intro stands before d after split known
    obtain ⟨e, he, first⟩ := stands (.failed :: before) d after (by rw [split]; rfl) known
    exact ⟨e, by simpa using he, first⟩
  · intro stands before d after split known
    cases before with
    | nil => simp at split
    | cons r before =>
      obtain ⟨e, he, first⟩ := stands before d after (List.cons.inj split).2 known
      exact ⟨e, List.mem_cons_of_mem r he, first⟩

theorem firstStands_known {config : ConfigParams} {d : Datagram} (known : Recognised config d)
    (rs : List Received) :
    FirstStands config (.datagram d :: rs) ↔ rs.head? ≠ some .failed := by
  refine ⟨?_, ?_⟩
  · intro stands failed
    obtain ⟨after, rfl⟩ : ∃ after, rs = .failed :: after :=
      ⟨rs.tail, (List.cons_head?_tail failed).symm⟩
    obtain ⟨e, he, _⟩ := stands [] d after rfl known
    cases he
  · intro stands before e after split _
    cases before with
    | nil =>
      obtain ⟨_, later⟩ := List.cons.inj split
      rw [later] at stands
      exact absurd rfl stands
    | cons r before =>
      obtain rfl := (List.cons.inj split).1
      exact ⟨d, List.mem_cons_self, known⟩

theorem firstStands_unknown {config : ConfigParams} {d : Datagram}
    (unknown : ¬ Recognised config d) (rs : List Received) :
    FirstStands config (.datagram d :: rs) ↔ FirstStands config rs := by
  refine ⟨?_, ?_⟩
  · intro stands before e after split passes
    obtain ⟨f, hf, first⟩ := stands (.datagram d :: before) e after (by rw [split]; rfl) passes
    rcases List.mem_cons.mp hf with same | hf
    · cases same
      exact absurd first unknown
    · exact ⟨f, hf, first⟩
  · intro stands before e after split passes
    cases before with
    | nil =>
      obtain ⟨same, _⟩ := List.cons.inj split
      cases same
      exact absurd passes unknown
    | cons r before =>
      obtain ⟨f, hf, first⟩ := stands before e after (List.cons.inj split).2 passes
      exact ⟨f, List.mem_cons_of_mem r hf, first⟩

theorem agree_start (config : ConfigParams) (host : CString) (rs : List Received) :
    Agree (hears config host 2 rs) (hears config host 2 (clean rs)) ↔
      FirstStands config rs ∧ StartStands config host rs := by
  induction rs generalizing host with
  | nil => simp [hears, clean, datagrams, Agree, firstStands_nil, StartStands]
  | cons r rs ih =>
    cases r with
    | failed =>
      rw [clean_failed, hears, firstStands_failed, StartStands]
      by_cases h : Known config host
      · have next : (Received.failed :: rs)[1]? = rs.head? := List.head?_eq_getElem?.symm
        have others : (∀ d, .datagram d ∈ Received.failed :: rs → ¬ Recognised config d) ↔
            ∀ d, .datagram d ∈ rs → ¬ Recognised config d := by simp
        rw [if_pos h, agree_ahead, next, others]
        refine ⟨?_, ?_⟩
        · intro ⟨calm, quiet⟩
          have once : rs.head? ≠ some .failed := fun failed => calm ⟨h, failed⟩
          exact ⟨firstStands_of_none quiet, Or.inr (Or.inr ⟨once, quiet⟩)⟩
        · rintro ⟨_, unknown | started | ⟨calm, quiet⟩⟩
          · exact absurd h unknown
          · exact absurd rfl started
          · exact ⟨fun failed => calm failed.2, quiet⟩
      · rw [if_neg h, ih host, StartStands]
        simp [h]
    | datagram d =>
      rw [clean_datagram, hears, hears, agree_cons, StartStands]
      by_cases known : Recognised config d
      · have passes : Known config d.sender.host := known
        rw [if_pos known, agree_one, firstStands_known known]
        simp [passes]
      · have unknown : ¬ Known config d.sender.host := known
        rw [if_neg known, ih d.sender.host, firstStands_unknown known, StartStands]
        simp [unknown]

/-- Failed receives change nothing exactly when none is counted before the loop
would have ended anyway. -/
theorem unmoved_iff (config : ConfigParams) (connRes : ConnResources)
    (uninitialised : CString) (rs : List Received) :
    Unmoved config connRes uninitialised rs ↔
      FirstStands config rs ∧ StartStands config uninitialised rs := by
  rw [unmoved_agree, agree_start]

def fromClient : Datagram := ⟨⟨config.clientAddress, config.exchangePort⟩, [1]⟩

def fromServer : Datagram := ⟨⟨config.serverAddress, config.exchangePort⟩, [2]⟩

def noText : CString := ⟨[], List.not_mem_nil⟩

theorem failure_counted :
    ¬ Unmoved config ⟨3, 4, fromClient.sender, fromServer.sender⟩ noText
      [.datagram fromClient, .failed, .datagram fromServer] := by
  rw [unmoved_agree, agree_start]
  intro stands
  obtain ⟨e, he, _⟩ := stands.1 [] fromClient [.datagram fromServer] rfl (by decide)
  cases he

end RdmaFuzzing.FailedReceives
