import Mathlib.Data.List.TakeWhile
import Mathlib.Tactic.SplitIfs
import RdmaFuzzing.CText

/-! Which texts the conversion `%d` accepts, and how far it has to look. A text is
cut into white space, a sign, digits and what follows; the scan looks at the
first byte of what follows, and past the end of a text that has nothing more. -/

namespace RdmaFuzzing.DecimalScan
open CText

structure Parts (text : List Char8) where
  spaces : List Char8
  sign : List Char8
  digits : List Char8
  rest : List Char8
  whole : text = spaces ++ (sign ++ (digits ++ rest))
  space : ∀ c ∈ spaces, isspace c = true
  isSign : sign = [] ∨ sign = [43] ∨ sign = [45]
  digit : ∀ c ∈ digits, isdigit c = true

namespace Parts

def value {text : List Char8} (p : Parts text) : Int :=
  if p.sign = [45] then -(digitsValue p.digits : Int) else digitsValue p.digits

def append {text : List Char8} (p : Parts text) (more : List Char8) : Parts (text ++ more) where
  spaces := p.spaces
  sign := p.sign
  digits := p.digits
  rest := p.rest ++ more
  whole := by simp only [p.whole, List.append_assoc]
  space := p.space
  isSign := p.isSign
  digit := p.digit

end Parts

def Numeral (text : List Char8) (v : Int) : Prop :=
  ∃ p : Parts text, p.digits ≠ [] ∧ Stops p.rest ∧ v = p.value

/-- No byte of the text ends the conversion. -/
def RunsOn (text : List Char8) : Prop := ∃ p : Parts text, p.rest = []

theorem RunsOn.no_nul {text : List Char8} (runsOn : RunsOn text) : 0 ∉ text := by
  obtain ⟨p, nothing⟩ := runsOn
  have sign : 0 ∉ p.sign := by
    rcases p.isSign with none | plus | minus
    · simp [none]
    · simp [plus]
    · simp [minus]
  rw [p.whole, nothing, List.append_nil]
  intro nul
  rcases List.mem_append.mp nul with space | nul
  · exact absurd (p.space 0 space) (by decide)
  · rcases List.mem_append.mp nul with signed | digit
    · exact sign signed
    · exact absurd (p.digit 0 digit) (by decide)

theorem sscanfD_signed {spaces sign digits : List Char8} (rest : List Char8)
    (space : ∀ c ∈ spaces, isspace c = true) (isSign : sign = [] ∨ sign = [43] ∨ sign = [45])
    (digit : ∀ c ∈ digits, isdigit c = true) (some_digit : digits ≠ []) (stops : Stops rest) :
    sscanfD (spaces ++ (sign ++ (digits ++ rest))) =
      some (if sign = [45] then -(digitsValue digits : Int) else digitsValue digits) := by
  have scanned := scanDigits_append digit some_digit stops
  rw [sscanfD_spaces space]
  rcases isSign with rfl | rfl | rfl
  · exact sscanfD_digits digit some_digit stops
  · rw [List.singleton_append, sscanfD_cons _ (by decide), scanned]
    rfl
  · rw [List.singleton_append, sscanfD_cons _ (by decide), scanned]
    rfl

theorem sscanfD_parts {text : List Char8} (p : Parts text) (some_digit : p.digits ≠ [])
    (stops : Stops p.rest) : sscanfD text = some p.value := by
  have scanned := sscanfD_signed p.rest p.space p.isSign p.digit some_digit stops
  rwa [← p.whole] at scanned

theorem scanDigits_eq_some {text : List Char8} {n : Nat} (scanned : scanDigits text = some n) :
    text.takeWhile isdigit ≠ [] ∧ n = digitsValue (text.takeWhile isdigit) := by
  rw [scanDigits] at scanned
  split_ifs at scanned with none
  exact ⟨by simpa using none, (Option.some.inj scanned).symm⟩

theorem stops_dropWhile (text : List Char8) : Stops (text.dropWhile isdigit) := by
  intro c hc
  have first := List.head?_dropWhile_not isdigit text
  rwa [Option.mem_def.mp hc] at first

def signedParts (sign text : List Char8) (isSign : sign = [] ∨ sign = [43] ∨ sign = [45]) :
    Parts (sign ++ text) where
  spaces := []
  sign := sign
  digits := text.takeWhile isdigit
  rest := text.dropWhile isdigit
  whole := by rw [List.takeWhile_append_dropWhile, List.nil_append]
  space := by simp
  isSign := isSign
  digit := fun _ hc => List.mem_takeWhile_imp hc

def Parts.behind {text : List Char8} (p : Parts text) (spaces : List Char8)
    (space : ∀ c ∈ spaces, isspace c = true) : Parts (spaces ++ text) where
  spaces := spaces ++ p.spaces
  sign := p.sign
  digits := p.digits
  rest := p.rest
  whole := by rw [List.append_assoc, ← p.whole]
  space := fun c hc => (List.mem_append.mp hc).elim (space c) (p.space c)
  isSign := p.isSign
  digit := p.digit

theorem numeral_signed (sign text : List Char8) (isSign : sign = [] ∨ sign = [43] ∨ sign = [45])
    {n : Nat} (scanned : scanDigits text = some n) :
    Numeral (sign ++ text) (if sign = [45] then -(n : Int) else n) := by
  obtain ⟨some_digit, rfl⟩ := scanDigits_eq_some scanned
  exact ⟨signedParts sign text isSign, some_digit, stops_dropWhile text, rfl⟩

theorem Numeral.behind {text : List Char8} {v : Int} (numeral : Numeral text v)
    (spaces : List Char8) (space : ∀ c ∈ spaces, isspace c = true) :
    Numeral (spaces ++ text) v := by
  obtain ⟨p, some_digit, stops, rfl⟩ := numeral
  exact ⟨p.behind spaces space, some_digit, stops, rfl⟩

theorem sscanfD_eq_some (text : List Char8) (v : Int) :
    sscanfD text = some v ↔ Numeral text v := by
  refine ⟨?_, ?_⟩
  · intro scanned
    have cut : text.takeWhile isspace ++ text.dropWhile isspace = text :=
      List.takeWhile_append_dropWhile
    rw [← cut]
    refine Numeral.behind ?_ _ fun _ hc => List.mem_takeWhile_imp hc
    rw [sscanfD] at scanned
    generalize text.dropWhile isspace = body at scanned ⊢
    cases body with
    | nil => cases scanned
    | cons c rest =>
      dsimp only at scanned
      split_ifs at scanned with minus plus
      · obtain ⟨n, found, rfl⟩ := Option.map_eq_some_iff.mp scanned
        rw [minus]
        exact numeral_signed [45] rest (Or.inr (Or.inr rfl)) found
      · obtain ⟨n, found, rfl⟩ := Option.map_eq_some_iff.mp scanned
        rw [plus]
        exact numeral_signed [43] rest (Or.inr (Or.inl rfl)) found
      · obtain ⟨n, found, rfl⟩ := Option.map_eq_some_iff.mp scanned
        exact numeral_signed [] (c :: rest) (Or.inl rfl) found
  · rintro ⟨p, some_digit, stops, rfl⟩
    exact sscanfD_parts p some_digit stops

theorem Numeral.unique {text : List Char8} {v w : Int} (hv : Numeral text v)
    (hw : Numeral text w) : v = w := by
  have scanned := (sscanfD_eq_some text v).mpr hv
  rw [(sscanfD_eq_some text w).mpr hw] at scanned
  exact (Option.some.inj scanned).symm

inductive Scanned where
  | spaces
  | sign
  | digits

/-- `none` when the byte cannot continue the conversion. -/
def next : Scanned → Char8 → Option Scanned
  | .spaces, c =>
      if isspace c then some .spaces
      else if c = 43 ∨ c = 45 then some .sign
      else if isdigit c then some .digits
      else none
  | .sign, c | .digits, c => if isdigit c then some .digits else none

/-- How many bytes are looked at; past the end of the text there is one more. -/
def examined : Scanned → List Char8 → Nat
  | _, [] => 1
  | s, c :: rest =>
      match next s c with
      | none => 1
      | some s' => examined s' rest + 1

def runs : Scanned → List Char8 → Bool
  | _, [] => true
  | s, c :: rest =>
      match next s c with
      | none => false
      | some s' => runs s' rest

theorem examined_append (s : Scanned) (text more : List Char8) :
    examined s (text ++ more) ≤ text.length ↔ runs s text = false := by
  induction text generalizing s with
  | nil =>
    have one : 1 ≤ examined s more := by
      cases more with
      | nil => rfl
      | cons c rest =>
        rw [examined]
        split <;> omega
    simp [runs]
    omega
  | cons c rest ih =>
    rw [List.cons_append, examined, runs]
    cases next s c with
    | none => simp
    | some s' => simpa using ih s'

theorem next_digit (s : Scanned) {c : Char8} (digit : isdigit c = true) :
    next s c = some .digits := by
  cases s with
  | spaces =>
    have plus : c ≠ 43 := ne_of_isdigit digit (by decide)
    have minus : c ≠ 45 := ne_of_isdigit digit (by decide)
    rw [next, isspace_of_isdigit digit, if_neg (by simp), if_neg (not_or.mpr ⟨plus, minus⟩),
      if_pos digit]
  | sign => exact if_pos digit
  | digits => exact if_pos digit

theorem runs_digits {ds : List Char8} (digit : ∀ c ∈ ds, isdigit c = true)
    (some_digit : ds ≠ []) (s : Scanned) (rest : List Char8) :
    runs s (ds ++ rest) = runs .digits rest := by
  induction ds generalizing s with
  | nil => exact absurd rfl some_digit
  | cons c ds ih =>
    rw [List.cons_append, runs, next_digit s (digit c List.mem_cons_self)]
    cases ds with
    | nil => rfl
    | cons d ds => exact ih (fun e he => digit e (List.mem_cons_of_mem c he)) (by simp) .digits

theorem runs_spaces {spaces : List Char8} (space : ∀ c ∈ spaces, isspace c = true)
    (rest : List Char8) : runs .spaces (spaces ++ rest) = runs .spaces rest := by
  induction spaces with
  | nil => rfl
  | cons c spaces ih =>
    rw [List.cons_append, runs, next, if_pos (space c List.mem_cons_self)]
    exact ih fun d hd => space d (List.mem_cons_of_mem c hd)

theorem runs_sign {sign : List Char8} (isSign : sign = [43] ∨ sign = [45])
    (rest : List Char8) : runs .spaces (sign ++ rest) = runs .sign rest := by
  rcases isSign with rfl | rfl
  · rfl
  · rfl

theorem runs_parts {text : List Char8} (p : Parts text) (some_digit : p.digits ≠ []) :
    runs .spaces text = runs .digits p.rest := by
  have behind : runs .spaces text = runs .spaces (p.sign ++ (p.digits ++ p.rest)) := by
    rw [← runs_spaces p.space (p.sign ++ (p.digits ++ p.rest)), ← p.whole]
  rw [behind]
  rcases p.isSign with none | signed
  · rw [none, List.nil_append, runs_digits p.digit some_digit]
  · rw [runs_sign signed, runs_digits p.digit some_digit]

theorem runs_of_runsOn {text : List Char8} (runsOn : RunsOn text) :
    runs .spaces text = true := by
  obtain ⟨p, nothing⟩ := runsOn
  by_cases some_digit : p.digits = []
  · have cut := p.whole
    rw [nothing, some_digit, List.append_nil, List.append_nil] at cut
    rw [cut, runs_spaces p.space]
    rcases p.isSign with none | signed
    · rw [none]
      rfl
    · rw [← List.append_nil p.sign, runs_sign signed]
      rfl
  · rw [runs_parts p some_digit, nothing]
    rfl

theorem digits_of_runs {s : Scanned} (past : s = .sign ∨ s = .digits) {text : List Char8}
    (running : runs s text = true) : ∀ c ∈ text, isdigit c = true := by
  induction text generalizing s with
  | nil => simp
  | cons c rest ih =>
    have first : next s c = if isdigit c then some .digits else none := by
      rcases past with rfl | rfl <;> rfl
    rw [runs, first] at running
    by_cases digit : isdigit c = true
    · rw [if_pos digit] at running
      intro d hd
      rcases List.mem_cons.mp hd with rfl | hd
      · exact digit
      · exact ih (Or.inr rfl) running d hd
    · rw [if_neg digit] at running
      cases running

/-- The conversion looks past the end of a text that has nothing after white space,
a sign and digits. -/
theorem runs_iff (text : List Char8) : runs .spaces text = true ↔ RunsOn text := by
  refine ⟨?_, runs_of_runsOn⟩
  intro running
  induction text with
  | nil => exact ⟨⟨[], [], [], [], rfl, by simp, Or.inl rfl, by simp⟩, rfl⟩
  | cons c rest ih =>
    rw [runs, next] at running
    split_ifs at running with space sign digit
    · obtain ⟨p, nothing⟩ := ih running
      exact ⟨p.behind [c] (by simpa using space), nothing⟩
    · have digits := digits_of_runs (Or.inl rfl) running
      have isSign : [c] = [] ∨ [c] = [43] ∨ [c] = [45] := by simpa using sign
      exact ⟨⟨[], [c], rest, [], by simp, by simp, isSign, digits⟩, rfl⟩
    · have digits := digits_of_runs (Or.inr rfl) running
      have all : ∀ d ∈ c :: rest, isdigit d = true :=
        List.forall_mem_cons.mpr ⟨digit, digits⟩
      exact ⟨⟨[], [], c :: rest, [], by simp, by simp, Or.inl rfl, all⟩, rfl⟩

theorem takeWhile_append_of_stop {text : List Char8} (stop : ∃ c ∈ text, isdigit c = false)
    (more : List Char8) : (text ++ more).takeWhile isdigit = text.takeWhile isdigit := by
  induction text with
  | nil =>
    obtain ⟨c, hc, _⟩ := stop
    cases hc
  | cons c rest ih =>
    rw [List.cons_append, List.takeWhile_cons, List.takeWhile_cons]
    split_ifs with digit
    · obtain ⟨d, hd, notDigit⟩ := stop
      rcases List.mem_cons.mp hd with rfl | hd
      · rw [digit] at notDigit
        cases notDigit
      · rw [ih ⟨d, hd, notDigit⟩]
    · rfl

theorem scanDigits_append_of_stop {text : List Char8} (stop : ∃ c ∈ text, isdigit c = false)
    (more : List Char8) : scanDigits (text ++ more) = scanDigits text := by
  rw [scanDigits, scanDigits, takeWhile_append_of_stop stop]

theorem stop_of_runs {s : Scanned} {text : List Char8} (ends : runs s text = false) :
    ∃ c ∈ text, isdigit c = false := by
  by_contra none
  have digit : ∀ c ∈ text, isdigit c = true := by simpa using none
  cases text with
  | nil => cases ends
  | cons c rest =>
    rw [← List.append_nil (c :: rest), runs_digits digit (by simp)] at ends
    cases ends

theorem sscanfD_unsigned {c : Char8} (rest : List Char8) (notSpace : isspace c = false)
    (notSign : ¬ (c = 43 ∨ c = 45)) :
    sscanfD (c :: rest) = (scanDigits (c :: rest)).map Int.ofNat := by
  rw [sscanfD_cons rest notSpace, if_neg fun minus => notSign (Or.inr minus),
    if_neg fun plus => notSign (Or.inl plus)]

theorem sscanfD_append {text : List Char8} (ends : ¬ RunsOn text) (more : List Char8) :
    sscanfD (text ++ more) = sscanfD text := by
  rw [← runs_iff, Bool.not_eq_true] at ends
  induction text with
  | nil => cases ends
  | cons c rest ih =>
    rw [runs, next] at ends
    split_ifs at ends with space sign digit
    · have head : ∀ d ∈ [c], isspace d = true := by simpa using space
      have dropped := sscanfD_spaces head
      exact (dropped (rest ++ more)).trans ((ih ends).trans (dropped rest).symm)
    · have stop := scanDigits_append_of_stop (stop_of_runs ends) more
      rw [List.cons_append, sscanfD_cons _ (by simpa using space),
        sscanfD_cons _ (by simpa using space), stop]
      rcases sign with rfl | rfl
      · rfl
      · rfl
    · obtain ⟨d, hd, notDigit⟩ := stop_of_runs ends
      have stop := scanDigits_append_of_stop ⟨d, List.mem_cons_of_mem c hd, notDigit⟩ more
      rw [List.cons_append, sscanfD_unsigned _ (by simpa using space) sign,
        sscanfD_unsigned _ (by simpa using space) sign, ← List.cons_append, stop]
    · have notDigit : ∃ d ∈ c :: rest, isdigit d = false :=
        ⟨c, List.mem_cons_self, Bool.eq_false_of_not_eq_true digit⟩
      have stop := scanDigits_append_of_stop notDigit more
      rw [List.cons_append, sscanfD_unsigned _ (by simpa using space) sign,
        sscanfD_unsigned _ (by simpa using space) sign, ← List.cons_append, stop]

theorem digitsValue_snoc (ds : List Char8) (d : Char8) :
    digitsValue (ds ++ [d]) = 10 * digitsValue ds + (d.toNat - 48) := by
  rw [digitsValue, List.foldl_append]
  rfl

/-- Where a text runs on, a digit behind it changes the number. -/
theorem sscanfD_runsOn {text : List Char8} {v : Int} (numeral : Numeral text v)
    (runsOn : RunsOn text) : ∃ v', sscanfD (text ++ [49]) = some v' ∧ v' ≠ v := by
  obtain ⟨p, some_digit, stops, rfl⟩ := numeral
  have nothing : p.rest = [] := by
    have running := runs_of_runsOn runsOn
    rw [runs_parts p some_digit] at running
    cases follows : p.rest with
    | nil => rfl
    | cons c rest =>
      have stop : isdigit c = false := stops c (by rw [follows]; rfl)
      rw [follows, runs, next, stop] at running
      cases running
  have longer : text ++ [49] = p.spaces ++ (p.sign ++ ((p.digits ++ [49]) ++ [])) := by
    conv_lhs => rw [p.whole, nothing]
    simp
  have digit : ∀ c ∈ p.digits ++ [49], isdigit c = true := by
    intro c hc
    rcases List.mem_append.mp hc with known | last
    · exact p.digit c known
    · rw [List.mem_singleton.mp last]
      rfl
  have scanned := sscanfD_signed [] p.space p.isSign digit (by simp) fun c hc => by cases hc
  rw [← longer, digitsValue_snoc] at scanned
  refine ⟨_, scanned, ?_⟩
  rw [Parts.value]
  split_ifs <;> simp <;> omega

end RdmaFuzzing.DecimalScan
