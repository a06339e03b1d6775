import Mathlib.Data.Nat.Digits.Lemmas
import Mathlib.Tactic.Common

/-! Texts of C and the parts of its library that read and write them: comparison
with `strcmp` and `strncmp`, and the conversion `%d` in both directions. A text
is the characters before its terminator. -/

namespace RdmaFuzzing.CText

abbrev Char8 : Type := BitVec 8

structure CString where
  chars : List Char8
  terminated : 0 ∉ chars

namespace CString

@[ext] theorem ext {s t : CString} (h : s.chars = t.chars) : s = t := by
  cases s
  cases t
  cases h
  rfl

instance : DecidableEq CString := fun s t =>
  decidable_of_iff (s.chars = t.chars) ⟨ext, congrArg chars⟩

end CString

def ofString (s : String) : List Char8 := s.toList.map fun c => BitVec.ofNat 8 c.toNat

def compareChars : List Char8 → List Char8 → Nat → Int
  | _, _, 0 => 0
  | [], [], _ + 1 => 0
  | [], b :: _, _ + 1 => 0 - b.toNat
  | a :: _, [], _ + 1 => a.toNat
  | a :: s, b :: t, n + 1 => if a = b then compareChars s t n else (a.toNat : Int) - b.toNat

def strlen (s : CString) : Nat := s.chars.length

def strncmp (s t : CString) (n : Nat) : Int := compareChars s.chars t.chars n

def strcmp (s t : CString) : Int := compareChars s.chars t.chars (strlen s + 1)

theorem toNat_ne_zero {s : List Char8} {a : Char8} (terminated : 0 ∉ a :: s) :
    (a.toNat : Int) ≠ 0 := by
  intro zero
  have nul : a = 0 := BitVec.eq_of_toNat_eq (Int.ofNat_eq_zero.mp zero)
  exact terminated (nul ▸ List.mem_cons_self)

theorem toNat_sub_ne_zero {a b : Char8} (differ : a ≠ b) :
    (a.toNat : Int) - b.toNat ≠ 0 := by
  intro zero
  exact differ (BitVec.eq_of_toNat_eq (by omega))

theorem compareChars_length (s t : List Char8) (terminated : 0 ∉ s) :
    compareChars s t s.length = 0 ↔ s <+: t := by
  induction s generalizing t with
  | nil => simp [compareChars]
  | cons a s ih =>
    cases t with
    | nil => simpa [compareChars] using toNat_ne_zero terminated
    | cons b t =>
      rw [List.length_cons, compareChars, List.cons_prefix_cons]
      split_ifs with same
      · rw [ih t fun h => terminated (List.mem_cons_of_mem a h)]
        simp [same]
      · simpa [same] using toNat_sub_ne_zero same

/-- A comparison that is cut off at the end of the first text tests for a prefix. -/
theorem strncmp_strlen (s t : CString) : strncmp s t (strlen s) = 0 ↔ s.chars <+: t.chars :=
  compareChars_length _ _ s.terminated

theorem compareChars_succ_length (s t : List Char8) (hs : 0 ∉ s) (ht : 0 ∉ t) :
    compareChars s t (s.length + 1) = 0 ↔ s = t := by
  induction s generalizing t with
  | nil =>
    cases t with
    | nil => simp [compareChars]
    | cons b t => simpa [compareChars] using toNat_ne_zero ht
  | cons a s ih =>
    cases t with
    | nil => simpa [compareChars] using toNat_ne_zero hs
    | cons b t =>
      rw [List.length_cons, compareChars, List.cons.injEq]
      split_ifs with same
      · rw [ih t (fun h => hs (List.mem_cons_of_mem a h)) fun h => ht (List.mem_cons_of_mem b h)]
        simp [same]
      · simpa [same] using toNat_sub_ne_zero same

theorem strcmp_eq_zero (s t : CString) : strcmp s t = 0 ↔ s = t := by
  rw [strcmp, strlen, compareChars_succ_length _ _ s.terminated t.terminated]
  exact ⟨CString.ext, congrArg CString.chars⟩

def digitChar (d : Nat) : Char8 := BitVec.ofNat 8 (48 + d)

def isdigit (c : Char8) : Bool := 48 ≤ c.toNat && c.toNat ≤ 57

def isspace (c : Char8) : Bool := c.toNat == 32 || (9 ≤ c.toNat && c.toNat ≤ 13)

def decimal (n : Nat) : List Char8 :=
  if n = 0 then [digitChar 0] else (Nat.digits 10 n).reverse.map digitChar

def sprintfD (v : Int) : List Char8 :=
  if v < 0 then 45 :: decimal v.natAbs else decimal v.natAbs

def digitsValue (ds : List Char8) : Nat := ds.foldl (fun acc d => 10 * acc + (d.toNat - 48)) 0

def scanDigits (text : List Char8) : Option Nat :=
  if (text.takeWhile isdigit).isEmpty then none
  else some (digitsValue (text.takeWhile isdigit))

/-- White space, an optional sign, digits; `none` is a matching failure. -/
def sscanfD (text : List Char8) : Option Int :=
  match text.dropWhile isspace with
  | [] => none
  | c :: rest =>
      if c = 45 then (scanDigits rest).map fun v : Nat => -(v : Int)
      else if c = 43 then (scanDigits rest).map Int.ofNat
      else (scanDigits (c :: rest)).map Int.ofNat

theorem toNat_digitChar {d : Nat} (small : d < 10) : (digitChar d).toNat = 48 + d := by
  rw [digitChar, BitVec.toNat_ofNat]
  omega

theorem isdigit_digitChar {d : Nat} (small : d < 10) : isdigit (digitChar d) = true := by
  rw [isdigit, toNat_digitChar small]
  simp
  omega

theorem isdigit_decimal (n : Nat) : ∀ c ∈ decimal n, isdigit c = true := by
  intro c hc
  unfold decimal at hc
  split_ifs at hc with zero
  · rw [List.mem_singleton.mp hc]
    rfl
  · obtain ⟨d, hd, rfl⟩ := List.mem_map.mp hc
    exact isdigit_digitChar (Nat.digits_lt_base (by decide) (List.mem_reverse.mp hd))

theorem decimal_ne_nil (n : Nat) : decimal n ≠ [] := by
  unfold decimal
  split_ifs with zero
  · simp
  · simpa using Nat.digits_ne_nil_iff_ne_zero.mpr zero

theorem length_decimal_le {n k : Nat} (small : n < 10 ^ (k + 1)) :
    (decimal n).length ≤ k + 1 := by
  unfold decimal
  split_ifs with zero
  · simp
  · rw [List.length_map, List.length_reverse]
    exact (Nat.digits_length_le_iff (by decide) n).mpr small

theorem digitsValue_digits (ds : List Nat) (small : ∀ d ∈ ds, d < 10) :
    digitsValue (ds.reverse.map digitChar) = Nat.ofDigits 10 ds := by
  rw [digitsValue, List.foldl_map, List.foldl_reverse]
  induction ds with
  | nil => rfl
  | cons d ds ih =>
    rw [List.foldr_cons, ih fun e he => small e (List.mem_cons_of_mem d he),
      toNat_digitChar (small d List.mem_cons_self), Nat.ofDigits_cons]
    simp
    omega

theorem digitsValue_decimal (n : Nat) : digitsValue (decimal n) = n := by
  unfold decimal
  split_ifs with zero
  · rw [zero]
    rfl
  · rw [digitsValue_digits _ fun d hd => Nat.digits_lt_base (by decide) hd]
    exact Nat.ofDigits_digits 10 n

/-- The digits end where a text can follow without being read. -/
def Stops (rest : List Char8) : Prop := ∀ c ∈ rest.head?, isdigit c = false

theorem takeWhile_stops {rest : List Char8} (stops : Stops rest) :
    rest.takeWhile isdigit = [] := by
  cases rest with
  | nil => rfl
  | cons c rest => simp [stops c (by simp)]

theorem scanDigits_append {ds rest : List Char8} (digits : ∀ c ∈ ds, isdigit c = true)
    (some_digit : ds ≠ []) (stops : Stops rest) :
    scanDigits (ds ++ rest) = some (digitsValue ds) := by
  rw [scanDigits, List.takeWhile_append_of_pos digits, takeWhile_stops stops, List.append_nil,
    if_neg (by simpa using some_digit)]

theorem isdigit_bounds {c : Char8} (h : isdigit c = true) : 48 ≤ c.toNat ∧ c.toNat ≤ 57 := by
  simpa [isdigit] using h

theorem isspace_of_isdigit {c : Char8} (h : isdigit c = true) : isspace c = false := by
  have bounds := isdigit_bounds h
  simp [isspace]
  omega

theorem ne_of_isdigit {c sign : Char8} (h : isdigit c = true) (low : sign.toNat < 48) :
    c ≠ sign := by
  intro same
  have bounds := isdigit_bounds h
  rw [same] at bounds
  omega

theorem sscanfD_spaces {spaces : List Char8} (space : ∀ c ∈ spaces, isspace c = true)
    (rest : List Char8) : sscanfD (spaces ++ rest) = sscanfD rest := by
  rw [sscanfD, sscanfD, List.dropWhile_append_of_pos space]

theorem sscanfD_cons {c : Char8} (rest : List Char8) (notSpace : isspace c = false) :
    sscanfD (c :: rest) =
      if c = 45 then (scanDigits rest).map fun v : Nat => -(v : Int)
      else if c = 43 then (scanDigits rest).map Int.ofNat
      else (scanDigits (c :: rest)).map Int.ofNat := by
  rw [sscanfD, List.dropWhile_cons_of_neg (by simp [notSpace])]

theorem sscanfD_digits {ds rest : List Char8} (digits : ∀ c ∈ ds, isdigit c = true)
    (some_digit : ds ≠ []) (stops : Stops rest) :
    sscanfD (ds ++ rest) = some (digitsValue ds : Int) := by
  have scanned := scanDigits_append digits some_digit stops
  cases ds with
  | nil => exact absurd rfl some_digit
  | cons c ds =>
    have first := digits c List.mem_cons_self
    rw [List.cons_append] at scanned ⊢
    rw [sscanfD_cons _ (isspace_of_isdigit first), if_neg (ne_of_isdigit first (by decide)),
      if_neg (ne_of_isdigit first (by decide)), scanned]
    rfl

theorem sscanfD_decimal (n : Nat) {rest : List Char8} (stops : Stops rest) :
    sscanfD (decimal n ++ rest) = some (n : Int) := by
  rw [sscanfD_digits (isdigit_decimal n) (decimal_ne_nil n) stops, digitsValue_decimal]

theorem sscanfD_sprintfD (v : Int) {rest : List Char8} (stops : Stops rest) :
    sscanfD (sprintfD v ++ rest) = some v := by
  unfold sprintfD
  split_ifs with negative
  · rw [List.cons_append, sscanfD_cons _ (by decide), if_pos rfl,
      scanDigits_append (isdigit_decimal _) (decimal_ne_nil _) stops, digitsValue_decimal,
      Option.map_some]
    congr 1
    omega
  · rw [sscanfD_decimal _ stops]
    congr 1
    omega

theorem sprintfD_terminated (v : Int) : 0 ∉ sprintfD v := by
  have digits : 0 ∉ decimal v.natAbs := fun h =>
    absurd (isdigit_decimal _ _ h) (by decide)
  unfold sprintfD
  split_ifs with negative
  · simpa using digits
  · exact digits

def textD (v : Int) : CString := ⟨sprintfD v, sprintfD_terminated v⟩

end RdmaFuzzing.CText
