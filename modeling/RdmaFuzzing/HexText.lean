import RdmaFuzzing.CText

/-! Hexadecimal numbers as `printf` writes them, with upper or lower case letters
and up to a width with zeros in front, and bytes read back from pairs of digits. -/

namespace RdmaFuzzing.HexText
open CText

inductive Letters where
  | upper
  | lower

def Letters.first : Letters → Nat
  | .upper => 0x41
  | .lower => 0x61

def hexDigit (letters : Letters) (d : Nat) : Char8 :=
  BitVec.ofNat 8 (if d < 10 then 0x30 + d else letters.first + (d - 10))

/-- `%x` or `%X`. -/
def hex (letters : Letters) (n : Nat) : List Char8 :=
  if n = 0 then [hexDigit letters 0] else (Nat.digits 16 n).reverse.map (hexDigit letters)

/-- `%02X`, `%04X` and the like. -/
def padded (letters : Letters) (width n : Nat) : List Char8 :=
  List.replicate (width - (hex letters n).length) 0x30 ++ hex letters n

def digitValue (c : Char8) : Nat :=
  if c.toNat < 0x3A then c.toNat - 0x30
  else if c.toNat < 0x61 then c.toNat - 0x41 + 10
  else c.toNat - 0x61 + 10

/-- The bytes that pairs of digits stand for. -/
def unhex : List Char8 → List (BitVec 8)
  | high :: low :: rest => BitVec.ofNat 8 (16 * digitValue high + digitValue low) :: unhex rest
  | _ => []

def unhexNat (text : List Char8) : Nat := text.foldl (fun acc c => 16 * acc + digitValue c) 0

theorem toNat_hexDigit (letters : Letters) {d : Nat} (small : d < 16) :
    (hexDigit letters d).toNat = if d < 10 then 0x30 + d else letters.first + (d - 10) := by
  rw [hexDigit, BitVec.toNat_ofNat]
  apply Nat.mod_eq_of_lt
  cases letters with
  | upper => rw [Letters.first]; split_ifs <;> omega
  | lower => rw [Letters.first]; split_ifs <;> omega

theorem digitValue_hexDigit (letters : Letters) {d : Nat} (small : d < 16) :
    digitValue (hexDigit letters d) = d := by
  rw [digitValue, toNat_hexDigit letters small]
  cases letters with
  | upper => rw [Letters.first]; split_ifs <;> omega
  | lower => rw [Letters.first]; split_ifs <;> omega

theorem space_lt_hexDigit (letters : Letters) {d : Nat} (small : d < 16) :
    0x20 < (hexDigit letters d).toNat := by
  rw [toNat_hexDigit letters small]
  cases letters with
  | upper => rw [Letters.first]; split_ifs <;> omega
  | lower => rw [Letters.first]; split_ifs <;> omega

theorem length_hex_le (letters : Letters) {n k : Nat} (small : n < 16 ^ (k + 1)) :
    (hex letters n).length ≤ k + 1 := by
  unfold hex
  split_ifs with zero
  · simp
  · rw [List.length_map, List.length_reverse]
    exact (Nat.digits_length_le_iff (by decide) n).mpr small

theorem length_padded (letters : Letters) {n k : Nat} (small : n < 16 ^ (k + 1)) :
    (padded letters (k + 1) n).length = k + 1 := by
  have short := length_hex_le letters small
  rw [padded, List.length_append, List.length_replicate]
  omega

theorem space_lt_hex (letters : Letters) (n : Nat) : ∀ c ∈ hex letters n, 0x20 < c.toNat := by
  intro c hc
  unfold hex at hc
  split_ifs at hc with zero
  · rw [List.mem_singleton.mp hc]
    exact space_lt_hexDigit letters (by decide)
  · obtain ⟨d, hd, rfl⟩ := List.mem_map.mp hc
    exact space_lt_hexDigit letters (Nat.digits_lt_base (by decide) (List.mem_reverse.mp hd))

theorem unhexNat_digits (letters : Letters) (ds : List Nat) (small : ∀ d ∈ ds, d < 16) :
    unhexNat (ds.reverse.map (hexDigit letters)) = Nat.ofDigits 16 ds := by
  rw [unhexNat, List.foldl_map, List.foldl_reverse]
  induction ds with
  | nil => rfl
  | cons d ds ih =>
    rw [List.foldr_cons, ih fun e he => small e (List.mem_cons_of_mem d he),
      digitValue_hexDigit letters (small d List.mem_cons_self), Nat.ofDigits_cons]
    exact Nat.add_comm _ _

theorem unhexNat_hex (letters : Letters) (n : Nat) : unhexNat (hex letters n) = n := by
  unfold hex
  split_ifs with zero
  · rw [zero]
    cases letters with
    | upper => rfl
    | lower => rfl
  · rw [unhexNat_digits letters _ fun d hd => Nat.digits_lt_base (by decide) hd]
    exact Nat.ofDigits_digits 16 n

theorem hexDigit_ne_colon (letters : Letters) {d : Nat} (small : d < 16) :
    hexDigit letters d ≠ 0x3A := by
  intro same
  have value := toNat_hexDigit letters small
  rw [same] at value
  cases letters with
  | upper => rw [Letters.first] at value; split_ifs at value <;> simp at value <;> omega
  | lower => rw [Letters.first] at value; split_ifs at value <;> simp at value <;> omega

theorem colon_notMem_hex (letters : Letters) (n : Nat) : 0x3A ∉ hex letters n := by
  intro member
  unfold hex at member
  split_ifs at member with zero
  · exact hexDigit_ne_colon letters (by decide) (List.mem_singleton.mp member).symm
  · obtain ⟨d, hd, same⟩ := List.mem_map.mp member
    exact hexDigit_ne_colon letters
      (Nat.digits_lt_base (by decide) (List.mem_reverse.mp hd)) same

theorem space_lt_padded (letters : Letters) (width n : Nat) :
    ∀ c ∈ padded letters width n, 0x20 < c.toNat := by
  intro c hc
  rcases List.mem_append.mp hc with zero | digit
  · rw [List.eq_of_mem_replicate zero]
    decide
  · exact space_lt_hex letters n c digit

theorem padded_two (letters : Letters) {n : Nat} (small : n < 256) :
    padded letters 2 n = [hexDigit letters (n / 16), hexDigit letters (n % 16)] := by
  have zeroDigit : hexDigit letters 0 = 0x30 := rfl
  rcases Nat.lt_or_ge n 16 with one | two
  · have front : hex letters n = [hexDigit letters n] := by
      unfold hex
      split_ifs with zero
      · rw [zero]
      · rw [Nat.digits_of_lt 16 n zero one]
        rfl
    rw [padded, front, Nat.div_eq_of_lt one, Nat.mod_eq_of_lt one, zeroDigit]
    rfl
  · have high : n / 16 ≠ 0 := by omega
    have digits : Nat.digits 16 n = [n % 16, n / 16] := by
      rw [Nat.digits_def' (by decide) (by omega),
        Nat.digits_of_lt 16 (n / 16) high (by omega)]
    rw [padded, hex, if_neg (by omega), digits]
    rfl

theorem unhex_padded_two (letters : Letters) (b : BitVec 8) (rest : List Char8) :
    unhex (padded letters 2 b.toNat ++ rest) = b :: unhex rest := by
  have small := b.isLt
  rw [padded_two letters small, List.cons_append, List.cons_append, List.nil_append, unhex,
    digitValue_hexDigit letters (by omega), digitValue_hexDigit letters (by omega),
    Nat.div_add_mod, BitVec.ofNat_toNat, BitVec.setWidth_eq]

theorem unhex_flatMap (letters : Letters) (bytes : List (BitVec 8)) :
    unhex (bytes.flatMap fun b => padded letters 2 b.toNat) = bytes := by
  induction bytes with
  | nil => rfl
  | cons b bytes ih => rw [List.flatMap_cons, unhex_padded_two, ih]

end RdmaFuzzing.HexText
