import Mathlib.Algebra.Order.Ring.Int
import Mathlib.Tactic.Positivity

/-! Signed bit-fields of C, `int field : w`. An assignment keeps the low bits of the
value, and what is read is the two's complement of these: exactly the values of that
range survive. What is assigned is often a `char` under a mask. -/

namespace RdmaFuzzing.BitField

structure SignedField (w : Nat) where
  bits : BitVec w
  deriving DecidableEq

def assign (w : Nat) (v : Int) : SignedField w := ⟨BitVec.ofInt w v⟩

def SignedField.value {w : Nat} (field : SignedField w) : Int := field.bits.toInt

/-- `c & mask`, where `c` is promoted from `char` to `int`. -/
def masked (c : BitVec 8) (mask : BitVec 32) : Int := (c.signExtend 32 &&& mask).toInt

theorem value_assign (w : Nat) (v : Int) : (assign w v).value = v.bmod (2 ^ w) := by
  rw [SignedField.value, assign, BitVec.toInt_ofInt]

theorem value_bounds {w : Nat} (field : SignedField (w + 1)) :
    -2 ^ w ≤ field.value ∧ field.value < 2 ^ w :=
  ⟨BitVec.le_toInt field.bits, BitVec.toInt_lt⟩

theorem value_assign_iff {w : Nat} (v : Int) :
    (assign (w + 1) v).value = v ↔ -2 ^ w ≤ v ∧ v < 2 ^ w := by
  refine ⟨?_, ?_⟩
  · intro same
    have bounds := value_bounds (assign (w + 1) v)
    rwa [same] at bounds
  · rintro ⟨low, high⟩
    rw [value_assign]
    apply Int.bmod_eq_of_le
    · rw [Nat.pow_succ]
      push_cast
      omega
    · rw [Nat.pow_succ]
      push_cast
      omega

/-- Of a multiple, as a mask without its shift leaves it, nothing survives. -/
theorem value_assign_multiple {w : Nat} {v : Int} (multiple : (2 : Int) ^ w ∣ v) :
    (assign w v).value = 0 := by
  rw [value_assign]
  exact Int.bmod_eq_zero_of_dvd (by exact_mod_cast multiple)

theorem value_assign_shifted_iff {w k : Nat} (n : Nat) (short : w ≤ k) :
    (assign w (2 ^ k * (n : Int))).value = n ↔ n = 0 := by
  rw [value_assign_multiple ((pow_dvd_pow 2 short).mul_right _)]
  omega

theorem value_assign_natCast_iff {w : Nat} (n : Nat) :
    (assign (w + 1) n).value = n ↔ n < 2 ^ w := by
  rw [value_assign_iff]
  have low : -2 ^ w ≤ (n : Int) := by
    have positive : (0 : Int) < 2 ^ w := by positivity
    omega
  rw [and_iff_right low]
  exact_mod_cast Iff.rfl

end RdmaFuzzing.BitField
