import Mathlib.Tactic.Common

/-! Masks that can be made from given ones by XOR: their span over the field of
two elements, and the parity of the number of ones, which XOR adds up. -/

namespace RdmaFuzzing.XorSpan

def combination {w : Nat} : List (BitVec w) → (Nat → Bool) → BitVec w
  | [], _ => 0
  | g :: gens, coeff => (if coeff 0 then g else 0) ^^^ combination gens fun k => coeff (k + 1)

def Span {w : Nat} (gens : List (BitVec w)) (v : BitVec w) : Prop :=
  ∃ coeff, combination gens coeff = v

theorem combination_zero {w : Nat} (gens : List (BitVec w)) :
    combination gens (fun _ => false) = 0 := by
  induction gens with
  | nil => rfl
  | cons g gens ih =>
    rw [combination, ih]
    exact BitVec.xor_self

theorem combination_xor {w : Nat} (gens : List (BitVec w)) (c d : Nat → Bool) :
    combination gens (fun k => c k ^^ d k) = combination gens c ^^^ combination gens d := by
  induction gens generalizing c d with
  | nil => exact BitVec.xor_self.symm
  | cons g gens ih =>
    have head : (if c 0 ^^ d 0 then g else 0) =
        (if c 0 then g else 0) ^^^ (if d 0 then g else 0) := by
      cases c 0 <;> cases d 0 <;> simp
    rw [combination, combination, combination, ih, head]
    ac_rfl

theorem span_zero {w : Nat} (gens : List (BitVec w)) : Span gens 0 :=
  ⟨_, combination_zero gens⟩

theorem span_xor {w : Nat} {gens : List (BitVec w)} {u v : BitVec w} (hu : Span gens u)
    (hv : Span gens v) : Span gens (u ^^^ v) := by
  obtain ⟨c, rfl⟩ := hu
  obtain ⟨d, rfl⟩ := hv
  exact ⟨_, combination_xor gens c d⟩

theorem span_mem {w : Nat} {gens : List (BitVec w)} {g : BitVec w} (mem : g ∈ gens) :
    Span gens g := by
  induction mem with
  | head gens =>
    refine ⟨fun k => k == 0, ?_⟩
    change g ^^^ combination gens (fun _ => false) = g
    rw [combination_zero]
    exact BitVec.xor_zero
  | tail h mem ih =>
    obtain ⟨c, made⟩ := ih
    refine ⟨fun k => Nat.casesOn k false c, ?_⟩
    change 0 ^^^ combination _ c = g
    rw [made]
    exact BitVec.zero_xor

theorem Span.rec_on {w : Nat} {gens : List (BitVec w)} {P : BitVec w → Prop} (zero : P 0)
    (add : ∀ g ∈ gens, ∀ v, P v → P (g ^^^ v)) {v : BitVec w} (hv : Span gens v) : P v := by
  obtain ⟨c, rfl⟩ := hv
  induction gens generalizing c with
  | nil => exact zero
  | cons g gens ih =>
    have rest := ih (fun h mem => add h (List.mem_cons_of_mem g mem)) fun k => c (k + 1)
    rw [combination]
    split_ifs
    · exact add g List.mem_cons_self _ rest
    · rwa [show (0 : BitVec w) = 0#w from rfl, BitVec.zero_xor]

def parity {w : Nat} (v : BitVec w) : Bool :=
  (List.range w).foldr (fun i odd => v.getLsbD i ^^ odd) false

theorem parity_xor {w : Nat} (u v : BitVec w) : parity (u ^^^ v) = (parity u ^^ parity v) := by
  unfold parity
  induction List.range w with
  | nil => rfl
  | cons i is ih =>
    rw [List.foldr_cons, List.foldr_cons, List.foldr_cons, ih, BitVec.getLsbD_xor,
      Bool.xor_assoc, Bool.xor_assoc, Bool.xor_left_comm (v.getLsbD i)]

theorem parity_zero {w : Nat} : parity (0 : BitVec w) = false := by
  have twice := parity_xor (0 : BitVec w) 0
  rwa [show (0 : BitVec w) ^^^ 0 = 0 from BitVec.xor_self, Bool.xor_self] at twice

/-- Generators of even parity span masks of even parity. -/
theorem Span.even {w : Nat} {gens : List (BitVec w)} (even : ∀ g ∈ gens, parity g = false)
    {v : BitVec w} (hv : Span gens v) : parity v = false := by
  have add (g : BitVec w) (mem : g ∈ gens) (u : BitVec w) (hu : parity u = false) :
      parity (g ^^^ u) = false := by
    rw [parity_xor, even g mem, hu]
    rfl
  exact @Span.rec_on w gens (fun u => parity u = false) parity_zero add v hv

end RdmaFuzzing.XorSpan
