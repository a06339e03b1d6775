import RdmaFuzzing.FuzzIbBth

/-! `fuzz_ib_bth` of `taptunnel.c`, the fuzzer before the extension mutators were
added, and how the fuzzer of `proxy-f.c` refines it. The two draw at different
paces, so the plain one is run on the stream without the values that the
extension mutators took. -/

namespace RdmaFuzzing.TapTunnel
open FrameLayout FuzzIbBth MaskedChange RandomDraws

/-- The loop body; its switch is the one of `proxy-f.c`, and nothing follows it. -/
def fuzzRound {n : Nat} (buf : Vector Byte n) (ibBth : Nat) (fits : ibBth + 40 ≤ n)
    (bthSize : Nat) : Draws Draw (Vector Byte n) := do
  let randIbHdrOffset ← rand
  let byte ← rand
  pure (switchHeader buf ibBth fits (randIbHdrOffset.val % bthSize) (randomByte byte))

def fuzzIbBth {n : Nat} (buf : Vector Byte n) (ibBth : Nat) (fits : ibBth + 40 ≤ n)
    (bthSize rounds : Nat) : Draws Draw (Vector Byte n) :=
  iterate (fun buf => fuzzRound buf ibBth fits bthSize) rounds buf

/-- The stream of a run of `proxy-f.c` without what its extension mutators drew.
A round draws two values for the header and all others in a mutator. -/
def withoutExtension {n : Nat} (ibBth : Nat) (fits : ibBth + 40 ≤ n) (bthSize : Nat) :
    Nat → Vector Byte n → (Nat → Draw) → Nat → Draw
  | 0, _, s => s
  | rounds + 1, buf, s =>
      let round := FuzzIbBth.fuzzRound buf ibBth fits bthSize s
      push (s 0) (push (s 1)
        (withoutExtension ibBth fits bthSize rounds round.value (after s round.calls)))

def outsideExtension {n : Nat} (ibBth : Nat) (i : Fin n) : Byte :=
  if ibBth + 12 ≤ i.val ∧ i.val < ibBth + 40 then 0 else 0xFF

theorem fuzzRound_push {n : Nat} (buf : Vector Byte n) (ibBth : Nat) (fits : ibBth + 40 ≤ n)
    (bthSize : Nat) (r byte : Draw) (s : Nat → Draw) :
    fuzzRound buf ibBth fits bthSize (push r (push byte s)) =
      ⟨switchHeader buf ibBth fits (r.val % bthSize) (randomByte byte), 2⟩ := rfl

theorem fuzzIbBth_push {n : Nat} (buf : Vector Byte n) (ibBth : Nat) (fits : ibBth + 40 ≤ n)
    (bthSize rounds : Nat) (r byte : Draw) (s : Nat → Draw) :
    (fuzzIbBth buf ibBth fits bthSize (rounds + 1) (push r (push byte s))).value =
      (fuzzIbBth (switchHeader buf ibBth fits (r.val % bthSize) (randomByte byte)) ibBth fits
        bthSize rounds s).value := by
  rw [fuzzIbBth, iterate, bind_value, fuzzRound_push, after_push, after_push, after_zero]
  rfl

theorem switchHeader_agree {n : Nat} {x y : Vector Byte n} (ibBth : Nat)
    (fits : ibBth + 40 ≤ n) (kept : Fin n → Byte) (agree : AgreeOn kept x y) (i : Nat)
    (byte : Byte) :
    AgreeOn kept (switchHeader x ibBth fits i byte) (switchHeader y ibBth fits i byte) := by
  intro j
  rw [getElem_switchHeader, getElem_switchHeader, xor_and, xor_and, agree j]

theorem fuzzExtension_agree {n : Nat} (buf : Vector Byte n) (ibBth : Nat)
    (fits : ibBth + 40 ≤ n) (s : Nat → Draw) :
    AgreeOn (outsideExtension ibBth) buf (fuzzExtension buf ibBth fits s).value := by
  intro j
  have len := extensionLen_le buf[ibBth]
  rw [fuzzExtension_getElem, outsideExtension]
  by_cases inside : ibBth + 12 ≤ j.val ∧ j.val < ibBth + 40
  · rw [if_pos inside]
    exact BitVec.and_zero.trans BitVec.and_zero.symm
  · rw [if_neg inside]
    split_ifs
    · rw [extensionXor_outside _ _ _ (by omega)]
      simp
    · simp

theorem round_agree {n : Nat} {x y : Vector Byte n} (ibBth : Nat) (fits : ibBth + 40 ≤ n)
    (bthSize : Nat) (agree : AgreeOn (outsideExtension ibBth) x y) (s : Nat → Draw) :
    AgreeOn (outsideExtension ibBth) (FuzzIbBth.fuzzRound x ibBth fits bthSize s).value
      (switchHeader y ibBth fits ((s 0).val % bthSize) (randomByte (s 1))) := by
  rw [fuzzRound_run]
  exact (fuzzExtension_agree _ ibBth fits _).symm.trans
    (switchHeader_agree ibBth fits _ agree _ _)

theorem fuzzIbBth_agree {n : Nat} {x y : Vector Byte n} (ibBth : Nat) (fits : ibBth + 40 ≤ n)
    (bthSize rounds : Nat) (agree : AgreeOn (outsideExtension ibBth) x y) (s : Nat → Draw) :
    AgreeOn (outsideExtension ibBth)
      (FuzzIbBth.fuzzIbBth x ibBth fits bthSize rounds s).value
      (fuzzIbBth y ibBth fits bthSize rounds
        (withoutExtension ibBth fits bthSize rounds x s)).value := by
  induction rounds generalizing x y s with
  | zero => exact agree
  | succ rounds ih =>
    -- Both rounds take the same two draws; the mutator there took the others.
    rw [withoutExtension, fuzzIbBth_push]
    exact ih (round_agree ibBth fits bthSize agree s) _

/-- The extended fuzzer refines the plain one: without the draws of the extension
mutators, the plain fuzzer writes the same base header, and the buffers differ
at most in the extension header. -/
theorem refines_plain {n : Nat} (buf : Vector Byte n) (ibBth : Nat) (fits : ibBth + 40 ≤ n)
    (bthSize rounds : Nat) (s : Nat → Draw) :
    let extended := (FuzzIbBth.fuzzIbBth buf ibBth fits bthSize rounds s).value
    let plain := (fuzzIbBth buf ibBth fits bthSize rounds
      (withoutExtension ibBth fits bthSize rounds buf s)).value
    (∀ k, k < 12 → ∀ cell : ibBth + k < n, extended[ibBth + k] = plain[ibBth + k]) ∧
      ∀ j, ∀ hj : j < n, extended[j] ≠ plain[j] → ibBth + 12 ≤ j ∧ j ≤ ibBth + 39 := by
  intro extended plain
  have agree : AgreeOn (outsideExtension ibBth) extended plain :=
    fuzzIbBth_agree ibBth fits bthSize rounds (AgreeOn.refl _ buf) s
  have outside (j : Nat) (hj : j < n) (away : ¬ (ibBth + 12 ≤ j ∧ j < ibBth + 40)) :
      extended[j] = plain[j] :=
    agree.getElem_eq ⟨j, hj⟩ (if_neg away)
  refine ⟨?_, ?_⟩
  · intro k header cell
    exact outside (ibBth + k) cell (by omega)
  · intro j hj differ
    by_contra away
    exact differ (outside j hj (by omega))

def readRequest : Vector Byte 40 := Vector.replicate 40 0x0C

theorem readRequest_refines :
    (∀ k, k < 12 → ∀ cell : 0 + k < 40,
      (FuzzIbBth.fuzzIbBth readRequest 0 (by decide) 12 3 (fun _ => 4)).value[0 + k] =
        (fuzzIbBth readRequest 0 (by decide) 12 3
          (withoutExtension 0 (by decide) 12 3 readRequest fun _ => 4)).value[0 + k]) ∧
      ∀ j, ∀ hj : j < 40,
        (FuzzIbBth.fuzzIbBth readRequest 0 (by decide) 12 3 (fun _ => 4)).value[j] ≠
          (fuzzIbBth readRequest 0 (by decide) 12 3
            (withoutExtension 0 (by decide) 12 3 readRequest fun _ => 4)).value[j] →
        0 + 12 ≤ j ∧ j ≤ 0 + 39 :=
  refines_plain readRequest 0 (by decide) 12 3 fun _ => 4

end RdmaFuzzing.TapTunnel
