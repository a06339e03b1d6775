import RdmaFuzzing.FuzzIbBth

/-! Which base headers `fuzz_ib_bth` can turn into which. The spared bits are the
only limit: one round can give any other byte any value, so a round for each of
the nine bytes that are not spared as a whole reaches every header that agrees
on the spared bits. -/

namespace RdmaFuzzing.HeaderReach
open FrameLayout FuzzIbBth MaskedChange RandomDraws

def header {n : Nat} (buf : Vector Byte n) (ibBth : Nat) (fits : ibBth + 40 ≤ n) :
    Vector Byte 12 :=
  Vector.ofFn fun i => buf.get ⟨ibBth + i.val, by omega⟩

structure Agrees (h h' : Vector Byte 12) : Prop where
  qpB1 : h[5] = h'[5]
  qpB2 : h[6] = h'[6]
  qpB3 : h[7] = h'[7]
  tver : h[1] &&& 0x0F = h'[1] &&& 0x0F

theorem getElem_header {n : Nat} (buf : Vector Byte n) (ibBth : Nat) (fits : ibBth + 40 ≤ n)
    (i : Nat) (hi : i < 12) (cell : ibBth + i < n) :
    (header buf ibBth fits)[i] = buf[ibBth + i] := by
  rw [header, Vector.getElem_ofFn]
  rfl

def headerSpared (i : Fin 12) : Byte := spared i.val

theorem agrees_iff (h h' : Vector Byte 12) : Agrees h h' ↔ AgreeOn headerSpared h h' := by
  refine ⟨?_, ?_⟩
  · rintro ⟨qpB1, qpB2, qpB3, tver⟩ ⟨i, hi⟩
    match i, hi with
    | 1, _ => exact tver
    | 5, _ => exact congrArg (· &&& _) qpB1
    | 6, _ => exact congrArg (· &&& _) qpB2
    | 7, _ => exact congrArg (· &&& _) qpB3
    | 0, _ | 2, _ | 3, _ | 4, _ | 8, _ | 9, _ | 10, _ | 11, _ =>
      exact BitVec.and_zero.trans BitVec.and_zero.symm
  · intro agree
    exact ⟨agree.getElem_eq 5 rfl, agree.getElem_eq 6 rfl, agree.getElem_eq 7 rfl, agree 1⟩

theorem header_agree {n : Nat} {buf out : Vector Byte n} (ibBth : Nat) (fits : ibBth + 40 ≤ n)
    (agree : AgreeOn (sparedIn ibBth) buf out) :
    AgreeOn headerSpared (header buf ibBth fits) (header out ibBth fits) := by
  intro i
  have inside : ibBth + i.val < n := by omega
  have cell := agree ⟨ibBth + i.val, inside⟩
  rw [sparedIn, if_pos (Nat.le_add_right _ _), Nat.add_sub_cancel_left] at cell
  rw [getElem_header _ _ _ _ _ inside, getElem_header _ _ _ _ _ inside]
  exact cell

theorem headerMask_eq_self (i : Fin 12) (byte : Byte) (unspared : byte &&& headerSpared i = 0) :
    headerMask i.val byte = byte := by
  by_cases smpt : i.val = 1
  · rw [headerSpared, spared, if_pos smpt] at unspared
    rw [headerMask, if_pos smpt]
    have split : byte &&& 0xF0 ||| byte &&& 0x0F = byte := by
      rw [← BitVec.and_or_distrib_left]
      exact BitVec.and_allOnes
    rwa [unspared, show (0 : Byte) = 0#8 from rfl, BitVec.or_zero] at split
  · rw [headerSpared, spared, if_neg smpt] at unspared
    rw [headerMask, if_neg smpt]
    by_cases qp : i.val = 5 ∨ i.val = 6 ∨ i.val = 7
    · rw [if_pos (by omega)] at unspared
      rw [if_pos qp]
      exact (BitVec.and_allOnes.symm.trans unspared).symm
    · rw [if_neg qp]

/-- The draws that give one header byte one mask, and an empty mask to whatever
extension mutator the round goes on to. -/
def aimedDraws (i : Fin 12) (byte : Byte) : Nat → Draw :=
  replay 0 [⟨i.val, by have := i.isLt; rw [randMax]; omega⟩,
    ⟨byte.toNat, by have := byte.isLt; rw [randMax]; omega⟩]

theorem aimedDraws_roundXor (opcode : Byte) (i : Fin 12) (byte : Byte) (k : Nat) :
    roundXor opcode (aimedDraws i byte) k = if k = i.val then headerMask i.val byte else 0 := by
  have mask : randomByte (aimedDraws i byte 1) = byte := by
    rw [randomByte_eq]
    change BitVec.ofNat 8 byte.toNat = byte
    rw [BitVec.ofNat_toNat, BitVec.setWidth_eq]
  have index : (aimedDraws i byte 0).val % 12 = i.val := Nat.mod_eq_of_lt i.isLt
  -- The given draws are used up, so the extension mutator draws the filler.
  have extension : extensionXor (nextOpcode opcode (aimedDraws i byte))
      (after (aimedDraws i byte) 2) k = 0 := by
    rw [extensionXor]
    split_ifs <;> rfl
  rw [roundXor, extension, headerXor, index, mask]
  by_cases here : k = i.val
  · rw [if_pos here, if_pos here, here]
    exact BitVec.xor_zero
  · rw [if_neg here, if_neg here]
    rfl

theorem can_round {n : Nat} (buf : Vector Byte n) (ibBth : Nat) (fits : ibBth + 40 ≤ n)
    (i : Fin 12) (byte : Byte) :
    Can (fuzzRound buf ibBth fits 12)
      (xorAt buf ⟨ibBth + i.val, by omega⟩ (headerMask i.val byte)) := by
  refine ⟨aimedDraws i byte, ?_⟩
  apply Vector.ext
  intro j hj
  rw [fuzzRound_getElem, aimedDraws_roundXor, getElem_xorAt]
  congr 1
  by_cases past : ibBth ≤ j
  · rw [if_pos past]
    have cell : j - ibBth = i.val ↔ j = ibBth + i.val := by omega
    simp only [cell]
  · rw [if_neg past, if_neg (by simp only; omega)]

theorem header_xorAt {n : Nat} (buf : Vector Byte n) (ibBth : Nat) (fits : ibBth + 40 ≤ n)
    (i : Fin 12) (byte : Byte) (k : Nat) (hk : k < 12) :
    (header (xorAt buf ⟨ibBth + i.val, by omega⟩ byte) ibBth fits)[k] =
      (header buf ibBth fits)[k] ^^^ (if k = i.val then byte else 0) := by
  have inside : ibBth + k < n := by omega
  have cell : ibBth + k = ibBth + i.val ↔ k = i.val := by omega
  rw [getElem_header _ _ _ _ _ inside, getElem_header _ _ _ _ _ inside, getElem_xorAt]
  simp only [cell]

theorem can_byte {n : Nat} (buf : Vector Byte n) (ibBth : Nat) (fits : ibBth + 40 ≤ n)
    (target : Vector Byte 12) (agree : AgreeOn headerSpared (header buf ibBth fits) target)
    (i : Fin 12) :
    ∃ mid, Can (fuzzRound buf ibBth fits 12) mid ∧
      (header mid ibBth fits).get i = target.get i ∧
      ∀ k, k ≠ i → (header mid ibBth fits).get k = (header buf ibBth fits).get k := by
  let byte := (header buf ibBth fits)[i.val] ^^^ target[i.val]
  have unspared : byte &&& headerSpared i = 0 := by
    rw [xor_and, agree i]
    exact BitVec.xor_self
  have round := can_round buf ibBth fits i byte
  rw [headerMask_eq_self i byte unspared] at round
  refine ⟨_, round, ?_, ?_⟩
  · refine (header_xorAt buf ibBth fits i byte i.val i.isLt).trans ?_
    rw [if_pos rfl, ← BitVec.xor_assoc, BitVec.xor_self, BitVec.zero_xor]
    rfl
  · intro k away
    refine (header_xorAt buf ibBth fits i byte k.val k.isLt).trans ?_
    rw [if_neg (fun same => away (Fin.ext same))]
    exact BitVec.xor_zero

theorem can_header {n : Nat} (is : List (Fin 12)) (buf : Vector Byte n) (ibBth : Nat)
    (fits : ibBth + 40 ≤ n) (target : Vector Byte 12)
    (agree : AgreeOn headerSpared (header buf ibBth fits) target) :
    ∃ out, Can (fuzzIbBth buf ibBth fits 12 is.length) out ∧ ∀ k : Fin 12,
      (k ∈ is → (header out ibBth fits).get k = target.get k) ∧
      (k ∉ is → (header out ibBth fits).get k = (header buf ibBth fits).get k) := by
  induction is generalizing buf with
  | nil =>
    exact ⟨buf, can_pure buf, fun k => ⟨fun mem => absurd mem List.not_mem_nil, fun _ => rfl⟩⟩
  | cons i rest ih =>
    -- Byte `i` gets its final value now, and no later round need touch it.
    obtain ⟨mid, round, mid_at, mid_away⟩ := can_byte buf ibBth fits target agree i
    have agree_mid : AgreeOn headerSpared (header mid ibBth fits) target := by
      intro k
      by_cases here : k = i
      · subst here
        exact congrArg (· &&& headerSpared k) mid_at
      · exact (congrArg (· &&& headerSpared k) (mid_away k here)).trans (agree k)
    obtain ⟨out, reached, cells⟩ := ih mid agree_mid
    refine ⟨out, can_bind (fuzzRound_local _ _ _ _) round reached, fun k => ⟨?_, ?_⟩⟩
    · intro mem
      by_cases later : k ∈ rest
      · exact (cells k).1 later
      · have here : k = i := (List.mem_cons.mp mem).resolve_right later
        rw [(cells k).2 later, here, mid_at]
    · intro outside
      rw [List.mem_cons, not_or] at outside
      rw [(cells k).2 outside.2, mid_away k outside.1]

def mutableBytes : List (Fin 12) := [0, 1, 2, 3, 4, 8, 9, 10, 11]

theorem spared_of_not_mutable :
    ∀ i : Fin 12, i ∉ mutableBytes → headerSpared i = BitVec.allOnes 8 := by
  decide

theorem can_reach {n : Nat} (buf : Vector Byte n) (ibBth : Nat) (fits : ibBth + 40 ≤ n)
    (target : Vector Byte 12) (agree : AgreeOn headerSpared (header buf ibBth fits) target) :
    ∃ s, header (fuzzIbBth buf ibBth fits 12 9 s).value ibBth fits = target := by
  obtain ⟨_, ⟨s, rfl⟩, cells⟩ := can_header mutableBytes buf ibBth fits target agree
  refine ⟨s, ?_⟩
  apply Vector.ext
  intro k hk
  by_cases changed : ⟨k, hk⟩ ∈ mutableBytes
  · exact (cells ⟨k, hk⟩).1 changed
  · exact ((cells ⟨k, hk⟩).2 changed).trans
      (agree.getElem_eq ⟨k, hk⟩ (spared_of_not_mutable _ changed))

/-- A run of any number of rounds can end with a header exactly when that agrees
with the first one on what is spared, and then nine rounds are enough. -/
theorem reach_iff {n : Nat} (buf : Vector Byte n) (ibBth : Nat) (fits : ibBth + 40 ≤ n)
    (target : Vector Byte 12) :
    ((∃ rounds s, header (fuzzIbBth buf ibBth fits 12 rounds s).value ibBth fits = target) ↔
      Agrees (header buf ibBth fits) target) ∧
    (Agrees (header buf ibBth fits) target →
      ∃ rounds, rounds ≤ 9 ∧
        ∃ s, header (fuzzIbBth buf ibBth fits 12 rounds s).value ibBth fits = target) := by
  have nine (agrees : Agrees (header buf ibBth fits) target) :
      ∃ s, header (fuzzIbBth buf ibBth fits 12 9 s).value ibBth fits = target :=
    can_reach buf ibBth fits target ((agrees_iff _ _).mp agrees)
  refine ⟨⟨?_, fun agrees => ⟨9, nine agrees⟩⟩, fun agrees => ⟨9, le_refl 9, nine agrees⟩⟩
  rintro ⟨rounds, s, rfl⟩
  exact (agrees_iff _ _).mpr
    (header_agree ibBth fits (fuzzIbBth_agree buf ibBth fits rounds s))

def zeroHeader : Vector Byte 40 := Vector.replicate 40 0

def farHeader : Vector Byte 12 :=
  #v[0xFF, 0xF0, 0xFF, 0xFF, 0xFF, 0, 0, 0, 0xFF, 0xFF, 0xFF, 0xFF]

theorem farHeader_agrees : Agrees (header zeroHeader 0 (by decide)) farHeader := by
  have zeros (i : Nat) (hi : i < 12) : (header zeroHeader 0 (by decide))[i] = 0 := by
    have inside : 0 + i < 40 := by omega
    rw [getElem_header _ _ _ _ _ inside]
    exact Vector.getElem_replicate _
  refine ⟨?_, ?_, ?_, ?_⟩
  all_goals
    rw [zeros]
    decide

theorem farHeader_reached :
    ∃ rounds, rounds ≤ 9 ∧
      ∃ s, header (fuzzIbBth zeroHeader 0 (by decide) 12 rounds s).value 0 (by decide) =
        farHeader :=
  (reach_iff zeroHeader 0 (by decide) farHeader).2 farHeader_agrees

end RdmaFuzzing.HeaderReach
