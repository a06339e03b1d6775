import Mathlib.Data.List.Perm.Subperm
import RdmaFuzzing.EmittedFrames

/-! Proxy fuzzers one behind the other, and the account of what a run draws and
changes. No change reaches a byte that `check_buffer_type` looks at, so every proxy
of a chain takes the same frames for RDMA traffic; and every byte a run changes has
been paid for with two draws. -/

namespace RdmaFuzzing.ProxyChain
open FrameLayout CheckBufferType FuzzIbBth MaskedChange RandomDraws ReusedBuffer ProxyFuzzer
open EmittedFrames

def changes (frame : Frame) (written : List Byte) : Nat :=
  (List.range frame.nread).countP fun i => difference frame written i ≠ 0

theorem changes_self (frame : Frame) : changes frame frame.bytes = 0 := by
  rw [changes, List.countP_eq_zero]
  intro i _
  simp [difference_self]

theorem countP_le_add {α : Type} (p q r : α → Bool) (xs : List α)
    (covered : ∀ x ∈ xs, p x = true → q x = true ∨ r x = true) :
    xs.countP p ≤ xs.countP q + xs.countP r := by
  induction xs with
  | nil => simp
  | cons x xs ih =>
    have rest := ih fun y hy => covered y (List.mem_cons_of_mem x hy)
    have first := covered x List.mem_cons_self
    rw [List.countP_cons, List.countP_cons, List.countP_cons]
    cases hp : p x with
    | false => simp; omega
    | true =>
      rcases first hp with hq | hr
      · simp [hq]; omega
      · simp [hr]; omega

theorem written_fits (it : Iteration) : it.written.length ≤ maxEthLen := by
  rw [it.length_written]
  exact it.frame.fits

def passedOn (it : Iteration) : Frame := ⟨it.written, written_fits it⟩

theorem passedOn_nread (it : Iteration) : (passedOn it).nread = it.frame.nread :=
  it.length_written

theorem kind_small {frame : Frame} (small : frame.nread < 46) : frame.kind = .other :=
  checkBufferType_small _ _ _ (Int.ofNat_lt.mpr small)

theorem kind_large {frame : Frame} (large : 46 ≤ frame.nread) :
    frame.kind = testHeaders (frame.bytes.getD 16 0) (frame.bytes.getD 17 0)
      (frame.bytes.getD 18 0) (frame.bytes.getD 27 0) (frame.bytes.getD 40 0)
      (frame.bytes.getD 41 0) := by
  have cell (i : Nat) (hi : i < frame.nread) :
      (⟨frame.bytes.toArray, rfl⟩ : Vector Byte frame.nread)[i] = frame.bytes.getD i 0 :=
    List.getElem_eq_getD 0
  rw [Frame.kind, checkBufferType_large _ _ _ (Int.ofNat_le.mpr large) large]
  simp only [cell]

theorem kind_congr {a b : Frame} (length : a.nread = b.nread)
    (same : ∀ i, i < 46 → a.bytes.getD i 0 = b.bytes.getD i 0) : a.kind = b.kind := by
  by_cases small : a.nread < 46
  · rw [kind_small small, kind_small (length ▸ small)]
  · rw [kind_large (by omega), kind_large (by omega), same 16 (by decide), same 17 (by decide),
      same 18 (by decide), same 27 (by decide), same 40 (by decide), same 41 (by decide)]

theorem getD_of_difference {frame : Frame} {written : List Byte} {i : Nat}
    (zero : difference frame written i = 0) : written.getD i 0 = frame.bytes.getD i 0 := by
  have cancel : frame.bytes.getD i 0 ^^^ difference frame written i = written.getD i 0 := by
    rw [difference, ← BitVec.xor_assoc, BitVec.xor_self]
    exact BitVec.zero_xor
  rw [← cancel, zero]
  exact BitVec.xor_zero

theorem kind_passedOn (it : Iteration) : (passedOn it).kind = it.frame.kind :=
  kind_congr (passedOn_nread it) fun i before =>
    getD_of_difference (unchanged (turn_emits it) i (Or.inl before))

theorem calls_ibTraffic (it : Iteration) (ib : it.frame.kind = .ibTraffic) :
    it.calls = roundCalls (opcodeIn it.head it.frame) it.draws := by
  have opcode : (store it.head 0 it.frame.bytes)[46] = opcodeIn it.head it.frame := by
    rw [getElem_store]
    rfl
  rw [Iteration.calls, Iteration.turn, clientTurn_run]
  simp only [ib, switchBufType_ibTraffic]
  rw [fuzzRound_calls, opcode]

theorem opcodeIn_long {frame : Frame} (buf : EthBuffer) (long : 46 < frame.nread) :
    opcodeIn buf frame = frame.bytes[46]?.getD 0 := by
  have here : 46 < frame.bytes.length := long
  rw [opcodeIn, List.getElem?_eq_getElem here]
  rfl

def pickedCells (it : Iteration) : List Nat :=
  let opcode := it.written.getD 46 0
  if 0 < extensionLen opcode then
    [46 + (it.draws 0).val % 12, 58 + (it.draws 2).val % extensionLen opcode]
  else [46 + (it.draws 0).val % 12]

theorem mem_pickedCells (it : Iteration) (ib : it.frame.kind = .ibTraffic) (i : Nat)
    (changed : difference it.frame it.written i ≠ 0) : i ∈ pickedCells it := by
  rw [pickedCells]
  rcases changed_cell it ib i changed with ⟨_, _, header⟩ | ⟨⟨past, bound⟩, extension⟩
  · split_ifs
    · exact header ▸ List.mem_cons_self
    · exact header ▸ List.mem_cons_self
  · rw [if_pos (by omega)]
    exact extension ▸ List.mem_cons_of_mem _ List.mem_cons_self

theorem changes_le_picked (it : Iteration) (ib : it.frame.kind = .ibTraffic) :
    changes it.frame it.written ≤ (pickedCells it).length := by
  rw [changes, List.countP_eq_length_filter]
  refine (List.subperm_of_subset (List.nodup_range.filter _) ?_).length_le
  intro i hi
  have changed : difference it.frame it.written i ≠ 0 := by
    simpa using (List.mem_filter.mp hi).2
  exact mem_pickedCells it ib i changed

theorem picked_le_calls (it : Iteration) (ib : it.frame.kind = .ibTraffic)
    (long : 46 < it.frame.nread) : 2 * (pickedCells it).length = it.calls := by
  rw [calls_ibTraffic it ib, opcodeIn_long it.head long, roundCalls, ← opcode_written it ib long,
    pickedCells, extensionCalls]
  split_ifs <;> rfl

theorem changes_short (it : Iteration) (short : it.frame.nread ≤ 46) :
    changes it.frame it.written = 0 := by
  rw [changes, List.countP_eq_zero]
  intro i hi
  have before : i < 46 := by
    have bound := List.mem_range.mp hi
    omega
  simp [unchanged (turn_emits it) i (Or.inl before)]

/-- A byte changes only where draws picked it: at most one byte for two draws. -/
theorem changes_le (it : Iteration) : 2 * changes it.frame it.written ≤ it.calls := by
  by_cases ib : it.frame.kind = .ibTraffic
  · by_cases long : 46 < it.frame.nread
    · have count := changes_le_picked it ib
      have paid := picked_le_calls it ib long
      omega
    · rw [changes_short it (by omega)]
      omega
  · rw [it.written_other ib, changes_self]
    omega

/-- Two draws for the base header, and two for an extension header if the opcode
left in the buffer selects one. -/
def drawsPaid (it : Iteration) : Nat :=
  if it.frame.kind = .ibTraffic then
    2 + if 0 < extensionLen (nextOpcode (opcodeIn it.head it.frame) it.draws) then 2 else 0
  else 0

theorem calls_eq (it : Iteration) : it.calls = drawsPaid it := by
  rw [drawsPaid]
  split_ifs with ib ext
  · rw [calls_ibTraffic it ib, roundCalls, extensionCalls, if_pos ext]
  · rw [calls_ibTraffic it ib, roundCalls, extensionCalls, if_neg ext]
  · exact it.calls_other ib

theorem sum_changes_le (its : List Iteration) :
    2 * (its.map fun it => changes it.frame it.written).sum ≤ (its.map Iteration.calls).sum := by
  induction its with
  | nil => simp
  | cons it its ih =>
    have first := changes_le it
    simp only [List.map_cons, List.sum_cons]
    omega

theorem clientLoop_frames (buf : EthBuffer) (frames : List Frame) (s : Nat → Draw) :
    (clientLoop buf frames s).map Iteration.frame = frames := by
  induction frames generalizing buf s with
  | nil => rfl
  | cons frame rest ih => rw [clientLoop, List.map_cons, ih]

theorem sum_calls_le (its : List Iteration) :
    (its.map Iteration.calls).sum ≤
      4 * (its.map Iteration.frame).countP fun frame => frame.kind = .ibTraffic := by
  induction its with
  | nil => simp
  | cons it its ih =>
    have first : it.calls ≤ if it.frame.kind = .ibTraffic then 4 else 0 := by
      rw [calls_eq, drawsPaid]
      split_ifs <;> omega
    rw [List.map_cons, List.sum_cons, List.map_cons, List.countP_cons]
    by_cases ib : it.frame.kind = .ibTraffic
    · rw [if_pos ib] at first
      simp only [ib, decide_true, if_true]
      omega
    · rw [if_neg ib] at first
      simp only [ib, decide_false, Bool.false_eq_true, if_false]
      omega

theorem clientLoop_draws (buf : EthBuffer) (frames : List Frame) (s : Nat → Draw) (k : Nat)
    (it : Iteration) (here : (clientLoop buf frames s)[k]? = some it) :
    it.draws = after s (((clientLoop buf frames s).take k).map Iteration.calls).sum := by
  induction frames generalizing buf s k with
  | nil => simp [clientLoop] at here
  | cons frame rest ih =>
    rw [clientLoop] at here ⊢
    cases k with
    | zero =>
      cases Option.some.inj here
      exact (after_zero s).symm
    | succ k =>
      rw [ih _ _ k here, after_after, List.take_succ_cons, List.map_cons, List.sum_cons]

/-- The account of a run: what each turn draws and where in the stream, at most four
draws for each frame of RDMA traffic and none for another, and at most one changed
byte for every two draws. -/
theorem draw_account (frames : List Frame) (draws : Nat → Draw) :
    let turns := (main frames [] draws).toServer
    (∀ k it, turns[k]? = some it →
      it.draws = after draws ((turns.take k).map drawsPaid).sum ∧ it.calls = drawsPaid it) ∧
    2 * (turns.map fun it => changes it.frame it.written).sum ≤ (turns.map drawsPaid).sum ∧
    (turns.map drawsPaid).sum ≤ 4 * frames.countP fun frame => frame.kind = .ibTraffic := by
  intro turns
  have paid : Iteration.calls = drawsPaid := funext calls_eq
  have altered := sum_changes_le turns
  have drawn := sum_calls_le turns
  rw [paid] at altered drawn
  refine ⟨?_, altered, ?_⟩
  · intro k it here
    refine ⟨?_, calls_eq it⟩
    rw [← paid]
    exact clientLoop_draws zeroBuffer frames draws k it here
  · rwa [show turns.map Iteration.frame = frames from clientLoop_frames _ _ _] at drawn

def chain : List (Nat → Draw) → List Frame → List Frame
  | [], frames => frames
  | draws :: rest, frames => chain rest ((main frames [] draws).toServer.map passedOn)

structure Passes (stages : Nat) (frame out : Frame) : Prop where
  length : out.nread = frame.nread
  kind : out.kind = frame.kind
  other : frame.kind ≠ .ibTraffic → out.bytes = frame.bytes
  kept : ∀ i, i < 46 ∨ 51 ≤ i ∧ i ≤ 53 ∨ 86 ≤ i → difference frame out.bytes i = 0
  version : difference frame out.bytes 47 &&& 0x0F = 0
  count : changes frame out.bytes ≤ 2 * stages

theorem Passes.refl (frame : Frame) : Passes 0 frame frame where
  length := rfl
  kind := rfl
  other _ := rfl
  kept i _ := difference_self frame i
  version := by
    rw [difference_self]
    rfl
  count := Nat.le_of_eq (changes_self frame)

theorem passes_turn (it : Iteration) : Passes 1 it.frame (passedOn it) where
  length := passedOn_nread it
  kind := kind_passedOn it
  other := it.written_other
  kept := unchanged (turn_emits it)
  version := (turn_emits it).version
  count := by
    have paid := changes_le it
    have drawn := sum_calls_le [it]
    have one : [it.frame].countP (fun frame => frame.kind = .ibTraffic) ≤ 1 :=
      List.countP_le_length
    simp only [List.map_cons, List.map_nil, List.sum_cons, List.sum_nil] at drawn
    change changes it.frame it.written ≤ 2 * 1
    omega

theorem difference_trans (a b : Frame) (c : List Byte) (i : Nat) :
    difference a c i = difference a b.bytes i ^^^ difference b c i := by
  rw [difference, difference, difference, BitVec.xor_assoc,
    ← BitVec.xor_assoc (b.bytes.getD i 0), BitVec.xor_self]
  exact congrArg _ BitVec.zero_xor.symm

theorem Passes.trans {m n : Nat} {a b c : Frame} (first : Passes m a b) (second : Passes n b c) :
    Passes (m + n) a c where
  length := second.length.trans first.length
  kind := second.kind.trans first.kind
  other ib := (second.other (first.kind ▸ ib)).trans (first.other ib)
  kept i cell := by
    rw [difference_trans a b, first.kept i cell, second.kept i cell]
    rfl
  version := by
    rw [difference_trans a b, xor_and, first.version, second.version]
    rfl
  count := by
    have near := first.count
    have far := second.count
    have both : changes a c.bytes ≤ changes a b.bytes + changes b c.bytes := by
      rw [changes, changes, changes, second.length.symm.trans (second.length.trans first.length)]
      refine countP_le_add _ _ _ _ fun i _ changed => ?_
      by_contra same
      simp only [decide_eq_true_eq, not_or, not_not] at changed same
      rw [difference_trans a b, same.1, same.2] at changed
      exact changed rfl
    omega

theorem Passes.forall_trans {m n : Nat} {as bs cs : List Frame}
    (first : List.Forall₂ (Passes m) as bs) (second : List.Forall₂ (Passes n) bs cs) :
    List.Forall₂ (Passes (m + n)) as cs := by
  induction first generalizing cs with
  | nil =>
    cases second
    exact .nil
  | cons near _ ih =>
    cases second with
    | cons far rest => exact .cons (near.trans far) (ih rest)

/-- Any number of proxies in series: each takes the same frames for RDMA traffic and
leaves all others alone, and what one proxy spares is spared by the whole chain. -/
theorem chain_passes (stages : List (Nat → Draw)) (frames : List Frame) :
    List.Forall₂ (Passes stages.length) frames (chain stages frames) := by
  induction stages generalizing frames with
  | nil => exact List.forall₂_same.mpr fun frame _ => Passes.refl frame
  | cons draws rest ih =>
    have first : List.Forall₂ (Passes 1) frames ((main frames [] draws).toServer.map passedOn) := by
      rw [List.forall₂_map_right_iff]
      exact clientLoop_forall₂ passes_turn zeroBuffer frames draws
    rw [List.length_cons, Nat.add_comm]
    exact Passes.forall_trans first (ih _)

end RdmaFuzzing.ProxyChain
