import RdmaFuzzing.DeserializePkt

/-! Which datagrams `deserialize_ib_pkt` takes apart without leaving them. Nothing
compares the length of the datagram with that of the header before its twelve bytes
are read, and the length of the payload wraps around below zero. -/

namespace RdmaFuzzing.PayloadExtraction
open FrameLayout BitField ExitRun DeserializePkt

/-- A datagram in a receive buffer of `n` bytes, as `recvfrom` leaves it. -/
structure Received (n : Nat) where
  buf : Vector Byte n
  bufferLen : Nat
  fits : bufferLen ≤ n

/-- The buffer of `ib_proxy_two.c`. -/
def bufSizeTwo : Nat := 4096

/-- The buffer of `proxy.c`. -/
def bufSizeProxy : Nat := 1024

def Inside (bufferLen : Nat) : Access → Prop
  | .reads i => i < bufferLen
  | .copies start len => ∀ k, k < len → start + k < bufferLen

structure Stays (run : Run Access Deserialized) (bufferLen : Nat) : Prop where
  accesses : ∀ a ∈ run.log, Inside bufferLen a
  payloadLen : ∃ result, run.value = some result ∧ 0 ≤ result.payloadLen

/-- Between buffers' sizes the arithmetic of `size_t` and its narrowing to `int` come
to the difference. -/
theorem ibPayloadLen_eq {bufferLen trailer : Nat} (small : bufferLen ≤ 4096)
    (short : trailer ≤ 4096) :
    ibPayloadLen bufferLen 0 trailer = (bufferLen : Int) - (sizeofIbBth + trailer : Nat) := by
  have bits : (BitVec.ofInt 64 bufferLen - (BitVec.ofNat 64 sizeofIbBth + BitVec.ofInt 64 0 +
      BitVec.ofNat 64 trailer)).toNat =
        (2 ^ 64 + bufferLen - (sizeofIbBth + trailer)) % 2 ^ 64 := by
    rw [BitVec.ofInt_natCast, sizeofIbBth]
    bv_omega
  rw [ibPayloadLen, BitVec.toInt_setWidth, bits, sizeofIbBth, Int.bmod]
  split_ifs with positive
  · omega
  · omega

theorem sizeT_natCast {n : Nat} (small : n < 2 ^ 64) : sizeT n = n := by
  rw [sizeT, BitVec.ofInt_natCast, BitVec.toNat_ofNat, Nat.mod_eq_of_lt small]

theorem reads_inside {bufferLen : Nat} (long : sizeofIbBth ≤ bufferLen) :
    ∀ a ∈ headerReads.map Access.reads, Inside bufferLen a := by
  rw [List.forall_mem_map]
  intro i read
  have header : ∀ i ∈ headerReads, i < sizeofIbBth := by decide
  exact Nat.lt_of_lt_of_le (header i read) long

theorem copy_inside {bufferLen trailer : Nat} (small : bufferLen ≤ 4096)
    (short : trailer ≤ 4096) (long : sizeofIbBth + trailer ≤ bufferLen) :
    Inside bufferLen (.copies sizeofIbBth (sizeT (ibPayloadLen bufferLen 0 trailer))) := by
  intro k copied
  rw [ibPayloadLen_eq small short, ← Int.ofNat_sub long, sizeT_natCast (by omega)] at copied
  omega

theorem deserialize_stays_iff (host : ByteOrder) (mem : List Byte) {bufferLen trailer : Nat}
    (small : bufferLen ≤ 4096) (short : trailer ≤ 4096) :
    Stays (deserialize trailer host mem bufferLen) bufferLen ↔
      sizeofIbBth + trailer ≤ bufferLen := by
  rw [deserialize_eq]
  refine ⟨?_, ?_⟩
  · intro stays
    obtain ⟨result, value, positive⟩ := stays.payloadLen
    cases value
    change 0 ≤ ibPayloadLen bufferLen 0 trailer at positive
    rw [ibPayloadLen_eq small short] at positive
    omega
  · intro long
    refine ⟨?_, _, rfl, ?_⟩
    · rw [List.forall_mem_append, List.forall_mem_singleton]
      exact ⟨reads_inside (by omega), copy_inside small short long⟩
    · change 0 ≤ ibPayloadLen bufferLen 0 trailer
      rw [ibPayloadLen_eq small short]
      omega

theorem stays_iff (host : ByteOrder) (two : Received bufSizeTwo)
    (proxy : Received bufSizeProxy) :
    (Stays (deserializeTwo host two.buf.toList two.bufferLen) two.bufferLen ↔
        17 ≤ two.bufferLen) ∧
      (Stays (deserializeProxy host proxy.buf.toList proxy.bufferLen) proxy.bufferLen ↔
        12 ≤ proxy.bufferLen) := by
  have smaller : proxy.bufferLen ≤ 4096 := Nat.le_trans proxy.fits (by decide)
  exact ⟨deserialize_stays_iff host _ two.fits (by decide),
    deserialize_stays_iff host _ smaller (by decide)⟩

def shortTwo : Received bufSizeTwo := ⟨Vector.replicate bufSizeTwo 0, 11, by decide⟩

def shortProxy : Received bufSizeProxy := ⟨Vector.replicate bufSizeProxy 0, 11, by decide⟩

theorem short_leaves :
    ¬ Stays (deserializeTwo .little shortTwo.buf.toList shortTwo.bufferLen) shortTwo.bufferLen ∧
      ¬ Stays (deserializeProxy .little shortProxy.buf.toList shortProxy.bufferLen)
        shortProxy.bufferLen := by
  refine ⟨?_, ?_⟩
  · intro stays
    have long := (deserialize_stays_iff _ _ shortTwo.fits (by decide)).mp stays
    exact absurd long (by decide)
  · intro stays
    have long := (deserialize_stays_iff _ _ (by decide) (by decide)).mp stays
    exact absurd long (by decide)

end RdmaFuzzing.PayloadExtraction
