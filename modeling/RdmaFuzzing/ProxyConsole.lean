import RdmaFuzzing.NaiveFuzzer
import RdmaFuzzing.PrintedDatagrams

/-! What `proxy.c` shows of the datagrams it forwards: a byte at a time up to the
first zero, each converted to `int` and printed between blanks. As long as every
datagram ends in the buffer, the console reads back as these bytes, although a byte from
0x80 on takes eight digits. Of what the naive fuzzer sends it shows the opcode alone,
since the byte behind it stays zero. -/

namespace RdmaFuzzing.ProxyConsole
open FrameLayout ReusedBuffer TerminatorScan UdpSocket CText HexText ExitRun PacketSerial
open PrintedDatagrams
open ForwardProxy (bufSize zeroBuf)

def shown : Event → Option (List Char8)
  | .prints text => some text
  | .looks _ | .sends _ => none

def console (events : List Event) : List Char8 := (events.filterMap shown).flatten

def readConsole (text : List Char8) : List Byte :=
  ((text.splitOn 0x20).filter (· ≠ [])).map fun digits => BitVec.ofNat 8 (unhexNat digits)

def padded (datagram : Datagram) : List Byte :=
  datagram.bytes.take bufSize ++ List.replicate (bufSize - datagram.bytes.length) 0

theorem blank_notMem_hex (letters : Letters) (n : Nat) : 0x20 ∉ hex letters n := by
  intro member
  exact absurd (space_lt_hex letters n _ member) (by decide)

theorem hex_ne_nil (letters : Letters) (n : Nat) : hex letters n ≠ [] := by
  unfold hex
  split_ifs with zero
  · exact List.cons_ne_nil _ _
  · simp [Nat.digits_eq_nil_iff_eq_zero, zero]

theorem ofNat_signExtend (c : Byte) : BitVec.ofNat 8 (c.signExtend 32).toNat = c := by
  rw [BitVec.ofNat_toNat]
  ext i hi
  rw [BitVec.getElem_setWidth, BitVec.getLsbD_signExtend, if_pos hi]
  simp [BitVec.getLsbD_eq_getElem hi, show i < 32 by omega]

theorem readConsole_printHex (c : Byte) (rest : List Char8) :
    readConsole (printHex c ++ rest) = c :: readConsole rest := by
  have split : (printHex c ++ rest).splitOn 0x20 =
      [] :: hex .lower (c.signExtend 32).toNat :: rest.splitOn 0x20 := by
    have blanks : printHex c ++ rest =
        [] ++ 0x20 :: (hex .lower (c.signExtend 32).toNat ++ 0x20 :: rest) := by
      simp [printHex]
    rw [blanks, List.splitOn_append_cons_self, List.splitOn_append_cons_self,
      List.splitOn_eq_singleton (blank_notMem_hex _ _), List.splitOn_nil]
    rfl
  rw [readConsole, split, List.filter_cons_of_neg (by simp),
    List.filter_cons_of_pos (by simpa using hex_ne_nil _ _), List.map_cons, unhexNat_hex,
    ofNat_signExtend]
  rfl

theorem readConsole_flatMap (bytes : List Byte) :
    readConsole (bytes.flatMap printHex) = bytes := by
  induction bytes with
  | nil => rfl
  | cons c bytes ih => rw [List.flatMap_cons, readConsole_printHex, ih]

theorem printLoop_prints (format : Byte → List Char8) (i : Nat) (xs : List Byte) :
    (printLoop format i xs).log.filterMap shown = (textOf 0 xs).map format := by
  induction xs generalizing i with
  | nil => rfl
  | cons c rest ih =>
    rw [textOf_cons]
    by_cases stops : c = 0
    · rw [stops, printLoop_stop, if_pos rfl]
      rfl
    · rw [printLoop_more format i rest stops, if_neg stops, List.map_cons, ← ih (i + 1)]
      rfl

theorem textOf_received (bytes : List Byte) :
    textOf 0 (store zeroBuf 0 bytes).toList = textOf 0 (bytes.take bufSize) := by
  have fits : (bytes.take bufSize).length ≤ bufSize := List.length_take_le _ _
  rw [← store_take, zeroBuf, toList_store_replicate 0 _ fits, textOf_append_replicate]

theorem turn_prints (program : Program) (silent : ∀ sender, program.report sender = [])
    (datagram : Datagram) (ends : Ends datagram) :
    (turn program zeroBuf datagram).log.filterMap shown =
      (textOf 0 (datagram.bytes.take bufSize)).map program.format := by
  have printed := printLoop_value program.format 0 _ ((ends_iff datagram).mpr ends)
  rw [← textOf_received, ← printLoop_prints program.format 0, turn, recvfrom,
    bind_some _ printed, bind_some (a := ()) _ rfl, call_bind, List.filterMap_append, silent]
  simp [shown, pure_run]

theorem receiveLoop_append (program : Program) (datagrams rest : List Datagram)
    (ends : ∀ datagram ∈ datagrams, Ends datagram) :
    receiveLoop program zeroBuf (datagrams ++ rest) =
      ⟨(receiveLoop program zeroBuf datagrams).log ++ (receiveLoop program zeroBuf rest).log,
        (receiveLoop program zeroBuf rest).value⟩ := by
  induction datagrams with
  | nil => rfl
  | cons datagram datagrams ih =>
    obtain ⟨first, later⟩ := List.forall_mem_cons.mp ends
    rw [List.cons_append, receiveLoop, bind_some _ (turn_value program datagram first), ih later,
      receiveLoop, bind_some _ (turn_value program datagram first), List.append_assoc]

theorem receiveLoop_value (program : Program) (datagrams : List Datagram)
    (ends : ∀ datagram ∈ datagrams, Ends datagram) :
    (receiveLoop program zeroBuf datagrams).value = some () := by
  have whole := receiveLoop_append program datagrams [] ends
  rw [List.append_nil] at whole
  rw [whole]
  rfl

theorem receiveLoop_prints (program : Program) (silent : ∀ sender, program.report sender = [])
    (datagrams : List Datagram) (ends : ∀ datagram ∈ datagrams, Ends datagram) :
    (receiveLoop program zeroBuf datagrams).log.filterMap shown =
      datagrams.flatMap fun datagram =>
        (textOf 0 (datagram.bytes.take bufSize)).map program.format := by
  induction datagrams with
  | nil => rfl
  | cons datagram rest ih =>
    obtain ⟨first, later⟩ := List.forall_mem_cons.mp ends
    rw [receiveLoop, bind_some _ (turn_value program datagram first), List.filterMap_append,
      turn_prints program silent datagram first, ih later, List.flatMap_cons]

theorem console_reads (datagrams : List Datagram)
    (ends : ∀ datagram ∈ datagrams, Ends datagram) :
    readConsole (console (proxyMain datagrams).log) =
      datagrams.flatMap fun datagram => textOf 0 (datagram.bytes.take bufSize) := by
  rw [console, proxyMain, main, receiveLoop_prints _ (fun _ => rfl) datagrams ends,
    ← List.flatMap_id, List.flatMap_assoc]
  simp only [List.flatMap_map, id]
  rw [← List.flatMap_assoc, readConsole_flatMap]

/-- On datagrams that end, the buffers that the loop of `ForwardProxy` sends. -/
theorem proxyMain_forwards (datagrams : List Datagram)
    (ends : ∀ datagram ∈ datagrams, Ends datagram) :
    (proxyMain datagrams).log.filterMap sent = datagrams.map padded := by
  rw [proxyMain, main, receiveLoop_sends _ datagrams ends, ForwardProxy.main_eq, List.map_map,
    List.map_map]
  refine List.map_congr_left ?_
  intro datagram _
  rw [Function.comp_apply, Function.comp_apply]
  dsimp only
  rw [← store_take, zeroBuf, toList_store_replicate 0 _ (List.length_take_le _ _),
    List.length_take, padded]
  congr 2
  omega

/-- Up to the first datagram without an end, whatever comes then: the console reads back
as the texts of the datagrams, and each is forwarded, cut or padded to the buffer. -/
theorem console_decodes (datagrams rest : List Datagram)
    (ends : ∀ datagram ∈ datagrams, Ends datagram) :
    (proxyMain datagrams).log <+: (proxyMain (datagrams ++ rest)).log ∧
      (proxyMain datagrams).value = some () ∧
      readConsole (console (proxyMain datagrams).log) =
        (datagrams.flatMap fun datagram => textOf 0 (datagram.bytes.take bufSize)) ∧
      (proxyMain datagrams).log.filterMap sent = datagrams.map padded := by
  refine ⟨?_, receiveLoop_value _ datagrams ends, console_reads datagrams ends,
    proxyMain_forwards datagrams ends⟩
  rw [proxyMain, main, main, receiveLoop_append _ datagrams rest ends]
  exact List.prefix_append _ _

def letters : Datagram := ⟨somebody, [0x61, 0xFF, 0x00, 0x62]⟩

theorem letters_ends : Ends letters := Or.inl (by decide)

theorem letters_shown :
    (proxyMain [letters, letters]).log <+: (proxyMain [letters, letters, fullDatagram]).log ∧
      readConsole (console (proxyMain [letters, letters]).log) = [0x61, 0xFF, 0x61, 0xFF] := by
  have ends : ∀ datagram ∈ [letters, letters], Ends datagram := by
    intro datagram member
    rw [List.mem_cons, List.mem_singleton, or_self] at member
    exact member ▸ letters_ends
  obtain ⟨before, -, reads, -⟩ := console_decodes [letters, letters] [fullDatagram] ends
  exact ⟨before, reads⟩

theorem length_padded (datagram : Datagram) : (padded datagram).length = bufSize := by
  rw [padded, List.length_append, List.length_take, List.length_replicate]
  omega

theorem zero_mem_padded {datagram : Datagram} (ends : Ends datagram) : 0 ∈ padded datagram := by
  rw [padded, List.mem_append, List.mem_replicate]
  rcases ends with short | zero
  · exact Or.inr ⟨by omega, rfl⟩
  · exact Or.inl zero

/-- What reaches a further `proxy.c`: any of the datagrams that the one before it sends,
in whatever order and however often. -/
inductive Behind (datagrams : List Datagram) : List Datagram → Prop where
  | next {arrived : List Datagram} (arrive : ∀ datagram ∈ arrived,
      datagram.bytes ∈ (proxyMain datagrams).log.filterMap sent) : Behind datagrams arrived
  | further {before arrived : List Datagram} (behind : Behind datagrams before)
      (arrive : ∀ datagram ∈ arrived,
        datagram.bytes ∈ (proxyMain before).log.filterMap sent) : Behind datagrams arrived

theorem full_forwards {arrived : List Datagram}
    (full : ∀ datagram ∈ arrived, datagram.bytes.length = bufSize ∧ 0 ∈ datagram.bytes) :
    (∀ datagram ∈ arrived, Ends datagram) ∧
      (proxyMain arrived).log.filterMap sent = arrived.map Datagram.bytes := by
  have whole (datagram : Datagram) (member : datagram ∈ arrived) :
      datagram.bytes.take bufSize = datagram.bytes :=
    List.take_of_length_le (Nat.le_of_eq (full datagram member).1)
  have ends : ∀ datagram ∈ arrived, Ends datagram := fun datagram member =>
    Or.inr ((whole datagram member).symm ▸ (full datagram member).2)
  refine ⟨ends, ?_⟩
  rw [proxyMain_forwards arrived ends]
  refine List.map_congr_left ?_
  intro datagram member
  rw [padded, whole datagram member, (full datagram member).1, Nat.sub_self,
    List.replicate_zero, List.append_nil]

/-- The run lemma, by the number of proxies in between. -/
theorem behind_padded {datagrams arrived : List Datagram}
    (ends : ∀ datagram ∈ datagrams, Ends datagram) (behind : Behind datagrams arrived) :
    ∀ datagram ∈ arrived, ∃ first ∈ datagrams, datagram.bytes = padded first := by
  induction behind with
  | next arrive =>
    intro datagram member
    have sends := arrive datagram member
    rw [proxyMain_forwards datagrams ends] at sends
    obtain ⟨first, known, same⟩ := List.mem_map.mp sends
    exact ⟨first, known, same.symm⟩
  | further _ arrive ih =>
    intro datagram member
    have sends := arrive datagram member
    rw [(full_forwards fun datagram member => ?_).2] at sends
    · obtain ⟨passed, known, same⟩ := List.mem_map.mp sends
      exact same ▸ ih passed known
    · obtain ⟨first, known, same⟩ := ih datagram member
      exact ⟨same ▸ length_padded first, same ▸ zero_mem_padded (ends first known)⟩

/-- However many instances of `proxy.c` the traffic has been through, and whatever the
network did in between: the next one prints it within its buffer and passes it on as it
is, and all of it is what the first one was given, cut or padded. -/
theorem behind_passes (datagrams arrived : List Datagram)
    (ends : ∀ datagram ∈ datagrams, Ends datagram) (behind : Behind datagrams arrived) :
    (proxyMain arrived).value = some () ∧ (∀ e ∈ (proxyMain arrived).log, Inside e) ∧
      (proxyMain arrived).log.filterMap sent = arrived.map Datagram.bytes ∧
      ∀ datagram ∈ arrived, ∃ first ∈ datagrams, datagram.bytes = padded first := by
  have known := behind_padded ends behind
  have full : ∀ datagram ∈ arrived, datagram.bytes.length = bufSize ∧ 0 ∈ datagram.bytes := by
    intro datagram member
    obtain ⟨first, given, same⟩ := known datagram member
    exact ⟨same ▸ length_padded first, same ▸ zero_mem_padded (ends first given)⟩
  obtain ⟨ends', forwards⟩ := full_forwards full
  exact ⟨receiveLoop_value _ arrived ends', (receiveLoop_inside_iff _ arrived).mpr ends',
    forwards, known⟩

def paddedLetters : Datagram := ⟨somebody, padded letters⟩

theorem letters_behind : Behind [letters] [paddedLetters] := by
  have first := proxyMain_forwards [letters] (List.forall_mem_singleton.mpr letters_ends)
  have twice : Behind [letters] [paddedLetters, paddedLetters] := by
    refine .next ?_
    rw [first]
    simp [paddedLetters]
  refine .further twice ?_
  rw [(full_forwards ?_).2]
  · simp
  · intro datagram member
    obtain rfl : datagram = paddedLetters := by simpa using member
    exact ⟨length_padded letters, zero_mem_padded letters_ends⟩

theorem letters_pass :
    (proxyMain [paddedLetters]).log.filterMap sent = [padded letters] :=
  (behind_passes [letters] [paddedLetters] (List.forall_mem_singleton.mpr letters_ends)
    letters_behind).2.2.1

def data : IBPacket where
  bth :=
    { opCode := 0x81
      seMPcTVer := 0x00
      pKey := 0xFFFF
      frBrReserved := 0x40
      destQp1 := 0x00
      destQp2 := 0x00
      destQp3 := 0x11
      ackReqRes := 0x0
      psn1 := 0x0
      psn2 := 0x0 }
  payload := Vector.replicate 200 0
  iCRC := 123456
  fcs := 255

theorem fuzzed_text {n : Nat} {draws : Nat → Nat} {bytes : List Byte}
    (fuzzed : bytes ∈ (NaiveFuzzer.main data n draws).value.sent) :
    bytes.length = packetLen ∧ textOf 0 bytes = (bytes.take 1).filter (· ≠ 0) := by
  obtain ⟨packet, rfl, agree⟩ := (NaiveFuzzer.main_invariant data n draws).sent bytes fuzzed
  have second : packet[1] = 0 := (NaiveFuzzer.keepsFields data packet agree).seMPcTVer
  have long : packet.toList.length = packetLen := Vector.length_toList
  have behind : packet.toList.drop 1 = packet[1] :: packet.toList.drop 2 := by
    rw [List.drop_eq_getElem_cons (by rw [long]; decide), Vector.getElem_toList]
  have front : packet.toList.drop 0 = packet[0] :: packet.toList.drop 1 := by
    rw [List.drop_eq_getElem_cons (by rw [long]; decide), Vector.getElem_toList]
  rw [List.drop_zero, behind, second] at front
  refine ⟨long, ?_⟩
  rw [front, textOf_cons, textOf_cons, if_pos rfl, List.take_succ_cons, List.take_zero]
  by_cases zero : packet[0] = 0
  · rw [if_pos zero, List.filter_cons_of_neg (by simpa using zero), List.filter_nil]
  · rw [if_neg zero, List.filter_cons_of_pos (by simpa using zero), List.filter_nil]

/-- Whatever of the fuzzer's datagrams arrives, in any order and more than once: the
console shows the opcodes that are not zero, and each is forwarded whole and padded. -/
theorem fuzzed_forwarded (n : Nat) (draws : Nat → Nat) (datagrams : List Datagram)
    (arrive : ∀ datagram ∈ datagrams,
      datagram.bytes ∈ (NaiveFuzzer.main data n draws).value.sent) :
    (proxyMain datagrams).value = some () ∧
      readConsole (console (proxyMain datagrams).log) =
        ((datagrams.flatMap fun datagram => datagram.bytes.take 1).filter (· ≠ 0)) ∧
      (proxyMain datagrams).log.filterMap sent =
        datagrams.map fun datagram =>
          datagram.bytes ++ List.replicate (bufSize - packetLen) 0 := by
  have short (datagram : Datagram) (member : datagram ∈ datagrams) :
      datagram.bytes.length = packetLen := (fuzzed_text (arrive datagram member)).1
  have cut (datagram : Datagram) (member : datagram ∈ datagrams) :
      datagram.bytes.take bufSize = datagram.bytes := by
    refine List.take_of_length_le ?_
    rw [short datagram member]
    decide
  have ends : ∀ datagram ∈ datagrams, Ends datagram := by
    intro datagram member
    refine Or.inl ?_
    rw [short datagram member]
    decide
  refine ⟨receiveLoop_value _ datagrams ends, ?_, ?_⟩
  · rw [console_reads datagrams ends, List.filter_flatMap]
    refine List.flatMap_congr ?_
    intro datagram member
    rw [cut datagram member, (fuzzed_text (arrive datagram member)).2]
  · rw [proxyMain_forwards datagrams ends]
    refine List.map_congr_left ?_
    intro datagram member
    rw [padded, cut datagram member, short datagram member]

theorem opcode_sent : 0 < packetLen := by decide

def flipped : Vector Byte packetLen :=
  NaiveFuzzer.flipBits (packetBytes data) ⟨0, opcode_sent⟩ 4 0

theorem flipped_sent :
    (NaiveFuzzer.main data 3 fun _ => 0).value.sent =
      [binaryWrite data, (packetBytes data).toList, flipped.toList] := rfl

/-- The packet and its mutant, which has overtaken it. -/
theorem overtaken_forwarded :
    readConsole (console (proxyMain
      [⟨somebody, flipped.toList⟩, ⟨somebody, binaryWrite data⟩]).log) = [0x8E, 0x81] := by
  refine (fuzzed_forwarded 3 (fun _ => 0) _ ?_).2.1.trans (by decide)
  rw [flipped_sent]
  simp

end RdmaFuzzing.ProxyConsole
