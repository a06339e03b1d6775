import RdmaFuzzing.ConnInfo
import RdmaFuzzing.ExitRun
import RdmaFuzzing.HexText

/-! `list_devices.c`: the devices with the GID of their first port, two lines each. The
bytes of a GID are printed without leading zeros, so that only the colons between them
keep them apart; `dev_info.c` prints a GID in the same way. -/

namespace RdmaFuzzing.DeviceListing
open FrameLayout CText HexText ExitRun ConnInfo

/-- A device, and whether its three queries succeed. -/
structure Device where
  name : CString
  gid : Gid
  opened : Bool
  queryPort : Bool
  queryGid : Bool

abbrev Event : Type := List Char8

def heading (numDevices : Nat) : List Char8 :=
  ofString "Found " ++ sprintfD numDevices ++ ofString " device(s):" ++ [0x0A]

/-- The loop over all bytes but the last, and the `printf` behind it. -/
def printGid (gid : Gid) : Run Event Unit :=
  ⟨(gid.toList.take 15).map (fun b => hex .upper b.toNat ++ [0x3A]) ++
    [hex .upper gid[15].toNat ++ [0x0A]], some ()⟩

def printDevice (d : Device) : Run Event Unit := do
  call (ofString "- " ++ d.name.chars ++ [0x0A]) ()
  require d.opened
  require d.queryPort
  require d.queryGid
  call [0x09] ()
  printGid d.gid

def printDevices : List Device → Run Event Unit
  | [] => pure ()
  | d :: rest => do
      printDevice d
      printDevices rest

def printDeviceInformation (deviceList : List Device) : Run Event Unit := do
  call (heading deviceList.length) ()
  printDevices deviceList

def parseGid (text : List Char8) : List Byte :=
  (text.splitOn 0x3A).map fun digits => BitVec.ofNat 8 (unhexNat digits)

/-- A name and its GID; a name without a GID is that of a device that failed. -/
def parseLines : List (List Char8) → List (List Char8 × List Byte)
  | name :: (_ :: gid) :: rest => (name.drop 2, parseGid gid) :: parseLines rest
  | _ => []

def parseListing (text : List Char8) : List (List Char8 × List Byte) :=
  parseLines ((text.splitOn 0x0A).drop 1)

def answers (d : Device) : Bool := d.opened && d.queryPort && d.queryGid

theorem splitOn_line {line : List Char8} (oneLine : 0x0A ∉ line) (rest : List Char8) :
    (line ++ 0x0A :: rest).splitOn 0x0A = line :: rest.splitOn 0x0A := by
  rw [List.splitOn_append_cons_self, List.splitOn_eq_singleton oneLine, List.singleton_append]

theorem splitOn_colons (parts : List (List Char8)) (last : List Char8)
    (apart : ∀ part ∈ parts, 0x3A ∉ part) (apartLast : 0x3A ∉ last) :
    ((parts.flatMap fun part => part ++ [0x3A]) ++ last).splitOn 0x3A = parts ++ [last] := by
  induction parts with
  | nil => exact List.splitOn_eq_singleton apartLast
  | cons part parts ih =>
    obtain ⟨here, later⟩ := List.forall_mem_cons.mp apart
    rw [List.flatMap_cons, List.append_assoc, List.append_assoc, List.singleton_append,
      List.splitOn_append_cons_self, List.splitOn_eq_singleton here, ih later,
      List.singleton_append, List.cons_append]

def gidText (gid : Gid) : List Char8 :=
  ((gid.toList.take 15).flatMap fun b => hex .upper b.toNat ++ [0x3A]) ++
    hex .upper gid[15].toNat

theorem toList_gid (gid : Gid) : gid.toList.take 15 ++ [gid[15]] = gid.toList := by
  have last : gid.toList.drop 15 = [gid[15]] := by
    rw [List.drop_eq_getElem_cons (by simp), List.drop_eq_nil_of_le (by simp)]
    rfl
  rw [← last, List.take_append_drop]

theorem parseGid_gidText (gid : Gid) : parseGid (gidText gid) = gid.toList := by
  have split := splitOn_colons ((gid.toList.take 15).map fun b => hex .upper b.toNat)
    (hex .upper gid[15].toNat) (List.forall_mem_map.mpr fun _ _ => colon_notMem_hex _ _)
    (colon_notMem_hex _ _)
  rw [List.flatMap_map] at split
  rw [parseGid, gidText, split, List.map_append, List.map_map]
  have value (b : Byte) : BitVec.ofNat 8 (unhexNat (hex .upper b.toNat)) = b := by
    rw [unhexNat_hex, BitVec.ofNat_toNat, BitVec.setWidth_eq]
  simp only [Function.comp_def, value, List.map_id', List.map_cons, List.map_nil]
  exact toList_gid gid

theorem newline_notMem_hex (letters : Letters) (n : Nat) : 0x0A ∉ hex letters n := by
  intro member
  exact absurd (space_lt_hex letters n _ member) (by decide)

theorem gidText_oneLine (gid : Gid) : 0x0A ∉ gidText gid := by
  rw [gidText, List.mem_append, not_or]
  refine ⟨?_, newline_notMem_hex _ _⟩
  intro member
  obtain ⟨b, -, member⟩ := List.mem_flatMap.mp member
  rcases List.mem_append.mp member with digit | colon
  · exact newline_notMem_hex _ _ digit
  · exact absurd (List.mem_singleton.mp colon) (by decide)

def OneLine (d : Device) : Prop := 0x0A ∉ d.name.chars

instance : DecidablePred OneLine := fun d => inferInstanceAs (Decidable (0x0A ∉ d.name.chars))

def nameLine (d : Device) : List Char8 := ofString "- " ++ d.name.chars

theorem dash_oneLine : 0x0A ∉ ofString "- " := by decide

theorem nameLine_oneLine {d : Device} (oneLine : OneLine d) : 0x0A ∉ nameLine d := by
  rw [nameLine, List.mem_append, not_or]
  exact ⟨dash_oneLine, oneLine⟩

theorem printGid_text (gid : Gid) : (printGid gid).log.flatten = gidText gid ++ [0x0A] := by
  rw [printGid, List.flatten_append, ← List.flatMap_def, gidText, List.append_assoc]
  simp

theorem printDevice_run (d : Device) :
    (printDevice d).log.flatten =
        nameLine d ++ 0x0A :: (if answers d then (0x09 :: gidText d.gid) ++ [0x0A] else []) ∧
      (printDevice d).value = if answers d then some () else none := by
  rw [printDevice, call_bind, answers]
  cases d.opened with
  | false => exact ⟨by simp [nameLine], rfl⟩
  | true =>
    cases d.queryPort with
    | false => exact ⟨by simp [nameLine], rfl⟩
    | true =>
      cases d.queryGid with
      | false => exact ⟨by simp [nameLine], rfl⟩
      | true =>
        refine ⟨?_, rfl⟩
        simp only [require_bind, if_true, call_bind, List.flatten_cons, printGid_text]
        simp [nameLine]

theorem parseLines_printDevices (devices : List Device) (oneLine : ∀ d ∈ devices, OneLine d) :
    parseLines ((printDevices devices).log.flatten.splitOn 0x0A) =
      (devices.takeWhile answers).map fun d => (d.name.chars, d.gid.toList) := by
  induction devices with
  | nil => rfl
  | cons d rest ih =>
    obtain ⟨here, later⟩ := List.forall_mem_cons.mp oneLine
    obtain ⟨text, value⟩ := printDevice_run d
    rw [printDevices]
    cases up : answers d with
    | false =>
      rw [up, if_neg Bool.false_ne_true] at value text
      rw [bind_none _ value, text, splitOn_line (nameLine_oneLine here),
        List.takeWhile_cons_of_neg (by simp [up])]
      rfl
    | true =>
      have tabbed : 0x0A ∉ 0x09 :: gidText d.gid := by
        rw [List.mem_cons, not_or]
        exact ⟨by decide, gidText_oneLine d.gid⟩
      rw [up, if_pos rfl] at value text
      rw [bind_some _ value, List.flatten_append, text, List.append_assoc, List.cons_append,
        splitOn_line (nameLine_oneLine here), List.append_assoc, List.singleton_append,
        splitOn_line tabbed, parseLines, ih later, parseGid_gidText,
        List.takeWhile_cons_of_pos up, List.map_cons]
      rfl

theorem printDevices_value (devices : List Device) :
    (printDevices devices).value = some () ↔ devices.all answers = true := by
  induction devices with
  | nil => exact iff_of_true rfl rfl
  | cons d rest ih =>
    obtain ⟨-, value⟩ := printDevice_run d
    rw [printDevices, List.all_cons]
    cases up : answers d with
    | false =>
      rw [up, if_neg Bool.false_ne_true] at value
      rw [bind_none _ value, Bool.false_and]
      exact iff_of_false (by simp) (by decide)
    | true =>
      rw [up, if_pos rfl] at value
      rw [bind_some _ value, Bool.true_and]
      exact ih

theorem newline_notMem_sprintfD (n : Nat) : 0x0A ∉ sprintfD n := by
  have positive : ¬(n : Int) < 0 := by omega
  rw [sprintfD, if_neg positive]
  intro member
  exact absurd (isdigit_decimal _ _ member) (by decide)

theorem found_oneLine : 0x0A ∉ ofString "Found " := by decide

theorem devices_oneLine : 0x0A ∉ ofString " device(s):" := by decide

theorem heading_splitOn (n : Nat) (rest : List Char8) :
    (heading n ++ rest).splitOn 0x0A =
      (ofString "Found " ++ sprintfD n ++ ofString " device(s):") :: rest.splitOn 0x0A := by
  rw [heading, List.append_assoc, List.singleton_append]
  refine splitOn_line ?_ rest
  simp only [List.mem_append, not_or]
  exact ⟨⟨found_oneLine, newline_notMem_sprintfD n⟩, devices_oneLine⟩

/-- A listing of devices with names of one line reads back as the names and the GIDs of
those before the first one that fails, and the program returns exactly if none does. -/
theorem listing_decodes (deviceList : List Device) (oneLine : ∀ d ∈ deviceList, OneLine d) :
    parseListing (printDeviceInformation deviceList).log.flatten =
        ((deviceList.takeWhile answers).map fun d => (d.name.chars, d.gid.toList)) ∧
      ((printDeviceInformation deviceList).value = some () ↔
        deviceList.all answers = true) := by
  refine ⟨?_, printDevices_value deviceList⟩
  rw [printDeviceInformation, call_bind, parseListing, List.flatten_cons, heading_splitOn,
    List.drop_one, List.tail_cons, parseLines_printDevices deviceList oneLine]

theorem rxe_terminated : 0 ∉ ofString "rxe0" := by decide

theorem siw_terminated : 0 ∉ ofString "siw0" := by decide

def rxe : Device := ⟨⟨ofString "rxe0", rxe_terminated⟩, Vector.replicate 16 0xFE, true, true, true⟩

def siw : Device := ⟨⟨ofString "siw0", siw_terminated⟩, Vector.replicate 16 0, false, true, true⟩

theorem rxe_listed :
    parseListing (printDeviceInformation [rxe, siw, rxe]).log.flatten =
        [(ofString "rxe0", List.replicate 16 0xFE)] ∧
      (printDeviceInformation [rxe, siw, rxe]).value ≠ some () := by
  have oneLine : ∀ d ∈ [rxe, siw, rxe], OneLine d := by decide
  obtain ⟨listed, returns⟩ := listing_decodes [rxe, siw, rxe] oneLine
  exact ⟨listed, fun ended => absurd (returns.mp ended) (by decide)⟩

end RdmaFuzzing.DeviceListing
