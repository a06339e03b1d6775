import RdmaFuzzing.CText
import RdmaFuzzing.ExitRun

/-! `main` of the clients and servers that take a device name: the copies of the
arguments into buffers from `malloc`, the options, and the search for the device.
Nothing tests the length of an argument; nothing is said about a program after a copy
that is longer than its buffer. -/

namespace RdmaFuzzing.CommandLine
open CText ExitRun

def devNameSize : Nat := 50

def dbFileSize : Nat := 30

/-- A `strcpy` of so many bytes into a buffer, or a device name that is printed. -/
inductive Event where
  | strcpy (len size : Nat)
  | puts (name : CString)
  deriving DecidableEq

def strcpy (size : Nat) (src : CString) : Run Event CString :=
  ⟨[.strcpy (strlen src + 1) size], if strlen src < size then some src else none⟩

/-- What `getopt(argc, argv, "hd:")` returns before it returns EOF. -/
inductive Opt where
  | dbFile (optarg : CString)
  | help
  | unknown

theorem defaultDb_terminated : 0 ∉ ofString "db.txt" := by decide

def defaultDb : CString := ⟨ofString "db.txt", defaultDb_terminated⟩

/-- `none` is a `db_file` that was not specified; `print_usage` exits too. -/
def readOpts (dbFile : Option CString) : List Opt → Run Event (Option CString)
  | [] => pure dbFile
  | .dbFile optarg :: rest => do
      let dbFile ← strcpy dbFileSize optarg
      readOpts (some dbFile) rest
  | .help :: _ => do
      require false
      pure dbFile
  | .unknown :: _ => do
      require false
      pure dbFile

/-- The loop over the devices, which does not stop at the one it finds. -/
def findDevice (devName : CString) (device : Option Nat) (i : Nat) :
    List CString → Run Event (Option Nat)
  | [] => pure device
  | name :: rest => do
      call (.puts name) ()
      findDevice devName (if strcmp devName name = 0 then some i else device) (i + 1) rest

def required {α : Type} : Option α → Run Event α
  | some a => pure a
  | none => ⟨[], none⟩

def dbOrDefault : Option CString → Run Event CString
  | none => strcpy dbFileSize defaultDb
  | some dbFile => pure dbFile

def searchDevices (deviceList : Option (List CString)) (devName : CString) : Run Event Nat := do
  let names ← required deviceList
  let device ← findDevice devName none 0 names
  required device

/-- `main` of `server.c` up to `run_server`, by `argv[1]`, the options among all the
arguments and the names of the device list. -/
def serverMain (arg : Option CString) (opts : List Opt) (deviceList : Option (List CString)) :
    Run Event (Nat × CString) := do
  let arg ← required arg
  let devName ← strcpy devNameSize arg
  let dbFile ← readOpts none opts
  let dbFile ← dbOrDefault dbFile
  let device ← searchDevices deviceList devName
  pure (device, dbFile)

/-- `main` of `client.c` up to `run_client`. -/
def clientMain (arg : Option CString) (deviceList : Option (List CString)) : Run Event Nat := do
  let arg ← required arg
  let devName ← strcpy devNameSize arg
  searchDevices deviceList devName

def accepted : Opt → Bool
  | .dbFile _ => true
  | .help | .unknown => false

def dbArg : Opt → Option CString
  | .dbFile optarg => some optarg
  | .help | .unknown => none

/-- The arguments of `-d` that are copied: those before an option that exits. -/
def copiedDbs (opts : List Opt) : List CString := (opts.takeWhile accepted).filterMap dbArg

def Inside : Event → Prop
  | .strcpy len size => len ≤ size
  | .puts _ => True

theorem strcpy_inside_iff (size : Nat) (src : CString) :
    (∀ e ∈ (strcpy size src).log, Inside e) ↔ strlen src < size := by
  rw [strcpy, List.forall_mem_singleton, Inside, Nat.succ_le_iff]

theorem strcpy_value {size : Nat} {src : CString} (fits : strlen src < size) :
    (strcpy size src).value = some src := if_pos fits

theorem strcpy_stops {size : Nat} {src : CString} (long : ¬strlen src < size) :
    (strcpy size src).value = none := if_neg long

theorem strcpy_bind_inside_iff {β : Type} (size : Nat) (src : CString)
    (f : CString → Run Event β) :
    (∀ e ∈ (strcpy size src >>= f).log, Inside e) ↔
      strlen src < size ∧ ∀ e ∈ (f src).log, Inside e := by
  rw [forall_log_bind, strcpy_inside_iff]
  refine and_congr_right fun fits => ?_
  simp [strcpy_value fits]

theorem strcpy_bind_value_iff {β : Type} (size : Nat) (src : CString)
    (f : CString → Run Event β) (b : β) :
    (strcpy size src >>= f).value = some b ↔ strlen src < size ∧ (f src).value = some b := by
  by_cases fits : strlen src < size
  · rw [bind_some _ (strcpy_value fits), and_iff_right fits]
  · rw [bind_none _ (strcpy_stops fits)]
    exact iff_of_false nofun fun both => fits both.1

theorem copiedDbs_cons (optarg : CString) (rest : List Opt) :
    copiedDbs (.dbFile optarg :: rest) = optarg :: copiedDbs rest := rfl

theorem readOpts_inside_iff (opts : List Opt) (dbFile : Option CString) :
    (∀ e ∈ (readOpts dbFile opts).log, Inside e) ↔
      ∀ db ∈ copiedDbs opts, strlen db < dbFileSize := by
  induction opts generalizing dbFile with
  | nil => exact iff_of_true (List.forall_mem_nil _) (List.forall_mem_nil _)
  | cons opt rest ih =>
    cases opt with
    | help | unknown => exact iff_of_true (List.forall_mem_nil _) (List.forall_mem_nil _)
    | dbFile optarg =>
      rw [readOpts, strcpy_bind_inside_iff, ih, copiedDbs_cons, List.forall_mem_cons]

theorem readOpts_value_iff (opts : List Opt) (dbFile result : Option CString) :
    (readOpts dbFile opts).value = some result ↔
      opts.all accepted = true ∧ (∀ db ∈ copiedDbs opts, strlen db < dbFileSize) ∧
        result = (copiedDbs opts).getLast?.or dbFile := by
  induction opts generalizing dbFile with
  | nil => simp [readOpts, copiedDbs, eq_comm]
  | cons opt rest ih =>
    cases opt with
    | help | unknown =>
      exact iff_of_false nofun fun all => absurd all.1 (by simp [accepted])
    | dbFile optarg =>
      have last : (copiedDbs (.dbFile optarg :: rest)).getLast?.or dbFile =
          (copiedDbs rest).getLast?.or (some optarg) := by
        rw [copiedDbs_cons, List.getLast?_cons]
        cases (copiedDbs rest).getLast? with
        | none => rfl
        | some db => rfl
      rw [readOpts, strcpy_bind_value_iff, ih, last, copiedDbs_cons, List.forall_mem_cons,
        List.all_cons, accepted, Bool.true_and, and_assoc]
      exact and_left_comm

def LastNamed (names : List CString) (devName : CString) (i : Nat) : Prop :=
  names[i]? = some devName ∧ ∀ j, i < j → names[j]? ≠ some devName

theorem findDevice_log (devName : CString) (device : Option Nat) (i : Nat)
    (names : List CString) :
    (findDevice devName device i names).log = names.map .puts := by
  induction names generalizing device i with
  | nil => rfl
  | cons name rest ih => rw [findDevice, call_bind, ih, List.map_cons]

theorem findDevice_value (devName : CString) (device : Option Nat) (i : Nat)
    (names : List CString) :
    (∃ k, LastNamed names devName k ∧
        (findDevice devName device i names).value = some (some (i + k))) ∨
      devName ∉ names ∧ (findDevice devName device i names).value = some device := by
  induction names generalizing device i with
  | nil => exact Or.inr ⟨List.not_mem_nil, rfl⟩
  | cons name rest ih =>
    rw [findDevice, call_bind]
    rcases ih (if strcmp devName name = 0 then some i else device) (i + 1) with
      ⟨k, last, value⟩ | ⟨absent, value⟩
    · refine Or.inl ⟨k + 1, ⟨last.1, ?_⟩, ?_⟩
      · intro j later
        cases j with
        | zero => omega
        | succ j => exact last.2 j (by omega)
      · rw [value, Nat.add_assoc, Nat.add_comm 1 k]
    · by_cases same : devName = name
      · refine Or.inl ⟨0, ⟨by rw [same]; rfl, ?_⟩, ?_⟩
        · intro j later here
          obtain ⟨j, rfl⟩ := Nat.exists_eq_add_of_le' later
          exact absent (List.mem_of_getElem? here)
        · rw [value, if_pos ((strcmp_eq_zero _ _).mpr same), Nat.add_zero]
      · refine Or.inr ⟨?_, ?_⟩
        · rw [List.mem_cons, not_or]
          exact ⟨same, absent⟩
        · rw [value, if_neg fun equal => same ((strcmp_eq_zero _ _).mp equal)]

theorem lastNamed_unique {names : List CString} {devName : CString} {i j : Nat}
    (first : LastNamed names devName i) (second : LastNamed names devName j) : i = j := by
  rcases Nat.lt_trichotomy i j with less | same | more
  · exact absurd second.1 (first.2 j less)
  · exact same
  · exact absurd first.1 (second.2 i more)

theorem searchDevices_value (deviceList : Option (List CString)) (devName : CString) (i : Nat) :
    (searchDevices deviceList devName).value = some i ↔
      ∃ names, deviceList = some names ∧ LastNamed names devName i := by
  cases deviceList with
  | none => exact iff_of_false nofun nofun
  | some names =>
    have given : (required (some names) : Run Event _).value = some names := rfl
    rw [searchDevices, bind_some _ given]
    rcases findDevice_value devName none 0 names with ⟨k, last, value⟩ | ⟨absent, value⟩
    · rw [bind_some _ value, Nat.zero_add]
      refine ⟨?_, ?_⟩
      · intro found
        cases found
        exact ⟨names, rfl, last⟩
      · rintro ⟨_, same, named⟩
        cases same
        rw [lastNamed_unique named last]
        rfl
    · rw [bind_some _ value]
      refine iff_of_false nofun ?_
      rintro ⟨_, same, named⟩
      cases same
      exact absent (List.mem_of_getElem? named.1)

theorem required_log {α : Type} (a : Option α) : (required a : Run Event α).log = [] := by
  cases a with
  | none => rfl
  | some a => rfl

theorem required_bind {α β : Type} (a : α) (f : α → Run Event β) :
    required (some a) >>= f = f a := rfl

theorem searchDevices_inside (deviceList : Option (List CString)) (devName : CString) :
    ∀ e ∈ (searchDevices deviceList devName).log, Inside e := by
  rw [searchDevices, forall_log_bind, required_log]
  refine ⟨List.forall_mem_nil _, fun names _ => ?_⟩
  rw [forall_log_bind, findDevice_log, List.forall_mem_map]
  refine ⟨fun _ _ => trivial, fun device _ => ?_⟩
  rw [required_log]
  exact List.forall_mem_nil _

theorem defaultDb_fits : strlen defaultDb < dbFileSize := by decide

theorem dbOrDefault_run (dbFile : Option CString) :
    (∀ e ∈ (dbOrDefault dbFile).log, Inside e) ∧
      (dbOrDefault dbFile).value = some (dbFile.getD defaultDb) := by
  cases dbFile with
  | none => exact ⟨(strcpy_inside_iff _ _).mpr defaultDb_fits, strcpy_value defaultDb_fits⟩
  | some db => exact ⟨List.forall_mem_nil _, rfl⟩

theorem serverEnd_inside (deviceList : Option (List CString)) (devName : CString)
    (dbFile : Option CString) :
    ∀ e ∈ (dbOrDefault dbFile >>= fun dbFile =>
      searchDevices deviceList devName >>= fun device => pure (device, dbFile)).log,
      Inside e := by
  rw [forall_log_bind]
  refine ⟨(dbOrDefault_run dbFile).1, fun _ _ => ?_⟩
  rw [forall_log_bind]
  exact ⟨searchDevices_inside deviceList devName, fun _ _ => List.forall_mem_nil _⟩

theorem serverEnd_value_iff (deviceList : Option (List CString)) (devName : CString)
    (dbFile : Option CString) (i : Nat) (db : CString) :
    (dbOrDefault dbFile >>= fun dbFile =>
      searchDevices deviceList devName >>= fun device => pure (device, dbFile)).value =
        some (i, db) ↔
      db = dbFile.getD defaultDb ∧ ∃ names, deviceList = some names ∧ LastNamed names devName i := by
  rw [bind_some _ (dbOrDefault_run dbFile).2, ← searchDevices_value]
  cases found : (searchDevices deviceList devName).value with
  | none =>
    rw [bind_none _ found]
    exact iff_of_false nofun fun both => nomatch both.2
  | some k =>
    rw [bind_some _ found, pure_run, Option.some_inj, Option.some_inj, Prod.mk.injEq, and_comm]
    exact and_congr_left' eq_comm

theorem serverMain_inside_iff (arg : Option CString) (opts : List Opt)
    (deviceList : Option (List CString)) :
    (∀ e ∈ (serverMain arg opts deviceList).log, Inside e) ↔
      ∀ name, arg = some name → strlen name < devNameSize ∧
        ∀ db ∈ copiedDbs opts, strlen db < dbFileSize := by
  cases arg with
  | none => exact iff_of_true (List.forall_mem_nil _) nofun
  | some name =>
    simp only [Option.some.injEq, forall_eq']
    rw [serverMain, required_bind, strcpy_bind_inside_iff, forall_log_bind, readOpts_inside_iff]
    exact and_congr_right fun _ => and_iff_left fun dbFile _ =>
      serverEnd_inside deviceList name dbFile

theorem serverMain_value_iff (arg : Option CString) (opts : List Opt)
    (deviceList : Option (List CString)) (i : Nat) (db : CString) :
    (serverMain arg opts deviceList).value = some (i, db) ↔
      opts.all accepted = true ∧ (∀ db ∈ copiedDbs opts, strlen db < dbFileSize) ∧
        db = (copiedDbs opts).getLast?.getD defaultDb ∧
        ∃ name names, arg = some name ∧ strlen name < devNameSize ∧ deviceList = some names ∧
          LastNamed names name i := by
  cases arg with
  | none => exact iff_of_false nofun nofun
  | some name =>
    have read (result : Option CString) := readOpts_value_iff opts none result
    rw [serverMain, required_bind, strcpy_bind_value_iff]
    cases value : (readOpts none opts).value with
    | none =>
      rw [bind_none _ value]
      refine iff_of_false (fun both => nomatch both.2) ?_
      rintro ⟨all, short, -⟩
      have ended := (read _).mpr ⟨all, short, rfl⟩
      rw [value] at ended
      cases ended
    | some dbFile =>
      obtain ⟨all, short, last⟩ := (read dbFile).mp value
      rw [Option.or_none] at last
      rw [bind_some _ value, serverEnd_value_iff, ← last]
      refine ⟨?_, ?_⟩
      · rintro ⟨fits, chosen, names, given, named⟩
        exact ⟨all, short, chosen, name, names, rfl, fits, given, named⟩
      · rintro ⟨-, -, chosen, _, names, same, fits, given, named⟩
        cases same
        exact ⟨fits, chosen, names, given, named⟩

/-- The copies of either `main` stay in their buffers exactly if the device name, and
for a server every argument of `-d` before an option that exits, is short enough. Then
the program is run on the last device with the name, and a server with the last database
it was given or else the default one. -/
theorem mains_choose_iff (arg : Option CString) (opts : List Opt)
    (deviceList : Option (List CString)) :
    ((∀ e ∈ (serverMain arg opts deviceList).log, Inside e) ↔
        ∀ name, arg = some name → strlen name < devNameSize ∧
          ∀ db ∈ copiedDbs opts, strlen db < dbFileSize) ∧
      (∀ i db, (serverMain arg opts deviceList).value = some (i, db) ↔
        opts.all accepted = true ∧ (∀ db ∈ copiedDbs opts, strlen db < dbFileSize) ∧
          db = (copiedDbs opts).getLast?.getD defaultDb ∧
          ∃ name names, arg = some name ∧ strlen name < devNameSize ∧
            deviceList = some names ∧ LastNamed names name i) ∧
      ((∀ e ∈ (clientMain arg deviceList).log, Inside e) ↔
        ∀ name, arg = some name → strlen name < devNameSize) ∧
      ∀ i, (clientMain arg deviceList).value = some i ↔
        ∃ name names, arg = some name ∧ strlen name < devNameSize ∧ deviceList = some names ∧
          LastNamed names name i := by
  refine ⟨serverMain_inside_iff arg opts deviceList, serverMain_value_iff arg opts deviceList,
    ?_, ?_⟩
  · cases arg with
    | none => exact iff_of_true (List.forall_mem_nil _) nofun
    | some name =>
      simp only [Option.some.injEq, forall_eq']
      rw [clientMain, required_bind, strcpy_bind_inside_iff]
      exact and_iff_left (searchDevices_inside deviceList name)
  · intro i
    cases arg with
    | none => exact iff_of_false nofun nofun
    | some name =>
      rw [clientMain, required_bind, strcpy_bind_value_iff, searchDevices_value]
      refine ⟨?_, ?_⟩
      · rintro ⟨fits, names, given, named⟩
        exact ⟨name, names, rfl, fits, given, named⟩
      · rintro ⟨_, names, same, fits, given, named⟩
        cases same
        exact ⟨fits, names, given, named⟩

end RdmaFuzzing.CommandLine
