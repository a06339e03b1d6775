import RdmaFuzzing.CText
import RdmaFuzzing.ExitRun
import RdmaFuzzing.FrameLayout
import RdmaFuzzing.TerminatorScan

/-! How `proxy-f.c` and the two tunnels come by their devices: the options, the
default names, and `tun_alloc`, which asks the kernel for a device of a name and
takes over the name it was given. A name lives in an array of `IFNAMSIZ` bytes that
is written over several times; a shorter name leaves the end of a longer one behind
its terminator. -/

namespace RdmaFuzzing.TapSetup
open FrameLayout CText ExitRun ReusedBuffer TerminatorScan

def ifNamSiz : Nat := 16

def iffTap : Nat := 0x0002

abbrev DevName : Type := Vector Byte ifNamSiz

def zeroName : DevName := Vector.replicate ifNamSiz 0

/-- What one call of `tun_alloc` gets from the kernel: the results of `open` and of
`ioctl`, and the name that the request comes back with. -/
structure Kernel where
  fd : Int
  err : Int
  named : DevName → DevName

/-- Every name comes back with its end in `ifr_name`, as the kernel documents. -/
def Terminates (kernel : Kernel) : Prop := ∀ ifrName, 0 ∈ (kernel.named ifrName).toList

inductive Event where
  | openTun (ret : Int)
  | tunSetIff (ifrName : DevName) (ifrFlags : Nat) (ret : Int)
  | close (fd : Int)
  | strcpy (len : Nat)
  deriving DecidableEq

def strcpy (dst : DevName) (src : List Byte) : Run Event DevName :=
  call (.strcpy (src.length + 1)) (store dst 0 (src ++ [0]))

/-- The bytes behind the text are set to zero. -/
def strncpy (src : DevName) : DevName := store zeroName 0 (textOf 0 src.toList)

def tunAlloc (kernel : Kernel) (dev : DevName) (flags : Nat) : Run Event (Int × DevName) := do
  call (.openTun kernel.fd) ()
  if kernel.fd < 0 then pure (kernel.fd, dev)
  else do
    let ifrName := if dev.toList.head? = some 0 then zeroName else strncpy dev
    call (.tunSetIff ifrName flags kernel.err) ()
    if kernel.err < 0 then do
      call (.close kernel.fd) ()
      pure (kernel.err, dev)
    else do
      let dev ← strcpy dev (textOf 0 (kernel.named ifrName).toList)
      pure (kernel.fd, dev)

/-- What `getopt(argc, argv, "c:s:")` returns before it returns -1. -/
inductive Opt where
  | client (optarg : CString)
  | server (optarg : CString)
  | unknown

def readOpts (clientDevName serverDevName : DevName) :
    List Opt → Run Event (DevName × DevName)
  | [] => pure (clientDevName, serverDevName)
  | .client optarg :: rest => do
      require (strlen optarg < ifNamSiz)
      let clientDevName ← strcpy clientDevName optarg.chars
      readOpts clientDevName serverDevName rest
  | .server optarg :: rest => do
      require (strlen optarg < ifNamSiz)
      let serverDevName ← strcpy serverDevName optarg.chars
      readOpts clientDevName serverDevName rest
  | .unknown :: _ => do
      require false
      pure (clientDevName, serverDevName)

def clientDefault : List Byte := ofString "tap2"

def serverDefault : List Byte := ofString "tap3"

def orDefault (name : DevName) (std : List Byte) : Run Event DevName :=
  if (textOf 0 name.toList).length < 3 then strcpy name std else pure name

structure Devices where
  clientTapFd : Int
  serverTapFd : Int
  clientDevName : DevName
  serverDevName : DevName

/-- The part that the three programs share; ending here is `return 1`. -/
def allocBoth (client server : Kernel) (clientDevName serverDevName : DevName) :
    Run Event Devices := do
  let (clientTapFd, clientDevName) ← tunAlloc client clientDevName iffTap
  require (0 ≤ clientTapFd)
  let (serverTapFd, serverDevName) ← tunAlloc server serverDevName iffTap
  require (0 ≤ serverTapFd)
  pure ⟨clientTapFd, serverTapFd, clientDevName, serverDevName⟩

/-- `main` of `proxy-f.c` up to its `fork`. -/
def proxySetUp (client server : Kernel) (opts : List Opt) : Run Event Devices := do
  let (clientDevName, serverDevName) ← readOpts zeroName zeroName opts
  let clientDevName ← orDefault clientDevName clientDefault
  let serverDevName ← orDefault serverDevName serverDefault
  allocBoth client server clientDevName serverDevName

/-- `main` of `tunnelnofuzz.c` and `taptunnel.c`, whose arrays are not initialised. -/
def tunnelSetUp (client server : Kernel) (clientDevName serverDevName : DevName) :
    Run Event Devices := do
  let clientDevName ← strcpy clientDevName clientDefault
  let serverDevName ← strcpy serverDevName serverDefault
  allocBoth client server clientDevName serverDevName

def padName (text : List Byte) : DevName := store zeroName 0 text

def Holds (name : DevName) (text : List Byte) : Prop :=
  textOf 0 name.toList = text ∧ text.length < ifNamSiz

theorem holds_strcpy (dst : DevName) {text : List Byte} (terminated : 0 ∉ text)
    (fits : text.length < ifNamSiz) : Holds (store dst 0 (text ++ [0])) text := by
  refine ⟨?_, fits⟩
  have room : 0 + (text ++ [0]).length ≤ ifNamSiz := by
    rw [List.length_append, List.length_singleton]
    omega
  rw [toList_store _ _ _ room, List.take_zero, List.nil_append, List.append_assoc]
  exact textOf_terminated terminated _

theorem holds_zeroName : Holds zeroName [] := by
  refine ⟨?_, by decide⟩
  rw [zeroName, Vector.toList_replicate, ifNamSiz, List.replicate_succ]
  exact textOf_terminated List.not_mem_nil _

theorem length_textOf_named {kernel : Kernel} (ends : Terminates kernel) (ifrName : DevName) :
    (textOf 0 (kernel.named ifrName).toList).length < ifNamSiz := by
  have ends := (length_textOf_lt 0 _).mpr (ends ifrName)
  rwa [Vector.length_toList] at ends

theorem asked_eq {name : DevName} {text : List Byte} (holds : Holds name text) :
    (if name.toList.head? = some 0 then zeroName else strncpy name) = padName text := by
  split_ifs with empty
  · cases bytes : name.toList with
    | nil => simp [bytes] at empty
    | cons c rest =>
      have zero : c = 0 := by simpa [bytes] using empty
      have none : text = [] := by rw [← holds.1, bytes, textOf_cons, if_pos zero]
      rw [none, padName, store_nil]
  · rw [strncpy, holds.1, padName]

def allocates (kernel : Kernel) : Prop := 0 ≤ kernel.fd ∧ 0 ≤ kernel.err

instance (kernel : Kernel) : Decidable (allocates kernel) := inferInstanceAs (Decidable (_ ∧ _))

def givenName (kernel : Kernel) (text : List Byte) : List Byte :=
  textOf 0 (kernel.named (padName text)).toList

def allocLog (kernel : Kernel) (text : List Byte) : List Event :=
  if kernel.fd < 0 then [.openTun kernel.fd]
  else if kernel.err < 0 then
    [.openTun kernel.fd, .tunSetIff (padName text) iffTap kernel.err, .close kernel.fd]
  else
    [.openTun kernel.fd, .tunSetIff (padName text) iffTap kernel.err,
      .strcpy ((givenName kernel text).length + 1)]

theorem tunAlloc_run (kernel : Kernel) {name : DevName} {text : List Byte}
    (holds : Holds name text) :
    (tunAlloc kernel name iffTap).log = allocLog kernel text ∧
      ∃ ret given, (tunAlloc kernel name iffTap).value = some (ret, given) ∧
        (0 ≤ ret ↔ allocates kernel) ∧ (allocates kernel → ret = kernel.fd ∧
          (Terminates kernel → Holds given (givenName kernel text))) := by
  rw [tunAlloc, asked_eq holds, allocLog, allocates]
  by_cases closed : kernel.fd < 0
  · simp only [if_pos closed, call_bind, pure_run]
    exact ⟨trivial, kernel.fd, name, rfl, by omega, by omega⟩
  · by_cases refused : kernel.err < 0
    · simp only [if_neg closed, if_pos refused, call_bind, pure_run]
      exact ⟨trivial, kernel.err, name, rfl, by omega, by omega⟩
    · simp only [if_neg closed, if_neg refused, call_bind, strcpy, pure_run]
      refine ⟨rfl, kernel.fd, _, rfl, by omega, fun _ => ⟨rfl, fun ends => ?_⟩⟩
      exact holds_strcpy name (notMem_textOf 0 _) (length_textOf_named ends _)

theorem strcpy_bind {β : Type} (dst : DevName) (src : List Byte) (f : DevName → Run Event β) :
    strcpy dst src >>= f = ⟨.strcpy (src.length + 1) :: (f (store dst 0 (src ++ [0]))).log,
      (f (store dst 0 (src ++ [0]))).value⟩ := rfl

def accepted : Opt → Bool
  | .client optarg => strlen optarg < ifNamSiz
  | .server optarg => strlen optarg < ifNamSiz
  | .unknown => false

def clientArg : Opt → Option (List Byte)
  | .client optarg => some optarg.chars
  | _ => none

def serverArg : Opt → Option (List Byte)
  | .server optarg => some optarg.chars
  | _ => none

def lastArg (arg : Opt → Option (List Byte)) (text : List Byte) (opts : List Opt) : List Byte :=
  (opts.filterMap arg).getLast?.getD text

theorem lastArg_cons (arg : Opt → Option (List Byte)) (text : List Byte) (opt : Opt)
    (opts : List Opt) :
    lastArg arg text (opt :: opts) = lastArg arg ((arg opt).getD text) opts := by
  cases given : arg opt with
  | none => rw [lastArg, List.filterMap_cons_none given, Option.getD_none, lastArg]
  | some optarg =>
    rw [lastArg, List.filterMap_cons_some given, List.getLast?_cons, Option.getD_some,
      Option.getD_some, lastArg]

def Copies (log : List Event) : Prop := ∀ e ∈ log, ∃ len, len ≤ ifNamSiz ∧ e = .strcpy len

theorem copies_nil : Copies [] := fun _ h => absurd h List.not_mem_nil

theorem copies_cons {len : Nat} {log : List Event} (fits : len ≤ ifNamSiz) (rest : Copies log) :
    Copies (.strcpy len :: log) := by
  intro e member
  rcases List.mem_cons.mp member with rfl | later
  · exact ⟨len, fits, rfl⟩
  · exact rest e later

/-- The arrays hold these names at the end; before a refused option, they were
overwritten within their size. -/
structure Reads (run : Run Event (DevName × DevName)) (all : Bool) (client server : List Byte) :
    Prop where
  copies : Copies run.log
  refused : all = false → run.value = none
  read : all = true → ∃ c s, run.value = some (c, s) ∧ Holds c client ∧ Holds s server

theorem reads_copy {optarg : CString} {dst : DevName} {f : DevName → Run Event (DevName × DevName)}
    {all : Bool} {client server : List Byte}
    (rest : strlen optarg < ifNamSiz →
      Reads (f (store dst 0 (optarg.chars ++ [0]))) all client server) :
    Reads (require (strlen optarg < ifNamSiz) >>= fun _ => strcpy dst optarg.chars >>= f)
      (decide (strlen optarg < ifNamSiz) && all) client server := by
  rw [require_bind]
  by_cases fits : strlen optarg < ifNamSiz
  · obtain ⟨copies, refused, read⟩ := rest fits
    rw [if_pos (by simpa using fits), strcpy_bind, decide_eq_true fits, Bool.true_and]
    exact ⟨copies_cons fits copies, refused, read⟩
  · rw [if_neg (by simpa using fits), decide_eq_false fits, Bool.false_and]
    exact ⟨copies_nil, fun _ => rfl, fun all => absurd all (by decide)⟩

theorem readOpts_run (opts : List Opt) {clientDevName serverDevName : DevName}
    {client server : List Byte} (holdsClient : Holds clientDevName client)
    (holdsServer : Holds serverDevName server) :
    Reads (readOpts clientDevName serverDevName opts) (opts.all accepted)
      (lastArg clientArg client opts) (lastArg serverArg server opts) := by
  induction opts generalizing clientDevName serverDevName client server with
  | nil =>
    refine ⟨copies_nil, fun refused => absurd refused (by decide), fun _ => ?_⟩
    exact ⟨clientDevName, serverDevName, rfl, holdsClient, holdsServer⟩
  | cons opt opts ih =>
    rw [List.all_cons, lastArg_cons, lastArg_cons]
    cases opt with
    | unknown => exact ⟨copies_nil, fun _ => rfl, fun all => absurd all (by simp [accepted])⟩
    | client optarg =>
      rw [readOpts, accepted]
      exact reads_copy fun fits =>
        ih (holds_strcpy clientDevName optarg.terminated fits) holdsServer
    | server optarg =>
      rw [readOpts, accepted]
      exact reads_copy fun fits =>
        ih holdsClient (holds_strcpy serverDevName optarg.terminated fits)

def orElse (std text : List Byte) : List Byte := if text.length < 3 then std else text

theorem orDefault_run {name : DevName} {text std : List Byte} (holds : Holds name text)
    (terminated : 0 ∉ std) (fits : std.length < ifNamSiz) :
    Copies (orDefault name std).log ∧ ∃ given, (orDefault name std).value = some given ∧
      Holds given (orElse std text) := by
  rw [orDefault, holds.1, orElse]
  split_ifs with short
  · exact ⟨copies_cons fits copies_nil, _, rfl, holds_strcpy name terminated fits⟩
  · exact ⟨copies_nil, name, rfl, holds⟩

theorem clientDefault_terminated : 0 ∉ clientDefault := by decide

theorem serverDefault_terminated : 0 ∉ serverDefault := by decide

theorem length_clientDefault : clientDefault.length < ifNamSiz := by decide

theorem length_serverDefault : serverDefault.length < ifNamSiz := by decide

def bothLog (client server : Kernel) (clientText serverText : List Byte) : List Event :=
  allocLog client clientText ++ if allocates client then allocLog server serverText else []

/-- The descriptors, and the names as the kernel gave them if it gave them with their ends. -/
structure Given (client server : Kernel) (clientText serverText : List Byte) (d : Devices) :
    Prop where
  clientFd : d.clientTapFd = client.fd
  serverFd : d.serverTapFd = server.fd
  clientName : Terminates client → Holds d.clientDevName (givenName client clientText)
  serverName : Terminates server → Holds d.serverDevName (givenName server serverText)

theorem allocBoth_run (client server : Kernel) {clientDevName serverDevName : DevName}
    {clientText serverText : List Byte} (holdsClient : Holds clientDevName clientText)
    (holdsServer : Holds serverDevName serverText) :
    (allocBoth client server clientDevName serverDevName).log =
        bothLog client server clientText serverText ∧
      ((allocBoth client server clientDevName serverDevName).value.isSome ↔
        allocates client ∧ allocates server) ∧
      ∀ d, (allocBoth client server clientDevName serverDevName).value = some d →
        Given client server clientText serverText d := by
  obtain ⟨clientLog, ret, c, clientValue, clientOk, clientGiven⟩ := tunAlloc_run client holdsClient
  obtain ⟨serverLog, ret', s, serverValue, serverOk, serverGiven⟩ := tunAlloc_run server holdsServer
  rw [allocBoth, bind_some _ clientValue, clientLog, bothLog]
  by_cases first : allocates client
  · simp only [require_bind, decide_eq_true (clientOk.mpr first), if_true, if_pos first]
    rw [bind_some _ serverValue, serverLog]
    by_cases second : allocates server
    · simp only [decide_eq_true (serverOk.mpr second), if_true, pure_run, List.append_nil]
      refine ⟨trivial, iff_of_true rfl ⟨first, second⟩, ?_⟩
      intro d same
      cases same
      exact ⟨(clientGiven first).1, (serverGiven second).1, (clientGiven first).2,
        (serverGiven second).2⟩
    · have negative : decide (0 ≤ ret') = false := decide_eq_false fun h => second (serverOk.mp h)
      simp only [negative, Bool.false_eq_true, if_false, List.append_nil]
      exact ⟨trivial, iff_of_false (by simp) fun h => second h.2, fun d same => nomatch same⟩
  · have negative : decide (0 ≤ ret) = false := decide_eq_false fun h => first (clientOk.mp h)
    simp only [require_bind, negative, Bool.false_eq_true, if_false, if_neg first,
      List.append_nil]
    exact ⟨trivial, iff_of_false (by simp) fun h => first h.1, fun d same => nomatch same⟩

def clientText (opts : List Opt) : List Byte := orElse clientDefault (lastArg clientArg [] opts)

def serverText (opts : List Opt) : List Byte := orElse serverDefault (lastArg serverArg [] opts)

theorem proxySetUp_run (client server : Kernel) (opts : List Opt) :
    ∃ copies, Copies copies ∧
      (opts.all accepted = false → (proxySetUp client server opts).log = copies ∧
        (proxySetUp client server opts).value = none) ∧
      (opts.all accepted = true → (proxySetUp client server opts).log =
          copies ++ bothLog client server (clientText opts) (serverText opts) ∧
        ((proxySetUp client server opts).value.isSome ↔ allocates client ∧ allocates server) ∧
        ∀ d, (proxySetUp client server opts).value = some d →
          Given client server (clientText opts) (serverText opts) d) := by
  obtain ⟨copies, refused, read⟩ := readOpts_run opts holds_zeroName holds_zeroName
  rw [proxySetUp]
  cases all : opts.all accepted with
  | false =>
    rw [bind_none _ (refused all)]
    exact ⟨_, copies, fun _ => ⟨rfl, rfl⟩, fun h => absurd h (by decide)⟩
  | true =>
    obtain ⟨c, s, value, holdsClient, holdsServer⟩ := read all
    obtain ⟨clientCopies, c', clientValue, clientHolds⟩ :=
      orDefault_run holdsClient clientDefault_terminated length_clientDefault
    obtain ⟨serverCopies, s', serverValue, serverHolds⟩ :=
      orDefault_run holdsServer serverDefault_terminated length_serverDefault
    obtain ⟨log, some_iff, devices⟩ := allocBoth_run client server clientHolds serverHolds
    rw [bind_some _ value]
    simp only [bind_some _ clientValue, bind_some _ serverValue, log, ← List.append_assoc]
    refine ⟨_, ?_, fun h => absurd h (by decide), fun _ => ⟨rfl, some_iff, devices⟩⟩
    intro e member
    rcases List.mem_append.mp member with member | member
    · rcases List.mem_append.mp member with member | member
      · exact copies e member
      · exact clientCopies e member
    · exact serverCopies e member

def requested : Event → Option (DevName × Nat)
  | .tunSetIff ifrName ifrFlags _ => some (ifrName, ifrFlags)
  | _ => none

def asked (kernel : Kernel) (text : List Byte) : List (DevName × Nat) :=
  if kernel.fd < 0 then [] else [(padName text, iffTap)]

theorem requested_copies {log : List Event} (copies : Copies log) :
    log.filterMap requested = [] := by
  refine List.filterMap_eq_nil_iff.mpr ?_
  intro e member
  obtain ⟨len, -, rfl⟩ := copies e member
  rfl

theorem requested_allocLog (kernel : Kernel) (text : List Byte) :
    (allocLog kernel text).filterMap requested = asked kernel text := by
  rw [allocLog, asked]
  split_ifs with closed refused
  · rfl
  · rfl
  · rfl

theorem strcpy_allocLog {kernel : Kernel} (ends : Terminates kernel) {text : List Byte}
    {len : Nat} (member : .strcpy len ∈ allocLog kernel text) : len ≤ ifNamSiz := by
  have short := length_textOf_named ends (padName text)
  rw [allocLog, givenName] at member
  split_ifs at member with closed refused
  · simp at member
  · simp at member
  · simp only [List.mem_cons, reduceCtorEq, false_or, Event.strcpy.injEq, List.not_mem_nil,
      or_false] at member
    omega

theorem strcpy_bothLog {client server : Kernel} (clientEnds : Terminates client)
    (serverEnds : Terminates server) {c s : List Byte} {len : Nat}
    (member : .strcpy len ∈ bothLog client server c s) : len ≤ ifNamSiz := by
  rw [bothLog] at member
  rcases List.mem_append.mp member with member | member
  · exact strcpy_allocLog clientEnds member
  · split_ifs at member
    · exact strcpy_allocLog serverEnds member
    · exact absurd member List.not_mem_nil

/-- The names asked for are the last arguments, or the default for an argument of less
than three bytes, with nothing of an earlier name behind them and with no other flag than
`IFF_TAP`. From a kernel that ends its names no copy leaves an array, and the arrays end
up with the names it gave. -/
theorem setUp_requests (client server : Kernel) (clientEnds : Terminates client)
    (serverEnds : Terminates server) (opts : List Opt) :
    (proxySetUp client server opts).log.filterMap requested =
        (if opts.all accepted then
          asked client (clientText opts) ++
            if allocates client then asked server (serverText opts) else []
        else []) ∧
      (∀ len, .strcpy len ∈ (proxySetUp client server opts).log → len ≤ ifNamSiz) ∧
      ((proxySetUp client server opts).value.isSome ↔
        opts.all accepted = true ∧ allocates client ∧ allocates server) ∧
      ∀ d, (proxySetUp client server opts).value = some d →
        d.clientTapFd = client.fd ∧ d.serverTapFd = server.fd ∧
          Holds d.clientDevName (givenName client (clientText opts)) ∧
          Holds d.serverDevName (givenName server (serverText opts)) := by
  obtain ⟨copies, onlyCopies, refused, read⟩ := proxySetUp_run client server opts
  have inside (len : Nat) (member : .strcpy len ∈ copies) : len ≤ ifNamSiz := by
    obtain ⟨_, fits, same⟩ := onlyCopies _ member
    cases same
    exact fits
  cases all : opts.all accepted with
  | false =>
    obtain ⟨log, value⟩ := refused all
    rw [log, value, if_neg Bool.false_ne_true]
    exact ⟨requested_copies onlyCopies, inside, by simp, fun d same => nomatch same⟩
  | true =>
    obtain ⟨log, some_iff, devices⟩ := read all
    rw [log, some_iff, if_pos rfl]
    refine ⟨?_, ?_, by simp, ?_⟩
    · rw [List.filterMap_append, requested_copies onlyCopies, List.nil_append, bothLog,
        List.filterMap_append, requested_allocLog]
      split_ifs
      · rw [requested_allocLog]
      · rfl
    · intro len member
      rcases List.mem_append.mp member with member | member
      · exact inside len member
      · exact strcpy_bothLog clientEnds serverEnds member
    · intro d ended
      have given := devices d ended
      exact ⟨given.clientFd, given.serverFd, given.clientName clientEnds,
        given.serverName serverEnds⟩

/-- A kernel that hands on the name it was asked for, cut where it has to end. -/
def plainKernel (fd : Int) : Kernel := ⟨fd, 0, fun ifrName => store ifrName 15 [0]⟩

theorem plainKernel_terminates (fd : Int) : Terminates (plainKernel fd) := by
  intro ifrName
  have last : (store ifrName 15 [0])[15] = 0 := by
    rw [getElem_store]
    rfl
  exact last ▸ Vector.mem_toList_iff.mpr (Vector.getElem_mem _)

theorem tap7_terminated : 0 ∉ ofString "tap7" := by decide

theorem x_terminated : 0 ∉ ofString "x" := by decide

def typed : List Opt :=
  [.client ⟨ofString "tap7", tap7_terminated⟩, .server ⟨ofString "x", x_terminated⟩]

theorem typed_given :
    clientText typed = ofString "tap7" ∧ serverText typed = serverDefault ∧
      givenName (plainKernel 3) (ofString "tap7") = ofString "tap7" ∧
      givenName (plainKernel 4) serverDefault = serverDefault := by decide

theorem typed_devices :
    (proxySetUp (plainKernel 3) (plainKernel 4) typed).log.filterMap requested =
        [(padName (ofString "tap7"), iffTap), (padName serverDefault, iffTap)] ∧
      ∃ d, (proxySetUp (plainKernel 3) (plainKernel 4) typed).value = some d ∧
        Holds d.clientDevName (ofString "tap7") ∧ Holds d.serverDevName serverDefault := by
  obtain ⟨asks, -, ends, given⟩ := setUp_requests (plainKernel 3) (plainKernel 4)
    (plainKernel_terminates 3) (plainKernel_terminates 4) typed
  obtain ⟨d, value⟩ := Option.isSome_iff_exists.mp (ends.mpr (by decide))
  obtain ⟨-, -, clientName, serverName⟩ := given d value
  obtain ⟨client, server, first, second⟩ := typed_given
  rw [client, first] at clientName
  rw [server, second] at serverName
  exact ⟨asks, d, value, clientName, serverName⟩

def held (fds : List Int) : Event → List Int
  | .openTun ret => if ret < 0 then fds else ret :: fds
  | .close fd => fds.erase fd
  | _ => fds

def leftOpen (log : List Event) : List Int := log.foldl held []

theorem held_copies {log : List Event} (copies : Copies log) (fds : List Int) :
    log.foldl held fds = fds := by
  induction log with
  | nil => rfl
  | cons e log ih =>
    obtain ⟨len, -, rfl⟩ := copies e List.mem_cons_self
    exact ih fun e later => copies e (List.mem_cons_of_mem _ later)

theorem held_allocLog (kernel : Kernel) (text : List Byte) (fds : List Int) :
    (allocLog kernel text).foldl held fds =
      if allocates kernel then kernel.fd :: fds else fds := by
  rw [allocLog]
  by_cases closed : kernel.fd < 0
  · rw [if_pos closed, if_neg fun given : allocates kernel => absurd given.1 (by omega)]
    exact if_pos closed
  · by_cases refused : kernel.err < 0
    · rw [if_neg closed, if_pos refused,
        if_neg fun given : allocates kernel => absurd given.2 (by omega)]
      simp [held, closed]
    · have given : allocates kernel := ⟨by omega, by omega⟩
      rw [if_neg closed, if_neg refused, if_pos given]
      simp [held, closed]

/-- Only a server device that is refused after the client's was given leaves a
descriptor behind that no loop will use. -/
theorem setUp_leftOpen (client server : Kernel) (opts : List Opt) :
    leftOpen (proxySetUp client server opts).log =
      match (proxySetUp client server opts).value with
      | some d => [d.serverTapFd, d.clientTapFd]
      | none => if opts.all accepted ∧ allocates client then [client.fd] else [] := by
  obtain ⟨copies, onlyCopies, refused, read⟩ := proxySetUp_run client server opts
  cases all : opts.all accepted with
  | false =>
    obtain ⟨log, value⟩ := refused all
    rw [log, value]
    exact held_copies onlyCopies []
  | true =>
    obtain ⟨log, some_iff, devices⟩ := read all
    rw [log, leftOpen, List.foldl_append, held_copies onlyCopies, bothLog, List.foldl_append,
      held_allocLog]
    cases value : (proxySetUp client server opts).value with
    | none =>
      rw [value] at some_iff
      by_cases first : allocates client
      · have second : ¬allocates server := fun h => absurd (some_iff.mpr ⟨first, h⟩) (by simp)
        simp only [first, if_true, and_self, held_allocLog, if_neg second]
      · simp only [first, if_false, and_false, List.foldl_nil]
    | some d =>
      obtain ⟨clientFd, serverFd, -, -⟩ := devices d value
      rw [value] at some_iff
      obtain ⟨first, second⟩ := some_iff.mp rfl
      simp only [first, if_true, held_allocLog, second, clientFd, serverFd]

/-- Whatever the arrays held, a tunnel makes the calls of `proxy-f.c` without options. -/
theorem tunnelSetUp_run (client server : Kernel) (clientDevName serverDevName : DevName) :
    (tunnelSetUp client server clientDevName serverDevName).log =
        (proxySetUp client server []).log ∧
      ∀ d, (tunnelSetUp client server clientDevName serverDevName).value = some d →
        Given client server clientDefault serverDefault d := by
  have holds (dst : DevName) : Holds (store dst 0 (clientDefault ++ [0])) clientDefault :=
    holds_strcpy dst clientDefault_terminated length_clientDefault
  have holds' (dst : DevName) : Holds (store dst 0 (serverDefault ++ [0])) serverDefault :=
    holds_strcpy dst serverDefault_terminated length_serverDefault
  have short (std : List Byte) : orDefault zeroName std = strcpy zeroName std := by
    rw [orDefault, holds_zeroName.1]
    rfl
  obtain ⟨log, -, devices⟩ := allocBoth_run client server (holds clientDevName)
    (holds' serverDevName)
  obtain ⟨plain, -, -⟩ := allocBoth_run client server (holds zeroName) (holds' zeroName)
  have noOption : proxySetUp client server [] =
      tunnelSetUp client server zeroName zeroName := by
    rw [tunnelSetUp, ← short, ← short]
    rfl
  rw [noOption, tunnelSetUp, tunnelSetUp]
  simp only [strcpy_bind, log, plain]
  exact ⟨trivial, devices⟩

end RdmaFuzzing.TapSetup
