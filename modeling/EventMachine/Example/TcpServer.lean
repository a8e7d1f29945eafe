import EventMachine.Example.StdinStdout
import EventMachine.Timers.Creation

/-!
# A server on top of the machine

`example/tcp-server.c`: the handler of the listening socket accepts connections and registers each with
a record of its own, the handler of the connections prints what they send and closes them when they hang
up. What the program's own calls come to is given (`Net`), what they have done so far is the state of
the program (`Server`).

The variable `old_ed` of `connection_hadnler()` is not initialised, and `event_machine_delete()` leaves it
alone, for the machine has no storage. What the handler tests after a connection has hung up is what
happens to be there (`Net.oldEd`). That decides over `free()`, the connection does not
(`tcp_server_accounts`). Nothing ever tells the machine to terminate, so that the end of `main()` is not
reached (`tcp_server_never_stops`).
-/

namespace EventMachine

open Lib

def EPOLLERR : UInt32 := 0x8
def EPOLLRDHUP : UInt32 := 0x2000
def EPOLLET : UInt32 := 0x80000000

def BUFSIZ : Nat := 8192

/-! ## The program -/

/-- What the `i`-th call of each kind comes to. The `i`-th `accept()` yields an address, unless it fails,
the `i`-th `read()` of an open socket the bytes that have arrived. `past i` is what is found behind the
buffer then, up to the first zero, and `oldEd i` is what the memory of `old_ed` holds when the `i`-th
connection hangs up. -/
structure Net where
  socket : Bool
  bind : Bool
  listen : Bool
  malloc : Nat → Bool
  accept : Nat → Option UInt32
  read : Nat → Option (List UInt8)
  past : Nat → List UInt8
  oldEd : Nat → EDRef

/-- `struct connection_data`; the pointer is the number of the record it is part of. -/
structure ConnectionData where
  pointer : Nat
  remoteAddress : UInt32
  deriving DecidableEq, Repr

/-- What a `printf()` prints. -/
inductive Message
  | accepted (address : UInt32)
  | text (address : UInt32) (bytes : List UInt8)
  | closed (address : UInt32)
  | addFailed
  deriving DecidableEq, Repr

/-- A line of the output. The private data of the connection and its socket are ghost fields. -/
structure Line where
  data : VoidPtr
  socket : Int
  message : Message
  deriving DecidableEq, Repr

/-- The calls so far, the records (the descriptor of record `a` is object `a`, its data are the user
memory `a`), those that have been freed, and the output. A record that has been freed is not handed out
again and keeps its content. -/
structure Server where
  mallocs : Nat
  accepts : Nat
  reads : Nat
  hangups : Nat
  records : Nat
  connection : Nat → ConnectionData
  freed : List Nat
  output : List Line

def Server.start : Server := ⟨0, 0, 0, 0, 0, fun _ => ⟨0, 0⟩, [], []⟩

def Server.print (s : Server) (l : Line) : Server := { s with output := s.output ++ [l] }

/-- What `%s` prints of the buffer, which is zero where nothing was read. -/
def cString (bytes past : List UInt8) : List UInt8 :=
  if bytes.length = BUFSIZ ∧ 0 ∉ bytes then bytes ++ past else bytes.takeWhile (· ≠ 0)

def modifyServer (f : Server → Server) : Sys Server Unit :=
  modifyGet fun w => ((), { w with storage := f w.storage })

/-- `malloc()` of a record, and the pointer it gets to itself. -/
def mallocRecord (net : Net) : Sys Server (Option Nat) :=
  modifyGet fun w =>
    let s := { w.storage with mallocs := w.storage.mallocs + 1 }
    if net.malloc w.storage.mallocs then
      (some (s.records + 1), { w with storage := { s with
        records := s.records + 1
        connection := Function.update s.connection (s.records + 1)
          { s.connection (s.records + 1) with pointer := s.records + 1 } } })
    else (none, { w with storage := s })

/-- `accept()`, which writes the address into record `a`. -/
def acceptConnection (net : Net) (listeningSocket : Int) (a : Nat) : Sys Server (Option Int) :=
  modifyGet fun w =>
    let s := { w.storage with accepts := w.storage.accepts + 1 }
    match w.kernel.file listeningSocket, net.accept w.storage.accepts with
    | some _, some address =>
      (some (w.kernel.openFile .other .other 0 false).1,
        { w with
          kernel := (w.kernel.openFile .other .other 0 false).2
          storage := { s with
            connection :=
              Function.update s.connection a { s.connection a with remoteAddress := address } } })
    | _, _ => (none, { w with storage := s })

/-- `read(socket, &read_buffer, BUFSIZ)`, and what is found behind the buffer. -/
def readSocket (net : Net) (socket : Int) : Sys Server (Option (List UInt8 × List UInt8)) :=
  modifyGet fun w =>
    match w.kernel.file socket with
    | none => (none, w)
    | some _ =>
      ((net.read w.storage.reads).map fun bytes => (bytes.take BUFSIZ, net.past w.storage.reads),
        { w with storage := { w.storage with reads := w.storage.reads + 1 } })

/-- The `struct connection_data` a pointer points to. -/
def connectionData : VoidPtr → Sys Server ConnectionData
  | .user a => modifyGet fun w => (w.storage.connection a, w)
  | _ => throw .nullPointer

/-- The first `if` of `connection_hadnler()`, and whether the function goes on after it. -/
def receive (net : Net) (events : UInt32) (socket : Int) (data : VoidPtr) (address : UInt32) :
    Sys Server Bool := do
  if events &&& EPOLLIN = 0 then return true
  match ← readSocket net socket with
  | none => return false
  | some ([], _) => return true
  | some (bytes, past) =>
    modifyServer (·.print ⟨data, socket, .text address (cString bytes past)⟩)
    return true

/-- The content of `old_ed` when it comes into scope. -/
def uninitialised (net : Net) : Sys Server EDRef :=
  modifyGet fun w => (net.oldEd w.storage.hangups,
    { w with storage := { w.storage with hangups := w.storage.hangups + 1 } })

/-- `free()` of the record `old_ed` is part of, unless `old_ed` is `NULL`. -/
def freeOld : EDRef → Sys Server Unit
  | none => pure ()
  | some oldEd => do
    let ed ← getED oldEd
    let d ← connectionData ed.data
    modifyServer fun s => { s with freed := s.freed ++ [d.pointer] }

/-- The block of the second `if` of `connection_hadnler()`. -/
def hangUp (net : Net) (em : EMPtr) (socket : Int) (data : VoidPtr) (address : UInt32) :
    Sys Server Unit := do
  let oldEd ← uninitialised net
  let (_, oldEd) ← eventMachineDelete (some em) socket (some oldEd)
  let _ ← close .other socket
  freeOld (oldEd.getD none)
  modifyServer (·.print ⟨data, socket, .closed address⟩)

/-- `connection_hadnler()`. -/
def connectionHadnler (net : Net) (em : EMPtr) (events : UInt32) (socket : Int) (data : VoidPtr) :
    Sys Server Unit := do
  let d ← connectionData data
  if ¬ (← receive net events socket data d.remoteAddress) then return
  if events &&& EPOLLERR ≠ 0 ∨ events &&& EPOLLRDHUP ≠ 0 then
    hangUp net em socket data d.remoteAddress

/-- `accept_handler()`. -/
def acceptHandler (net : Net) (em : EMPtr) (listeningSocket : Int) : Sys Server Unit := do
  let some a ← mallocRecord net | return
  let some socket ← acceptConnection net listeningSocket a | return
  modifyGet fun w => ((), { w with
    descriptors := Function.update w.descriptors a
      ⟨EPOLLIN ||| EPOLLRDHUP ||| EPOLLET, socket, .user a, some (.user 1)⟩ })
  let ret ← eventMachineAdd (some em) (some (.obj a))
  if ¬ isEmSuccess ret then
    modifyServer (·.print ⟨.user a, socket, .addFailed⟩)
    return
  let d ← connectionData (.user a)
  modifyServer (·.print ⟨.user a, socket, .accepted d.remoteAddress⟩)

/-- The functions of the program; it has no timers. -/
def tcpServerCode (net : Net) : UserCode Server where
  handler h em events fd data :=
    match h with
    | 0 => acceptHandler net em fd
    | _ => connectionHadnler net em events fd data
  callback _ _ _ := pure ()

/-- `socket()`. -/
def openSocket (net : Net) : Sys Server (Option Int) :=
  modifyGet fun w =>
    if net.socket then
      (some (w.kernel.openFile .other .other 0 false).1,
        { w with kernel := (w.kernel.openFile .other .other 0 false).2 })
    else (none, w)

/-- `main()` up to its call of `event_machine_run()`: the listening socket, if it gets there. -/
def tcpServerStart (net : Net) (usePipe2 : Bool) : Sys Server (Option Int) := do
  modifyEM 0 fun _ => emStaticWithMaxEvents Server EM_DEFAULT_MAX_EVENTS (some (.user 0))
  let some listeningSocket ← openSocket net | return none
  if ¬ net.bind then return none
  if ¬ net.listen then return none
  let ret ← eventMachineInit usePipe2 (some 0)
  if ¬ isEmSuccess ret then return none
  modifyGet fun w => ((), { w with
    descriptors := Function.update w.descriptors 0 ⟨EPOLLIN, listeningSocket, .null, some (.user 0)⟩ })
  let ret ← eventMachineAdd (some 0) (some (.obj 0))
  if ¬ isEmSuccess ret then return none
  return some listeningSocket

/-- `main()`, with at most `fuel` rounds of the main loop; `none` when that is still going on. -/
def tcpServerMain (net : Net) (usePipe2 : Bool) (waits : Nat → WaitOutcome) (fuel : Nat) :
    Sys Server (Option ExitStatus) := do
  let some listeningSocket ← tcpServerStart net usePipe2 | return some .failure
  match ← eventMachineRun (tcpServerCode net) (some 0) waits fuel with
  | none => return none
  | some ret =>
    if ¬ isEmSuccess ret then return some .failure
    let (ret, _) ← eventMachineDelete (some 0) listeningSocket none
    if ¬ isEmSuccess ret then return some .failure
    let ret ← eventMachineDestroy (some 0)
    if ¬ isEmSuccess ret then return some .failure
    let _ ← close .other listeningSocket
    return some .success

/-! ## The handlers -/

/-- The text printed after the `i`-th `read()`, if that has read anything. -/
def Net.text (net : Net) (i : Nat) : Option (List UInt8) :=
  match net.read i with
  | none => none
  | some bytes => if bytes.take BUFSIZ = [] then none else some (cString (bytes.take BUFSIZ) (net.past i))

namespace Server

/-- One more `read()`. -/
def received (s : Server) (net : Net) (data : VoidPtr) (socket : Int) (address : UInt32) : Server :=
  match net.text s.reads with
  | none => { s with reads := s.reads + 1 }
  | some bytes => { s with reads := s.reads + 1 }.print ⟨data, socket, .text address bytes⟩

/-- One more record. -/
def allocated (s : Server) : Server :=
  { s with
    mallocs := s.mallocs + 1
    records := s.records + 1
    connection := Function.update s.connection (s.records + 1)
      { s.connection (s.records + 1) with pointer := s.records + 1 } }

/-- One more connection, with a new record. -/
def connected (s : Server) (address : UInt32) : Server :=
  { s.allocated with
    accepts := s.accepts + 1
    connection := Function.update s.allocated.connection (s.records + 1)
      { s.allocated.connection (s.records + 1) with remoteAddress := address } }

theorem connected_connection (s : Server) (address : UInt32) (a : Nat) :
    (s.connected address).connection a =
      if a = s.records + 1 then ⟨s.records + 1, address⟩ else s.connection a := by
  by_cases ha : a = s.records + 1
  · simp [connected, allocated, ha]
  · simp [connected, allocated, ha]

end Server

/-- A connection has been accepted and its record filled in. -/
def World.connected (w : World Server) (address : UInt32) : World Server :=
  { w with
    kernel := (w.kernel.openFile .other .other 0 false).2
    descriptors := Function.update w.descriptors (w.storage.records + 1)
      ⟨EPOLLIN ||| EPOLLRDHUP ||| EPOLLET, w.kernel.files.lowest, .user (w.storage.records + 1),
        some (.user 1)⟩
    storage := w.storage.connected address }

theorem World.connected_descriptors (w : World Server) (address : UInt32) (a : Nat) :
    (w.connected address).descriptors a = if a = w.storage.records + 1 then
        ⟨EPOLLIN ||| EPOLLRDHUP ||| EPOLLET, w.kernel.files.lowest, .user a, some (.user 1)⟩
      else w.descriptors a := by
  by_cases ha : a = w.storage.records + 1
  · simp [connected, ha]
  · simp [connected, ha]

section handlers
variable {net : Net} {em : EMPtr} {w w' : World Server}

theorem receive_spec (net : Net) (events : UInt32) (socket : Int) (data : VoidPtr) (address : UInt32)
    (w : World Server) :
    wp (receive net events socket data address)
      (fun _ w' => w' = w ∨ w' = w.setStorage (w.storage.received net data socket address))
      (fun _ _ => False) w := by
  unfold receive
  rw [wp_ite]
  refine ⟨fun _ => Or.inl rfl, fun _ => ?_⟩
  rw [wp_bind]
  apply (wp_modifyGet _).2
  cases w.kernel.file socket with
  | none => exact Or.inl rfl
  | some f =>
    cases hread : net.read w.storage.reads with
    | none =>
      refine Or.inr ?_
      simp only [Server.received, Net.text, hread]
      rfl
    | some bytes =>
      cases hbytes : bytes.take BUFSIZ with
      | nil =>
        simp only [Option.map_some, hbytes]
        refine Or.inr ?_
        simp only [Server.received, Net.text, hread, hbytes, if_true]
        rfl
      | cons b bs =>
        simp only [Option.map_some, hbytes]
        refine Or.inr ?_
        simp only [Server.received, Net.text, hread, hbytes, reduceCtorEq, if_false]
        rfl

theorem freeOld_spec (oldEd : EDRef) (w : World Server) :
    wp (freeOld oldEd)
      (fun _ w' => ∃ l, w' = w.setStorage { w.storage with freed := w.storage.freed ++ l } ∧
        l.length = if oldEd.isSome then 1 else 0)
      (fun _ _ => True) w := by
  cases oldEd with
  | none => exact ⟨[], by simp [World.setStorage], rfl⟩
  | some p =>
    unfold freeOld
    rw [wp_bind, wp_getED, wp_bind]
    cases (w.ed p).data with
    | null => trivial
    | timer t => trivial
    | user a => exact ⟨[_], rfl, rfl⟩

theorem Kernel.released_bytes (k : Kernel) (fd : Int) : (k.released fd).bytes = k.bytes := by
  unfold released
  split <;> rfl

/-- What the block of the second `if` of `connection_hadnler()` has done. -/
structure HungUp (net : Net) (socket : Int) (data : VoidPtr) (address : UInt32) (w w' : World Server) :
    Prop where
  only : { w' with kernel := w.kernel, storage := w.storage, log := w.log } = w
  bytes : w'.kernel.bytes = w.kernel.bytes
  next : w'.kernel.next = w.kernel.next
  file : ∀ n, w'.kernel.file n = if n = socket then none else w.kernel.file n
  interest : ∀ f, w.kernel.file socket = some f → ∀ q n,
    w'.kernel.interest q n = if q = f.id ∨ n = socket then none else w.kernel.interest q n
  storage : ∃ l, w'.storage = { w.storage with
      hangups := w.storage.hangups + 1
      freed := w.storage.freed ++ l
      output := w.storage.output ++ [⟨data, socket, .closed address⟩] } ∧
    l.length = if (net.oldEd w.storage.hangups).isSome then 1 else 0

theorem hangUp_spec (hremove : (w.ems em).descriptorStorage.remove = none) (net : Net) (socket : Int)
    (data : VoidPtr) (address : UInt32) :
    wp (hangUp net em socket data address) (fun _ w' => HungUp net socket data address w w')
      (fun _ _ => True) w := by
  unfold hangUp
  rw [wp_bind]
  apply (wp_modifyGet _).2
  generalize hw₁ : ({ w with storage := { w.storage with hangups := w.storage.hangups + 1 } } :
    World Server) = w₁
  have hremove₁ : (w₁.ems em).descriptorStorage.remove = none := by
    rw [← hw₁]
    exact hremove
  rw [wp_bind]
  refine wp_mono (delete_spec w₁ em socket (some (net.oldEd w.storage.hangups))) ?_ fun _ _ h => h.elim
  rintro ⟨r, old⟩ w₂ hdelete
  dsimp only
  -- the machine has no storage that could say what has been removed
  obtain ⟨rfl, honly, hbytes, hnext⟩ : old = some (net.oldEd w.storage.hangups) ∧ KernelOnly w₁ w₂ ∧
      w₂.kernel.bytes = w₁.kernel.bytes ∧ w₂.kernel.next = w₁.kernel.next := by
    cases hdelete with
    | refused _ hold same =>
      exact ⟨hold, .of_core (k := w₁.kernel) same.core, congrArg (·.kernel.bytes) same.core,
        congrArg (·.kernel.next) same.core⟩
    | done q can code core =>
      simp only [deleteChange, EMDescriptorStorage.removeEntry, hremove₁, assignOld] at code core
      exact ⟨congrArg (·.2) code, .of_core (k := w₁.kernel.setInterest q.id socket none) core,
        congrArg (·.kernel.bytes) core, congrArg (·.kernel.next) core⟩
  rw [wp_bind]
  apply wp_issue.2
  have hclose := Kernel.close_core w₂.kernel socket
  generalize hw₃ : w₂.issued .other .close socket (·.close socket) = w₃
  have hk₃ : w₃.kernel = (w₂.kernel.close socket).2 := by rw [← hw₃]; rfl
  have honly₃ : KernelOnly w₁ w₃ := honly.trans (by rw [← hw₃]; rfl)
  rw [← hk₃] at hclose
  rw [wp_bind]
  refine wp_mono (freeOld_spec _ w₃) ?_ fun _ _ _ => trivial
  rintro _ w₄ ⟨l, rfl, hl⟩
  have hs₃ : w₃.storage = w₁.storage := congrArg (·.storage) honly₃
  have hkernel₁ : w₁.kernel = w.kernel := by rw [← hw₁]
  refine (wp_modifyGet _).2 ⟨?_, ?_, ?_, fun n => ?_, fun f hf q n => ?_, l, ?_, hl⟩
  · have hframe := congrArg (fun v : World Server => { v with
      kernel := w.kernel, storage := w.storage, log := w.log }) honly₃
    refine hframe.trans ?_
    rw [← hw₁]
  · show w₃.kernel.bytes = _
    rw [← hkernel₁, ← hbytes]
    exact (congrArg (·.bytes) hclose).trans (w₂.kernel.released_bytes socket)
  · show w₃.kernel.next = _
    rw [← hkernel₁, ← hnext, ← w₂.kernel.released_next socket]
    exact congrArg (·.next) hclose
  · show w₃.kernel.file n = _
    rw [Kernel.file_congr hclose, Kernel.released_file, hdelete.file, hkernel₁]
  · show w₃.kernel.interest q n = _
    have hf₂ : w₂.kernel.file socket = some f := by rw [hdelete.file, hkernel₁, hf]
    rw [Kernel.interest_congr hclose, Kernel.released_interest hf₂]
    split
    · rfl
    · next hne => rw [hdelete.interest_of_ne q fun hn => hne (Or.inr hn), hkernel₁]
  · simp only [World.setStorage, Server.print, hs₃, ← hw₁]

/-- What `connection_hadnler()` can do for the connection with the data `d`. -/
inductive ConnectionOutcome (net : Net) (socket : Int) (data : VoidPtr) (d : ConnectionData)
    (w : World Server) (w' : World Server) : Prop
  | stays (s : Server) (heard : s = w.storage ∨ s = w.storage.received net data socket d.remoteAddress)
      (eq : w' = w.setStorage s)
  | closed (s : Server) (heard : s = w.storage ∨ s = w.storage.received net data socket d.remoteAddress)
      (hungUp : HungUp net socket data d.remoteAddress (w.setStorage s) w')

theorem connectionHadnler_spec (hremove : (w.ems em).descriptorStorage.remove = none) (net : Net)
    (events : UInt32) (socket : Int) (data : VoidPtr) :
    wp (connectionHadnler net em events socket data)
      (fun _ w' => ∃ a, data = .user a ∧ ConnectionOutcome net socket data (w.storage.connection a) w w')
      (fun _ _ => True) w := by
  unfold connectionHadnler
  rw [wp_bind]
  cases data with
  | null => trivial
  | timer t => trivial
  | user a =>
    apply (wp_modifyGet _).2
    rw [wp_bind]
    refine wp_mono (receive_spec net events socket _ _ w) ?_ fun _ _ h => h.elim
    intro goesOn w₁ hreceive
    obtain ⟨s, hs, rfl⟩ : ∃ s, (s = w.storage ∨ s = w.storage.received net (.user a) socket
        (w.storage.connection a).remoteAddress) ∧ w₁ = w.setStorage s := by
      rcases hreceive with rfl | rfl
      · exact ⟨_, Or.inl rfl, rfl⟩
      · exact ⟨_, Or.inr rfl, rfl⟩
    rw [wp_ite]
    refine ⟨fun _ => ⟨a, rfl, .stays s hs rfl⟩, fun _ => ?_⟩
    rw [wp_ite]
    constructor
    · intro _
      refine wp_mono (hangUp_spec (w := w.setStorage s) hremove net socket _ _) ?_ fun _ _ _ => trivial
      exact fun _ w' h => ⟨a, rfl, .closed s hs h⟩
    · exact fun _ => ⟨a, rfl, .stays s hs rfl⟩

/-- What `accept_handler()` can do. -/
inductive AcceptOutcome (net : Net) (em : EMPtr) (w : World Server) (w' : World Server) : Prop
  | noMemory (malloc : net.malloc w.storage.mallocs = false)
      (eq : w' = w.setStorage { w.storage with mallocs := w.storage.mallocs + 1 })
  | notAccepted (malloc : net.malloc w.storage.mallocs = true)
      (eq : w' = w.setStorage { w.storage.allocated with accepts := w.storage.accepts + 1 })
  | notAdded (address : UInt32) (malloc : net.malloc w.storage.mallocs = true)
      (accept : net.accept w.storage.accepts = some address)
      (core : w'.core = ((w.connected address).setStorage ((w.storage.connected address).print
        ⟨.user (w.storage.records + 1), w.kernel.files.lowest, .addFailed⟩)).core)
  | added (address : UInt32) (q : File) (malloc : net.malloc w.storage.mallocs = true)
      (accept : net.accept w.storage.accepts = some address)
      (can : (w.connected address).kernel.CanCtl (w.ems em).queueFd .add w.kernel.files.lowest q)
      (core : w'.core = (((w.connected address).setInterest q.id w.kernel.files.lowest
          (some ⟨EPOLLIN ||| EPOLLRDHUP ||| EPOLLET, some (.obj (w.storage.records + 1))⟩)).setStorage
        ((w.storage.connected address).print ⟨.user (w.storage.records + 1), w.kernel.files.lowest,
          .accepted address⟩)).core)

theorem acceptHandler_spec (hinsert : (w.ems em).descriptorStorage.insert = none) (net : Net)
    (listeningSocket : Int) :
    wp (acceptHandler net em listeningSocket) (fun _ w' => AcceptOutcome net em w w')
      (fun _ _ => False) w := by
  unfold acceptHandler
  rw [wp_bind]
  apply (wp_modifyGet _).2
  cases hmalloc : net.malloc w.storage.mallocs with
  | false => exact .noMemory hmalloc rfl
  | true =>
    simp only [if_true]
    rw [wp_bind]
    apply (wp_modifyGet _).2
    cases hfile : w.kernel.file listeningSocket with
    | none => exact .notAccepted hmalloc rfl
    | some f =>
    cases haccept : net.accept w.storage.accepts with
    | none => exact .notAccepted hmalloc rfl
    | some address =>
      simp only
      rw [wp_bind]
      apply (wp_modifyGet _).2
      change wp _ _ _ (w.connected address)
      have hinsert₁ : ((w.connected address).ems em).descriptorStorage.insert = none := hinsert
      have hed : ctlFd (w.connected address) (some (.obj (w.storage.records + 1))) (-1) =
          w.kernel.files.lowest := by
        simp [ctlFd, World.ed, World.connected]
      have hevent : ctlEvent (w.connected address) (some (.obj (w.storage.records + 1))) =
          ⟨EPOLLIN ||| EPOLLRDHUP ||| EPOLLET, some (.obj (w.storage.records + 1))⟩ := by
        simp [ctlEvent, World.ed, World.connected]
      rw [wp_bind]
      refine wp_mono (add_spec (w.connected address) em (some (.obj (w.storage.records + 1)))) ?_
        fun _ _ h => h
      intro r w₂ hadd
      rw [wp_ite]
      cases hadd with
      | refused why _ same =>
        refine ⟨fun _ => ?_, fun hok => ?_⟩
        · have hs : w₂.storage = w.storage.connected address := World.storage_congr same.core
          refine .notAdded address hmalloc haccept ?_
          show (w₂.setStorage (w₂.storage.print _)).core = _
          rw [hs]
          exact World.setStorage_congr same.core _
        · exact absurd ((isEmSuccess_iff r).1 (not_not.1 hok)) why.ne_success
      | done q can code core =>
        simp only [addChange, EMDescriptorStorage.insertEntry, hinsert₁, hed, hevent] at can code core
        obtain rfl : r = EMResult.success.code := congrArg (·.1) code
        refine ⟨fun hfail => absurd ((isEmSuccess_iff _).2 rfl) hfail, fun _ => ?_⟩
        have hs : w₂.storage = w.storage.connected address := congrArg (·.storage) core
        have haddress : (w₂.storage.connection (w.storage.records + 1)).remoteAddress = address := by
          rw [hs, Server.connected_connection, if_pos rfl]
        rw [wp_bind]
        apply (wp_modifyGet _).2
        refine .added address q hmalloc haccept can ?_
        show (w₂.setStorage (w₂.storage.print _)).core = _
        rw [haddress, hs]
        exact World.setStorage_congr core _

end handlers

/-! ## The accounts of the server -/

def Line.isClosed (l : Line) : Bool :=
  match l.message with
  | .closed _ => true
  | _ => false

def Line.text (l : Line) : Option (List UInt8) :=
  match l.message with
  | .text _ bytes => some bytes
  | _ => none

/-- The counts of the server agree: one record a successful `malloc()`, one message a connection closed
and one text a `read()` that has read something. What is freed depends on what `old_ed` held. -/
structure Server.Accounted (s : Server) (net : Net) : Prop where
  records : s.records = (List.range s.mallocs).countP net.malloc
  freed : s.freed.length = (List.range s.hangups).countP fun i => (net.oldEd i).isSome
  closed : s.output.countP Line.isClosed = s.hangups
  printed : s.output.filterMap Line.text = (List.range s.reads).filterMap net.text

namespace Server.Accounted
variable {net : Net} {s : Server}

theorem start (net : Net) : Server.start.Accounted net := ⟨rfl, rfl, rfl, rfl⟩

theorem print (h : s.Accounted net) {l : Line} (hclosed : l.isClosed = false) (htext : l.text = none) :
    (s.print l).Accounted net where
  records := h.records
  freed := h.freed
  closed := by simpa [Server.print, hclosed] using h.closed
  printed := by simpa [Server.print, htext] using h.printed

theorem received (h : s.Accounted net) (data : VoidPtr) (socket : Int) (address : UInt32) :
    (s.received net data socket address).Accounted net := by
  have hprinted := h.printed
  unfold Server.received
  cases htext : net.text s.reads with
  | none =>
    refine ⟨h.records, h.freed, h.closed, ?_⟩
    simp [List.range_succ, htext, hprinted]
  | some bytes =>
    refine ⟨h.records, h.freed, ?_, ?_⟩
    · simpa [Server.print, Line.isClosed] using h.closed
    · simp [Server.print, List.range_succ, htext, hprinted, Line.text]

theorem hungUp (h : s.Accounted net) {data : VoidPtr} {socket : Int} {address : UInt32} {l : List Nat}
    (hl : l.length = if (net.oldEd s.hangups).isSome then 1 else 0) :
    ({ s with
      hangups := s.hangups + 1
      freed := s.freed ++ l
      output := s.output ++ [⟨data, socket, .closed address⟩] } : Server).Accounted net where
  records := h.records
  freed := by simp [List.range_succ, h.freed, hl, List.countP_singleton]
  closed := by simp [Line.isClosed, h.closed]
  printed := by
    have htext : Line.text ⟨data, socket, .closed address⟩ = none := rfl
    simpa [htext] using h.printed

theorem noMemory (h : s.Accounted net) (hmalloc : net.malloc s.mallocs = false) :
    ({ s with mallocs := s.mallocs + 1 } : Server).Accounted net :=
  ⟨by simp [List.range_succ, h.records, hmalloc], h.freed, h.closed, h.printed⟩

theorem allocated (h : s.Accounted net) (hmalloc : net.malloc s.mallocs = true) :
    s.allocated.Accounted net :=
  ⟨by simp [Server.allocated, List.range_succ, h.records, hmalloc], h.freed, h.closed, h.printed⟩

theorem connected (h : s.Accounted net) (hmalloc : net.malloc s.mallocs = true) (address : UInt32) :
    (s.connected address).Accounted net :=
  ⟨(h.allocated hmalloc).records, h.freed, h.closed, h.printed⟩

end Server.Accounted

/-- What a handler of the server leaves alone, and that it opens sockets only. -/
structure Server.Handled (net : Net) (w w' : World Server) : Prop where
  ems : w'.ems = w.ems
  buffers : w'.buffers = w.buffers
  bytes : w'.kernel.bytes = w.kernel.bytes
  file : ∀ n f, w'.kernel.file n = some f → f.kind = .other ∨ w.kernel.file n = some f
  accounted : w.storage.Accounted net → w'.storage.Accounted net

namespace Server.Handled
variable {net : Net} {em : EMPtr} {w w' : World Server}

theorem setStorage {s : Server} (h : w.storage.Accounted net → s.Accounted net) :
    Handled net w (w.setStorage s) := ⟨rfl, rfl, rfl, fun _ _ => Or.inr, h⟩

theorem of_connection {socket : Int} {data : VoidPtr} {d : ConnectionData}
    (h : ConnectionOutcome net socket data d w w') : Handled net w w' := by
  have hheard : ∀ s, (s = w.storage ∨ s = w.storage.received net data socket d.remoteAddress) →
      w.storage.Accounted net → s.Accounted net := by
    rintro s (rfl | rfl) hs
    · exact hs
    · exact hs.received _ _ _
  cases h with
  | stays s hs eq =>
    rw [eq]
    exact .setStorage (hheard s hs)
  | closed s hs hungUp =>
    refine ⟨congrArg (·.ems) hungUp.only, congrArg (·.buffers) hungUp.only, hungUp.bytes,
      fun n f hf => ?_, fun ha => ?_⟩
    · rw [hungUp.file] at hf
      split at hf
      · cases hf
      · exact Or.inr hf
    · obtain ⟨l, heq, hl⟩ := hungUp.storage
      rw [heq]
      exact (hheard s hs ha).hungUp hl

theorem of_accept (h : AcceptOutcome net em w w') : Handled net w w' := by
  have hfile : ∀ (address : UInt32) n f, (w.connected address).kernel.file n = some f →
      f.kind = .other ∨ w.kernel.file n = some f := by
    intro address n f hf
    have hopens : w.kernel.Opens _ _ (w.connected address).kernel := .of_files rfl rfl rfl
    rw [hopens.file] at hf
    split at hf
    · obtain rfl := Option.some.inj hf
      exact Or.inl rfl
    · exact Or.inr hf
  cases h with
  | noMemory hmalloc eq =>
    rw [eq]
    exact .setStorage fun h => h.noMemory hmalloc
  | notAccepted hmalloc eq =>
    rw [eq]
    exact .setStorage fun h => ⟨(h.allocated hmalloc).records, h.freed, h.closed, h.printed⟩
  | notAdded address hmalloc _ core =>
    refine ⟨congrArg (·.ems) core, congrArg (·.buffers) core, congrArg (·.kernel.bytes) core,
      fun n f hf => ?_, fun h => ?_⟩
    · rw [World.file_congr core] at hf
      exact hfile address n f hf
    · rw [World.storage_congr core]
      exact (h.connected hmalloc address).print rfl rfl
  | added address q hmalloc _ _ core =>
    refine ⟨congrArg (·.ems) core, congrArg (·.buffers) core, congrArg (·.kernel.bytes) core,
      fun n f hf => ?_, fun h => ?_⟩
    · rw [World.file_congr core] at hf
      exact hfile address n f hf
    · rw [World.storage_congr core]
      exact (h.connected hmalloc address).print rfl rfl

end Server.Handled

/-! ## The main loop -/

/-- What holds while the main loop of machine `em`, which is `m`, has come to `pc`: whatever the read end
of its pipe refers to, there is nothing to read. -/
structure Serving (net : Net) (em : EMPtr) (m : EM Server) (pc : RunPc) (w : World Server) : Prop where
  machine : w.ems em = m
  quiet : ∀ f p, w.kernel.file m.breakLoopPipe.1 = some f → f.kind = .pipeRead p → w.kernel.bytes p = 0
  unbroken : pc.broken = false
  readFd : ∀ breakLoop b, pc = .batch breakLoop b → b.breakLoopReadFd = m.breakLoopPipe.1
  accounted : w.storage.Accounted net

namespace Serving
variable {net : Net} {em : EMPtr} {m : EM Server} {pc pc' : RunPc} {w w' : World Server}

theorem calm (h : Serving net em m pc w) (hcalm : Calm w w') (hbytes : w'.kernel.bytes = w.kernel.bytes)
    (hbroken : pc'.broken = false)
    (hfd : ∀ breakLoop b, pc' = .batch breakLoop b → b.breakLoopReadFd = m.breakLoopPipe.1) :
    Serving net em m pc' w' where
  machine := by rw [hcalm.ems]; exact h.machine
  quiet f p hf := by
    rw [hcalm.file] at hf
    rw [hbytes]
    exact h.quiet f p hf
  unbroken := hbroken
  readFd := hfd
  accounted := by
    rw [show w'.storage = w.storage from congrArg (·.storage) hcalm]
    exact h.accounted

theorem handled (h : Serving net em m pc w) (hh : Server.Handled net w w') : Serving net em m pc w' where
  machine := by rw [hh.ems]; exact h.machine
  quiet f p hf hkind := by
    rw [hh.bytes]
    rcases hh.file _ f hf with hother | hf
    · rw [hother] at hkind
      cases hkind
    · exact h.quiet f p hf hkind
  unbroken := h.unbroken
  readFd := h.readFd
  accounted := hh.accounted h.accounted

theorem handler (h : Serving net em m pc w) (hinsert : m.descriptorStorage.insert = none)
    (hremove : m.descriptorStorage.remove = none) (g : Handler) (events : UInt32) (fd : Int)
    (data : VoidPtr) :
    wp (callHandler (tcpServerCode net) g em events fd data) (fun _ w' => Serving net em m pc w')
      (fun _ _ => True) w := by
  rw [← h.machine] at hinsert hremove
  cases g with
  | internalTimeoutHandler =>
    refine wp_mono (internalTimeoutHandler_idle (fun _ _ _ => rfl) fd data w) ?_ fun _ _ _ => trivial
    rintro _ w' ⟨hcalm, hbytes, -⟩
    exact h.calm hcalm hbytes h.unbroken h.readFd
  | user n =>
    cases n with
    | zero =>
      refine wp_mono (acceptHandler_spec hinsert net fd) ?_ fun _ _ h => h.elim
      exact fun _ w' hout => h.handled (.of_accept hout)
    | succ n =>
      refine wp_mono (connectionHadnler_spec hremove net events fd data) ?_ fun _ _ _ => trivial
      rintro _ w' ⟨a, -, hout⟩
      exact h.handled (.of_connection hout)

theorem slot {breakLoop : Bool} {b : Batch} {r : Slot} (h : Serving net em m (.batch breakLoop b) w)
    (hslot : runOnceSlot em b.events b.i b.breakLoopReadFd w = .ok r w') :
    Serving net em m (r.next breakLoop b) w' := by
  obtain ⟨buf, e, q, -, -, -, hout⟩ := wp_ok (runOnceSlot_spec em b.events b.i b.breakLoopReadFd w) hslot
  have hfd := h.readFd breakLoop b rfl
  have hcalm := hout.calm
  cases hout with
  | readFailed _ _ core =>
    show Serving net em m (.done EMResult.errorRead.code) w'
    apply h.calm hcalm (congrArg (·.bytes) core)
    · decide
    · rintro _ _ ⟨⟩
  | breakLoop f p _ _ file kind pos =>
    rw [hfd] at file
    rw [h.quiet f p file kind] at pos
    exact absurd pos (Nat.lt_irrefl 0)
  | handler =>
    apply h.calm hcalm rfl
    · exact h.unbroken
    · rintro _ _ ⟨⟩
      exact hfd

theorem waiting (h : Serving net em m .waiting w) (o : WaitOutcome) :
    wp (runStep em o .waiting) (fun pc w' => Serving net em m pc w') (fun _ _ => True) w := by
  refine wp_mono (runStep_waiting_spec em o w) ?_ fun _ _ _ => trivial
  rintro pc w' ⟨hcalm, hbytes, hcase⟩
  rcases hcase with ⟨r, hr, rfl⟩ | ⟨q, l, buf, -, -, -, -, rfl⟩
  · apply h.calm hcalm hbytes
    · exact decide_eq_false hr
    · rintro _ _ ⟨⟩
  · apply h.calm hcalm hbytes
    · rfl
    · rintro _ _ ⟨⟩
      rw [h.machine]

theorem rule (net : Net) (em : EMPtr) (m : EM Server) (hinsert : m.descriptorStorage.insert = none)
    (hremove : m.descriptorStorage.remove = none) (waits : Nat → WaitOutcome) :
    LoopRule (tcpServerCode net) em waits (fun _ _ => True) (Serving net em m) where
  waiting h _ hstep := wp_ok (h.waiting _) hstep
  slot h _ hslot _ := h.slot hslot
  handler h _ hslot := (h.slot hslot).handler hinsert hremove _ _ _ _
  afterBatch {breakLoop b w} h _ := by
    obtain rfl : breakLoop = false := h.unbroken
    exact ⟨h.machine, h.quiet, rfl, nofun, h.accounted⟩

theorem run (h : Serving net em m .waiting w) (hinsert : m.descriptorStorage.insert = none)
    (hremove : m.descriptorStorage.remove = none) (waits : Nat → WaitOutcome) (fuel : Nat) :
    wp (eventMachineRun (tcpServerCode net) (some em) waits fuel)
      (fun r w' => r ≠ some EMResult.success.code ∧ w'.storage.Accounted net) (fun _ _ => True) w := by
  have hrun := (rule net em m hinsert hremove waits).run fuel w (fun w₁ hsame honly => ?_)
    fun _ _ _ => trivial
  · refine wp_mono hrun ?_ fun _ _ _ => trivial
    rintro r w' ⟨pc, hpc, hsuccess⟩
    refine ⟨fun hr => ?_, hpc.accounted⟩
    obtain ⟨rfl, -⟩ := hsuccess hr
    exact absurd hpc.unbroken (by decide)
  · have hcore := World.kernel_core hsame.core
    exact h.calm (.of_kernelOnly honly (Kernel.still_of_core hcore)) (congrArg (·.bytes) hcore) rfl nofun

end Serving

/-! ## The whole program -/

/-- What holds when `main()` calls `event_machine_run()`. -/
structure Started (listeningSocket : Int) (m : EM Server) (q : File) (w : World Server) : Prop
    extends SetUp 0 m q (Function.update (Function.update (fun _ => none)
      m.breakLoopPipe.1 (some ⟨EPOLLIN, some (.breakLoop 0)⟩)) listeningSocket
      (some ⟨EPOLLIN, some (.obj 0)⟩)) w where
  descriptor : w.descriptors 0 = ⟨EPOLLIN, listeningSocket, .null, some (.user 0)⟩

section program
variable {net : Net} {usePipe2 : Bool} {w w₁ w₂ : World Server}

theorem tcpServerStart_spec (net : Net) (usePipe2 : Bool) (w : World Server) :
    wp (tcpServerStart net usePipe2)
      (fun r w₁ => w₁.storage = w.storage ∧ ∀ ls, r = some ls → ∃ m q, Started ls m q w₁)
      (fun _ _ => False) w := by
  unfold tcpServerStart
  rw [wp_bind]
  apply (wp_modifyEM _ _).2
  generalize hmachine : emStaticWithMaxEvents Server EM_DEFAULT_MAX_EVENTS (some (.user 0)) = m₀
  rw [wp_bind]
  apply (wp_modifyGet _).2
  cases hsocket : net.socket with
  | false => exact ⟨rfl, nofun⟩
  | true =>
  simp only [if_true]
  rw [wp_ite]
  refine ⟨fun _ => ⟨rfl, nofun⟩, fun _ => ?_⟩
  rw [wp_ite]
  refine ⟨fun _ => ⟨rfl, nofun⟩, fun _ => ?_⟩
  generalize ((w.setEM 0 m₀).kernel.openFile .other .other 0 false).1 = ls
  generalize hw₀ : ({ w.setEM 0 m₀ with kernel := _ } : World Server) = w₀
  have hem : w₀.ems 0 = emStaticWithMaxEvents Server EM_DEFAULT_MAX_EVENTS (some (.user 0)) := by
    rw [← hw₀, hmachine]
    exact w.setEM_self 0 m₀
  have hs₀ : w₀.storage = w.storage := by rw [← hw₀]; rfl
  rw [wp_bind]
  refine wp_mono (init_setUp usePipe2 hem) ?_ fun _ _ h => h
  rintro code w₁ ⟨hs₁, hsetUp⟩
  rw [hs₀] at hs₁
  rw [wp_ite]
  refine ⟨fun _ => ⟨hs₁, nofun⟩, fun hok => ?_⟩
  rw [isEmSuccess_iff, not_not] at hok
  obtain ⟨m, q, h⟩ := hsetUp hok
  rw [wp_bind]
  apply (wp_modifyGet _).2
  generalize hd : Function.update w₁.descriptors 0 _ = d
  have hd₀ : d 0 = ⟨EPOLLIN, ls, .null, some (.user 0)⟩ := by rw [← hd, Function.update_self]
  rw [wp_bind]
  refine wp_mono ((h.setDescriptors d).add (.obj 0)) ?_ fun _ _ h => h
  rintro r w₂ ⟨hs₂, hdescriptors, hadded⟩
  rw [wp_ite]
  refine ⟨fun _ => ⟨hs₂.trans hs₁, nofun⟩, fun hok => ⟨hs₂.trans hs₁, ?_⟩⟩
  rintro _ ⟨⟩
  have hsetUp₂ := hadded ((isEmSuccess_iff r).1 (not_not.1 hok))
  rw [show ({ w₁ with descriptors := d } : World Server).ed (.obj 0) = d 0 from rfl, hd₀] at hsetUp₂
  refine ⟨m, q, hsetUp₂, ?_⟩
  rw [hdescriptors]
  exact hd₀

theorem Started.serving {ls : Int} {m : EM Server} {q : File} (h : Started ls m q w)
    (ha : w.storage.Accounted net) : Serving net 0 m .waiting w :=
  ⟨h.machine, fun _ _ => h.quiet, rfl, nofun, ha⟩

theorem tcpServer_run (net : Net) (waits : Nat → WaitOutcome) (fuel : Nat)
    (hfresh : w.storage = Server.start) {ls : Int}
    (hstart : tcpServerStart net usePipe2 w = .ok (some ls) w₁) :
    wp (eventMachineRun (tcpServerCode net) (some 0) waits fuel)
      (fun r w' => r ≠ some EMResult.success.code ∧ w'.storage.Accounted net) (fun _ _ => True) w₁ := by
  obtain ⟨hstorage, hstarted⟩ := wp_ok (tcpServerStart_spec net usePipe2 w) hstart
  obtain ⟨m, q, hs⟩ := hstarted ls rfl
  have haccounted : w₁.storage.Accounted net := by
    rw [hstorage, hfresh]
    exact .start net
  exact (hs.serving haccounted).run hs.insert hs.remove waits fuel

/-- The main loop of the server never returns `EM_SUCCESS`, whatever happens, so that `main()` does not get
to what it does afterwards, and does not end with `EXIT_SUCCESS`. -/
theorem tcp_server_never_stops (net : Net) (usePipe2 : Bool) (waits : Nat → WaitOutcome) (fuel : Nat)
    (hfresh : w.storage = Server.start) :
    (∀ ls w₁ r w₂, tcpServerStart net usePipe2 w = .ok (some ls) w₁ →
        eventMachineRun (tcpServerCode net) (some 0) waits fuel w₁ = .ok r w₂ →
        r ≠ some EMResult.success.code) ∧
      ∀ r w', tcpServerMain net usePipe2 waits fuel w = .ok r w' → r ≠ some .success := by
  constructor
  · intro ls w₁ r w₂ hstart hrun
    exact (wp_ok (tcpServer_run net waits fuel hfresh hstart) hrun).1
  · have hmain : wp (tcpServerMain net usePipe2 waits fuel) (fun r _ => r ≠ some .success)
        (fun _ _ => True) w := by
      unfold tcpServerMain
      rw [wp_bind]
      refine wp_mono (wp_self _ w) ?_ fun _ _ _ => trivial
      intro started w₁ hstart
      cases started with
      | none => simp [wp_pure]
      | some ls =>
        simp only
        rw [wp_bind]
        refine wp_mono (tcpServer_run net waits fuel hfresh hstart) ?_ fun _ _ _ => trivial
        rintro r w₂ ⟨hr, -⟩
        cases r with
        | none => simp [wp_pure]
        | some ret =>
          have hfail : ¬ isEmSuccess ret = true := fun h => hr (congrArg some ((isEmSuccess_iff ret).1 h))
          simp only
          rw [if_pos hfail]
          simp [wp_pure]
    exact fun r w' h => wp_ok hmain h

/-- At every wait of the main loop and when it has returned: the server has printed what it has read from
its connections, in order; it has closed as many connections as have hung up; and it has freed a record at
those at which `old_ed` happened not to be `NULL`, none at all if that never was the case. -/
theorem tcp_server_accounts (net : Net) (waits : Nat → WaitOutcome) (fuel : Nat)
    (hfresh : w.storage = Server.start) {ls : Int}
    (hstart : tcpServerStart net usePipe2 w = .ok (some ls) w₁) {r : Option UInt32}
    (hrun : eventMachineRun (tcpServerCode net) (some 0) waits fuel w₁ = .ok r w₂) :
    w₂.storage.output.filterMap Line.text = (List.range w₂.storage.reads).filterMap net.text ∧
      w₂.storage.output.countP Line.isClosed = w₂.storage.hangups ∧
      w₂.storage.records = (List.range w₂.storage.mallocs).countP net.malloc ∧
      w₂.storage.freed.length =
        (List.range w₂.storage.hangups).countP (fun i => (net.oldEd i).isSome) ∧
      ((∀ i, net.oldEd i = none) → w₂.storage.freed = []) := by
  obtain ⟨-, h⟩ := wp_ok (tcpServer_run net waits fuel hfresh hstart) hrun
  refine ⟨h.printed, h.closed, h.records, h.freed, fun hnull => List.length_eq_zero_iff.1 ?_⟩
  rw [h.freed]
  simp [hnull]

end program

/-! ### Two connections, the first of which hangs up -/

def twoConnections : Net where
  socket := true
  bind := true
  listen := true
  malloc _ := true
  accept i := if i = 0 then some 7 else some 9
  read i := if i = 0 then some [104, 105] else some []
  past _ := []
  oldEd _ := none

/-- The second connection arrives together with the data of the first. -/
def connectionsReady : Nat → WaitOutcome
  | 0 => .batch [⟨EPOLLIN, some (.obj 0)⟩]
  | 1 => .batch [⟨EPOLLIN, some (.obj 1)⟩, ⟨EPOLLIN, some (.obj 0)⟩]
  | 2 => .batch [⟨EPOLLIN ||| EPOLLRDHUP, some (.obj 1)⟩]
  | _ => .fail (.code 4)

def serverStarted : World Server := final (tcpServerStart twoConnections true) (shellWorld Server.start)

theorem serverStarted_start :
    tcpServerStart twoConnections true (shellWorld Server.start) = .ok (some 3) serverStarted := rfl

theorem serverStarted_run :
    noticed (fun w => (w.storage.records, w.storage.hangups, w.storage.output))
      (eventMachineRun (tcpServerCode twoConnections) (some 0) connectionsReady 4) serverStarted =
      some (some EMResult.errorEventWait.code, 2, 1,
        [⟨.user 1, 7, .accepted 7⟩, ⟨.user 1, 7, .text 7 [104, 105]⟩, ⟨.user 2, 8, .accepted 9⟩,
          ⟨.user 1, 7, .closed 7⟩]) := by
  decide +kernel

theorem tcp_server_never_stops_twoConnections :
    ∃ r w', eventMachineRun (tcpServerCode twoConnections) (some 0) connectionsReady 4 serverStarted =
        .ok r w' ∧ r ≠ some EMResult.success.code := by
  obtain ⟨w', hrun, -⟩ := exists_of_noticed serverStarted_run
  exact ⟨_, w', hrun, (tcp_server_never_stops twoConnections true connectionsReady 4 rfl).1 _ _ _ _
    serverStarted_start hrun⟩

theorem tcp_server_accounts_twoConnections :
    ∃ r w', eventMachineRun (tcpServerCode twoConnections) (some 0) connectionsReady 4 serverStarted =
        .ok r w' ∧ w'.storage.records = 2 ∧ w'.storage.hangups = 1 ∧ w'.storage.freed = [] := by
  obtain ⟨w', hrun, hsee⟩ := exists_of_noticed serverStarted_run
  obtain ⟨hrecords, hhangups, -⟩ := Prod.mk.inj hsee |>.imp id Prod.mk.inj
  obtain ⟨-, -, -, -, hfreed⟩ := tcp_server_accounts twoConnections connectionsReady 4 rfl
    serverStarted_start hrun
  exact ⟨_, w', hrun, hrecords, hhangups, hfreed fun _ => rfl⟩

end EventMachine
