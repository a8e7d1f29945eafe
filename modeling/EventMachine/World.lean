import EventMachine.Kernel
import EventMachine.Result
import EventMachine.Lib.Wp

/-!
# The world the library runs in

The memory of the program (machines, event descriptors, timers, event buffers), the state `σ` of the
user's storage callbacks, and the kernel. `Sys σ` is the type of a piece of C code: it may read and
change the world and end with a value, or crash (a failed `assert()`, a call or a read through a
`NULL` pointer).

`World.log` and `World.invoked` are ghost fields: the system calls the library has issued, each with
what its descriptor referred to at that moment, and the calls it has made through function pointers.
-/

namespace EventMachine

open Lib

/-- `void *`. -/
inductive VoidPtr
  | null
  | user (a : Nat)
  | timer (t : TimerPtr)
  deriving DecidableEq, Repr

/-- `EM *`. -/
abbrev EMRef := Option EMPtr

/-- `EM_event_handler`, when it is not `NULL`: a function of the user, or the handler every timer
descriptor carries. -/
inductive Handler
  | user (h : Nat)
  | internalTimeoutHandler
  deriving DecidableEq, Repr

structure EMEventDescriptor where
  events : UInt32
  fd : Int
  data : VoidPtr
  handler : Option Handler
  deriving DecidableEq, Repr

/-- The storage callbacks, `none` for `NULL`. What `remove` leaves in its result argument, which is
`NULL` beforehand, is the second component of its result. -/
structure EMDescriptorStorage (σ : Type) where
  insert : Option (Int → EDRef → σ → UInt32 × σ)
  remove : Option (Int → σ → UInt32 × EDRef × σ)
  dataSize : Nat
  data : VoidPtr

/-- The memory an `event_t *` points to, when it is not `NULL`: a buffer of the user, or the `n`-th
one `event_machine_init()` allocated. -/
inductive BufPtr
  | user (a : Nat)
  | malloc (n : Nat)
  deriving DecidableEq, Repr

structure EM (σ : Type) where
  queueFd : Int
  /-- The read end and the write end. -/
  breakLoopPipe : Int × Int
  breakLoopEventDescriptor : EMEventDescriptor
  maxEvents : Int
  events : Option BufPtr
  doFreeEvents : Bool
  descriptorStorage : EMDescriptorStorage σ

def EM_DEFAULT_MAX_EVENTS : Int := 4096

/-- `EM_STATIC_WITH_MAX_EVENTS(maxevs, evs)`. -/
def emStaticWithMaxEvents (σ : Type) (maxevs : Int) (evs : Option BufPtr) : EM σ where
  queueFd := -1
  breakLoopPipe := (-1, -1)
  breakLoopEventDescriptor := ⟨0, -1, .null, none⟩
  maxEvents := maxevs
  events := evs
  doFreeEvents := false
  descriptorStorage := ⟨none, none, 0, .null⟩

/-- A value of `EM_STATIC_WITH_MAX_EVENTS`, in which the storage may have been filled in. -/
def EM.Static {σ : Type} (m : EM σ) : Prop :=
  ∃ maxevs evs s, m = { emStaticWithMaxEvents σ maxevs evs with descriptorStorage := s }

theorem EM.Static.descriptors {σ : Type} {m : EM σ} (h : m.Static) :
    m.queueFd = -1 ∧ m.breakLoopPipe = (-1, -1) := by
  obtain ⟨maxevs, evs, s, rfl⟩ := h
  exact ⟨rfl, rfl⟩

/-- A timer; its callback is a function of the user. -/
structure EventTimer where
  eventDescriptor : EMEventDescriptor
  eventMachine : EMRef
  data : VoidPtr
  callback : Option Nat
  deriving DecidableEq, Repr

/-- A system call: who issued it, on which number, what that number referred to, and what it
returned. For `epoll_ctl()` the number is that of the queue, and `target` is the other one. -/
structure SysRecord where
  who : Owner
  call : Syscall
  fd : Int
  file : Option File
  target : Option (Int × Option File)
  ret : Int
  deriving DecidableEq, Repr

/-- A call through a function pointer, with its arguments. -/
inductive Invocation
  | handler (h : Handler) (em : EMPtr) (events : UInt32) (fd : Int) (data : VoidPtr)
  | callback (c : Nat) (t : TimerPtr) (data : VoidPtr)
  deriving DecidableEq, Repr

structure World (σ : Type) where
  kernel : Kernel
  ems : EMPtr → EM σ
  descriptors : Nat → EMEventDescriptor
  timers : TimerPtr → EventTimer
  buffers : BufPtr → List EpollEvent
  /-- The buffers allocated so far, each with the number of events it has room for. -/
  mallocs : List (BufPtr × Int)
  frees : List BufPtr
  storage : σ
  log : List SysRecord
  invoked : List Invocation

/-- A program that has done nothing yet, on a kernel that fails as `faults` says: no descriptor is
open, and every machine in memory is `em`. -/
def World.start {σ : Type} (em : EM σ) (storage : σ) (faults : Syscall → Nat → Option Errno) :
    World σ where
  kernel := ⟨[], fun _ _ => none, fun _ => 0, 65536, fun _ => ⟨none, 0⟩, 0, (0, 0), .code 0, faults⟩
  ems := fun _ => em
  descriptors := fun _ => ⟨0, -1, .null, none⟩
  timers := fun _ => ⟨⟨0, -1, .null, none⟩, none, .null, none⟩
  buffers := fun _ => []
  mallocs := []
  frees := []
  storage := storage
  log := []
  invoked := []

/-- How the program may end abnormally. -/
inductive Crash
  | assertion
  | nullPointer
  deriving DecidableEq, Repr

/-- A piece of C code. -/
abbrev Sys (σ : Type) := EStateM Crash (World σ)

variable {σ : Type}

/-- The event descriptor a pointer points to. -/
def World.ed (w : World σ) : EDPtr → EMEventDescriptor
  | .obj a => w.descriptors a
  | .breakLoop em => (w.ems em).breakLoopEventDescriptor
  | .timer t => (w.timers t).eventDescriptor

/-- Change one machine. -/
def World.setEM (w : World σ) (em : EMPtr) (m : EM σ) : World σ :=
  { w with ems := Function.update w.ems em m }

/-- Change one timer. -/
def World.setTimer (w : World σ) (t : TimerPtr) (x : EventTimer) : World σ :=
  { w with timers := Function.update w.timers t x }

@[simp] theorem World.setEM_self (w : World σ) (em : EMPtr) (m : EM σ) : (w.setEM em m).ems em = m := by
  simp [World.setEM]

theorem World.setEM_of_ne (w : World σ) {em em' : EMPtr} (m : EM σ) (h : em' ≠ em) :
    (w.setEM em m).ems em' = w.ems em' := by
  simp [World.setEM, h]

@[simp] theorem World.setTimer_self (w : World σ) (t : TimerPtr) (x : EventTimer) :
    (w.setTimer t x).timers t = x := by
  simp [World.setTimer]

theorem World.setTimer_of_ne (w : World σ) {t t' : TimerPtr} (x : EventTimer) (h : t' ≠ t) :
    (w.setTimer t x).timers t' = w.timers t' := by
  simp [World.setTimer, h]

theorem World.setTimer_ed (w : World σ) {t : TimerPtr} (x : EventTimer) {p : EDPtr} (h : p ≠ .timer t) :
    (w.setTimer t x).ed p = w.ed p := by
  cases p with
  | obj a => rfl
  | breakLoop em => rfl
  | timer t' =>
    have hne : t' ≠ t := fun heq => h (heq ▸ rfl)
    exact congrArg (·.eventDescriptor) (w.setTimer_of_ne x hne)

def getEM (em : EMPtr) : Sys σ (EM σ) := modifyGet fun w => (w.ems em, w)

def getED (p : EDPtr) : Sys σ EMEventDescriptor := modifyGet fun w => (w.ed p, w)

def getTimer (t : TimerPtr) : Sys σ EventTimer := modifyGet fun w => (w.timers t, w)

def getErrno : Sys σ Errno := modifyGet fun w => (w.kernel.errno, w)

def setErrno (e : Errno) : Sys σ Unit :=
  modifyGet fun w => ((), { w with kernel := { w.kernel with errno := e } })

def modifyEM (em : EMPtr) (f : EM σ → EM σ) : Sys σ Unit :=
  modifyGet fun w => ((), w.setEM em (f (w.ems em)))

def modifyTimer (t : TimerPtr) (f : EventTimer → EventTimer) : Sys σ Unit :=
  modifyGet fun w => ((), w.setTimer t (f (w.timers t)))

/-- `assert()`. -/
def cAssert (c : Prop) [Decidable c] : Sys σ Unit :=
  if c then pure () else throw .assertion

section rules
variable {E : Crash → World σ → Prop} {w : World σ}

theorem wp_getEM {Q : EM σ → World σ → Prop} (em : EMPtr) :
    wp (getEM em) Q E w ↔ Q (w.ems em) w := Iff.rfl

theorem wp_getED {Q : EMEventDescriptor → World σ → Prop} (p : EDPtr) :
    wp (getED p) Q E w ↔ Q (w.ed p) w := Iff.rfl

theorem wp_getTimer {Q : EventTimer → World σ → Prop} (t : TimerPtr) :
    wp (getTimer t) Q E w ↔ Q (w.timers t) w := Iff.rfl

theorem wp_getErrno {Q : Errno → World σ → Prop} :
    wp getErrno Q E w ↔ Q w.kernel.errno w := Iff.rfl

theorem wp_setErrno {Q : Unit → World σ → Prop} (e : Errno) :
    wp (setErrno e) Q E w ↔ Q () { w with kernel := { w.kernel with errno := e } } := Iff.rfl

theorem wp_modifyEM {Q : Unit → World σ → Prop} (em : EMPtr) (f : EM σ → EM σ) :
    wp (modifyEM em f) Q E w ↔ Q () (w.setEM em (f (w.ems em))) := Iff.rfl

theorem wp_modifyTimer {Q : Unit → World σ → Prop} (t : TimerPtr) (f : EventTimer → EventTimer) :
    wp (modifyTimer t f) Q E w ↔ Q () (w.setTimer t (f (w.timers t))) := Iff.rfl

theorem wp_cAssert {Q : Unit → World σ → Prop} (c : Prop) [Decidable c] :
    wp (cAssert c) Q E w ↔ (c → Q () w) ∧ (¬ c → E .assertion w) := wp_ite c _ _

end rules

/-! ## System calls -/

/-- Issue a system call on descriptor `fd` and record it. -/
def issue (who : Owner) (call : Syscall) (fd : Int) (f : Kernel → Int × Kernel) : Sys σ Int :=
  modifyGet fun w =>
    ((f w.kernel).1,
      { w with kernel := (f w.kernel).2
               log := w.log ++ [⟨who, call, fd, w.kernel.file fd, none, (f w.kernel).1⟩] })

def close (who : Owner) (fd : Int) : Sys σ Int := issue who .close fd (·.close fd)

def fcntlGetfl (who : Owner) (fd : Int) : Sys σ Int := issue who .fcntlGetfl fd (·.fcntlGetfl fd)

def fcntlSetfl (who : Owner) (fd : Int) (flags : UInt32) : Sys σ Int :=
  issue who .fcntlSetfl fd (·.fcntlSetfl fd flags)

def readByte (who : Owner) (fd : Int) : Sys σ Int := issue who .read fd (·.readByte fd)

def writeByte (who : Owner) (fd : Int) : Sys σ Int := issue who .write fd (·.writeByte fd)

def timerfdSettime (who : Owner) (fd : Int) (new : Itimerspec) : Sys σ Int :=
  issue who .timerfdSettime fd (·.timerfdSettime fd new)

def epollCtl (who : Owner) (epfd : Int) (op : CtlOp) (fd : Int) (event : EpollEvent) : Sys σ Int :=
  modifyGet fun w =>
    ((w.kernel.epollCtl epfd op fd event).1,
      { w with kernel := (w.kernel.epollCtl epfd op fd event).2
               log := w.log ++ [⟨who, .epollCtl op, epfd, w.kernel.file epfd,
                 some (fd, w.kernel.file fd), (w.kernel.epollCtl epfd op fd event).1⟩] })

/-- `epoll_wait()`; the events go into the first slots of the buffer. -/
def epollWait (who : Owner) (epfd : Int) (events : Option BufPtr) (maxEvents : Int)
    (o : WaitOutcome) : Sys σ Int := do
  let ret ← issue who .epollWait epfd (·.epollWait epfd maxEvents events.isSome o)
  match events, o with
  | some b, .batch l =>
    if ret < 0 then return ret
    modifyGet fun w =>
      (ret, { w with buffers :=
        Function.update w.buffers b (l ++ (w.buffers b).drop l.length) })
  | _, _ => return ret

/-- The count `read()` from a timerfd, with the length it returned. -/
def readExpirations (who : Owner) (fd : Int) : Sys σ (Int × Nat) :=
  modifyGet fun w =>
    ((w.kernel.readExpirations fd).1,
      { w with kernel := (w.kernel.readExpirations fd).2
               log := w.log ++ [⟨who, .read, fd, w.kernel.file fd, none,
                 (w.kernel.readExpirations fd).1.1⟩] })

/-- Calls that open descriptors are not recorded: they name none. -/
def pipe (who : Owner) (pipe2 : Bool) : Sys σ (Int × (Int × Int)) :=
  modifyGet fun w =>
    (((w.kernel.pipe who pipe2).1, (w.kernel.pipe who pipe2).2.1),
      { w with kernel := (w.kernel.pipe who pipe2).2.2 })

def epollCreate (who : Owner) : Sys σ Int :=
  modifyGet fun w => ((w.kernel.epollCreate who).1, { w with kernel := (w.kernel.epollCreate who).2 })

def timerfdCreate (who : Owner) : Sys σ Int :=
  modifyGet fun w =>
    ((w.kernel.timerfdCreate who).1, { w with kernel := (w.kernel.timerfdCreate who).2 })

/-- `malloc()` of a buffer for `n` events. -/
def malloc (n : Int) : Sys σ (Option BufPtr) :=
  modifyGet fun w =>
    match w.kernel.turn .malloc with
    | (some e, k) => (none, { w with kernel := { k with errno := e } })
    | (none, k) =>
      (some (.malloc w.mallocs.length),
        { w with kernel := k, mallocs := w.mallocs ++ [(.malloc w.mallocs.length, n)] })

/-- `free()`, which does nothing for `NULL`. -/
def free (p : Option BufPtr) : Sys σ Unit :=
  modifyGet fun w => ((), { w with frees := w.frees ++ p.toList })

end EventMachine
