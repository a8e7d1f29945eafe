import EventMachine.Lib.Slots
import Mathlib.Logic.Function.Basic

/-!
# The kernel

The part of the operating system the library talks to: the table of open descriptors with lowest
free number allocation, the interest set of every epoll instance, pipes as byte counters and timers.
What the kernel may decide on its own is an oracle, `Kernel.faults`: the `n`-th next call of a kind
fails with the error found there, without any other effect (`close` releases the number even then).
A statement about every kernel is therefore a statement about every pattern of failures.

Who opened a descriptor (`File.owner`) is a ghost field: nothing the library can observe depends
on it.
-/

namespace EventMachine

open Lib

/-- Kernel objects are told apart by the order in which they were opened. -/
abbrev ObjId := Nat

/-- `EM *`, when it is not `NULL`. -/
abbrev EMPtr := Nat

/-- `Event_timer *`, when it is not `NULL`. -/
abbrev TimerPtr := Nat

/-- On whose behalf a descriptor was opened, or a call is made. -/
inductive Owner
  | machine (em : EMPtr)
  | timer (t : TimerPtr)
  | other
  deriving DecidableEq, Repr

/-- `EM_event_descriptor *`, when it is not `NULL`: memory of the user, the descriptor embedded in
an `EM`, or the one embedded in an `Event_timer`. -/
inductive EDPtr
  | obj (a : Nat)
  | breakLoop (em : EMPtr)
  | timer (t : TimerPtr)
  deriving DecidableEq, Repr

/-- `EM_event_descriptor *`. -/
abbrev EDRef := Option EDPtr

inductive Errno
  | EBADF
  | EEXIST
  | ENOENT
  | EAGAIN
  | EINVAL
  | EFAULT
  | code (n : Nat)
  deriving DecidableEq, Repr

/-- The same error as `EAGAIN` on Linux. -/
abbrev Errno.EWOULDBLOCK : Errno := .EAGAIN

inductive CtlOp
  | add
  | mod
  | del
  deriving DecidableEq, Repr

/-- The calls that may fail. -/
inductive Syscall
  | malloc
  | pipe
  | fcntlGetfl
  | fcntlSetfl
  | epollCreate
  | epollCtl (op : CtlOp)
  | epollWait
  | read
  | write
  | close
  | timerfdCreate
  | timerfdSettime
  deriving DecidableEq, Repr

/-- What a descriptor refers to; the two ends of a pipe name the pipe. -/
inductive Kind
  | epoll
  | pipeRead (pipe : ObjId)
  | pipeWrite (pipe : ObjId)
  | timerfd
  | other
  deriving DecidableEq, Repr

/-- An open descriptor: its object, its file status flags and its close-on-exec flag. -/
structure File where
  id : ObjId
  kind : Kind
  owner : Owner
  status : UInt32
  cloexec : Bool
  deriving DecidableEq, Repr

/-- `struct epoll_event`; `data` is the pointer of the `data.ptr` member. -/
structure EpollEvent where
  events : UInt32
  data : EDRef
  deriving DecidableEq, Repr

structure Timespec where
  tvSec : Int
  tvNsec : Int
  deriving DecidableEq, Repr

/-- The times the kernel accepts. -/
abbrev Timespec.valid (t : Timespec) : Prop := 0 ≤ t.tvSec ∧ 0 ≤ t.tvNsec ∧ t.tvNsec < 1000000000

structure Itimerspec where
  itInterval : Timespec
  itValue : Timespec
  deriving DecidableEq, Repr

/-- A timerfd: its setting when it is armed, and the expirations not yet read. -/
structure Timerfd where
  armed : Option Itimerspec
  pending : Nat
  deriving DecidableEq, Repr

/-- What `epoll_wait()` reports. -/
inductive WaitOutcome
  | fail (e : Errno)
  | batch (events : List EpollEvent)
  deriving DecidableEq, Repr

def EPOLLIN : UInt32 := 1
def EPOLLOUT : UInt32 := 4
def O_APPEND : UInt32 := 0x400
def O_NONBLOCK : UInt32 := 0x800
def O_ASYNC : UInt32 := 0x2000
def O_DIRECT : UInt32 := 0x4000
def O_NOATIME : UInt32 := 0x40000
def FD_CLOEXEC : UInt32 := 1

/-- The flags `fcntl(fd, F_SETFL, ...)` can change; it ignores the others. -/
def SETFL_MASK : UInt32 := O_APPEND ||| O_NONBLOCK ||| O_ASYNC ||| O_DIRECT ||| O_NOATIME

structure Kernel where
  files : Slots File
  interest : ObjId → Int → Option EpollEvent
  /-- Bytes waiting in a pipe. -/
  bytes : ObjId → Nat
  /-- Bytes a pipe holds at most. -/
  capacity : Nat
  timerfds : ObjId → Timerfd
  /-- The object opened next. -/
  next : ObjId
  /-- Status flags of the two ends of the pipe opened next. -/
  pipeStatus : UInt32 × UInt32
  errno : Errno
  faults : Syscall → Nat → Option Errno

namespace Kernel

/-- The open descriptor of a number. -/
def file (k : Kernel) (fd : Int) : Option File :=
  if fd < 0 then none else k.files.get fd.toNat

/-- Whether the next call of kind `s` fails; the oracle moves on. -/
def turn (k : Kernel) (s : Syscall) : Option Errno × Kernel :=
  (k.faults s 0, { k with faults := Function.update k.faults s fun n => k.faults s (n + 1) })

/-- The failing return `-1`. -/
def fail (k : Kernel) (e : Errno) : Int × Kernel := (-1, { k with errno := e })

/-- Open a new object under the lowest free number. -/
def openFile (k : Kernel) (owner : Owner) (kind : Kind) (status : UInt32) (cloexec : Bool) :
    Int × Kernel :=
  (k.files.lowest,
    { k with files := k.files.put k.files.lowest (some ⟨k.next, kind, owner, status, cloexec⟩)
             next := k.next + 1 })

/-- Release a number; the object leaves every interest set, and so do the entries of an interest
set that is closed. -/
def closeFile (k : Kernel) (fd : Int) (f : File) : Kernel :=
  { k with files := k.files.put fd.toNat none
           interest := fun q n => if q = f.id ∨ n = fd then none else k.interest q n }

def close (k : Kernel) (fd : Int) : Int × Kernel :=
  let (fault, k) := k.turn .close
  match k.file fd with
  | none => k.fail .EBADF
  | some f =>
    match fault with
    | none => (0, k.closeFile fd f)
    | some e => (k.closeFile fd f).fail e

/-- `pipe()`, and `pipe2()` with `O_CLOEXEC | O_NONBLOCK` for `pipe2 = true`. -/
def pipe (k : Kernel) (owner : Owner) (pipe2 : Bool) : Int × (Int × Int) × Kernel :=
  let (fault, k) := k.turn .pipe
  match fault with
  | some e => (-1, (-1, -1), { k with errno := e })
  | none =>
    let flag := if pipe2 then O_NONBLOCK else 0
    let p := k.next
    let (r, k) := k.openFile owner (.pipeRead p) (k.pipeStatus.1 ||| flag) pipe2
    let (w, k) := k.openFile owner (.pipeWrite p) (k.pipeStatus.2 ||| flag) pipe2
    (0, (r, w), { k with bytes := Function.update k.bytes p 0 })

def fcntlGetfl (k : Kernel) (fd : Int) : Int × Kernel :=
  let (fault, k) := k.turn .fcntlGetfl
  match k.file fd, fault with
  | none, _ => k.fail .EBADF
  | some _, some e => k.fail e
  | some f, none => (f.status.toNat, k)

def fcntlSetfl (k : Kernel) (fd : Int) (flags : UInt32) : Int × Kernel :=
  let (fault, k) := k.turn .fcntlSetfl
  match k.file fd, fault with
  | none, _ => k.fail .EBADF
  | some _, some e => k.fail e
  | some f, none =>
    let status := (f.status &&& ~~~ SETFL_MASK) ||| (flags &&& SETFL_MASK)
    (0, { k with files := k.files.put fd.toNat (some { f with status }) })

/-- `epoll_create1(EPOLL_CLOEXEC)`. -/
def epollCreate (k : Kernel) (owner : Owner) : Int × Kernel :=
  let (fault, k) := k.turn .epollCreate
  match fault with
  | some e => k.fail e
  | none =>
    let q := k.next
    let (fd, k) := k.openFile owner .epoll 0 true
    (fd, { k with interest := Function.update k.interest q fun _ => none })

/-- Replace the entry of one descriptor in one interest set. -/
def setInterest (k : Kernel) (q : ObjId) (fd : Int) (e : Option EpollEvent) : Kernel :=
  { k with interest := Function.update k.interest q (Function.update (k.interest q) fd e) }

/-- `epoll_ctl()`; an instance does not watch itself. -/
def epollCtl (k : Kernel) (epfd : Int) (op : CtlOp) (fd : Int) (event : EpollEvent) :
    Int × Kernel :=
  let (fault, k) := k.turn (.epollCtl op)
  match k.file epfd, k.file fd with
  | some q, some _ =>
    match fault with
    | some e => k.fail e
    | none =>
      if q.kind ≠ .epoll ∨ fd = epfd then k.fail .EINVAL
      else
        match op, k.interest q.id fd with
        | .add, none => (0, k.setInterest q.id fd (some event))
        | .add, some _ => k.fail .EEXIST
        | .mod, some _ => (0, k.setInterest q.id fd (some event))
        | .del, some _ => (0, k.setInterest q.id fd none)
        | _, none => k.fail .ENOENT
  | _, _ => k.fail .EBADF

/-- The return value of `epoll_wait()` on an instance with a buffer for `maxEvents` events. -/
def epollWait (k : Kernel) (epfd : Int) (maxEvents : Int) (buffer : Bool) (o : WaitOutcome) :
    Int × Kernel :=
  match k.file epfd with
  | none => k.fail .EBADF
  | some q =>
    if q.kind ≠ .epoll ∨ maxEvents ≤ 0 then k.fail .EINVAL
    else if ¬ buffer then k.fail .EFAULT
    else
      match o with
      | .fail e => k.fail e
      | .batch l => (l.length, k)

/-- `read()` of one byte from the read end of a pipe. -/
def readByte (k : Kernel) (fd : Int) : Int × Kernel :=
  let (fault, k) := k.turn .read
  match k.file fd, fault with
  | none, _ => k.fail .EBADF
  | some _, some e => k.fail e
  | some f, none =>
    match f.kind with
    | .pipeRead p =>
      if k.bytes p = 0 then k.fail .EAGAIN
      else (1, { k with bytes := Function.update k.bytes p (k.bytes p - 1) })
    | _ => k.fail .EINVAL

/-- `write()` of one byte into the write end of a pipe. -/
def writeByte (k : Kernel) (fd : Int) : Int × Kernel :=
  let (fault, k) := k.turn .write
  match k.file fd, fault with
  | none, _ => k.fail .EBADF
  | some _, some e => k.fail e
  | some f, none =>
    match f.kind with
    | .pipeWrite p =>
      if k.bytes p < k.capacity then
        (1, { k with bytes := Function.update k.bytes p (k.bytes p + 1) })
      else k.fail .EAGAIN
    | _ => k.fail .EBADF

/-- `timerfd_create(CLOCK_MONOTONIC, TFD_CLOEXEC | TFD_NONBLOCK)`. -/
def timerfdCreate (k : Kernel) (owner : Owner) : Int × Kernel :=
  let (fault, k) := k.turn .timerfdCreate
  match fault with
  | some e => k.fail e
  | none =>
    let o := k.next
    let (fd, k) := k.openFile owner .timerfd O_NONBLOCK true
    (fd, { k with timerfds := Function.update k.timerfds o ⟨none, 0⟩ })

def timerfdSettime (k : Kernel) (fd : Int) (new : Itimerspec) : Int × Kernel :=
  let (fault, k) := k.turn .timerfdSettime
  match k.file fd, fault with
  | none, _ => k.fail .EBADF
  | some _, some e => k.fail e
  | some f, none =>
    if f.kind ≠ .timerfd ∨ ¬ new.itValue.valid ∨ ¬ new.itInterval.valid then k.fail .EINVAL
    else
      -- a zero value disarms; in either case what was not read yet is lost
      let armed := if new.itValue = ⟨0, 0⟩ then none else some new
      (0, { k with timerfds := Function.update k.timerfds f.id ⟨armed, 0⟩ })

/-- `read()` of the eight byte expiration count; the count is meaningful when eight is returned. Only
timerfds are modelled: what other kinds of descriptors may return is left out, and they fail. -/
def readExpirations (k : Kernel) (fd : Int) : (Int × Nat) × Kernel :=
  let (fault, k) := k.turn .read
  match k.file fd, fault with
  | none, _ => ((-1, 0), { k with errno := .EBADF })
  | some _, some e => ((-1, 0), { k with errno := e })
  | some f, none =>
    if f.kind ≠ .timerfd then ((-1, 0), { k with errno := .EINVAL })
    else if (k.timerfds f.id).pending = 0 then ((-1, 0), { k with errno := .EAGAIN })
    else
      ((8, (k.timerfds f.id).pending),
        { k with timerfds :=
            Function.update k.timerfds f.id { k.timerfds f.id with pending := 0 } })

/-- An armed timer expires once; a timer without interval is disarmed by it. -/
def expire (k : Kernel) (o : ObjId) : Kernel :=
  match (k.timerfds o).armed with
  | none => k
  | some s =>
    let armed := if s.itInterval = ⟨0, 0⟩ then none else some s
    { k with timerfds := Function.update k.timerfds o ⟨armed, (k.timerfds o).pending + 1⟩ }

end Kernel

end EventMachine
