import EventMachine.Machine

/-!
# The kqueue build

`event_ctl()` as it is compiled with `USE_KQUEUE`. A kqueue keeps its entries, the knotes, by number and
filter, where an epoll instance keeps them by number alone.
-/

namespace EventMachine

open Lib

variable {σ : Type}

/-- The kinds of events `event-machine.h` has a name for in both builds. -/
inductive EventKind
  | read
  | write
  deriving DecidableEq, Repr

/-- `EVENT_READ` and `EVENT_WRITE` of the epoll build. -/
def EventKind.epoll : EventKind → UInt32
  | .read => EPOLLIN
  | .write => EPOLLOUT

def EVFILT_READ : Int16 := -1
def EVFILT_WRITE : Int16 := -2
def EV_ADD : UInt16 := 1
def EV_DELETE : UInt16 := 2

/-- `EVENT_READ` and `EVENT_WRITE` of the kqueue build. -/
def EventKind.kqueue : EventKind → Int16
  | .read => EVFILT_READ
  | .write => EVFILT_WRITE

/-- `EVENT_ADD`, `EVENT_MODIFY` and `EVENT_DELETE` of the kqueue build. -/
def CtlOp.kqueue : CtlOp → UInt16
  | .add => EV_ADD
  | .mod => EV_ADD
  | .del => EV_DELETE

/-- `struct kevent`. The conversion of a number to `uintptr_t` keeps different numbers apart. -/
structure Kevent where
  ident : Int
  filter : Int16
  flags : UInt16
  udata : EDRef
  deriving DecidableEq, Repr

/-- The knotes of a kqueue. -/
abbrev Kqueue := Int → Int16 → Option EDRef

/-- Replace one knote. -/
def Kqueue.set (kq : Kqueue) (ident : Int) (filter : Int16) (knote : Option EDRef) : Kqueue :=
  Function.update kq ident (Function.update (kq ident) filter knote)

/-- `kevent()` with one change: `EV_ADD` inserts the knote or updates it, `EV_DELETE` removes it. -/
def Kqueue.kevent (kq : Kqueue) (change : Kevent) : Int × Kqueue :=
  if change.flags &&& EV_ADD ≠ 0 then
    (0, kq.set change.ident change.filter (some change.udata))
  else if kq change.ident change.filter = none then (-1, kq)
  else if change.flags &&& EV_DELETE ≠ 0 then (0, kq.set change.ident change.filter none)
  else (0, kq)

/-- The fields of an event descriptor of the kqueue build that `event_ctl()` reads. -/
structure KqueueDescriptor where
  events : Int16
  fd : Int
  deriving DecidableEq, Repr

/-- `event_ctl()` of the kqueue build, with the memory `eds` of the program. It does not look at
`operation`. -/
def kqueueEventCtl (kq : Kqueue) (eds : EDPtr → KqueueDescriptor) (ed : EDRef) (fd : Int)
    (_operation : UInt16) : Int × Kqueue :=
  let eventFd := match ed with | none => fd | some p => (eds p).fd
  let eventFilter := match ed with | none => 0 | some p => (eds p).events
  kq.kevent ⟨eventFd, eventFilter, EV_ADD, ed⟩

/-- A call of `event_ctl()` as one of the three registration functions makes it, with what the
descriptor it passes holds at that time. -/
inductive CtlRequest
  | add (p : EDPtr) (fd : Int) (kind : EventKind)
  | modify (p : EDPtr) (fd : Int) (kind : EventKind)
  | delete (fd : Int)
  deriving DecidableEq, Repr

/-- Write the events and the number of the descriptor a pointer points to. -/
def World.describe (w : World σ) (events : UInt32) (fd : Int) : EDPtr → World σ
  | .obj a =>
    { w with descriptors := Function.update w.descriptors a { w.descriptors a with events, fd } }
  | .breakLoop em =>
    w.setEM em { w.ems em with
      breakLoopEventDescriptor := { (w.ems em).breakLoopEventDescriptor with events, fd } }
  | .timer t =>
    w.setTimer t { w.timers t with
      eventDescriptor := { (w.timers t).eventDescriptor with events, fd } }

def describe (events : UInt32) (fd : Int) (p : EDPtr) : Sys σ Unit :=
  modifyGet fun w => ((), w.describe events fd p)

/-- The request in the epoll build. -/
def CtlRequest.epoll (who : Owner) (queueFd : Int) : CtlRequest → Sys σ Int
  | .add p fd kind => do
    describe kind.epoll fd p
    eventCtl who queueFd (some p) (-1) .add
  | .modify p fd kind => do
    describe kind.epoll fd p
    eventCtl who queueFd (some p) (-1) .mod
  | .delete fd => eventCtl who queueFd none fd .del

/-- The request in the kqueue build. -/
def CtlRequest.kqueue (kq : Kqueue) : CtlRequest → Int × Kqueue
  | .add p fd kind => kqueueEventCtl kq (fun _ => ⟨kind.kqueue, fd⟩) (some p) (-1) CtlOp.add.kqueue
  | .modify p fd kind =>
    kqueueEventCtl kq (fun _ => ⟨kind.kqueue, fd⟩) (some p) (-1) CtlOp.mod.kqueue
  | .delete fd => kqueueEventCtl kq (fun _ => ⟨0, -1⟩) none fd CtlOp.del.kqueue

end EventMachine
