import EventMachine.World

/-!
# The life of a machine

`event_machine_init()`, `event_machine_destroy()` and `event_machine_terminate()` of
`event-machine.c`, and `event_ctl()`, through which every change of an interest set goes.
-/

namespace EventMachine

open Lib

variable {σ : Type}

/-- `event_ctl()` of the epoll build. -/
def eventCtl (who : Owner) (queueFd : Int) (ed : EDRef) (fd : Int) (operation : CtlOp) :
    Sys σ Int := do
  let w ← get
  let eventFd := match ed with | none => fd | some p => (w.ed p).fd
  let eventFilter := match ed with | none => 0 | some p => (w.ed p).events
  let event : EpollEvent := ⟨eventFilter, ed⟩
  let ret ← epollCtl who queueFd operation eventFd event
  if ret = 0 then return ret
  let errno ← getErrno
  if operation ≠ .mod ∨ errno ≠ .EEXIST then return ret
  match ed with
  | none => throw .nullPointer
  | some p => epollCtl who queueFd operation (w.ed p).fd event

/-- The `fcntl()` loop of the build without `pipe2()`, over the ends of the pipe. -/
def setPipeFlags (who : Owner) : List Int → Sys σ UInt32
  | [] => return EMResult.success.code
  | fd :: rest => do
    let fdFlags ← fcntlGetfl who fd
    if fdFlags < 0 then return EMResult.errorFcntl.code
    let ret ← fcntlSetfl who fd (UInt32.ofNat fdFlags.toNat ||| FD_CLOEXEC ||| O_NONBLOCK)
    if ret < 0 then return EMResult.errorFcntl.code
    setPipeFlags who rest

/-- What `event_machine_init()` does about the flags of the pipe: `pipe2()` has set them already. -/
def initPipeFlags (usePipe2 : Bool) (who : Owner) (ends : Int × Int) : Sys σ UInt32 :=
  if usePipe2 then pure EMResult.success.code else setPipeFlags who [ends.1, ends.2]

/-- The events buffer `event_machine_init()` leaves in the machine. -/
def initEvents (em : EMPtr) : Sys σ Unit := do
  let m ← getEM em
  if m.maxEvents ≤ 0 then
    modifyEM em fun m => { m with events := none, maxEvents := EM_DEFAULT_MAX_EVENTS }
  let m ← getEM em
  match m.events with
  | none =>
    let events ← malloc m.maxEvents
    modifyEM em fun m => { m with events := events, doFreeEvents := true }
  | some _ => modifyEM em fun m => { m with doFreeEvents := false }

/-- `event_machine_init()`; `usePipe2` tells whether `USE_PIPE2` is defined. -/
def eventMachineInit (usePipe2 : Bool) : EMRef → Sys σ UInt32
  | none => return EMResult.errorNull.code
  | some em => do
    initEvents em
    let (ret, ends) ← pipe (.machine em) usePipe2
    if ret ≠ 0 then return EMResult.errorPipe.code
    modifyEM em fun m => { m with breakLoopPipe := ends }
    let flags ← initPipeFlags usePipe2 (.machine em) ends
    if ¬ isEmSuccess flags then return flags
    modifyEM em fun m =>
      { m with breakLoopEventDescriptor := ⟨EPOLLIN, m.breakLoopPipe.1, .null, none⟩ }
    let queueFd ← epollCreate (.machine em)
    if queueFd < 0 then return EMResult.errorEventCreateQueue.code
    modifyEM em fun m => { m with queueFd := queueFd }
    let ret ← eventCtl (.machine em) queueFd (some (.breakLoop em)) (-1) .add
    if ret ≠ 0 then return EMResult.errorEventCtl.code
    return EMResult.success.code

/-- `event_machine_destroy()`. The test of the first `close()` is followed by a `;`, so that the
block below it is executed whatever `close()` returned, and the assignment after it never. -/
def eventMachineDestroy : EMRef → Sys σ UInt32
  | none => return EMResult.errorNull.code
  | some em => do
    let m ← getEM em
    if 0 ≤ m.queueFd then
      let _ ← close (.machine em) m.queueFd
      return EMResult.errorClose.code
    if m.doFreeEvents then
      modifyEM em fun m => { m with events := none }
      free m.events
    if 0 ≤ m.breakLoopPipe.2 then
      let ret ← close (.machine em) m.breakLoopPipe.2
      if ret ≠ 0 then return EMResult.errorClose.code
      modifyEM em fun m => { m with breakLoopPipe := (m.breakLoopPipe.1, -1) }
    if 0 ≤ m.breakLoopPipe.1 then
      let ret ← close (.machine em) m.breakLoopPipe.1
      if ret ≠ 0 then return EMResult.errorClose.code
      modifyEM em fun m => { m with breakLoopPipe := (-1, m.breakLoopPipe.2) }
    return EMResult.success.code

/-- `event_machine_terminate()`. -/
def eventMachineTerminate : EMRef → Sys σ UInt32
  | none => return EMResult.errorNull.code
  | some em => do
    let m ← getEM em
    if m.breakLoopPipe.2 < 0 then return EMResult.errorBadfd.code
    let flags ← fcntlGetfl (.machine em) m.breakLoopPipe.2
    if flags < 0 then return EMResult.errorBadfd.code
    let ret ← writeByte (.machine em) m.breakLoopPipe.2
    if ret < 0 then
      let errno ← getErrno
      if errno ≠ .EAGAIN ∧ errno ≠ .EWOULDBLOCK then return EMResult.errorWrite.code
    return EMResult.success.code

end EventMachine
