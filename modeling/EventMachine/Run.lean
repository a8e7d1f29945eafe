import EventMachine.Timer

/-!
# The main loop

`event_machine_run_once()` and `event_machine_run()` of `event-machine.c`. Both call code of the
user, so they come in two forms. The pieces between those calls (`runOnceWait`, `runOnceSlot`,
`eventMachineRunEnter`) are what the interleaving model of `System.lean` is made of; the functions
themselves (`eventMachineRunOnce`, `eventMachineRun`) put the same pieces together around given
user code, with the outcomes of `epoll_wait()` as a stream.
-/

namespace EventMachine

open Lib

variable {σ : Type}

/-- The functions of the user a program contains, by the names the function pointers hold. -/
structure UserCode (σ : Type) where
  handler : Nat → EMPtr → UInt32 → Int → VoidPtr → Sys σ Unit
  callback : Nat → TimerPtr → VoidPtr → Sys σ Unit

/-- What one round of the `for` loop of `event_machine_run_once()` finds out before it calls a
handler. -/
inductive Slot
  | readFailed
  | breakLoop
  | handler (h : Handler) (events : UInt32) (fd : Int) (data : VoidPtr)
  deriving DecidableEq, Repr

/-- `event_machine_run_once()` up to its loop: the value of `event_wait()`. -/
def runOnceWait (em : EMPtr) (queueFd : Int) (events : Option BufPtr) (maxEvents : Int)
    (breakLoopReadFd : Int) (o : WaitOutcome) : Sys σ Int := do
  cAssert (0 ≤ queueFd)
  cAssert (0 ≤ breakLoopReadFd)
  epollWait (.machine em) queueFd events maxEvents o

/-- Round `i` of the loop of `event_machine_run_once()`, without the call of the handler. -/
def runOnceSlot (em : EMPtr) (events : Option BufPtr) (i : Nat) (breakLoopReadFd : Int) :
    Sys σ Slot := do
  let w ← get
  let some b := events | throw .nullPointer
  let some e := (w.buffers b)[i]? | throw .nullPointer
  let some p := e.data | throw .nullPointer
  let ed ← getED p
  if ed.fd = breakLoopReadFd then
    let ret ← readByte (.machine em) breakLoopReadFd
    if ret < 0 then return .readFailed
    return .breakLoop
  let some h := ed.handler | throw .nullPointer
  modifyGet fun w =>
    (.handler h e.events ed.fd ed.data,
      { w with invoked := w.invoked ++ [.handler h em e.events ed.fd ed.data] })

/-- The loop of `internal_timeout_handler()`. -/
def timeoutLoop (user : UserCode σ) (data : VoidPtr) : Nat → Sys σ Unit
  | 0 => pure ()
  | n + 1 => do
    let (callback, timer, timerData) ← internalTimeoutRound data
    user.callback callback timer timerData
    timeoutLoop user data n

/-- `internal_timeout_handler()`. -/
def internalTimeoutHandler (user : UserCode σ) (fd : Int) (data : VoidPtr) : Sys σ Unit := do
  let some numberOfTimeouts ← internalTimeoutRead fd data | return
  timeoutLoop user data numberOfTimeouts

/-- A call through `ed->handler`. -/
def callHandler (user : UserCode σ) (h : Handler) (em : EMPtr) (events : UInt32) (fd : Int)
    (data : VoidPtr) : Sys σ Unit :=
  match h with
  | .user h => user.handler h em events fd data
  | .internalTimeoutHandler => internalTimeoutHandler user fd data

/-- The loop of `event_machine_run_once()` from slot `i` on, with `left` slots to go; the result
code and the final value of `break_loop`. -/
def runOnceLoop (user : UserCode σ) (em : EMPtr) (events : Option BufPtr) (breakLoopReadFd : Int) :
    Nat → Nat → Bool → Sys σ (UInt32 × Bool)
  | 0, _, breakLoop => return (EMResult.success.code, breakLoop)
  | left + 1, i, breakLoop => do
    match ← runOnceSlot em events i breakLoopReadFd with
    | .readFailed => return (EMResult.errorRead.code, true)
    | .breakLoop => runOnceLoop user em events breakLoopReadFd left (i + 1) true
    | .handler h bits fd data =>
      callHandler user h em bits fd data
      runOnceLoop user em events breakLoopReadFd left (i + 1) breakLoop

/-- `event_machine_run_once()`. -/
def eventMachineRunOnce (user : UserCode σ) (em : EMPtr) (queueFd : Int) (events : Option BufPtr)
    (maxEvents : Int) (breakLoopReadFd : Int) (breakLoop : Bool) (o : WaitOutcome) :
    Sys σ (UInt32 × Bool) := do
  let numEvents ← runOnceWait em queueFd events maxEvents breakLoopReadFd o
  if numEvents < 0 then return (EMResult.errorEventWait.code, breakLoop)
  runOnceLoop user em events breakLoopReadFd numEvents.toNat 0 breakLoop

/-- `event_machine_run()` up to its loop: `EM_SUCCESS` when the loop is entered. -/
def eventMachineRunEnter (em : EMRef) : Sys σ UInt32 := do
  let some em := em | return EMResult.errorNull.code
  let m ← getEM em
  if m.queueFd < 0 then return EMResult.errorBadfd.code
  if m.maxEvents ≤ 0 then return EMResult.errorMaxEventsTooSmall.code
  if m.events = none then return EMResult.errorEventsNull.code
  let flags ← fcntlGetfl (.machine em) m.queueFd
  if flags < 0 then return EMResult.errorBadfd.code
  return EMResult.success.code

/-- The loop of `event_machine_run()`, for at most `fuel` rounds; `none` when it is still going
on. -/
def runLoop (user : UserCode σ) (em : EMPtr) (waits : Nat → WaitOutcome) :
    Nat → Nat → Sys σ (Option UInt32)
  | 0, _ => return none
  | fuel + 1, round => do
    let m ← getEM em
    let (ret, breakLoop) ← eventMachineRunOnce user em m.queueFd m.events m.maxEvents
      m.breakLoopPipe.1 false (waits round)
    if ¬ isEmSuccess ret then return some ret
    if breakLoop then return some EMResult.success.code
    runLoop user em waits fuel (round + 1)

/-- `event_machine_run()`, for at most `fuel` rounds. -/
def eventMachineRun (user : UserCode σ) (em : EMRef) (waits : Nat → WaitOutcome) (fuel : Nat) :
    Sys σ (Option UInt32) := do
  let ret ← eventMachineRunEnter em
  if ¬ isEmSuccess ret then return some ret
  match em with
  | none => return some EMResult.errorNull.code
  | some em => runLoop user em waits fuel 0

end EventMachine
