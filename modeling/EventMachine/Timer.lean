import EventMachine.Registration

/-!
# Timers

`event-timer.c`. The event descriptor of a timer is a member of the timer (`EDPtr.timer`), and its
`data` points back to the timer.
-/

namespace EventMachine

open Lib

variable {σ : Type}

/-- What a zeroed timer with invalid descriptors looks like. -/
def shredded : EventTimer where
  eventDescriptor := ⟨0, -1, .null, none⟩
  eventMachine := none
  data := .null
  callback := none

/-- `shred()`. -/
def shred (timer : TimerPtr) : Sys σ Unit := modifyTimer timer fun _ => shredded

/-- `event_timer_create()`. -/
def eventTimerCreate (eventMachine : EMRef) (timer : Option TimerPtr) (callback : Option Nat)
    (data : VoidPtr) : Sys σ UInt32 := do
  let some em := eventMachine | return EMResult.errorNull.code
  let some timer := timer | return EMResult.errorTimerNull.code
  let some callback := callback | return EMResult.errorCallbackNull.code
  modifyTimer timer fun x => { x with eventMachine := some em, data, callback := some callback }
  let fd ← timerfdCreate (.timer timer)
  if fd < 0 then return EMResult.errorTimerfdCreate.code
  modifyTimer timer fun x =>
    { x with eventDescriptor := ⟨EPOLLIN, fd, .timer timer, some .internalTimeoutHandler⟩ }
  let ret ← eventMachineAdd (some em) (some (.timer timer))
  if ¬ isEmSuccess ret then
    let savedErrno ← getErrno
    cAssert (ret ≠ EMResult.errorNull.code)
    cAssert (ret ≠ EMResult.errorDescriptorNull.code)
    let _ ← close (.timer timer) fd
    shred timer
    setErrno savedErrno
  return ret

/-- The `struct timespec` of a number of milliseconds, as `event_timer_start()` computes it. -/
def expirationTime (msec : Int32) : Timespec :=
  ⟨(msec / 1000).toInt, ((msec % 1000) * 1000).toInt⟩

/-- `event_timer_start()`. -/
def eventTimerStart (timer : Option TimerPtr) (msec : Int32) (isOneShot : Bool) :
    Sys σ UInt32 := do
  let some timer := timer | return EMResult.errorTimerNull.code
  let expiration : Itimerspec :=
    ⟨if isOneShot then ⟨0, 0⟩ else expirationTime msec, expirationTime msec⟩
  let x ← getTimer timer
  let ret ← timerfdSettime (.timer timer) x.eventDescriptor.fd expiration
  if ret < 0 then return EMResult.errorTimerfdSettime.code
  return EMResult.success.code

/-- `event_timer_stop()`. -/
def eventTimerStop (timer : Option TimerPtr) : Sys σ UInt32 := do
  let some timer := timer | return EMResult.errorTimerNull.code
  let x ← getTimer timer
  let ret ← timerfdSettime (.timer timer) x.eventDescriptor.fd ⟨⟨0, 0⟩, ⟨0, 0⟩⟩
  if ret < 0 then return EMResult.errorTimerfdSettime.code
  return EMResult.success.code

/-- `event_timer_destroy()`. -/
def eventTimerDestroy (timer : Option TimerPtr) : Sys σ UInt32 := do
  let some timer := timer | return EMResult.errorTimerNull.code
  let x ← getTimer timer
  let (ret, _) ← eventMachineDelete x.eventMachine x.eventDescriptor.fd none
  if ¬ isEmSuccess ret then
    let savedErrno ← getErrno
    cAssert (ret ≠ EMResult.errorNull.code)
    cAssert (ret ≠ EMResult.errorDescriptorNull.code)
    let _ ← close (.timer timer) x.eventDescriptor.fd
    setErrno savedErrno
    return ret
  let closed ← close (.timer timer) x.eventDescriptor.fd
  if closed < 0 then return EMResult.errorClose.code
  shred timer
  return EMResult.success.code

/-! ## The handler of timer descriptors

`internal_timeout_handler()` calls code of the user, so it is given in the pieces between those
calls: reading the number of expirations, and one round of its loop. -/

/-- On whose behalf a timer descriptor is served. -/
def VoidPtr.owner : VoidPtr → Owner
  | .timer t => .timer t
  | _ => .other

/-- `internal_timeout_handler()` up to its loop: the number of rounds, or `none` when it returns
before. -/
def internalTimeoutRead (fd : Int) (data : VoidPtr) : Sys σ (Option Nat) := do
  cAssert (0 ≤ fd)
  let (readed, numberOfTimeouts) ← readExpirations data.owner fd
  let errno ← getErrno
  if readed ≠ 8 ∧ errno = .EAGAIN then return none
  cAssert (readed = 8)
  return some numberOfTimeouts

/-- The callback one round calls, and the arguments it gets. -/
def internalTimeoutRound (data : VoidPtr) : Sys σ (Nat × TimerPtr × VoidPtr) := do
  let .timer timer := data | throw .nullPointer
  let x ← getTimer timer
  let some callback := x.callback | throw .nullPointer
  modifyGet fun w =>
    ((callback, timer, x.data),
      { w with invoked := w.invoked ++ [.callback callback timer x.data] })

end EventMachine
