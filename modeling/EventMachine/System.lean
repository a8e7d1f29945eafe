import EventMachine.Calls
import EventMachine.Run
import EventMachine.Lib.Transition

/-!
# Programs that run the main loop

A program is modelled by what it can do at each moment, and the library by what it does next. While
code of the user is executing (`Mode.user`) it may call the API, call `event_machine_run()`, or
return to the library code that called it; the activations of that code are the stack
(`Frame`). While library code is executing (`Mode.library`) it takes its next step
(`Config.go`), which ends at the next call of a handler or callback. Other code and the kernel act
at any moment (`Env`). Handlers are arbitrary, since what they do is left open; they may run the loop
again.
-/

namespace EventMachine

open Lib

variable {σ : Type}

/-- What `event_machine_run_once()` is in the middle of: its arguments `events` and
`break_loop_read_fd`, and its variables `i` and `num_events`. -/
structure Batch where
  events : Option BufPtr
  breakLoopReadFd : Int
  i : Nat
  numEvents : Nat
  deriving DecidableEq

/-- An activation of `event_machine_run()`, between two batches or in one, or of the loop of
`internal_timeout_handler()`. -/
inductive Frame
  | run (em : EMPtr) (breakLoop : Bool) (batch : Option Batch)
  | timeout (data : VoidPtr) (numberOfTimeouts : Nat)
  deriving DecidableEq

/-- Whose code is executing. -/
inductive Mode
  | user
  | library
  | crashed
  deriving DecidableEq

structure Config (σ : Type) where
  world : World σ
  stack : List Frame
  mode : Mode

/-- The next call of `event_machine_run_once()` by `event_machine_run()`, up to its loop. -/
def runOnceBegin (em : EMPtr) (o : WaitOutcome) : Sys σ (Int × Option BufPtr × Int) := do
  let m ← getEM em
  let numEvents ← runOnceWait em m.queueFd m.events m.maxEvents m.breakLoopPipe.1 o
  return (numEvents, m.events, m.breakLoopPipe.1)

/-- The next step of library code. The outcome `o` is that of `epoll_wait()`, if the step is that
call. -/
def Config.go (c : Config σ) (o : WaitOutcome) : Config σ :=
  match c.stack with
  | [] => c
  | .run em breakLoop none :: rest =>
    match runOnceBegin em o c.world with
    | .error _ w => ⟨w, c.stack, .crashed⟩
    | .ok (numEvents, events, fd) w =>
      if numEvents < 0 then ⟨w, rest, .user⟩
      else ⟨w, .run em breakLoop (some ⟨events, fd, 0, numEvents.toNat⟩) :: rest, .library⟩
  | .run em breakLoop (some b) :: rest =>
    if b.i < b.numEvents then
      let next := { b with i := b.i + 1 }
      match runOnceSlot em b.events b.i b.breakLoopReadFd c.world with
      | .error _ w => ⟨w, c.stack, .crashed⟩
      | .ok .readFailed w => ⟨w, rest, .user⟩
      | .ok .breakLoop w => ⟨w, .run em true (some next) :: rest, .library⟩
      | .ok (.handler (.user _) _ _ _) w => ⟨w, .run em breakLoop (some next) :: rest, .user⟩
      | .ok (.handler .internalTimeoutHandler _ fd data) w =>
        match internalTimeoutRead fd data w with
        | .error _ w => ⟨w, c.stack, .crashed⟩
        | .ok none w => ⟨w, .run em breakLoop (some next) :: rest, .library⟩
        | .ok (some n) w => ⟨w, .timeout data n :: .run em breakLoop (some next) :: rest, .library⟩
    else if breakLoop then ⟨c.world, rest, .user⟩
    else ⟨c.world, .run em breakLoop none :: rest, .library⟩
  | .timeout _ 0 :: rest => ⟨c.world, rest, .library⟩
  | .timeout data (n + 1) :: rest =>
    match internalTimeoutRound data c.world with
    | .error _ w => ⟨w, c.stack, .crashed⟩
    | .ok _ w => ⟨w, .timeout data n :: rest, .user⟩

/-- The pointer in slot `j` of a batch. -/
def Batch.pointer (b : Batch) (w : World σ) (j : Nat) : EDRef :=
  if j < b.numEvents then b.events.bind fun buf => (w.buffers buf)[j]?.bind (·.data) else none

/-- The event descriptor the next step of the library goes through, when that step is a round of the
loop of `event_machine_run_once()`: its fields are read, and its handler is called. -/
def Config.serves (c : Config σ) : EDRef :=
  match c.mode, c.stack with
  | .library, .run _ _ (some b) :: _ => b.pointer c.world b.i
  | _, _ => none

/-- What a step does. -/
inductive Act
  | event (e : Event)
  | crash (c : Call)
  | run (em : EMRef)
  | ret
  | go (o : WaitOutcome)
  deriving DecidableEq

/-- The batches `epoll_wait()` may report for the queue `q`: different numbers that are registered,
each with the pointer it is registered with, and no more than asked for. -/
def Reportable (k : Kernel) (q : ObjId) (maxEvents : Int) (l : List EpollEvent) : Prop :=
  (l.length : Int) ≤ maxEvents ∧ ∃ fds : List Int, fds.Nodup ∧
    List.Forall₂ (fun fd e => ∃ ev, k.interest q fd = some ev ∧ e.data = ev.data) fds l

/-- Whether the kernel may let `epoll_wait()` end like this, if it is called next. -/
def Config.MayReport (c : Config σ) (o : WaitOutcome) : Prop :=
  ∀ em breakLoop rest l q, c.stack = .run em breakLoop none :: rest → o = .batch l →
    c.world.kernel.file (c.world.ems em).queueFd = some q →
    Reportable c.world.kernel q.id (c.world.ems em).maxEvents l

/-- The steps of a program. -/
inductive Step (usePipe2 : Bool) : Config σ → Act → Config σ → Prop
  | call {c : Call} {w w' : World σ} {r : UInt32} (fs : List Frame)
      (h : c.exec usePipe2 w = .ok r w') :
      Step usePipe2 ⟨w, fs, .user⟩ (.event (.ret c r)) ⟨w', fs, .user⟩
  | crash {c : Call} {w w' : World σ} {e : Crash} (fs : List Frame)
      (h : c.exec usePipe2 w = .error e w') :
      Step usePipe2 ⟨w, fs, .user⟩ (.crash c) ⟨w', fs, .crashed⟩
  | env (e : Env) (w : World σ) (fs : List Frame) (m : Mode) :
      Step usePipe2 ⟨w, fs, m⟩ (.event (.env e)) ⟨e.exec w, fs, m⟩
  | enter {em : EMPtr} {w w' : World σ} {r : UInt32} (fs : List Frame)
      (h : eventMachineRunEnter (some em) w = .ok r w') (hr : r = EMResult.success.code) :
      Step usePipe2 ⟨w, fs, .user⟩ (.run (some em)) ⟨w', .run em false none :: fs, .library⟩
  | refuse {em : EMRef} {w w' : World σ} {r : UInt32} (fs : List Frame)
      (h : eventMachineRunEnter em w = .ok r w') (hr : r ≠ EMResult.success.code) :
      Step usePipe2 ⟨w, fs, .user⟩ (.run em) ⟨w', fs, .user⟩
  | ret (w : World σ) (f : Frame) (fs : List Frame) :
      Step usePipe2 ⟨w, f :: fs, .user⟩ .ret ⟨w, f :: fs, .library⟩
  | go {w : World σ} {fs : List Frame} {o : WaitOutcome}
      (h : (⟨w, fs, .library⟩ : Config σ).MayReport o) :
      Step usePipe2 ⟨w, fs, .library⟩ (.go o) (Config.go ⟨w, fs, .library⟩ o)

theorem Step.of_call {usePipe2 : Bool} {c : Config σ} (f : Call) {r : UInt32} {w' : World σ}
    (hm : c.mode = .user) (h : f.exec usePipe2 c.world = .ok r w') :
    Step usePipe2 c (.event (.ret f r)) ⟨w', c.stack, .user⟩ := by
  obtain ⟨w, fs, m⟩ := c
  obtain rfl : m = .user := hm
  exact .call fs h

theorem Step.of_ret {usePipe2 : Bool} {c : Config σ} (hm : c.mode = .user) (hs : c.stack ≠ []) :
    Step usePipe2 c .ret ⟨c.world, c.stack, .library⟩ := by
  obtain ⟨w, fs, m⟩ := c
  obtain rfl : m = .user := hm
  obtain ⟨f, fs, rfl⟩ := List.exists_cons_of_ne_nil hs
  exact .ret w f fs

theorem Step.of_go {usePipe2 : Bool} {c : Config σ} {o : WaitOutcome} (hm : c.mode = .library)
    (h : c.MayReport o) : Step usePipe2 c (.go o) (c.go o) := by
  obtain ⟨w, fs, m⟩ := c
  obtain rfl : m = .library := hm
  exact .go h

end EventMachine
