import EventMachine.Timer

/-!
# Calls of the API

A program that uses the library calls its functions (`Call`), and between two calls other code and
the kernel may act (`Env`). `Event` is one entry of such a history: a call with the code it returned,
or an action of the environment; `Event.step` is what it does to the world.
-/

namespace EventMachine

open Lib

variable {σ : Type}

/-- A call of a function of the API that does not call back into the program. -/
inductive Call
  | init (em : EMRef)
  | destroy (em : EMRef)
  | terminate (em : EMRef)
  | reg (em : EMRef) (c : RegCall)
  | timerCreate (em : EMRef) (timer : Option TimerPtr) (callback : Option Nat) (data : VoidPtr)
  | timerStart (timer : Option TimerPtr) (msec : Int32) (isOneShot : Bool)
  | timerStop (timer : Option TimerPtr)
  | timerDestroy (timer : Option TimerPtr)
  deriving DecidableEq

/-- Run a call, for the code it returns; `usePipe2` is the build flag. -/
def Call.exec (usePipe2 : Bool) : Call → Sys σ UInt32
  | .init em => eventMachineInit usePipe2 em
  | .destroy em => eventMachineDestroy em
  | .terminate em => eventMachineTerminate em
  | .reg em c => do return (← c.exec em).1
  | .timerCreate em timer callback data => eventTimerCreate em timer callback data
  | .timerStart timer msec isOneShot => eventTimerStart timer msec isOneShot
  | .timerStop timer => eventTimerStop timer
  | .timerDestroy timer => eventTimerDestroy timer

theorem wp_reg {usePipe2 : Bool} {em : EMRef} {c : RegCall} {w : World σ}
    {Q : UInt32 → World σ → Prop} {E : Crash → World σ → Prop} :
    wp ((Call.reg em c).exec usePipe2) Q E w ↔ wp (c.exec em) (fun r w' => Q r.1 w') E w :=
  wp_bind _ _

theorem Call.reg_ok {usePipe2 : Bool} {em : EMRef} {c : RegCall} {w w' : World σ} {r : UInt32}
    (h : (Call.reg em c).exec usePipe2 w = .ok r w') : ∃ ro, c.exec em w = .ok ro w' ∧ ro.1 = r := by
  have hself := wp_reg.1 (wp_self ((Call.reg em c).exec usePipe2) w)
  cases hexec : c.exec em w with
  | ok ro v =>
    obtain ⟨rfl, rfl⟩ := EStateM.Result.ok.inj ((wp_ok hself hexec).symm.trans h)
    exact ⟨ro, rfl, rfl⟩
  | error e v => exact absurd ((wp_error hself hexec).symm.trans h) (by simp)

/-- What may happen between two calls: other code opens or closes a descriptor, the memory of an
event descriptor or a timer is written, a timer expires. -/
inductive Env
  | openFile (status : UInt32) (cloexec : Bool)
  | closeFile (fd : Int)
  | setDescriptor (a : Nat) (d : EMEventDescriptor)
  | setTimer (t : TimerPtr) (x : EventTimer)
  | expire (o : ObjId)
  deriving DecidableEq

def Env.exec (w : World σ) : Env → World σ
  | .openFile status cloexec =>
    { w with kernel := (w.kernel.openFile .other .other status cloexec).2 }
  | .closeFile fd => { w with kernel := (w.kernel.close fd).2 }
  | .setDescriptor a d => { w with descriptors := Function.update w.descriptors a d }
  | .setTimer t x => w.setTimer t x
  | .expire o => { w with kernel := w.kernel.expire o }

/-- An entry of a history. -/
inductive Event
  | ret (c : Call) (r : UInt32)
  | env (e : Env)
  deriving DecidableEq

def Event.step (usePipe2 : Bool) (w : World σ) : Event → World σ → Prop
  | .ret c r, w' => c.exec usePipe2 w = .ok r w'
  | .env e, w' => w' = e.exec w

end EventMachine
