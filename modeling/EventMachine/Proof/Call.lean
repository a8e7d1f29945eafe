import EventMachine.Calls
import EventMachine.Proof.Init
import EventMachine.Proof.Timer

/-!
# What a call of the API can do

`CallOutcome` collects what the functions can do when they return, and `Call.outcome` says that they do
nothing else. A function that is given `NULL` for its machine or its timer does nothing.
-/

namespace EventMachine

open Lib

variable {σ : Type}

/-- The function is given `NULL` for what it is about. -/
def Call.Null : Call → Prop
  | .init em => em = none
  | .destroy em => em = none
  | .terminate em => em = none
  | .reg em _ => em = none
  | .timerCreate _ t _ _ => t = none
  | .timerStart t _ _ => t = none
  | .timerStop t => t = none
  | .timerDestroy t => t = none

inductive CallOutcome (usePipe2 : Bool) (w : World σ) : Call → UInt32 → World σ → Prop
  | null {c : Call} {r : UInt32} (null : c.Null) : CallOutcome usePipe2 w c r w
  | init {em : EMPtr} {ms : List (BufPtr × Int)} {m : EM σ} {r : UInt32} {w' : World σ}
      (buffer : Buffered w em m ms) (out : InitOutcome usePipe2 w em ms m r w') :
      CallOutcome usePipe2 w (.init (some em)) r w'
  | destroy {em : EMPtr} {r : UInt32} {w' : World σ} (out : DestroyOutcome w em r w') :
      CallOutcome usePipe2 w (.destroy (some em)) r w'
  | terminate {em : EMPtr} {r : UInt32} {w' : World σ} (only : KernelOnly w w')
      (still : w'.kernel.still = w.kernel.still) (timerfds : w'.kernel.timerfds = w.kernel.timerfds) :
      CallOutcome usePipe2 w (.terminate (some em)) r w'
  | reg {em : EMPtr} {c : RegCall} {r : UInt32 × OutVar} {w' : World σ}
      (out : Outcome w em (c.change w em) c.oldEd r w') : CallOutcome usePipe2 w (.reg (some em) c) r.1 w'
  | timerCreate {em : EMRef} {t : TimerPtr} {callback : Option Nat} {data : VoidPtr} {r : UInt32}
      {w' : World σ} (out : CreateOutcome w t r w') :
      CallOutcome usePipe2 w (.timerCreate em (some t) callback data) r w'
  | timerStart {t : TimerPtr} {msec : Int32} {isOneShot : Bool} {r : UInt32} {w' : World σ}
      (out : Settime w t (startSetting msec isOneShot) r w') :
      CallOutcome usePipe2 w (.timerStart (some t) msec isOneShot) r w'
  | timerStop {t : TimerPtr} {r : UInt32} {w' : World σ} (out : Settime w t ⟨⟨0, 0⟩, ⟨0, 0⟩⟩ r w') :
      CallOutcome usePipe2 w (.timerStop (some t)) r w'
  | timerDestroy {t : TimerPtr} {r : UInt32} {w' : World σ} (out : TimerDestroyOutcome w t r w') :
      CallOutcome usePipe2 w (.timerDestroy (some t)) r w'

theorem Call.Null.exec {c : Call} (h : c.Null) (usePipe2 : Bool) (w : World σ) :
    ∃ r, c.exec usePipe2 w = .ok r w := by
  cases c with
  | reg em c =>
    obtain rfl : em = none := h
    cases c <;> exact ⟨_, rfl⟩
  | timerCreate em t callback data =>
    obtain rfl : t = none := h
    cases em <;> exact ⟨_, rfl⟩
  | _ =>
    subst h
    exact ⟨_, rfl⟩

theorem Call.outcome {usePipe2 : Bool} {c : Call} {r : UInt32} {w w' : World σ}
    (hexec : c.exec usePipe2 w = .ok r w') : CallOutcome usePipe2 w c r w' := by
  by_cases hnull : c.Null
  · obtain ⟨r', hexec'⟩ := hnull.exec usePipe2 w
    obtain ⟨rfl, rfl⟩ := EStateM.Result.ok.inj (hexec'.symm.trans hexec)
    exact .null hnull
  cases c with
  | init em =>
    obtain ⟨em, rfl⟩ := Option.ne_none_iff_exists'.1 hnull
    obtain ⟨ms, m, hbuffer, hout⟩ := wp_ok (init_spec usePipe2 w em) hexec
    exact .init hbuffer hout
  | destroy em =>
    obtain ⟨em, rfl⟩ := Option.ne_none_iff_exists'.1 hnull
    exact .destroy (wp_ok (destroy_spec w em) hexec)
  | terminate em =>
    obtain ⟨em, rfl⟩ := Option.ne_none_iff_exists'.1 hnull
    obtain ⟨honly, hstill, htimerfds, -⟩ := wp_ok (terminate_spec w em) hexec
    exact .terminate honly hstill htimerfds
  | reg em c =>
    obtain ⟨em, rfl⟩ := Option.ne_none_iff_exists'.1 hnull
    obtain ⟨ro, hexec', rfl⟩ := Call.reg_ok hexec
    exact .reg (wp_ok (c.spec w em) hexec')
  | timerCreate em t callback data =>
    obtain ⟨t, rfl⟩ := Option.ne_none_iff_exists'.1 hnull
    exact .timerCreate (wp_ok (create_spec em t callback data w) hexec)
  | timerStart t msec isOneShot =>
    obtain ⟨t, rfl⟩ := Option.ne_none_iff_exists'.1 hnull
    exact .timerStart (wp_ok (start_spec t msec isOneShot w) hexec)
  | timerStop t =>
    obtain ⟨t, rfl⟩ := Option.ne_none_iff_exists'.1 hnull
    exact .timerStop (wp_ok (stop_spec t w) hexec)
  | timerDestroy t =>
    obtain ⟨t, rfl⟩ := Option.ne_none_iff_exists'.1 hnull
    exact .timerDestroy (wp_ok (timerDestroy_spec t w) hexec)

end EventMachine
