import EventMachine.Proof.Call
import EventMachine.System

/-!
# What no call of the API touches

The event descriptors of the user, the buffers of events, and the record of the calls that have been
made through function pointers: only the main loop and the program itself write there.
-/

namespace EventMachine

open Lib

variable {σ : Type}

/-- The parts of the world that calls of the API leave alone. -/
def World.passive (w : World σ) :
    (Nat → EMEventDescriptor) × (BufPtr → List EpollEvent) × List Invocation :=
  (w.descriptors, w.buffers, w.invoked)

section calls
variable {w w' : World σ}

theorem KernelOnly.passive (h : KernelOnly w w') : w'.passive = w.passive :=
  congrArg (·.passive) h

theorem Outcome.passive {em : EMPtr} {c : Change σ} {oldEd : OutVar} {r : UInt32 × OutVar}
    (h : Outcome w em c oldEd r w') : w'.passive = w.passive := by
  cases h with
  | refused _ _ same => exact congrArg (·.passive) same.core
  | done _ _ _ core => exact congrArg (·.passive) core

theorem EndClosed.passive {em : EMPtr} {fd : Int} {forget : EM σ → EM σ}
    (h : EndClosed em fd forget w w') : w'.passive = w.passive := by
  rcases h with ⟨-, rfl⟩ | ⟨-, v, hclosed, rfl⟩
  · rfl
  · exact hclosed.only.passive

theorem DestroyOutcome.passive {em : EMPtr} {r : UInt32} (h : DestroyOutcome w em r w') :
    w'.passive = w.passive := by
  have hfree : (w.freeEvents em).passive = w.passive := by
    unfold World.freeEvents
    split <;> rfl
  cases h with
  | queue _ closed => exact closed.only.passive
  | writeEnd _ _ closed => exact closed.only.passive.trans hfree
  | readEnd _ write _ closed => exact closed.only.passive.trans (write.passive.trans hfree)
  | done _ write read => exact read.passive.trans (write.passive.trans hfree)

theorem InitOutcome.passive {usePipe2 : Bool} {em : EMPtr} {ms : List (BufPtr × Int)} {m : EM σ}
    {r : UInt32} (h : InitOutcome usePipe2 w em ms m r w') : w'.passive = w.passive := by
  obtain ⟨m', base⟩ := h.base
  exact congrArg (·.passive) base.frame

theorem TimerAdded.passive {t : TimerPtr} {fd : Int} {r : UInt32} (h : TimerAdded w t fd r w') :
    w'.passive = w.passive := by
  obtain ⟨em, callback, data, f, w₁, hmade, hout, -⟩ := h
  exact hout.passive.trans (congrArg (·.passive) hmade.frame)

theorem CreateOutcome.passive {t : TimerPtr} {r : UInt32} (h : CreateOutcome w t r w') :
    w'.passive = w.passive := by
  cases h with
  | refused => rfl
  | noTimerfd _ frame => exact congrArg (·.passive) frame
  | notAdded e _ added closed => exact closed.only.passive.trans added.passive
  | done added => exact added.passive

theorem TimerDestroyOutcome.passive {t : TimerPtr} {r : UInt32} (h : TimerDestroyOutcome w t r w') :
    w'.passive = w.passive := by
  have hdeleted : ∀ {r w₁}, TimerDeleted w t r w₁ → w₁.passive = w.passive := by
    rintro r w₁ ⟨em, old, -, hout, -⟩
    exact hout.passive
  cases h with
  | notDeleted e _ deleted closed => exact closed.only.passive.trans (hdeleted deleted)
  | notClosed deleted closed => exact closed.only.passive.trans (hdeleted deleted)
  | done deleted closed => exact closed.only.passive.trans (hdeleted deleted)

end calls

theorem Call.passive {usePipe2 : Bool} {f : Call} {r : UInt32} {w w' : World σ}
    (hexec : f.exec usePipe2 w = .ok r w') : w'.passive = w.passive := by
  cases Call.outcome hexec with
  | null => rfl
  | init _ out => exact out.passive
  | destroy out => exact out.passive
  | terminate only => exact only.passive
  | reg out => exact out.passive
  | timerCreate out => exact out.passive
  | timerStart out => exact out.only.passive
  | timerStop out => exact out.only.passive
  | timerDestroy out => exact out.passive

theorem Env.buffers (e : Env) (w : World σ) : (e.exec w).buffers = w.buffers := by
  cases e <;> rfl

end EventMachine
