import EventMachine.Proof.Loop
import EventMachine.Proof.Owned
import EventMachine.Proof.Passive

/-!
# The memory of machines

Only `event_machine_init()` and `event_machine_destroy()` write to a machine, allocate a buffer or free
one. What the main loop takes from a machine (`CanWait`) survives both: with a buffer in place
`event_machine_init()` keeps it, and `event_machine_destroy()` does not get past the queue.
-/

namespace EventMachine

open Lib

variable {σ : Type}

/-- The machines, and the buffers allocated and freed so far. -/
def World.machinery (w : World σ) : (EMPtr → EM σ) × List (BufPtr × Int) × List BufPtr :=
  (w.ems, w.mallocs, w.frees)

section calls
variable {w w' : World σ}

theorem KernelOnly.machinery (h : KernelOnly w w') : w'.machinery = w.machinery :=
  congrArg (·.machinery) h

theorem Calm.machinery (h : Calm w w') : w'.machinery = w.machinery := congrArg (·.machinery) h

theorem Outcome.machinery {em : EMPtr} {c : Change σ} {oldEd : OutVar} {r : UInt32 × OutVar}
    (h : Outcome w em c oldEd r w') : w'.machinery = w.machinery := by
  cases h with
  | refused _ _ same => exact congrArg (·.machinery) same.core
  | done _ _ _ core => exact congrArg (·.machinery) core

theorem TimerAdded.machinery {t : TimerPtr} {fd : Int} {r : UInt32} (h : TimerAdded w t fd r w') :
    w'.machinery = w.machinery := by
  obtain ⟨em, callback, data, f, w₁, hmade, hout, -⟩ := h
  exact hout.machinery.trans (congrArg (·.machinery) hmade.frame)

theorem CreateOutcome.machinery {t : TimerPtr} {r : UInt32} (h : CreateOutcome w t r w') :
    w'.machinery = w.machinery := by
  cases h with
  | refused => rfl
  | noTimerfd _ frame => exact congrArg (·.machinery) frame
  | notAdded e _ added closed => exact closed.only.machinery.trans added.machinery
  | done added => exact added.machinery

theorem TimerDestroyOutcome.machinery {t : TimerPtr} {r : UInt32} (h : TimerDestroyOutcome w t r w') :
    w'.machinery = w.machinery := by
  have hdeleted : ∀ {r w₁}, TimerDeleted w t r w₁ → w₁.machinery = w.machinery := by
    rintro r w₁ ⟨em, old, -, hout, -⟩
    exact hout.machinery
  cases h with
  | notDeleted e _ deleted closed => exact closed.only.machinery.trans (hdeleted deleted)
  | notClosed deleted closed => exact closed.only.machinery.trans (hdeleted deleted)
  | done deleted closed => exact closed.only.machinery.trans (hdeleted deleted)

theorem InitOutcome.machine {usePipe2 : Bool} {em : EMPtr} {ms : List (BufPtr × Int)} {m : EM σ}
    {r : UInt32} (h : InitOutcome usePipe2 w em ms m r w') :
    ∃ m', w'.machinery = (Function.update w.ems em m', ms, w.frees) ∧ m'.events = m.events ∧
      m'.maxEvents = m.maxEvents ∧ m'.doFreeEvents = m.doFreeEvents ∧
      (m'.breakLoopPipe = m.breakLoopPipe ∨ 0 ≤ m'.breakLoopPipe.1) ∧
      (m'.queueFd = m.queueFd ∨ 0 ≤ m'.queueFd ∧ 0 ≤ m'.breakLoopPipe.1) := by
  have hends : ∀ {k' : Kernel} {ends : Int × Int}, w.kernel.PipeMade (.machine em) ends k' →
      0 ≤ ends.1 := fun hpipe => (pipeMade_files hpipe).1.1
  have hframe : ∀ {m'}, InitFrame w em ms m' w' →
      w'.machinery = (Function.update w.ems em m', ms, w.frees) := fun base => by
    have hfrees : w'.frees = w.frees := congrArg (·.frees) base.frame
    rw [World.machinery, base.ems, base.mallocs, hfrees]
  cases h with
  | noPipe _ base => exact ⟨_, hframe base, rfl, rfl, rfl, Or.inl rfl, Or.inl rfl⟩
  | noFlags _ _ base pipe => exact ⟨_, hframe base, rfl, rfl, rfl, Or.inr (hends pipe), Or.inl rfl⟩
  | noQueue _ _ base pipe => exact ⟨_, hframe base, rfl, rfl, rfl, Or.inr (hends pipe), Or.inl rfl⟩
  | queue _ _ _ _ _ base pipe queue =>
    exact ⟨_, hframe base, rfl, rfl, rfl, Or.inr (hends pipe), Or.inr ⟨queue.1.nonneg, hends pipe⟩⟩

theorem DestroyOutcome.machine {em : EMPtr} {r : UInt32} (h : DestroyOutcome w em r w') :
    (0 ≤ (w.ems em).queueFd ∧ w'.machinery = w.machinery) ∨
      ((w.ems em).queueFd < 0 ∧ ∃ pipe, w'.machinery =
        (Function.update w.ems em { (w.freeEvents em).ems em with breakLoopPipe := pipe }, w.mallocs,
          (w.freeEvents em).frees)) := by
  have hfree : (w.freeEvents em).machinery = (Function.update w.ems em ((w.freeEvents em).ems em),
      w.mallocs, (w.freeEvents em).frees) := by
    unfold World.freeEvents World.machinery
    split
    · simp [World.setEM]
    · rw [Function.update_eq_self]
  have hclosed : ∀ {v v' : World σ} {fd : Int} {forget : EM σ → EM σ}
      (_ : ∀ m : EM σ, ∃ pipe, forget m = { m with breakLoopPipe := pipe }) (_ : EndClosed em fd forget v v')
      (_ : ∃ pipe, v.machinery = (Function.update w.ems em
        { (w.freeEvents em).ems em with breakLoopPipe := pipe }, w.mallocs, (w.freeEvents em).frees)),
      ∃ pipe, v'.machinery = (Function.update w.ems em
        { (w.freeEvents em).ems em with breakLoopPipe := pipe }, w.mallocs, (w.freeEvents em).frees) := by
    rintro v v' fd forget hforget (⟨-, rfl⟩ | ⟨-, v₁, hclosed, rfl⟩) ⟨pipe, hv⟩
    · exact ⟨pipe, hv⟩
    · have hv₁ := hclosed.only.machinery.trans hv
      simp only [World.machinery, Prod.mk.injEq] at hv₁
      obtain ⟨hems, hmallocs, hfrees⟩ := hv₁
      obtain ⟨pipe', hpipe'⟩ := hforget (v₁.ems em)
      refine ⟨pipe', ?_⟩
      rw [hpipe', hems]
      simp [World.machinery, World.setEM, hems, hmallocs, hfrees]
  have hstart : ∃ pipe, (w.freeEvents em).machinery = (Function.update w.ems em
      { (w.freeEvents em).ems em with breakLoopPipe := pipe }, w.mallocs, (w.freeEvents em).frees) :=
    ⟨((w.freeEvents em).ems em).breakLoopPipe, hfree⟩
  have hwrite : ∀ m : EM σ, ∃ pipe, forgetWriteEnd m = { m with breakLoopPipe := pipe } := fun m => ⟨_, rfl⟩
  have hread : ∀ m : EM σ, ∃ pipe, forgetReadEnd m = { m with breakLoopPipe := pipe } := fun m => ⟨_, rfl⟩
  cases h with
  | queue fd closed => exact Or.inl ⟨fd, closed.only.machinery⟩
  | writeEnd fd _ closed =>
    rw [closed.only.machinery]
    exact Or.inr ⟨fd, hstart⟩
  | readEnd fd write _ closed =>
    rw [closed.only.machinery]
    exact Or.inr ⟨fd, hclosed hwrite write hstart⟩
  | done fd write read => exact Or.inr ⟨fd, hclosed hread read (hclosed hwrite write hstart)⟩

end calls

theorem Env.machinery (w : World σ) (e : Env) : (e.exec w).machinery = w.machinery := by
  cases e <;> rfl

/-! ## Machines that can be run -/

/-- A machine with a queue has a pipe. -/
def World.Piped (w : World σ) : Prop :=
  ∀ em, 0 ≤ (w.ems em).queueFd → 0 ≤ (w.ems em).breakLoopPipe.1

/-- What the main loop takes from a machine: its descriptors, and the buffer `b` for `n` events. -/
structure CanWait (w : World σ) (em : EMPtr) (b : BufPtr) (n : Int) : Prop where
  queue : 0 ≤ (w.ems em).queueFd
  readEnd : 0 ≤ (w.ems em).breakLoopPipe.1
  buffer : (w.ems em).events = some b
  maxEvents : (w.ems em).maxEvents = n
  pos : 0 < n

section steps
variable {w w' : World σ} {em : EMPtr} {b : BufPtr} {n : Int} {usePipe2 : Bool}

theorem World.Piped.of_machinery (h : w.Piped) (hm : w'.machinery = w.machinery) : w'.Piped := by
  intro em
  rw [show w'.ems = w.ems from congrArg (·.1) hm]
  exact h em

theorem CanWait.congr (h : CanWait w em b n) (hem : w'.ems em = w.ems em) : CanWait w' em b n where
  queue := hem ▸ h.queue
  readEnd := hem ▸ h.readEnd
  buffer := hem ▸ h.buffer
  maxEvents := hem ▸ h.maxEvents
  pos := h.pos

theorem CanWait.of_machinery (h : CanWait w em b n) (hm : w'.machinery = w.machinery) :
    CanWait w' em b n :=
  h.congr (congrFun (congrArg (·.1) hm) em)

theorem World.Piped.call {f : Call} {r : UInt32} (h : w.Piped) (hexec : f.exec usePipe2 w = .ok r w') :
    w'.Piped := by
  cases Call.outcome hexec with
  | null => exact h
  | @init em ms m r w' buffer out =>
    obtain ⟨m', hm, -, -, -, hpipe, hqueue⟩ := out.machine
    have hems : w'.ems = Function.update w.ems em m' := congrArg (·.1) hm
    obtain ⟨hmq, hmp⟩ := buffer.descriptors
    intro em'
    rw [hems]
    by_cases he : em' = em
    · subst he
      rw [Function.update_self]
      intro hq
      rcases hqueue with hsame | ⟨-, hread⟩
      · rw [hsame, hmq] at hq
        rcases hpipe with hsame | hread
        · rw [hsame, hmp]
          exact h em' hq
        · exact hread
      · exact hread
    · rw [Function.update_of_ne he]
      exact h em'
  | @destroy em r w' out =>
    rcases out.machine with ⟨-, hm⟩ | ⟨hneg, pipe, hm⟩
    · exact h.of_machinery hm
    · have hems : w'.ems = Function.update w.ems em _ := congrArg (·.1) hm
      intro em'
      rw [hems]
      by_cases he : em' = em
      · subst he
        rw [Function.update_self, freeEvents_em]
        exact fun hq => absurd hneg (Int.not_lt.2 hq)
      · rw [Function.update_of_ne he]
        exact h em'
  | terminate only => exact h.of_machinery only.machinery
  | reg out => exact h.of_machinery out.machinery
  | timerCreate out => exact h.of_machinery out.machinery
  | timerStart out => exact h.of_machinery out.only.machinery
  | timerStop out => exact h.of_machinery out.only.machinery
  | timerDestroy out => exact h.of_machinery out.machinery

/-- No call takes from a machine what the main loop needs. -/
theorem CanWait.call {f : Call} {r : UInt32} (h : CanWait w em b n)
    (hexec : f.exec usePipe2 w = .ok r w') : CanWait w' em b n := by
  cases Call.outcome hexec with
  | null => exact h
  | @init em' ms m r w' buffer out =>
    obtain ⟨m', hm, hevents, hmax, -, hpipe, hqueue⟩ := out.machine
    have hems : w'.ems = Function.update w.ems em' m' := congrArg (·.1) hm
    obtain ⟨hmq, hmp⟩ := buffer.descriptors
    by_cases he : em = em'
    · subst he
      have hself : w'.ems em = m' := by rw [hems, Function.update_self]
      have hread : 0 ≤ m'.breakLoopPipe.1 := by
        rcases hpipe with hsame | hread
        · rw [hsame, hmp]
          exact h.readEnd
        · exact hread
      have hq : 0 ≤ m'.queueFd := by
        rcases hqueue with hsame | ⟨hq, -⟩
        · rw [hsame, hmq]
          exact h.queue
        · exact hq
      -- the buffer and its size are in place, so `event_machine_init()` keeps them
      have hpos : ¬ (w.ems em).maxEvents ≤ 0 := by
        rw [h.maxEvents]
        exact Int.not_le.2 h.pos
      have hsome : (w.ems em).events ≠ none := by simp [h.buffer]
      have hm : m.events = (w.ems em).events ∧ m.maxEvents = (w.ems em).maxEvents := by
        cases buffer with
        | user => exact ⟨rfl, rfl⟩
        | allocated hor => exact absurd hor (not_or.2 ⟨hpos, hsome⟩)
        | noMemory hor => exact absurd hor (not_or.2 ⟨hpos, hsome⟩)
      refine ⟨by rwa [hself], by rwa [hself], ?_, ?_, h.pos⟩
      · rw [hself, hevents, hm.1, h.buffer]
      · rw [hself, hmax, hm.2, h.maxEvents]
    · exact h.congr (by rw [hems, Function.update_of_ne he])
  | @destroy em' r w' out =>
    rcases out.machine with ⟨-, hm⟩ | ⟨hneg, pipe, hm⟩
    · exact h.of_machinery hm
    · have hems : w'.ems = Function.update w.ems em' _ := congrArg (·.1) hm
      have he : em ≠ em' := by
        rintro rfl
        exact absurd hneg (Int.not_lt.2 h.queue)
      exact h.congr (by rw [hems, Function.update_of_ne he])
  | terminate only => exact h.of_machinery only.machinery
  | reg out => exact h.of_machinery out.machinery
  | timerCreate out => exact h.of_machinery out.machinery
  | timerStart out => exact h.of_machinery out.only.machinery
  | timerStop out => exact h.of_machinery out.only.machinery
  | timerDestroy out => exact h.of_machinery out.machinery

theorem CanWait.of_enter (h : w.Piped)
    (hexec : eventMachineRunEnter (some em) w = .ok EMResult.success.code w') :
    ∃ b, CanWait w em b (w.ems em).maxEvents := by
  have hspec : wp (eventMachineRunEnter (some em))
      (fun r _ => r = EMResult.success.code → ∃ b, CanWait w em b (w.ems em).maxEvents)
      (fun _ _ => True) w := by
    have hrefused : ∀ r : EMResult, r ≠ .success → r.code = EMResult.success.code →
        ∃ b, CanWait w em b (w.ems em).maxEvents := fun r hr hcode =>
      absurd (EMResult.code_injective hcode) hr
    unfold eventMachineRunEnter
    simp only
    rw [wp_bind, wp_getEM, wp_ite]
    refine ⟨fun _ => hrefused _ (by decide), fun hq => ?_⟩
    rw [wp_ite]
    refine ⟨fun _ => hrefused _ (by decide), fun hn => ?_⟩
    rw [wp_ite]
    refine ⟨fun _ => hrefused _ (by decide), fun hb => ?_⟩
    obtain ⟨b, hb⟩ := Option.ne_none_iff_exists'.1 hb
    have hq' : 0 ≤ (w.ems em).queueFd := Int.not_lt.1 hq
    have hrun : CanWait w em b (w.ems em).maxEvents := ⟨hq', h em hq', hb, rfl, Int.not_le.1 hn⟩
    rw [wp_bind]
    apply wp_issue.2
    rw [wp_ite]
    exact ⟨fun _ _ => ⟨b, hrun⟩, fun _ _ => ⟨b, hrun⟩⟩
  exact wp_ok hspec hexec rfl

end steps

end EventMachine
