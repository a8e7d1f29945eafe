import EventMachine.Proof.Registration

/-!
# What `event_machine_destroy()` and `event_machine_terminate()` can do

`destroy_spec` follows `event_machine_destroy()` to each of its exits (`DestroyOutcome`). Whenever the
machine has a queue, closing it is all the function does.
-/

namespace EventMachine

open Lib

variable {σ : Type}

/-- A `close()` that returned `ret`: the number is free afterwards, whatever it returned. -/
structure Closed (w : World σ) (who : Owner) (fd ret : Int) (w' : World σ) : Prop where
  only : KernelOnly w w'
  log : w'.log = w.log ++ [⟨who, .close, fd, w.kernel.file fd, none, ret⟩]
  core : w'.kernel.core = (w.kernel.released fd).core
  faults : w'.kernel.faults = (w.kernel.turn .close).2.faults
  success : ret = 0 → (w.kernel.file fd).isSome

namespace Closed
variable {w w' : World σ} {who : Owner} {fd ret : Int}

theorem file (h : Closed w who fd ret w') (n : Int) :
    w'.kernel.file n = if n = fd then none else w.kernel.file n :=
  (Kernel.file_congr h.core n).trans (Kernel.released_file _ _ _)

theorem next (h : Closed w who fd ret w') : w'.kernel.next = w.kernel.next :=
  (congrArg (·.next) h.core).trans (Kernel.released_next _ _)

theorem timerfds (h : Closed w who fd ret w') : w'.kernel.timerfds = w.kernel.timerfds :=
  (congrArg (·.timerfds) h.core).trans (Kernel.released_timerfds _ _)

end Closed

theorem close_spec (who : Owner) (fd : Int) (w : World σ) :
    wp (close who fd) (fun ret w' => Closed w who fd ret w' ∧ (ret = 0 ∨ ret = -1))
      (fun _ _ => False) w := by
  apply wp_issue.2
  have hcore := Kernel.close_core w.kernel fd
  have hfaults := Kernel.close_faults w.kernel fd
  rcases Kernel.close_cases w.kernel fd with ⟨-, hret, -⟩ | ⟨f, hf, -, hret⟩
  · refine ⟨⟨rfl, rfl, hcore, hfaults, fun h => ?_⟩, Or.inr hret⟩
    rw [hret] at h
    exact absurd h (by decide)
  · exact ⟨⟨rfl, rfl, hcore, hfaults, fun _ => by simp [hf]⟩, hret.imp And.left And.left⟩

/-! ## `event_machine_destroy()` -/

/-- The events buffer has been freed, if it is the machine's own. -/
def World.freeEvents (w : World σ) (em : EMPtr) : World σ :=
  if (w.ems em).doFreeEvents then
    { w.setEM em { w.ems em with events := none } with
      frees := w.frees ++ (w.ems em).events.toList }
  else w

theorem freeEvents_em (w : World σ) (em : EMPtr) :
    (w.freeEvents em).ems em = { w.ems em with
      events := if (w.ems em).doFreeEvents then none else (w.ems em).events } := by
  unfold World.freeEvents
  split
  · simp [World.setEM]
  · rfl

theorem freeEvents_kernel (w : World σ) (em : EMPtr) :
    (w.freeEvents em).kernel = w.kernel ∧ (w.freeEvents em).log = w.log := by
  unfold World.freeEvents
  split <;> exact ⟨rfl, rfl⟩

/-- One end of the pipe has been closed and forgotten, unless it was not open. -/
def EndClosed (em : EMPtr) (fd : Int) (forget : EM σ → EM σ) (w w' : World σ) : Prop :=
  (fd < 0 ∧ w' = w) ∨
    (0 ≤ fd ∧ ∃ v, Closed w (.machine em) fd 0 v ∧ w' = v.setEM em (forget (v.ems em)))

theorem EndClosed.effect {em : EMPtr} {fd : Int} {forget : EM σ → EM σ} {w w' : World σ}
    (h : EndClosed em fd forget w w') :
    w'.log = w.log ++
        (if fd < 0 then [] else [⟨.machine em, .close, fd, w.kernel.file fd, none, 0⟩]) ∧
      w'.ems em = (if fd < 0 then w.ems em else forget (w.ems em)) ∧ w'.frees = w.frees ∧
      ∀ n, w'.kernel.file n = if n = fd then none else w.kernel.file n := by
  rcases h with ⟨hfd, rfl⟩ | ⟨hfd, v, hclosed, rfl⟩
  · rw [if_pos hfd, if_pos hfd]
    refine ⟨(List.append_nil _).symm, rfl, rfl, fun n => ?_⟩
    split
    · next hn => rw [hn, Kernel.file, if_pos hfd]
    · rfl
  · rw [if_neg (by omega), if_neg (by omega)]
    refine ⟨hclosed.log, ?_, congrArg (·.frees) hclosed.only, hclosed.file⟩
    simp [World.setEM, show v.ems = w.ems from congrArg (·.ems) hclosed.only]

def forgetWriteEnd (m : EM σ) : EM σ := { m with breakLoopPipe := (m.breakLoopPipe.1, -1) }

def forgetReadEnd (m : EM σ) : EM σ := { m with breakLoopPipe := (-1, m.breakLoopPipe.2) }

/-- How far `event_machine_destroy()` gets. -/
inductive DestroyOutcome (w : World σ) (em : EMPtr) : UInt32 → World σ → Prop
  | queue {ret : Int} {w' : World σ} (fd : 0 ≤ (w.ems em).queueFd)
      (closed : Closed w (.machine em) (w.ems em).queueFd ret w') :
      DestroyOutcome w em EMResult.errorClose.code w'
  | writeEnd {ret : Int} {w' : World σ} (fd : (w.ems em).queueFd < 0)
      (isOpen : 0 ≤ (w.ems em).breakLoopPipe.2)
      (closed : Closed (w.freeEvents em) (.machine em) (w.ems em).breakLoopPipe.2 ret w')
      (failed : ret ≠ 0) : DestroyOutcome w em EMResult.errorClose.code w'
  | readEnd {ret : Int} {w₁ w' : World σ} (fd : (w.ems em).queueFd < 0)
      (write : EndClosed em (w.ems em).breakLoopPipe.2 forgetWriteEnd (w.freeEvents em) w₁)
      (isOpen : 0 ≤ (w.ems em).breakLoopPipe.1)
      (closed : Closed w₁ (.machine em) (w.ems em).breakLoopPipe.1 ret w') (failed : ret ≠ 0) :
      DestroyOutcome w em EMResult.errorClose.code w'
  | done {w₁ w' : World σ} (fd : (w.ems em).queueFd < 0)
      (write : EndClosed em (w.ems em).breakLoopPipe.2 forgetWriteEnd (w.freeEvents em) w₁)
      (read : EndClosed em (w.ems em).breakLoopPipe.1 forgetReadEnd w₁ w') :
      DestroyOutcome w em EMResult.success.code w'

theorem destroyReadEnd_spec {w w₁ : World σ} {em : EMPtr} (hq : (w.ems em).queueFd < 0)
    (hwrite : EndClosed em (w.ems em).breakLoopPipe.2 forgetWriteEnd (w.freeEvents em) w₁) :
    wp (do
        if 0 ≤ (w.ems em).breakLoopPipe.1 then
          let ret ← close (.machine em) (w.ems em).breakLoopPipe.1
          if ret ≠ 0 then return EMResult.errorClose.code
          modifyEM em fun m => { m with breakLoopPipe := (-1, m.breakLoopPipe.2) }
        return EMResult.success.code)
      (fun r w' => DestroyOutcome w em r w') (fun _ _ => False) w₁ := by
  rw [wp_ite]
  refine ⟨fun hfd => ?_, fun hfd => .done hq hwrite (Or.inl ⟨by omega, rfl⟩)⟩
  rw [wp_bind]
  refine wp_mono (close_spec _ _ _) ?_ fun _ _ h => h
  rintro ret w₂ ⟨hclosed, -⟩
  rw [wp_ite]
  refine ⟨fun hret => .readEnd hq hwrite hfd hclosed hret, fun hret => ?_⟩
  obtain rfl : ret = 0 := by simpa using hret
  exact .done hq hwrite (Or.inr ⟨hfd, w₂, hclosed, rfl⟩)

theorem destroy_spec (w : World σ) (em : EMPtr) :
    wp (eventMachineDestroy (some em)) (fun r w' => DestroyOutcome w em r w') (fun _ _ => False) w := by
  unfold eventMachineDestroy
  simp only
  rw [wp_bind, wp_getEM, wp_ite]
  refine ⟨fun hq => ?_, fun hq => ?_⟩
  · rw [wp_bind]
    exact wp_mono (close_spec _ _ _) (fun ret w' h => .queue hq h.1) fun _ _ h => h
  have hneg : (w.ems em).queueFd < 0 := by omega
  -- the rest of the function, once the buffer has been dealt with
  have hrest : wp (do
      if 0 ≤ (w.ems em).breakLoopPipe.2 then
        let ret ← close (.machine em) (w.ems em).breakLoopPipe.2
        if ret ≠ 0 then return EMResult.errorClose.code
        modifyEM em fun m => { m with breakLoopPipe := (m.breakLoopPipe.1, -1) }
      if 0 ≤ (w.ems em).breakLoopPipe.1 then
        let ret ← close (.machine em) (w.ems em).breakLoopPipe.1
        if ret ≠ 0 then return EMResult.errorClose.code
        modifyEM em fun m => { m with breakLoopPipe := (-1, m.breakLoopPipe.2) }
      return EMResult.success.code)
      (fun r w' => DestroyOutcome w em r w') (fun _ _ => False) (w.freeEvents em) := by
    rw [wp_ite]
    refine ⟨fun hfd => ?_, fun hfd => destroyReadEnd_spec hneg (Or.inl ⟨by omega, rfl⟩)⟩
    rw [wp_bind]
    refine wp_mono (close_spec _ _ _) ?_ fun _ _ h => h
    rintro ret w₂ ⟨hclosed, -⟩
    rw [wp_ite]
    refine ⟨fun hret => .writeEnd hneg hfd hclosed hret, fun hret => ?_⟩
    obtain rfl : ret = 0 := by simpa using hret
    exact destroyReadEnd_spec hneg (Or.inr ⟨hfd, w₂, hclosed, rfl⟩)
  unfold World.freeEvents at hrest
  rw [wp_ite]
  constructor
  · intro hfree
    rw [if_pos hfree] at hrest
    exact hrest
  · intro hfree
    rw [if_neg hfree] at hrest
    exact hrest

/-! ## `event_machine_terminate()` -/

/-- The system calls of `event_machine_terminate()`: it writes only into a pipe that is open. -/
def TerminateRecord (w : World σ) (em : EMPtr) (x : SysRecord) : Prop :=
  x.who = .machine em ∧ x.file = w.kernel.file (w.ems em).breakLoopPipe.2 ∧
    (x.call = .fcntlGetfl ∨ x.call = .write ∧ x.file.isSome)

theorem terminate_spec (w : World σ) (em : EMPtr) :
    wp (eventMachineTerminate (some em))
      (fun _ w' => KernelOnly w w' ∧ w'.kernel.still = w.kernel.still ∧
        w'.kernel.timerfds = w.kernel.timerfds ∧ Records (TerminateRecord w em) w w')
      (fun _ _ => False) w := by
  have hnone : KernelOnly w w ∧ w.kernel.still = w.kernel.still ∧
      w.kernel.timerfds = w.kernel.timerfds ∧ Records (TerminateRecord w em) w w :=
    ⟨.refl w, rfl, rfl, .refl w⟩
  unfold eventMachineTerminate
  simp only
  rw [wp_bind, wp_getEM, wp_ite]
  refine ⟨fun _ => hnone, fun hfd => ?_⟩
  rw [wp_bind]
  apply wp_issue.2
  generalize hw₁ : w.issued (.machine em) .fcntlGetfl _ _ = w₁
  have hcore : w₁.kernel.core = w.kernel.core := by
    rw [← hw₁]
    exact Kernel.fcntlGetfl_core _ _
  have hcalled : KernelOnly w w₁ ∧ w₁.kernel.still = w.kernel.still ∧
      w₁.kernel.timerfds = w.kernel.timerfds ∧ Records (TerminateRecord w em) w w₁ := by
    refine ⟨?_, Kernel.still_of_core hcore, congrArg (·.timerfds) hcore, ?_⟩
    · rw [← hw₁]
      exact World.issued_kernelOnly _ _ _ _ _
    · rw [← hw₁]
      exact World.issued_records ⟨rfl, rfl, Or.inl rfl⟩
  rw [wp_ite]
  refine ⟨fun _ => hcalled, fun hflags => ?_⟩
  have hopen : w.kernel.file (w.ems em).breakLoopPipe.2 ≠ none := fun hnone =>
    hflags ((Kernel.fcntlGetfl_neg _ _).2 (Or.inl hnone))
  rw [wp_bind]
  apply wp_issue.2
  have hstill := Kernel.writeByte_still w₁.kernel (w.ems em).breakLoopPipe.2
  have hfile := Kernel.file_congr hcore (w.ems em).breakLoopPipe.2
  obtain ⟨honly, hstill₁, htimers, hrec⟩ := hcalled
  have hwritten : KernelOnly w (w₁.issued (.machine em) .write (w.ems em).breakLoopPipe.2
        (·.writeByte (w.ems em).breakLoopPipe.2)) ∧
      (w₁.kernel.writeByte (w.ems em).breakLoopPipe.2).2.still = w.kernel.still ∧
      (w₁.kernel.writeByte (w.ems em).breakLoopPipe.2).2.timerfds = w.kernel.timerfds ∧
      Records (TerminateRecord w em) w (w₁.issued (.machine em) .write (w.ems em).breakLoopPipe.2
        (·.writeByte (w.ems em).breakLoopPipe.2)) := by
    refine ⟨honly.trans (World.issued_kernelOnly _ _ _ _ _), hstill.1.trans hstill₁,
      hstill.2.trans htimers, hrec.trans (World.issued_records ⟨rfl, hfile, Or.inr ⟨rfl, ?_⟩⟩)⟩
    show (w₁.kernel.file _).isSome
    rw [hfile]
    exact Option.isSome_iff_ne_none.2 hopen
  split
  · rw [wp_bind, wp_getErrno]
    split <;> exact hwritten
  · exact hwritten

end EventMachine
