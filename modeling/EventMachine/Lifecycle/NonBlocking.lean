import EventMachine.Lifecycle.Builds
import EventMachine.Proof.Owned
import EventMachine.System

/-!
# The library waits in `epoll_wait()` only

Descriptors are opened not to block: `pipe2()` and `timerfd_create()` are asked for it, and the build
without `pipe2()` sets the flag afterwards. `File.Guarded` says that it has been done for a descriptor of
the library, and that the build with `pipe2()` has also kept it from being inherited. No call of the API
and no step of the main loop takes that back (`Guards`), whatever else the program does, so that every
`read()` and `write()` of the library, `event_machine_terminate()` from a handler included, returns at
once (`never_blocks`). A machine whose initialisation gave up in the middle of the `fcntl()` loop is left
with a pipe that does block.
-/

namespace EventMachine

open Lib

variable {σ : Type}

/-- A descriptor of the library does not block, and in the build with `pipe2()` it is closed on exec. An
epoll instance is never read from. -/
def File.Guarded (usePipe2 : Bool) (f : File) : Prop :=
  f.owner ≠ .other →
    (usePipe2 = true → f.cloexec = true) ∧ (f.kind = .epoll ∨ f.status &&& O_NONBLOCK = O_NONBLOCK)

def Kernel.Guarded (usePipe2 : Bool) (k : Kernel) : Prop :=
  ∀ n f, k.file n = some f → f.Guarded usePipe2

/-- A system call that reads or writes does so on such a descriptor. -/
def SysRecord.Guarded (usePipe2 : Bool) (x : SysRecord) : Prop :=
  x.call = .read ∨ x.call = .write → ∀ f, x.file = some f → f.Guarded usePipe2

/-- From a kernel with such descriptors only to another one, by system calls of this kind. -/
def Guards (usePipe2 : Bool) (w w' : World σ) : Prop :=
  w.kernel.Guarded usePipe2 → w'.kernel.Guarded usePipe2 ∧ Records (SysRecord.Guarded usePipe2) w w'

theorem nonblock_or (s : UInt32) : (s ||| O_NONBLOCK) &&& O_NONBLOCK = O_NONBLOCK := by
  apply UInt32.toBitVec_inj.1
  apply BitVec.eq_of_getLsbD_eq
  intro i hi
  simp only [UInt32.toBitVec_and, UInt32.toBitVec_or, BitVec.getLsbD_and, BitVec.getLsbD_or]
  cases s.toBitVec.getLsbD i <;> cases O_NONBLOCK.toBitVec.getLsbD i <;> rfl

/-! ## The kernel -/

namespace Kernel.Guarded
variable {usePipe2 : Bool} {k k' : Kernel}

theorem of_file (h : k.Guarded usePipe2)
    (hfile : ∀ n f, k'.file n = some f → k.file n = some f ∨ f.Guarded usePipe2) : k'.Guarded usePipe2 := by
  intro n f hf
  rcases hfile n f hf with hold | hnew
  · exact h n f hold
  · exact hnew

theorem same (h : k.Guarded usePipe2) (hfile : ∀ n, k'.file n = k.file n) : k'.Guarded usePipe2 :=
  h.of_file fun n _ hf => Or.inl ((hfile n).symm.trans hf)

theorem of_core (h : k.Guarded usePipe2) (hcore : k'.core = k.core) : k'.Guarded usePipe2 :=
  h.same fun n => file_congr hcore n

theorem opened (h : k.Guarded usePipe2) {fd : Int} {f : File} (hopens : k.Opens fd f k')
    (hf : f.Guarded usePipe2) : k'.Guarded usePipe2 := by
  refine h.of_file fun n f' hf' => ?_
  rw [hopens.file] at hf'
  split at hf'
  · exact Or.inr (Option.some.inj hf' ▸ hf)
  · exact Or.inl hf'

theorem close (h : k.Guarded usePipe2) (fd : Int) : (k.close fd).2.Guarded usePipe2 := by
  refine h.of_file fun n f hf => Or.inl ?_
  rw [file_congr (k.close_core fd), released_file] at hf
  split at hf
  · exact absurd hf nofun
  · exact hf

theorem epollCreate (h : k.Guarded usePipe2) (who : Owner) : (k.epollCreate who).2.Guarded usePipe2 := by
  rcases k.epollCreate_exact who with ⟨-, -, hfile⟩ | ⟨-, -, hfile⟩
  · exact h.same hfile
  · refine h.of_file fun n f hf => ?_
    rw [hfile] at hf
    split at hf
    · obtain rfl := Option.some.inj hf
      exact Or.inr fun _ => ⟨fun _ => rfl, Or.inl rfl⟩
    · exact Or.inl hf

theorem timerfdCreate (h : k.Guarded usePipe2) (who : Owner) : (k.timerfdCreate who).2.Guarded usePipe2 := by
  unfold Kernel.timerfdCreate
  cases hfault : k.faults .timerfdCreate 0 with
  | some e =>
    simp only [turn, hfault]
    exact h.same fun _ => rfl
  | none =>
    simp only [turn, hfault]
    refine h.opened (f := ⟨k.next, .timerfd, who, O_NONBLOCK, true⟩) (.of_files rfl rfl rfl) fun _ => ?_
    exact ⟨fun _ => rfl, Or.inr UInt32.and_self⟩

theorem pipe (h : k.Guarded usePipe2) (who : Owner) : (k.pipe who true).2.2.Guarded usePipe2 := by
  cases hfault : k.faults .pipe 0 with
  | some e =>
    refine h.same fun n => ?_
    simp only [Kernel.pipe, turn, hfault]
    rfl
  | none =>
    obtain ⟨-, -, -, -, hfile⟩ := k.pipe_exact who true hfault
    refine h.of_file fun n f hf => ?_
    rw [hfile] at hf
    unfold pipeFile at hf
    simp only [if_true] at hf
    split at hf
    · obtain rfl := Option.some.inj hf
      exact Or.inr fun _ => ⟨fun _ => rfl, Or.inr (nonblock_or _)⟩
    · split at hf
      · obtain rfl := Option.some.inj hf
        exact Or.inr fun _ => ⟨fun _ => rfl, Or.inr (nonblock_or _)⟩
      · exact Or.inl hf

theorem timerfdSettime (h : k.Guarded usePipe2) (fd : Int) (new : Itimerspec) :
    (k.timerfdSettime fd new).2.Guarded usePipe2 := by
  rcases k.timerfdSettime_cases fd new with ⟨-, hcore⟩ | ⟨f, -, -, -, hcore⟩
  · exact h.of_core hcore
  · exact h.same fun n => file_congr (k := { k with timerfds := _ }) hcore n

theorem epollWait (h : k.Guarded usePipe2) (epfd maxEvents : Int) (buffer : Bool) (o : WaitOutcome) :
    (k.epollWait epfd maxEvents buffer o).2.Guarded usePipe2 := by
  rcases k.epollWait_cases epfd maxEvents buffer o with ⟨-, hcore, -⟩ | ⟨q, l, -, -, -, -, -, hk⟩
  · exact h.of_core hcore
  · rw [hk]
    exact h

theorem readByte (h : k.Guarded usePipe2) (fd : Int) : (k.readByte fd).2.Guarded usePipe2 := by
  rcases k.readByte_cases fd with ⟨-, hcore⟩ | ⟨f, o, -, -, -, -, hcore⟩
  · exact h.of_core hcore
  · exact h.same fun n => file_congr (k := { k with bytes := _ }) hcore n

end Kernel.Guarded

/-! ## Calls -/

namespace Guards
variable {usePipe2 : Bool}

theorem refl (w : World σ) : Guards usePipe2 w w := fun h => ⟨h, .refl w⟩

theorem trans (w w' w'' : World σ) (h : Guards usePipe2 w w') (h' : Guards usePipe2 w' w'') :
    Guards usePipe2 w w'' := by
  intro hw
  obtain ⟨hw', hrec⟩ := h hw
  obtain ⟨hw'', hrec'⟩ := h' hw'
  exact ⟨hw'', hrec.trans hrec'⟩

theorem of_silent {w w' : World σ} (hk : w.kernel.Guarded usePipe2 → w'.kernel.Guarded usePipe2)
    (hlog : w'.log = w.log) : Guards usePipe2 w w' :=
  fun hw => ⟨hk hw, .of_log_eq hlog⟩

theorem modifyEM (em : EMPtr) (f : EM σ → EM σ) : Keeps (Guards usePipe2) (modifyEM em f) :=
  .of_modifyGet fun _ => of_silent id rfl

theorem modifyTimer (t : TimerPtr) (f : EventTimer → EventTimer) :
    Keeps (Guards usePipe2) (modifyTimer t f : Sys σ Unit) :=
  .of_modifyGet fun _ => of_silent id rfl

theorem setErrno (e : Errno) : Keeps (Guards usePipe2) (setErrno e : Sys σ Unit) :=
  .of_modifyGet fun _ => of_silent (fun h => h.of_core rfl) rfl

theorem cAssert (c : Prop) [Decidable c] : Keeps (Guards usePipe2) (cAssert c : Sys σ Unit) :=
  .ite (.of_pure refl _) (.of_throw refl _)

theorem issue (who : Owner) (call : Syscall) (fd : Int) {f : Kernel → Int × Kernel}
    (hf : ∀ k : Kernel, k.Guarded usePipe2 → (f k).2.Guarded usePipe2) :
    Keeps (Guards usePipe2) (issue who call fd f : Sys σ Int) :=
  .of_modifyGet fun _ hw => ⟨hf _ hw, .of_one rfl fun _ => hw fd⟩

theorem close (who : Owner) (fd : Int) : Keeps (Guards usePipe2) (close who fd : Sys σ Int) :=
  issue who .close fd fun _ h => h.close fd

theorem fcntlGetfl (who : Owner) (fd : Int) : Keeps (Guards usePipe2) (fcntlGetfl who fd : Sys σ Int) :=
  issue who .fcntlGetfl fd fun k h => h.of_core (k.fcntlGetfl_core fd)

theorem readByte (who : Owner) (fd : Int) : Keeps (Guards usePipe2) (readByte who fd : Sys σ Int) :=
  issue who .read fd fun _ h => h.readByte fd

theorem writeByte (who : Owner) (fd : Int) : Keeps (Guards usePipe2) (writeByte who fd : Sys σ Int) :=
  issue who .write fd fun k h => h.same fun n => Kernel.file_still (k.writeByte_still fd).1 n

theorem timerfdSettime (who : Owner) (fd : Int) (new : Itimerspec) :
    Keeps (Guards usePipe2) (timerfdSettime who fd new : Sys σ Int) :=
  issue who .timerfdSettime fd fun _ h => h.timerfdSettime fd new

theorem epollCtl (who : Owner) (epfd : Int) (op : CtlOp) (fd : Int) (event : EpollEvent) :
    Keeps (Guards usePipe2) (epollCtl who epfd op fd event : Sys σ Int) :=
  .of_modifyGet fun _ hw => ⟨hw.same fun n => epollCtl_file _ _ _ _ _ n, .of_one rfl fun _ => hw epfd⟩

theorem epollWait (who : Owner) (epfd : Int) (events : Option BufPtr) (maxEvents : Int) (o : WaitOutcome) :
    Keeps (Guards usePipe2) (epollWait who epfd events maxEvents o : Sys σ Int) := by
  unfold EventMachine.epollWait
  refine .bind trans (issue who .epollWait epfd fun _ h => h.epollWait _ _ _ _) fun ret => ?_
  cases events with
  | none => exact .of_pure refl _
  | some b =>
    cases o with
    | fail e => exact .of_pure refl _
    | batch l => exact .ite (.of_pure refl _) (.of_modifyGet fun _ => of_silent id rfl)

theorem readExpirations (who : Owner) (fd : Int) :
    Keeps (Guards usePipe2) (readExpirations who fd : Sys σ (Int × Nat)) :=
  .of_modifyGet fun _ hw =>
    ⟨hw.same fun n => Kernel.file_still (Kernel.readExpirations_still _ fd) n, .of_one rfl fun _ => hw fd⟩

theorem epollCreate (who : Owner) : Keeps (Guards usePipe2) (epollCreate who : Sys σ Int) :=
  .of_modifyGet fun _ => of_silent (fun h => h.epollCreate who) rfl

theorem timerfdCreate (who : Owner) : Keeps (Guards usePipe2) (timerfdCreate who : Sys σ Int) :=
  .of_modifyGet fun _ => of_silent (fun h => h.timerfdCreate who) rfl

theorem pipe (who : Owner) : Keeps (Guards usePipe2) (pipe who true : Sys σ (Int × (Int × Int))) :=
  .of_modifyGet fun _ => of_silent (fun h => h.pipe who) rfl

theorem malloc (n : Int) : Keeps (Guards usePipe2) (malloc n : Sys σ (Option BufPtr)) := by
  refine .of_modifyGet fun w => ?_
  split <;> next h =>
    have hk : ∀ m, (w.kernel.turn .malloc).2.file m = w.kernel.file m := fun _ => rfl
    rw [h] at hk
    exact of_silent (fun hw => hw.same hk) rfl

theorem eventCtl (who : Owner) (queueFd : Int) (ed : EDRef) (fd : Int) (op : CtlOp) :
    Keeps (Guards usePipe2) (eventCtl who queueFd ed fd op : Sys σ Int) := by
  unfold EventMachine.eventCtl
  refine .bind trans (fun w => refl w) fun w => .bind trans (epollCtl _ _ _ _ _) fun ret => ?_
  refine .ite (.of_pure refl _) (.bind trans (.of_modifyGet refl) fun errno => ?_)
  refine .ite (.of_pure refl _) ?_
  cases ed with
  | none => exact .of_throw refl _
  | some p => exact epollCtl _ _ _ _ _

theorem checks {α : Type} (who : Owner) (queueFd fd : Int) (bad : α) {rest : Sys σ α}
    (hrest : Keeps (Guards usePipe2) rest) :
    Keeps (Guards usePipe2) (do
      if queueFd < 0 ∨ fd < 0 then
        EventMachine.setErrno .EBADF
        return bad
      let flags ← EventMachine.fcntlGetfl who queueFd
      if flags < 0 then return bad
      let flags ← EventMachine.fcntlGetfl who fd
      if flags < 0 then return bad
      rest) := by
  refine .ite (.bind trans (setErrno _) fun _ => .of_pure refl _) ?_
  refine .bind trans (fcntlGetfl _ _) fun _ => .ite (.of_pure refl _) ?_
  exact .bind trans (fcntlGetfl _ _) fun _ => .ite (.of_pure refl _) hrest

theorem eventMachineAdd (em : EMRef) (ed : EDRef) :
    Keeps (Guards usePipe2) (eventMachineAdd em ed : Sys σ UInt32) := by
  unfold EventMachine.eventMachineAdd
  cases em with
  | none => exact .of_pure refl _
  | some em =>
    cases ed with
    | none => exact .of_pure refl _
    | some p =>
      refine .bind trans (.of_modifyGet refl) fun m => .bind trans (.of_modifyGet refl) fun d => ?_
      refine checks _ _ _ _ (.bind trans (eventCtl _ _ _ _ _) fun ret => .ite (.of_pure refl _) ?_)
      cases m.descriptorStorage.insert with
      | none => exact .of_pure refl _
      | some insert => exact .of_modifyGet fun _ => of_silent id rfl

theorem removeEventDescriptor (em : EMPtr) (fd : Int) (oldEd : OutVar) :
    Keeps (Guards usePipe2) (removeEventDescriptor em fd oldEd : Sys σ (UInt32 × OutVar)) := by
  unfold EventMachine.removeEventDescriptor
  refine .bind trans (cAssert _) fun _ => .bind trans (.of_modifyGet refl) fun m => ?_
  cases m.descriptorStorage.remove with
  | none => exact .of_pure refl _
  | some remove =>
    refine .bind trans (.of_modifyGet fun _ => of_silent id rfl) fun r => ?_
    obtain ⟨ret, tmpEd⟩ := r
    cases tmpEd <;> cases oldEd <;> exact .of_pure refl _

theorem eventMachineDelete (em : EMRef) (fd : Int) (oldEd : OutVar) :
    Keeps (Guards usePipe2) (eventMachineDelete em fd oldEd : Sys σ (UInt32 × OutVar)) := by
  unfold EventMachine.eventMachineDelete
  cases em with
  | none => exact .of_pure refl _
  | some em =>
    refine .bind trans (.of_modifyGet refl) fun m => checks _ _ _ _ ?_
    exact .bind trans (eventCtl _ _ _ _ _) fun ret =>
      .ite (.of_pure refl _) (removeEventDescriptor _ _ _)

theorem eventMachineModify (em : EMRef) (fd : Int) (ed : EDRef) (oldEd : OutVar) :
    Keeps (Guards usePipe2) (eventMachineModify em fd ed oldEd : Sys σ (UInt32 × OutVar)) := by
  unfold EventMachine.eventMachineModify
  cases em with
  | none => exact .of_pure refl _
  | some em =>
    refine .bind trans (.of_modifyGet refl) fun m => checks _ _ _ _ ?_
    refine .bind trans (eventCtl _ _ _ _ _) fun ret => .ite (.of_pure refl _) ?_
    refine .bind trans (removeEventDescriptor _ _ _) fun r => .ite (.of_pure refl _) ?_
    cases m.descriptorStorage.insert with
    | none => exact .of_pure refl _
    | some insert =>
      exact .bind trans (.of_modifyGet fun _ => of_silent id rfl) fun _ => .of_pure refl _

theorem eventMachineTerminate (em : EMRef) :
    Keeps (Guards usePipe2) (eventMachineTerminate em : Sys σ UInt32) := by
  unfold EventMachine.eventMachineTerminate
  cases em with
  | none => exact .of_pure refl _
  | some em =>
    refine .bind trans (.of_modifyGet refl) fun m => .ite (.of_pure refl _) ?_
    refine .bind trans (fcntlGetfl _ _) fun _ => .ite (.of_pure refl _) ?_
    refine .bind trans (writeByte _ _) fun _ => .ite ?_ (.of_pure refl _)
    exact .bind trans (.of_modifyGet refl) fun _ => .ite (.of_pure refl _) (.of_pure refl _)

theorem eventMachineDestroy (em : EMRef) :
    Keeps (Guards usePipe2) (eventMachineDestroy em : Sys σ UInt32) := by
  unfold EventMachine.eventMachineDestroy
  cases em with
  | none => exact .of_pure refl _
  | some em =>
    refine .bind trans (.of_modifyGet refl) fun m => ?_
    refine .ite (.bind trans (close _ _) fun _ => .of_pure refl _) ?_
    have hread : Keeps (Guards usePipe2) (do
        if 0 ≤ m.breakLoopPipe.1 then
          let ret ← EventMachine.close (.machine em) m.breakLoopPipe.1
          if ret ≠ 0 then return EMResult.errorClose.code
          EventMachine.modifyEM em fun m => { m with breakLoopPipe := (-1, m.breakLoopPipe.2) }
        return EMResult.success.code : Sys σ UInt32) := by
      refine .ite (.bind trans (close _ _) fun _ => .ite (.of_pure refl _) ?_) (.of_pure refl _)
      exact .bind trans (modifyEM _ _) fun _ => .of_pure refl _
    have hwrite : Keeps (Guards usePipe2) (do
        if 0 ≤ m.breakLoopPipe.2 then
          let ret ← EventMachine.close (.machine em) m.breakLoopPipe.2
          if ret ≠ 0 then return EMResult.errorClose.code
          EventMachine.modifyEM em fun m => { m with breakLoopPipe := (m.breakLoopPipe.1, -1) }
        if 0 ≤ m.breakLoopPipe.1 then
          let ret ← EventMachine.close (.machine em) m.breakLoopPipe.1
          if ret ≠ 0 then return EMResult.errorClose.code
          EventMachine.modifyEM em fun m => { m with breakLoopPipe := (-1, m.breakLoopPipe.2) }
        return EMResult.success.code : Sys σ UInt32) := by
      refine .ite (.bind trans (close _ _) fun _ => .ite (.of_pure refl _) ?_) hread
      exact .bind trans (modifyEM _ _) fun _ => hread
    refine .ite ?_ hwrite
    exact .bind trans (modifyEM _ _) fun _ =>
      .bind trans (.of_modifyGet fun _ => of_silent id rfl) fun _ => hwrite

theorem eventTimerCreate (em : EMRef) (t : Option TimerPtr) (callback : Option Nat) (data : VoidPtr) :
    Keeps (Guards usePipe2) (eventTimerCreate em t callback data : Sys σ UInt32) := by
  unfold EventMachine.eventTimerCreate
  cases em with
  | none => exact .of_pure refl _
  | some em =>
    cases t with
    | none => exact .of_pure refl _
    | some t =>
      cases callback with
      | none => exact .of_pure refl _
      | some callback =>
        refine .bind trans (modifyTimer _ _) fun _ => .bind trans (timerfdCreate _) fun fd => ?_
        refine .ite (.of_pure refl _) (.bind trans (modifyTimer _ _) fun _ => ?_)
        refine .bind trans (eventMachineAdd _ _) fun ret => .ite ?_ (.of_pure refl _)
        refine .bind trans (.of_modifyGet refl) fun e => ?_
        refine .bind trans (cAssert _) fun _ => .bind trans (cAssert _) fun _ => ?_
        refine .bind trans (close _ _) fun _ => .bind trans (modifyTimer _ _) fun _ => ?_
        exact .bind trans (setErrno _) fun _ => .of_pure refl _

theorem eventTimerStart (t : Option TimerPtr) (msec : Int32) (isOneShot : Bool) :
    Keeps (Guards usePipe2) (eventTimerStart t msec isOneShot : Sys σ UInt32) := by
  unfold EventMachine.eventTimerStart
  cases t with
  | none => exact .of_pure refl _
  | some t =>
    refine .bind trans (.of_modifyGet refl) fun x => .bind trans (timerfdSettime _ _ _) fun _ => ?_
    exact .ite (.of_pure refl _) (.of_pure refl _)

theorem eventTimerStop (t : Option TimerPtr) :
    Keeps (Guards usePipe2) (eventTimerStop t : Sys σ UInt32) := by
  unfold EventMachine.eventTimerStop
  cases t with
  | none => exact .of_pure refl _
  | some t =>
    refine .bind trans (.of_modifyGet refl) fun x => .bind trans (timerfdSettime _ _ _) fun _ => ?_
    exact .ite (.of_pure refl _) (.of_pure refl _)

theorem eventTimerDestroy (t : Option TimerPtr) :
    Keeps (Guards usePipe2) (eventTimerDestroy t : Sys σ UInt32) := by
  unfold EventMachine.eventTimerDestroy
  cases t with
  | none => exact .of_pure refl _
  | some t =>
    refine .bind trans (.of_modifyGet refl) fun x => .bind trans (eventMachineDelete _ _ _) fun r => ?_
    refine .ite ?_ ?_
    · refine .bind trans (.of_modifyGet refl) fun e => ?_
      refine .bind trans (cAssert _) fun _ => .bind trans (cAssert _) fun _ => ?_
      exact .bind trans (close _ _) fun _ => .bind trans (setErrno _) fun _ => .of_pure refl _
    · refine .bind trans (close _ _) fun _ => .ite (.of_pure refl _) ?_
      exact .bind trans (modifyTimer _ _) fun _ => .of_pure refl _

/-! ## The main loop -/

theorem eventMachineRunEnter (em : EMRef) :
    Keeps (Guards usePipe2) (eventMachineRunEnter em : Sys σ UInt32) := by
  unfold EventMachine.eventMachineRunEnter
  cases em with
  | none => exact .of_pure refl _
  | some em =>
    refine .bind trans (.of_modifyGet refl) fun m => .ite (.of_pure refl _) ?_
    refine .ite (.of_pure refl _) (.ite (.of_pure refl _) ?_)
    exact .bind trans (fcntlGetfl _ _) fun _ => .ite (.of_pure refl _) (.of_pure refl _)

theorem runOnceBegin (em : EMPtr) (o : WaitOutcome) :
    Keeps (Guards usePipe2) (runOnceBegin em o : Sys σ (Int × Option BufPtr × Int)) := by
  unfold EventMachine.runOnceBegin runOnceWait
  refine .bind trans (.of_modifyGet refl) fun m => .bind trans ?_ fun _ => .of_pure refl _
  exact .bind trans (cAssert _) fun _ => .bind trans (cAssert _) fun _ => epollWait _ _ _ _ _

theorem runOnceSlot (em : EMPtr) (events : Option BufPtr) (i : Nat) (fd : Int) :
    Keeps (Guards usePipe2) (runOnceSlot em events i fd : Sys σ Slot) := by
  unfold EventMachine.runOnceSlot
  refine .bind trans (fun w => refl w) fun w => ?_
  cases events with
  | none => exact .of_throw refl _
  | some b =>
    cases he : (w.buffers b)[i]? with
    | none => simpa only [he] using .of_throw refl _
    | some e =>
      cases hp : e.data with
      | none => simpa only [he, hp] using .of_throw refl _
      | some p =>
        simp only [he, hp]
        refine .bind trans (.of_modifyGet refl) fun ed => .ite ?_ ?_
        · exact .bind trans (readByte _ _) fun _ => .ite (.of_pure refl _) (.of_pure refl _)
        · cases ed.handler with
          | none => exact .of_throw refl _
          | some h => exact .of_modifyGet fun _ => of_silent id rfl

theorem internalTimeoutRead (fd : Int) (data : VoidPtr) :
    Keeps (Guards usePipe2) (internalTimeoutRead fd data : Sys σ (Option Nat)) := by
  unfold EventMachine.internalTimeoutRead
  refine .bind trans (cAssert _) fun _ => .bind trans (readExpirations _ _) fun r => ?_
  refine .bind trans (.of_modifyGet refl) fun e => .ite (.of_pure refl _) ?_
  exact .bind trans (cAssert _) fun _ => .of_pure refl _

theorem internalTimeoutRound (data : VoidPtr) :
    Keeps (Guards usePipe2) (internalTimeoutRound data : Sys σ (Nat × TimerPtr × VoidPtr)) := by
  unfold EventMachine.internalTimeoutRound
  cases data with
  | null => exact .of_throw refl _
  | user a => exact .of_throw refl _
  | timer t =>
    refine .bind trans (.of_modifyGet refl) fun x => ?_
    cases x.callback with
    | none => exact .of_throw refl _
    | some c => exact .of_modifyGet fun _ => of_silent id rfl

/-! ## Initialisation -/

theorem initEvents (em : EMPtr) : Keeps (Guards usePipe2) (initEvents em : Sys σ Unit) := by
  unfold EventMachine.initEvents
  refine .bind trans (.of_modifyGet refl) fun m => .ite (.bind trans (modifyEM _ _) fun _ => ?_) ?_
  -- the rest of the function, after either branch
  all_goals
    refine .bind trans (.of_modifyGet refl) fun m => ?_
    cases m.events with
    | none => exact .bind trans (malloc _) fun _ => modifyEM _ _
    | some b => exact modifyEM _ _

theorem initQueue (em : EMPtr) : Keeps (Guards usePipe2) (initQueue em : Sys σ UInt32) := by
  unfold EventMachine.initQueue
  refine .bind trans (modifyEM _ _) fun _ => .bind trans (epollCreate _) fun queueFd => ?_
  refine .ite (.of_pure refl _) (.bind trans (modifyEM _ _) fun _ => ?_)
  exact .bind trans (eventCtl _ _ _ _ _) fun ret => .ite (.of_pure refl _) (.of_pure refl _)

theorem initPipe2 (em : EMPtr) :
    Keeps (Guards usePipe2) (eventMachineInit true (some em) : Sys σ UInt32) := by
  rw [eventMachineInit_eq]
  refine .bind trans ?_ fun flags => .ite (.of_pure refl _) (initQueue em)
  unfold EventMachine.initPipe
  refine .bind trans (initEvents em) fun _ => .bind trans (pipe _) fun r => ?_
  exact .ite (.of_pure refl _) (.bind trans (modifyEM _ _) fun _ => .of_pure refl _)

end Guards

theorem Kernel.Guarded.plain {v w : World σ} (h : w.kernel.Guarded false) (hplain : v.plain = w.plain) :
    v.kernel.Guarded false := by
  intro n f hf
  have hfile := World.plain_file hplain n
  rw [hf] at hfile
  obtain ⟨f', hf', heq⟩ := Option.map_eq_some_iff.1 hfile.symm
  have howner : f'.owner = f.owner := congrArg (·.owner) heq
  have hkind : f'.kind = f.kind := congrArg (·.kind) heq
  have hstatus : f'.status = f.status := congrArg (·.status) heq
  intro hother
  have hf'' := (h n f' hf' (howner ▸ hother)).2
  rw [hkind, hstatus] at hf''
  exact ⟨nofun, hf''⟩

/-- The pipe of the other build is as it should be, unless its `fcntl()` loop has failed. -/
theorem init_unblocked (em : EMPtr) (w : World σ) (hw : w.kernel.Guarded false) :
    wp (eventMachineInit false (some em))
      (fun r w' => r ≠ EMResult.errorFcntl.code → w'.kernel.Guarded false) (fun _ _ => False) w := by
  refine wp_mono (wp_and (init_through false em w) (init_spec false w em)) ?_ fun _ _ h => h.1
  rintro r w' ⟨⟨-, -, -, -, w₀, u, hevents, hplain, hqueue⟩ | ⟨-, hr⟩, ms, m, -, hout⟩ hfcntl
  · have hw₀ := ((Guards.initEvents em).ok hevents hw).1
    have hopened : (w₀.pipeOpened em).kernel.Guarded false := hw₀.pipe (.machine em)
    exact ((Guards.initQueue em).ok hqueue (hopened.plain hplain)).1
  · obtain rfl := hr.resolve_right hfcntl
    cases hout with
    | noPipe _ _ core => exact hw.of_core core
    | noFlags _ code => exact absurd code (by decide)
    | noQueue _ code => exact absurd code (by decide)
    | queue _ _ _ _ _ _ _ _ event =>
      rcases event with ⟨code, -⟩ | ⟨code, -⟩
      · exact absurd code (by decide)
      · exact absurd code (by decide)

theorem Guards.eventMachineInit (usePipe2 : Bool) (em : EMRef) (w : World σ) :
    wp (eventMachineInit usePipe2 em)
      (fun r w' => r ≠ EMResult.errorFcntl.code → Guards usePipe2 w w') (fun _ _ => False) w := by
  cases em with
  | none => exact fun _ => Guards.refl w
  | some em =>
    have hrecords : wp (EventMachine.eventMachineInit usePipe2 (some em))
        (fun _ w' => Records (SysRecord.Guarded usePipe2) w w') (fun _ _ => False) w := by
      refine wp_mono (init_spec usePipe2 w em) ?_ fun _ _ h => h
      rintro r w' ⟨ms, m, -, hout⟩
      obtain ⟨m', base⟩ := hout.base
      refine base.records.mono ?_
      rintro x ⟨-, hcall⟩ hread
      rcases hcall with hcall | hcall | ⟨hcall, -⟩ <;> simp [hcall] at hread
    cases usePipe2 with
    | true =>
      refine wp_mono (wp_and hrecords (wp_self _ w)) ?_ fun _ _ h => h.1
      exact fun r w' h _ => (Guards.initPipe2 em).ok h.2
    | false =>
      refine wp_mono (wp_and hrecords (wp_self _ w)) ?_ fun _ _ h => h.1
      rintro r w' ⟨hrec, hexec⟩ hr hw
      exact ⟨wp_ok (init_unblocked em w hw) hexec hr, hrec⟩

/-! ## Programs -/

theorem Guards.exec {usePipe2 : Bool} (f : Call) (hf : ∀ em, f ≠ .init em) :
    Keeps (Guards usePipe2) (f.exec usePipe2 : Sys σ UInt32) := by
  cases f with
  | init em => exact absurd rfl (hf em)
  | destroy em => exact eventMachineDestroy em
  | terminate em => exact eventMachineTerminate em
  | reg em c =>
    refine .bind trans ?_ fun _ => .of_pure refl _
    cases c with
    | add ed => exact .bind trans (eventMachineAdd em ed) fun _ => .of_pure refl _
    | delete fd oldEd => exact eventMachineDelete em fd oldEd
    | modify fd ed oldEd => exact eventMachineModify em fd ed oldEd
  | timerCreate em t callback data => exact eventTimerCreate em t callback data
  | timerStart t msec isOneShot => exact eventTimerStart t msec isOneShot
  | timerStop t => exact eventTimerStop t
  | timerDestroy t => exact eventTimerDestroy t

theorem Guards.env {usePipe2 : Bool} (e : Env) (w : World σ) : Guards usePipe2 w (e.exec w) := by
  cases e with
  | openFile status cloexec =>
    refine of_silent (fun h => h.opened (.of_files rfl rfl rfl) ?_) rfl
    exact fun hother => absurd rfl hother
  | closeFile fd => exact of_silent (fun h => h.close fd) rfl
  | setDescriptor a d => exact of_silent id rfl
  | setTimer t x => exact of_silent id rfl
  | expire o => exact of_silent (fun h => h.same fun n => expire_file _ _ _) rfl

theorem Guards.go {usePipe2 : Bool} (w : World σ) (fs : List Frame) (o : WaitOutcome) :
    Guards usePipe2 w (Config.go ⟨w, fs, .library⟩ o).world := by
  match fs with
  | [] => exact refl w
  | .run em bl none :: rest =>
    simp only [Config.go]
    split
    · next h => exact (runOnceBegin em o).error h
    · next h => split <;> exact (runOnceBegin em o).ok h
  | .run em bl (some b) :: rest =>
    simp only [Config.go]
    split
    · split
      · next h => exact (runOnceSlot em b.events b.i b.breakLoopReadFd).error h
      · next h => exact (runOnceSlot em b.events b.i b.breakLoopReadFd).ok h
      · next h => exact (runOnceSlot em b.events b.i b.breakLoopReadFd).ok h
      · next h => exact (runOnceSlot em b.events b.i b.breakLoopReadFd).ok h
      · next fd data w' hslot =>
        have hw' : Guards usePipe2 w w' := (runOnceSlot em b.events b.i b.breakLoopReadFd).ok hslot
        split
        · next h => exact trans _ _ _ hw' ((internalTimeoutRead fd data).error h)
        · next h => exact trans _ _ _ hw' ((internalTimeoutRead fd data).ok h)
        · next h => exact trans _ _ _ hw' ((internalTimeoutRead fd data).ok h)
    · split <;> exact refl w
  | .timeout data 0 :: rest => exact refl w
  | .timeout data (n + 1) :: rest =>
    simp only [Config.go]
    split
    · next h => exact (internalTimeoutRound data).error h
    · next h => exact (internalTimeoutRound data).ok h

/-- Every step of a program guards the descriptors of the library, an initialisation that breaks off
while it sets the flags of the pipe apart. -/
theorem Step.guards {usePipe2 : Bool} {c c' : Config σ} {a : Act} (h : Step usePipe2 c a c')
    (ha : ∀ em, a ≠ .event (.ret (.init em) EMResult.errorFcntl.code)) :
    Guards usePipe2 c.world c'.world := by
  cases h with
  | @call f w w' r fs hexec =>
    by_cases hf : ∃ em, f = .init em
    · obtain ⟨em, rfl⟩ := hf
      refine wp_ok (Guards.eventMachineInit usePipe2 em w) hexec fun hr => ha em ?_
      rw [hr]
    · exact (Guards.exec f fun em heq => hf ⟨em, heq⟩).ok hexec
  | @crash f w w' e fs hexec =>
    by_cases hf : ∃ em, f = .init em
    · obtain ⟨em, rfl⟩ := hf
      exact absurd (wp_error (Guards.eventMachineInit usePipe2 em w) hexec) id
    · exact (Guards.exec f fun em heq => hf ⟨em, heq⟩).error hexec
  | env e w fs m => exact .env e w
  | enter fs hexec => exact (Guards.eventMachineRunEnter _).ok hexec
  | refuse fs hexec => exact (Guards.eventMachineRunEnter _).ok hexec
  | ret => exact .refl _
  | go => exact .go _ _ _

theorem run_guards {usePipe2 : Bool} {c c' : Config σ} {as : List Act}
    (hrun : Steps (Step usePipe2) c as c')
    (has : ∀ em, .event (.ret (.init em) EMResult.errorFcntl.code) ∉ as) :
    Guards usePipe2 c.world c'.world := by
  refine hrun.invariant_mem (I := fun x => Guards usePipe2 c.world x.world) ?_ (.refl _)
  intro s a t ha hs hstep
  exact .trans _ _ _ hs (hstep.guards fun em heq => has em (heq ▸ ha))

/-- In every run of a program, each `read()` and `write()` the library issues on a descriptor it has opened
itself is one that does not block, and in the build with `pipe2()` every descriptor the library has open is
closed on exec. The build without needs the `fcntl()` loop of each initialisation to go through. -/
theorem never_blocks {usePipe2 : Bool} {w : World σ} {fs : List Frame} {as : List Act} {c : Config σ}
    (hopen : ∀ n f, w.kernel.file n = some f → f.owner = .other)
    (hrun : Steps (Step usePipe2) ⟨w, fs, .user⟩ as c)
    (hfcntl : ∀ em, .event (.ret (.init em) EMResult.errorFcntl.code) ∉ as) :
    (∃ l, c.world.log = w.log ++ l ∧ ∀ x ∈ l, x.call = .read ∨ x.call = .write →
        ∀ f, x.file = some f → f.owner ≠ .other →
          f.kind = .epoll ∨ f.status &&& O_NONBLOCK = O_NONBLOCK) ∧
      (usePipe2 = true → ∀ n f, c.world.kernel.file n = some f → f.owner ≠ .other → f.cloexec = true) := by
  have hstart : w.kernel.Guarded usePipe2 := fun n f hf hother => absurd (hopen n f hf) hother
  obtain ⟨hend, l, hlog, hl⟩ := run_guards hrun hfcntl hstart
  constructor
  · refine ⟨l, hlog, fun x hx hcall f hf hother => ?_⟩
    exact (hl x hx hcall f hf hother).2
  · intro hpipe2 n f hf hother
    exact (hend n f hf hother).1 hpipe2

theorem never_blocks_pipeWorld :
    let w₁ := final (eventMachineInit true (some 0)) pipeWorld
    let w₂ := final (eventMachineTerminate (some 0)) w₁
    (∃ l, w₂.log = pipeWorld.log ++ l ∧ ∀ x ∈ l, x.call = .read ∨ x.call = .write →
        ∀ f, x.file = some f → f.owner ≠ .other →
          f.kind = .epoll ∨ f.status &&& O_NONBLOCK = O_NONBLOCK) ∧
      (true = true → ∀ n f, w₂.kernel.file n = some f → f.owner ≠ .other → f.cloexec = true) := by
  intro w₁ w₂
  have hinit : Step true ⟨pipeWorld, [], .user⟩ (.event (.ret (.init (some 0)) 0)) ⟨w₁, [], .user⟩ :=
    .call [] rfl
  have hstop : Step true ⟨w₁, [], .user⟩ (.event (.ret (.terminate (some 0)) 0)) ⟨w₂, [], .user⟩ :=
    .call [] rfl
  have hopen : ∀ n f, pipeWorld.kernel.file n = some f → f.owner = .other := by
    intro n f hf
    have hnone : pipeWorld.kernel.file n = none := by
      unfold Kernel.file
      split <;> rfl
    exact absurd (hnone.symm.trans hf) nofun
  exact never_blocks hopen (.cons hinit (.cons hstop (.nil _))) (by simp; decide)

end EventMachine
