import EventMachine.Proof.Timer
import EventMachine.System

/-!
# What every system call preserves

Whatever the library and the code around it do, the kernel changes through its own operations only. So
a property of the kernel that each of these preserves (`KernelInvariant`) is preserved by every call,
whichever way it ends, and by every step of a program.
-/

namespace EventMachine

open Lib

variable {σ : Type}

/-- A property of the kernel that each of its operations preserves. -/
structure KernelInvariant (P : Kernel → Prop) : Prop where
  errno : ∀ k e, P k → P { k with errno := e }
  malloc : ∀ k, P k → P (k.turn .malloc).2
  close : ∀ k fd, P k → P (k.close fd).2
  pipe : ∀ k owner pipe2, P k → P (k.pipe owner pipe2).2.2
  fcntlGetfl : ∀ k fd, P k → P (k.fcntlGetfl fd).2
  fcntlSetfl : ∀ k fd flags, P k → P (k.fcntlSetfl fd flags).2
  epollCreate : ∀ k owner, P k → P (k.epollCreate owner).2
  epollCtl : ∀ k epfd op fd ev, P k → P (k.epollCtl epfd op fd ev).2
  epollWait : ∀ k epfd n buffer o, P k → P (k.epollWait epfd n buffer o).2
  readByte : ∀ k fd, P k → P (k.readByte fd).2
  writeByte : ∀ k fd, P k → P (k.writeByte fd).2
  timerfdCreate : ∀ k owner, P k → P (k.timerfdCreate owner).2
  timerfdSettime : ∀ k fd new, P k → P (k.timerfdSettime fd new).2
  readExpirations : ∀ k fd, P k → P (k.readExpirations fd).2
  openFile : ∀ k owner kind status cloexec, P k → P (k.openFile owner kind status cloexec).2
  expire : ∀ k o, P k → P (k.expire o)

theorem Kernel.never_invariant (s : Syscall) : KernelInvariant (·.Never s) where
  errno _ _ h := h
  malloc _ h := h.turn .malloc
  close k fd h := h.of_faults (k.close_faults fd)
  pipe k owner pipe2 h := h.of_faults (k.pipe_faults owner pipe2)
  fcntlGetfl k fd h := h.of_faults (k.fcntlGetfl_faults fd)
  fcntlSetfl k fd flags h := h.of_faults (k.fcntlSetfl_faults fd flags)
  epollCreate k owner h := h.of_faults (k.epollCreate_faults owner)
  epollCtl k epfd op fd ev h := h.of_faults (k.epollCtl_faults epfd op fd ev)
  epollWait k epfd n buffer o h i := by rw [k.epollWait_faults, h i]
  readByte k fd h := h.of_faults (k.readByte_faults fd)
  writeByte k fd h := h.of_faults (k.writeByte_faults fd)
  timerfdCreate k owner h := h.of_faults (k.timerfdCreate_faults owner)
  timerfdSettime k fd new h := h.of_faults (k.timerfdSettime_faults fd new)
  readExpirations k fd h := h.of_faults (k.readExpirations_faults fd)
  openFile _ _ _ _ _ h := h
  expire k o h := by
    unfold Kernel.expire
    split <;> exact h

/-- A piece of code that preserves a property of the kernel. -/
def Preserves (P : Kernel → Prop) {α : Type} (x : Sys σ α) : Prop :=
  Keeps (fun w w' => P w.kernel → P w'.kernel) x

namespace Preserves
variable {P : Kernel → Prop} {α β : Type}

theorem pure (a : α) : Preserves P (pure a : Sys σ α) := fun _ h => h

theorem throw (e : Crash) : Preserves P (throw e : Sys σ α) := fun _ h => h

theorem bind {x : Sys σ β} {f : β → Sys σ α} (hx : Preserves P x) (hf : ∀ b, Preserves P (f b)) :
    Preserves P (x >>= f) := Keeps.bind (fun _ _ _ h h' hw => h' (h hw)) hx hf

theorem ite {c : Prop} [Decidable c] {x y : Sys σ α} (hx : Preserves P x) (hy : Preserves P y) :
    Preserves P (if c then x else y) := Keeps.ite hx hy

theorem silent {f : World σ → α × World σ} (h : ∀ w, (f w).2.kernel = w.kernel) :
    Preserves P (modifyGet f : Sys σ α) := .of_modifyGet fun w hw => by rwa [h w]

theorem getEM (em : EMPtr) : Preserves P (getEM em : Sys σ (EM σ)) := silent fun _ => rfl

theorem modifyEM (em : EMPtr) (f : EM σ → EM σ) : Preserves P (modifyEM em f) := silent fun _ => rfl

theorem getTimer (t : TimerPtr) : Preserves P (getTimer t : Sys σ EventTimer) := silent fun _ => rfl

theorem modifyTimer (t : TimerPtr) (f : EventTimer → EventTimer) :
    Preserves P (modifyTimer t f : Sys σ Unit) := silent fun _ => rfl

theorem getErrno : Preserves P (getErrno : Sys σ Errno) := silent fun _ => rfl

theorem cAssert (c : Prop) [Decidable c] : Preserves P (cAssert c : Sys σ Unit) := ite (pure _) (throw _)

theorem issue {who : Owner} {call : Syscall} {fd : Int} {f : Kernel → Int × Kernel}
    (h : ∀ k, P k → P (f k).2) : Preserves P (issue who call fd f : Sys σ Int) :=
  .of_modifyGet fun w hw => h w.kernel hw

end Preserves

section calls
variable {P : Kernel → Prop} (hP : KernelInvariant P)

include hP

/-! ### The life of a machine -/

theorem setErrno_preserves (e : Errno) : Preserves P (setErrno e : Sys σ Unit) :=
  .of_modifyGet fun w hw => hP.errno w.kernel e hw

theorem eventCtl_preserves (who : Owner) (queueFd : Int) (ed : EDRef) (fd : Int) (op : CtlOp) :
    Preserves P (eventCtl who queueFd ed fd op : Sys σ Int) := by
  have hctl : ∀ who epfd op fd ev, Preserves P (epollCtl who epfd op fd ev : Sys σ Int) :=
    fun _ epfd op fd ev => .of_modifyGet fun w hw => hP.epollCtl w.kernel epfd op fd ev hw
  unfold eventCtl
  refine .bind (fun _ hw => hw) fun w => .bind (hctl _ _ _ _ _) fun ret => .ite (.pure _) ?_
  refine .bind .getErrno fun errno => .ite (.pure _) ?_
  split
  · exact .throw _
  · exact hctl _ _ _ _ _

theorem setPipeFlags_preserves (who : Owner) (ends : List Int) :
    Preserves P (setPipeFlags who ends : Sys σ UInt32) := by
  induction ends with
  | nil => exact .pure _
  | cons fd rest ih =>
    refine .bind (.issue fun k => hP.fcntlGetfl k fd) fun flags => .ite (.pure _) ?_
    exact .bind (.issue fun k => hP.fcntlSetfl k fd _) fun ret => .ite (.pure _) ih

theorem initEvents_preserves (em : EMPtr) : Preserves P (initEvents em : Sys σ Unit) := by
  have hmalloc : ∀ n, Preserves P (malloc n : Sys σ (Option BufPtr)) := fun n =>
    .of_modifyGet fun w hw => by
      have hturn := hP.malloc w.kernel hw
      split
      · next e k hk =>
        rw [hk] at hturn
        exact hP.errno k e hturn
      · next k hk =>
        rw [hk] at hturn
        exact hturn
  unfold initEvents
  refine .bind (.getEM em) fun m => .ite (.bind (.modifyEM em _) fun _ => ?_) ?_
  all_goals
    refine .bind (.getEM em) fun m => ?_
    split
    · exact .bind (hmalloc _) fun _ => .modifyEM em _
    · exact .modifyEM em _

theorem eventMachineInit_preserves (usePipe2 : Bool) (em : EMRef) :
    Preserves P (eventMachineInit usePipe2 em : Sys σ UInt32) := by
  cases em with
  | none => exact .pure _
  | some em =>
    have hpipe : Preserves P (pipe (.machine em) usePipe2 : Sys σ _) :=
      .of_modifyGet fun w hw => hP.pipe w.kernel _ _ hw
    have hqueue : Preserves P (epollCreate (.machine em) : Sys σ _) :=
      .of_modifyGet fun w hw => hP.epollCreate w.kernel _ hw
    have hflags : ∀ ends, Preserves P (initPipeFlags usePipe2 (.machine em) ends : Sys σ _) :=
      fun ends => by
        unfold initPipeFlags
        split
        · exact .pure _
        · exact setPipeFlags_preserves hP _ _
    refine .bind (initEvents_preserves hP em) fun _ => .bind hpipe fun r => .ite (.pure _) ?_
    refine .bind (.modifyEM em _) fun _ => .bind (hflags _) fun flags => .ite (.pure _) ?_
    refine .bind (.modifyEM em _) fun _ => .bind hqueue fun fd => .ite (.pure _) ?_
    refine .bind (.modifyEM em _) fun _ => .bind (eventCtl_preserves hP _ _ _ _ _) fun ret => ?_
    exact .ite (.pure _) (.pure _)

theorem close_preserves (who : Owner) (fd : Int) : Preserves P (close who fd : Sys σ Int) :=
  .issue fun k => hP.close k fd

theorem eventMachineDestroy_preserves (em : EMRef) :
    Preserves P (eventMachineDestroy em : Sys σ UInt32) := by
  cases em with
  | none => exact .pure _
  | some em =>
    have hend : ∀ (c : Prop) [Decidable c] fd f (rest : Sys σ UInt32), Preserves P rest →
        Preserves P (do
          if c then
            let ret ← close (.machine em) fd
            if ret ≠ 0 then return EMResult.errorClose.code
            modifyEM em f
          rest) := fun c _ fd f rest hrest =>
      .ite (.bind (close_preserves hP _ fd) fun ret =>
        .ite (.pure _) (.bind (.modifyEM em f) fun _ => hrest)) hrest
    unfold eventMachineDestroy
    refine .bind (.getEM em) fun m => .ite (.bind (close_preserves hP _ _) fun _ => .pure _) ?_
    have htail := hend (0 ≤ m.breakLoopPipe.2) m.breakLoopPipe.2
      (fun m => { m with breakLoopPipe := (m.breakLoopPipe.1, -1) }) _
      (hend (0 ≤ m.breakLoopPipe.1) m.breakLoopPipe.1
        (fun m => { m with breakLoopPipe := (-1, m.breakLoopPipe.2) }) _
        (.pure EMResult.success.code))
    exact .ite (.bind (.modifyEM em _) fun _ => .bind (.silent fun _ => rfl) fun _ => htail) htail

theorem eventMachineTerminate_preserves (em : EMRef) :
    Preserves P (eventMachineTerminate em : Sys σ UInt32) := by
  cases em with
  | none => exact .pure _
  | some em =>
    refine .bind (.getEM em) fun m => .ite (.pure _) ?_
    refine .bind (.issue fun k => hP.fcntlGetfl k _) fun flags => .ite (.pure _) ?_
    refine .bind (.issue fun k => hP.writeByte k _) fun ret => .ite ?_ (.pure _)
    exact .bind .getErrno fun errno => .ite (.pure _) (.pure _)

/-! ### Registering -/

theorem checks_preserves {α : Type} (who : Owner) (queueFd fd : Int) (bad : α) (rest : Sys σ α)
    (hrest : Preserves P rest) :
    Preserves P (do
      if queueFd < 0 ∨ fd < 0 then
        setErrno .EBADF
        return bad
      let flags ← fcntlGetfl who queueFd
      if flags < 0 then return bad
      let flags ← fcntlGetfl who fd
      if flags < 0 then return bad
      rest) := by
  refine .ite (.bind (setErrno_preserves hP _) fun _ => .pure _) ?_
  refine .bind (.issue fun k => hP.fcntlGetfl k _) fun flags => .ite (.pure _) ?_
  exact .bind (.issue fun k => hP.fcntlGetfl k _) fun flags => .ite (.pure _) hrest

omit hP in
theorem removeEventDescriptor_preserves (em : EMPtr) (fd : Int) (oldEd : OutVar) :
    Preserves P (removeEventDescriptor em fd oldEd : Sys σ (UInt32 × OutVar)) := by
  refine .bind (.cAssert _) fun _ => .bind (.getEM em) fun m => ?_
  split
  · refine .bind (.silent fun _ => rfl) fun r => ?_
    dsimp only
    split <;> exact .pure _
  · exact .pure _

theorem eventMachineAdd_preserves (em : EMRef) (ed : EDRef) :
    Preserves P (eventMachineAdd em ed : Sys σ UInt32) := by
  cases em with
  | none => exact .pure _
  | some em =>
  cases ed with
  | none => exact .pure _
  | some p =>
    refine .bind (.getEM em) fun m => .bind (.silent fun _ => rfl) fun d => checks_preserves hP _ _ _ _ _ ?_
    refine .bind (eventCtl_preserves hP _ _ _ _ _) fun ret => .ite (.pure _) ?_
    split
    · exact .silent fun _ => rfl
    · exact .pure _

theorem eventMachineDelete_preserves (em : EMRef) (fd : Int) (oldEd : OutVar) :
    Preserves P (eventMachineDelete em fd oldEd : Sys σ (UInt32 × OutVar)) := by
  cases em with
  | none => exact .pure _
  | some em =>
    refine .bind (.getEM em) fun m => checks_preserves hP _ _ _ _ _ ?_
    refine .bind (eventCtl_preserves hP _ _ _ _ _) fun ret => .ite (.pure _) ?_
    exact removeEventDescriptor_preserves em fd oldEd

theorem eventMachineModify_preserves (em : EMRef) (fd : Int) (ed : EDRef) (oldEd : OutVar) :
    Preserves P (eventMachineModify em fd ed oldEd : Sys σ (UInt32 × OutVar)) := by
  cases em with
  | none => exact .pure _
  | some em =>
    refine .bind (.getEM em) fun m => checks_preserves hP _ _ _ _ _ ?_
    refine .bind (eventCtl_preserves hP _ _ _ _ _) fun ret => .ite (.pure _) ?_
    refine .bind (removeEventDescriptor_preserves em fd oldEd) fun r => .ite (.pure _) ?_
    split
    · exact .bind (.silent fun _ => rfl) fun ret => .pure _
    · exact .pure _

theorem regCall_preserves (em : EMRef) (c : RegCall) :
    Preserves P (c.exec em : Sys σ (UInt32 × OutVar)) := by
  cases c with
  | add ed => exact .bind (eventMachineAdd_preserves hP em ed) fun _ => .pure _
  | delete fd oldEd => exact eventMachineDelete_preserves hP em fd oldEd
  | modify fd ed oldEd => exact eventMachineModify_preserves hP em fd ed oldEd

/-! ### Timers -/

theorem eventTimerCreate_preserves (em : EMRef) (t : Option TimerPtr) (callback : Option Nat)
    (data : VoidPtr) :
    Preserves P (eventTimerCreate em t callback data : Sys σ UInt32) := by
  cases em with
  | none => exact .pure _
  | some em =>
  cases t with
  | none => exact .pure _
  | some t =>
  cases callback with
  | none => exact .pure _
  | some callback =>
    have hcreate : Preserves P (timerfdCreate (.timer t) : Sys σ Int) :=
      .of_modifyGet fun w hw => hP.timerfdCreate w.kernel _ hw
    refine .bind (.modifyTimer t _) fun _ => .bind hcreate fun fd => .ite (.pure _) ?_
    refine .bind (.modifyTimer t _) fun _ => .bind (eventMachineAdd_preserves hP _ _) fun ret => ?_
    refine .ite (.bind .getErrno fun errno => ?_) (.pure _)
    refine .bind (.cAssert _) fun _ => .bind (.cAssert _) fun _ => .bind (close_preserves hP _ _) fun _ => ?_
    exact .bind (.modifyTimer t _) fun _ => .bind (setErrno_preserves hP _) fun _ => .pure _

theorem settime_preserves (t : TimerPtr) (new : Itimerspec) :
    Preserves P (settime t new : Sys σ UInt32) :=
  .bind (.getTimer t) fun _ => .bind (.issue fun k => hP.timerfdSettime k _ new) fun _ =>
    .ite (.pure _) (.pure _)

theorem eventTimerDestroy_preserves (t : Option TimerPtr) :
    Preserves P (eventTimerDestroy t : Sys σ UInt32) := by
  cases t with
  | none => exact .pure _
  | some t =>
    refine .bind (.getTimer t) fun x => .bind (eventMachineDelete_preserves hP _ _ _) fun r => ?_
    refine .ite (.bind .getErrno fun errno => ?_) ?_
    · refine .bind (.cAssert _) fun _ => .bind (.cAssert _) fun _ => ?_
      refine .bind (close_preserves hP _ _) fun _ => ?_
      exact .bind (setErrno_preserves hP _) fun _ => .pure _
    · refine .bind (close_preserves hP _ _) fun closed => .ite (.pure _) ?_
      exact .bind (.modifyTimer t _) fun _ => .pure _

/-- Every call of the API preserves the property, even if it crashes. -/
theorem call_preserves (usePipe2 : Bool) (c : Call) : Preserves P (c.exec usePipe2 : Sys σ UInt32) := by
  cases c with
  | init em => exact eventMachineInit_preserves hP usePipe2 em
  | destroy em => exact eventMachineDestroy_preserves hP em
  | terminate em => exact eventMachineTerminate_preserves hP em
  | reg em c => exact .bind (regCall_preserves hP em c) fun _ => .pure _
  | timerCreate em t callback data => exact eventTimerCreate_preserves hP em t callback data
  | timerStart t msec isOneShot =>
    cases t with
    | none => exact .pure _
    | some t => exact settime_preserves hP t _
  | timerStop t =>
    cases t with
    | none => exact .pure _
    | some t => exact settime_preserves hP t _
  | timerDestroy t => exact eventTimerDestroy_preserves hP t

/-! ### The main loop -/

theorem eventMachineRunEnter_preserves (em : EMRef) :
    Preserves P (eventMachineRunEnter em : Sys σ UInt32) := by
  cases em with
  | none => exact .pure _
  | some em =>
    refine .bind (.getEM em) fun m => .ite (.pure _) (.ite (.pure _) (.ite (.pure _) ?_))
    exact .bind (.issue fun k => hP.fcntlGetfl k _) fun flags => .ite (.pure _) (.pure _)

theorem runOnceBegin_preserves (em : EMPtr) (o : WaitOutcome) :
    Preserves P (runOnceBegin em o : Sys σ (Int × Option BufPtr × Int)) := by
  refine .bind (.getEM em) fun m => .bind ?_ fun _ => .pure _
  refine .bind (.cAssert _) fun _ => .bind (.cAssert _) fun _ => ?_
  refine .bind (.issue fun k => hP.epollWait k _ _ _ _) fun ret => ?_
  split
  · exact .ite (.pure _) (.silent fun _ => rfl)
  · exact .pure _

theorem runOnceSlot_preserves (em : EMPtr) (events : Option BufPtr) (i : Nat) (breakLoopReadFd : Int) :
    Preserves P (runOnceSlot em events i breakLoopReadFd : Sys σ Slot) := by
  unfold runOnceSlot
  refine .bind (fun _ hw => hw) fun w => ?_
  split
  · split
    · split
      · refine .bind (.silent fun _ => rfl) fun ed => .ite ?_ ?_
        · exact .bind (.issue fun k => hP.readByte k _) fun ret => .ite (.pure _) (.pure _)
        · split
          · exact .silent fun _ => rfl
          · exact .throw _
      · exact .throw _
    · exact .throw _
  · exact .throw _

theorem internalTimeoutRead_preserves (fd : Int) (data : VoidPtr) :
    Preserves P (internalTimeoutRead fd data : Sys σ (Option Nat)) := by
  refine .bind (.cAssert _) fun _ => .bind ?_ fun r => ?_
  · exact .of_modifyGet fun w hw => hP.readExpirations w.kernel fd hw
  · exact .bind .getErrno fun errno => .ite (.pure _) (.bind (.cAssert _) fun _ => .pure _)

omit hP in
theorem internalTimeoutRound_preserves (data : VoidPtr) :
    Preserves P (internalTimeoutRound data : Sys σ (Nat × TimerPtr × VoidPtr)) := by
  unfold internalTimeoutRound
  split
  · refine .bind (.getTimer _) fun x => ?_
    split
    · exact .silent fun _ => rfl
    · exact .throw _
  · exact .throw _

theorem KernelInvariant.go (c : Config σ) (o : WaitOutcome) (h : P c.world.kernel) :
    P (c.go o).world.kernel := by
  unfold Config.go
  split
  · exact h
  · next em _ _ _ =>
    have hkeeps := runOnceBegin_preserves (σ := σ) hP em o
    split
    · next hrun => exact hkeeps.error hrun h
    · next hrun => split <;> exact hkeeps.ok hrun h
  · next em _ b _ _ =>
    split
    · have hslot := runOnceSlot_preserves hP (σ := σ) em b.events b.i b.breakLoopReadFd
      dsimp only
      split
      · next hrun => exact hslot.error hrun h
      · next hrun => exact hslot.ok hrun h
      · next hrun => exact hslot.ok hrun h
      · next hrun => exact hslot.ok hrun h
      · next fd data w hrun =>
        have hw : P w.kernel := hslot.ok hrun h
        have hread := internalTimeoutRead_preserves hP (σ := σ) fd data
        split
        · next hrun' => exact hread.error hrun' hw
        · next hrun' => exact hread.ok hrun' hw
        · next hrun' => exact hread.ok hrun' hw
    · split <;> exact h
  · exact h
  · next data _ _ _ =>
    have hround := internalTimeoutRound_preserves (P := P) (σ := σ) data
    split
    · next hrun => exact hround.error hrun h
    · next hrun => exact hround.ok hrun h

theorem KernelInvariant.env (e : Env) (w : World σ) (h : P w.kernel) : P (e.exec w).kernel := by
  cases e with
  | openFile status cloexec => exact hP.openFile w.kernel _ _ _ _ h
  | closeFile fd => exact hP.close w.kernel fd h
  | setDescriptor a d => exact h
  | setTimer t x => exact h
  | expire o => exact hP.expire w.kernel o h

/-- Every step of a program preserves the property. -/
theorem KernelInvariant.step {usePipe2 : Bool} {c c' : Config σ} {a : Act} (hs : Step usePipe2 c a c')
    (h : P c.world.kernel) : P c'.world.kernel := by
  cases hs with
  | call fs hexec => exact (call_preserves hP usePipe2 _).ok hexec h
  | crash fs hexec => exact (call_preserves hP usePipe2 _).error hexec h
  | env e w fs m => exact hP.env e w h
  | enter fs hexec => exact (eventMachineRunEnter_preserves hP _).ok hexec h
  | refuse fs hexec => exact (eventMachineRunEnter_preserves hP _).ok hexec h
  | ret => exact h
  | go => exact hP.go _ _ h

end calls

end EventMachine
