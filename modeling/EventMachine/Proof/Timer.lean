import EventMachine.Proof.Destroy
import EventMachine.Timer

/-!
# What the timer calls can do

`create_spec`, `settime_spec` and `timerDestroy_spec` follow the calls of `event-timer.c` to each of
their exits. Creating and destroying a timer go through `event_machine_add()` and
`event_machine_delete()`, so these outcomes contain an `Outcome` of the registration.
-/

namespace EventMachine

open Lib

variable {σ : Type}

/-- The world with another `errno`. -/
def World.withErrno (w : World σ) (e : Errno) : World σ :=
  { w with kernel := { w.kernel with errno := e } }

/-! ## `event_timer_create()` -/

/-- The timer as `event_timer_create()` fills it in. -/
def createdTimer (em : EMPtr) (t : TimerPtr) (fd : Int) (callback : Nat) (data : VoidPtr) : EventTimer
    where
  eventDescriptor := ⟨EPOLLIN, fd, .timer t, some .internalTimeoutHandler⟩
  eventMachine := some em
  data := data
  callback := some callback

/-- A timerfd has been opened and the timer filled in. -/
structure TimerMade (w : World σ) (em : EMPtr) (t : TimerPtr) (callback : Nat) (data : VoidPtr)
    (fd : Int) (f : File) (w' : World σ) : Prop where
  made : w.kernel.TimerfdMade (.timer t) fd f w'.kernel
  frame : { w' with kernel := w.kernel } = w.setTimer t (createdTimer em t fd callback data)

/-- The timer has been made, and `event_machine_add()` has returned `r`. -/
def TimerAdded (w : World σ) (t : TimerPtr) (fd : Int) (r : UInt32) (w' : World σ) : Prop :=
  ∃ em callback data f w₁, TimerMade w em t callback data fd f w₁ ∧
    Outcome w₁ em (addChange w₁ em (some (.timer t))) none (r, none) w' ∧
    Records (RegRecord w₁ em .add fd) w₁ w'

/-- How far `event_timer_create()` gets. -/
inductive CreateOutcome (w : World σ) (t : TimerPtr) : UInt32 → World σ → Prop
  | refused {r : UInt32} (code : r ≠ EMResult.success.code) : CreateOutcome w t r w
  | noTimerfd {em : EMPtr} {callback : Nat} {data : VoidPtr} {w' : World σ}
      (core : w'.kernel.core = w.kernel.core)
      (frame : { w' with kernel := w.kernel } = w.setTimer t
        { w.timers t with eventMachine := some em, data := data, callback := some callback }) :
      CreateOutcome w t EMResult.errorTimerfdCreate.code w'
  | notAdded {r : UInt32} {fd ret : Int} {w₂ w₃ : World σ} (e : Errno)
      (code : r ≠ EMResult.success.code) (added : TimerAdded w t fd r w₂)
      (closed : Closed w₂ (.timer t) fd ret w₃) :
      CreateOutcome w t r ((w₃.setTimer t shredded).withErrno e)
  | done {fd : Int} {w' : World σ} (added : TimerAdded w t fd EMResult.success.code w') :
      CreateOutcome w t EMResult.success.code w'

/-- The world in which `event_timer_create()` calls `event_machine_add()`. -/
def World.timerOpened (w : World σ) (em : EMPtr) (t : TimerPtr) (callback : Nat) (data : VoidPtr) :
    World σ :=
  { w.setTimer t (createdTimer em t (w.kernel.timerfdCreate (.timer t)).1 callback data) with
    kernel := (w.kernel.timerfdCreate (.timer t)).2 }

/-- The world `event_timer_create()` leaves when it gets no timerfd. -/
def World.timerfdRefused (w : World σ) (em : EMPtr) (t : TimerPtr) (callback : Nat) (data : VoidPtr) :
    World σ :=
  { w.setTimer t { w.timers t with
      eventMachine := some em, data := data, callback := some callback } with
    kernel := (w.kernel.timerfdCreate (.timer t)).2 }

/-- `event_timer_create()` once the timerfd is there. -/
def createAdd (em : EMPtr) (t : TimerPtr) (fd : Int) : Sys σ UInt32 := do
  let ret ← eventMachineAdd (some em) (some (.timer t))
  if ¬ isEmSuccess ret then
    let savedErrno ← getErrno
    cAssert (ret ≠ EMResult.errorNull.code)
    cAssert (ret ≠ EMResult.errorDescriptorNull.code)
    let _ ← close (.timer t) fd
    shred t
    setErrno savedErrno
  return ret

theorem wp_eventTimerCreate {em : EMPtr} {t : TimerPtr} {callback : Nat} {data : VoidPtr}
    {w : World σ} {Q : UInt32 → World σ → Prop} {E : Crash → World σ → Prop} :
    wp (eventTimerCreate (some em) (some t) (some callback) data) Q E w ↔
      ((w.kernel.timerfdCreate (.timer t)).1 < 0 →
        Q EMResult.errorTimerfdCreate.code (w.timerfdRefused em t callback data)) ∧
      (¬ (w.kernel.timerfdCreate (.timer t)).1 < 0 →
        wp (createAdd em t (w.kernel.timerfdCreate (.timer t)).1) Q E
          (w.timerOpened em t callback data)) := by
  have hopened : w.timerOpened em t callback data =
      (w.timerfdRefused em t callback data).setTimer t
        { (w.timerfdRefused em t callback data).timers t with
          eventDescriptor := ⟨EPOLLIN, (w.kernel.timerfdCreate (.timer t)).1, .timer t,
            some .internalTimeoutHandler⟩ } := by
    simp [World.timerOpened, World.timerfdRefused, World.setTimer, createdTimer]
  rw [hopened]
  unfold eventTimerCreate
  rw [wp_bind, wp_modifyTimer, wp_bind]
  refine (wp_modifyGet _).trans ((wp_ite _ _ _).trans (and_congr Iff.rfl ?_))
  exact imp_congr Iff.rfl (wp_bind _ _)

/-- What becomes of the result `r` of `event_machine_add()`, which it left with `w₂`. -/
def AddChecked (t : TimerPtr) (fd : Int) (r : UInt32) (w₂ w' : World σ) : Prop :=
  (r = EMResult.success.code ∧ w' = w₂) ∨
    (r ≠ EMResult.success.code ∧ ∃ ret w₃, Closed w₂ (.timer t) fd ret w₃ ∧
      w' = (w₃.setTimer t shredded).withErrno w₂.kernel.errno)

/-- A failed `event_machine_add()` is undone by closing the timerfd, with its `errno`; the assertions
are about its code. -/
theorem createAdd_spec (em : EMPtr) (t : TimerPtr) (fd : Int) (w₁ : World σ) :
    wp (createAdd em t fd)
      (fun r w' => ∃ w₂, eventMachineAdd (some em) (some (.timer t)) w₁ = .ok r w₂ ∧
        AddChecked t fd r w₂ w')
      (fun _ w₂ => ∃ r, eventMachineAdd (some em) (some (.timer t)) w₁ = .ok r w₂ ∧
        (r = EMResult.errorNull.code ∨ r = EMResult.errorDescriptorNull.code)) w₁ := by
  unfold createAdd
  rw [wp_bind]
  refine wp_mono (wp_and (add_spec w₁ em (some (.timer t))) (wp_self _ w₁)) ?_ fun _ _ h => h.1.elim
  rintro r w₂ ⟨-, hadd⟩
  rw [wp_ite]
  constructor
  · intro hr
    have hfail : r ≠ EMResult.success.code := fun heq => hr ((isEmSuccess_iff r).2 heq)
    rw [wp_bind, wp_getErrno, wp_bind, wp_cAssert]
    refine ⟨fun _ => ?_, fun h => ⟨r, hadd, Or.inl (not_not.1 h)⟩⟩
    rw [wp_bind, wp_cAssert]
    refine ⟨fun _ => ?_, fun h => ⟨r, hadd, Or.inr (not_not.1 h)⟩⟩
    rw [wp_bind]
    refine wp_mono (close_spec _ _ _) ?_ fun _ _ h => h.elim
    rintro ret w₃ ⟨hclosed, -⟩
    exact ⟨w₂, hadd, Or.inr ⟨hfail, ret, w₃, hclosed, rfl⟩⟩
  · intro hr
    exact ⟨w₂, hadd, Or.inl ⟨(isEmSuccess_iff r).1 (by simpa using hr), rfl⟩⟩

theorem timerOpened_made (em : EMPtr) {t : TimerPtr} (callback : Nat) (data : VoidPtr) {w : World σ}
    (h : ¬ (w.kernel.timerfdCreate (.timer t)).1 < 0) :
    ∃ f, TimerMade w em t callback data (w.kernel.timerfdCreate (.timer t)).1 f
      (w.timerOpened em t callback data) := by
  rcases Kernel.timerfdCreate_cases w.kernel (.timer t) with ⟨hret, -⟩ | ⟨f, hmade⟩
  · exact absurd hret (by omega)
  · exact ⟨f, hmade, rfl⟩

theorem create_spec (em : EMRef) (t : TimerPtr) (callback : Option Nat) (data : VoidPtr)
    (w : World σ) :
    wp (eventTimerCreate em (some t) callback data) (fun r w' => CreateOutcome w t r w')
      (fun _ w' => ∃ fd r, TimerAdded w t fd r w') w := by
  cases em with
  | none => exact .refused (by decide)
  | some em =>
  cases callback with
  | none => exact .refused (by decide)
  | some callback =>
  refine wp_eventTimerCreate.2 ⟨fun h => ?_, fun h => ?_⟩
  · rcases Kernel.timerfdCreate_cases w.kernel (.timer t) with ⟨-, hcore⟩ | ⟨f, hmade⟩
    · exact .noTimerfd hcore rfl
    · exact absurd hmade.opens.nonneg (by omega)
  obtain ⟨f, hmade⟩ := timerOpened_made em callback data h
  generalize (w.kernel.timerfdCreate (.timer t)).1 = fd at hmade ⊢
  generalize w.timerOpened em t callback data = w₁ at hmade ⊢
  have hfd : ctlFd w₁ (some (.timer t)) (-1) = fd := by
    have htimers : w₁.timers = (w.setTimer t (createdTimer em t fd callback data)).timers :=
      congrArg (·.timers) hmade.frame
    simp [ctlFd, World.ed, htimers, World.setTimer, createdTimer]
  have hadded : ∀ {r w₂}, eventMachineAdd (some em) (some (.timer t)) w₁ = .ok r w₂ →
      TimerAdded w t fd r w₂ := fun hadd => by
    have hrec := wp_ok (add_records w₁ em (some (.timer t))) hadd
    rw [hfd] at hrec
    exact ⟨em, callback, data, f, w₁, hmade, wp_ok (add_spec w₁ em (some (.timer t))) hadd, hrec⟩
  refine wp_mono (createAdd_spec em t fd w₁) ?_ ?_
  · rintro r w' ⟨w₂, hadd, ⟨rfl, rfl⟩ | ⟨hfail, ret, w₃, hclosed, rfl⟩⟩
    · exact .done (hadded hadd)
    · exact .notAdded _ hfail (hadded hadd) hclosed
  · rintro e w₂ ⟨r, hadd, -⟩
    exact ⟨fd, r, hadded hadd⟩

theorem create_success {em : EMRef} {t : TimerPtr} {callback : Option Nat} {data : VoidPtr}
    {w w' : World σ}
    (h : eventTimerCreate em (some t) callback data w = .ok EMResult.success.code w') :
    ∃ m k f, em = some m ∧ callback = some k ∧
      TimerMade w m t k data (w.kernel.timerfdCreate (.timer t)).1 f (w.timerOpened m t k data) ∧
      eventMachineAdd (some m) (some (.timer t)) (w.timerOpened m t k data) =
        .ok EMResult.success.code w' := by
  cases em with
  | none => exact absurd (EStateM.Result.ok.inj h).1 (by decide)
  | some m =>
  cases callback with
  | none => exact absurd (EStateM.Result.ok.inj h).1 (by decide)
  | some k =>
  have hrun : wp (eventTimerCreate (some m) (some t) (some k) data) (fun r w' =>
      r = EMResult.success.code →
        ∃ f, TimerMade w m t k data (w.kernel.timerfdCreate (.timer t)).1 f (w.timerOpened m t k data) ∧
          eventMachineAdd (some m) (some (.timer t)) (w.timerOpened m t k data) = .ok r w')
      (fun _ _ => True) w := by
    refine wp_eventTimerCreate.2 ⟨fun _ hr => absurd hr (by decide), fun hpos => ?_⟩
    obtain ⟨f, hmade⟩ := timerOpened_made m k data hpos
    refine wp_mono (createAdd_spec _ _ _ _) ?_ fun _ _ _ => trivial
    rintro r w' ⟨w₂, hadd, ⟨-, rfl⟩ | ⟨hfail, -⟩⟩ hr
    · exact ⟨f, hmade, hadd⟩
    · exact absurd hr hfail
  obtain ⟨f, hmade, hadd⟩ := wp_ok hrun h rfl
  exact ⟨m, k, f, rfl, rfl, hmade, hadd⟩

theorem TimerMade.timer {w w' : World σ} {em : EMPtr} {t : TimerPtr} {callback : Nat} {data : VoidPtr}
    {fd : Int} {f : File} (h : TimerMade w em t callback data fd f w') :
    w'.timers t = createdTimer em t fd callback data := by
  rw [show w'.timers = (w.setTimer t (createdTimer em t fd callback data)).timers from
    congrArg (·.timers) h.frame, World.setTimer_self]

/-! ## `event_timer_start()` and `event_timer_stop()` -/

/-- `event_timer_start()` and `event_timer_stop()` once the setting is known. -/
def settime (t : TimerPtr) (new : Itimerspec) : Sys σ UInt32 := do
  let x ← getTimer t
  let ret ← timerfdSettime (.timer t) x.eventDescriptor.fd new
  if ret < 0 then return EMResult.errorTimerfdSettime.code
  return EMResult.success.code

/-- The setting `event_timer_start()` passes to `timerfd_settime()`. -/
def startSetting (msec : Int32) (isOneShot : Bool) : Itimerspec :=
  ⟨if isOneShot then ⟨0, 0⟩ else expirationTime msec, expirationTime msec⟩

theorem eventTimerStart_eq (t : TimerPtr) (msec : Int32) (isOneShot : Bool) :
    (eventTimerStart (some t) msec isOneShot : Sys σ UInt32) = settime t (startSetting msec isOneShot) :=
  rfl

theorem eventTimerStop_eq (t : TimerPtr) :
    (eventTimerStop (some t) : Sys σ UInt32) = settime t ⟨⟨0, 0⟩, ⟨0, 0⟩⟩ := rfl

/-- A `timerfd_settime()` on the number of the timer. -/
structure Settime (w : World σ) (t : TimerPtr) (new : Itimerspec) (r : UInt32) (w' : World σ) :
    Prop where
  only : KernelOnly w w'
  log : ∃ ret, w'.log = w.log ++ [⟨.timer t, .timerfdSettime, (w.timers t).eventDescriptor.fd,
    w.kernel.file (w.timers t).eventDescriptor.fd, none, ret⟩]
  effect : (r ≠ EMResult.success.code ∧ w'.kernel.core = w.kernel.core) ∨
    (r = EMResult.success.code ∧ ∃ f, w.kernel.file (w.timers t).eventDescriptor.fd = some f ∧
      f.kind = .timerfd ∧ w'.kernel.core = { w.kernel.core with
        timerfds := Function.update w.kernel.timerfds f.id
          ⟨if new.itValue = ⟨0, 0⟩ then none else some new, 0⟩ })

theorem settime_spec (t : TimerPtr) (new : Itimerspec) (w : World σ) :
    wp (settime t new) (fun r w' => Settime w t new r w') (fun _ _ => False) w := by
  unfold settime
  rw [wp_bind, wp_getTimer, wp_bind]
  apply wp_issue.2
  rw [wp_ite]
  rcases Kernel.timerfdSettime_cases w.kernel (w.timers t).eventDescriptor.fd new with
    ⟨hret, hcore⟩ | ⟨f, hf, hkind, hret, hcore⟩
  · exact ⟨fun _ => ⟨rfl, ⟨_, rfl⟩, Or.inl ⟨by decide, hcore⟩⟩, fun h => absurd hret (by omega)⟩
  · exact ⟨fun h => absurd hret (by omega),
      fun _ => ⟨rfl, ⟨_, rfl⟩, Or.inr ⟨rfl, f, hf, hkind, hcore⟩⟩⟩

theorem start_spec (t : TimerPtr) (msec : Int32) (isOneShot : Bool) (w : World σ) :
    wp (eventTimerStart (some t) msec isOneShot)
      (fun r w' => Settime w t (startSetting msec isOneShot) r w') (fun _ _ => False) w := by
  rw [eventTimerStart_eq]
  exact settime_spec t _ w

theorem stop_spec (t : TimerPtr) (w : World σ) :
    wp (eventTimerStop (some t))
      (fun r w' => Settime w t ⟨⟨0, 0⟩, ⟨0, 0⟩⟩ r w') (fun _ _ => False) w := by
  rw [eventTimerStop_eq]
  exact settime_spec t _ w

theorem Settime.file {w w' : World σ} {t : TimerPtr} {new : Itimerspec} {r : UInt32}
    (h : Settime w t new r w') (n : Int) : w'.kernel.file n = w.kernel.file n := by
  rcases h.effect with ⟨-, hcore⟩ | ⟨-, f, -, -, hcore⟩
  · exact Kernel.file_congr hcore n
  · exact Kernel.file_congr (k := { w.kernel with timerfds := _ }) hcore n

/-! ## `event_timer_destroy()` -/

/-- `event_machine_delete()` has returned `r` for the number of the timer. -/
def TimerDeleted (w : World σ) (t : TimerPtr) (r : UInt32) (w' : World σ) : Prop :=
  ∃ em old, (w.timers t).eventMachine = some em ∧
    Outcome w em (deleteChange w em (w.timers t).eventDescriptor.fd none) none (r, old) w' ∧
    Records (RegRecord w em .del (w.timers t).eventDescriptor.fd) w w'

/-- How far `event_timer_destroy()` gets. Only the last exit clears the timer. -/
inductive TimerDestroyOutcome (w : World σ) (t : TimerPtr) : UInt32 → World σ → Prop
  | notDeleted {r : UInt32} {ret : Int} {w₁ w₂ : World σ} (e : Errno)
      (code : r ≠ EMResult.success.code) (deleted : TimerDeleted w t r w₁)
      (closed : Closed w₁ (.timer t) (w.timers t).eventDescriptor.fd ret w₂) :
      TimerDestroyOutcome w t r (w₂.withErrno e)
  | notClosed {ret : Int} {w₁ w' : World σ} (deleted : TimerDeleted w t EMResult.success.code w₁)
      (closed : Closed w₁ (.timer t) (w.timers t).eventDescriptor.fd ret w') :
      TimerDestroyOutcome w t EMResult.errorClose.code w'
  | done {ret : Int} {w₁ w₂ : World σ} (deleted : TimerDeleted w t EMResult.success.code w₁)
      (closed : Closed w₁ (.timer t) (w.timers t).eventDescriptor.fd ret w₂) :
      TimerDestroyOutcome w t EMResult.success.code (w₂.setTimer t shredded)

theorem timerDestroy_spec (t : TimerPtr) (w : World σ) :
    wp (eventTimerDestroy (some t)) (fun r w' => TimerDestroyOutcome w t r w')
      (fun _ w' => ((w.timers t).eventMachine = none ∧ w' = w) ∨ ∃ r, TimerDeleted w t r w' ∧
        (r = EMResult.errorNull.code ∨ r = EMResult.errorDescriptorNull.code)) w := by
  unfold eventTimerDestroy
  simp only
  rw [wp_bind, wp_getTimer]
  cases hem : (w.timers t).eventMachine with
  | none =>
    -- `event_machine_delete()` refuses, and the first assertion fails
    have hnull : eventMachineDelete none (w.timers t).eventDescriptor.fd none w =
        .ok (EMResult.errorNull.code, none) w := rfl
    rw [wp_bind, wp_eq_ok hnull]
    simp only
    rw [if_pos (by decide), wp_bind, wp_getErrno, wp_bind, wp_cAssert]
    exact ⟨fun h => absurd rfl h, fun _ => Or.inl ⟨trivial, rfl⟩⟩
  | some em =>
  rw [wp_bind]
  refine wp_mono (wp_and (delete_spec w em _ none) (delete_records w em _ none)) ?_
    fun _ _ h => h.1.elim
  rintro ⟨r, old⟩ w₁ ⟨hout, hrec⟩
  have hdeleted : TimerDeleted w t r w₁ := ⟨em, old, hem, hout, hrec⟩
  simp only
  rw [wp_ite]
  constructor
  · intro hr
    have hfail : r ≠ EMResult.success.code := fun heq => hr ((isEmSuccess_iff r).2 heq)
    rw [wp_bind, wp_getErrno, wp_bind, wp_cAssert]
    refine ⟨fun _ => ?_, fun h => Or.inr ⟨r, hdeleted, Or.inl (not_not.1 h)⟩⟩
    rw [wp_bind, wp_cAssert]
    refine ⟨fun _ => ?_, fun h => Or.inr ⟨r, hdeleted, Or.inr (not_not.1 h)⟩⟩
    rw [wp_bind]
    refine wp_mono (close_spec _ _ _) ?_ fun _ _ h => h.elim
    rintro ret w₂ ⟨hclosed, -⟩
    exact .notDeleted _ hfail hdeleted hclosed
  · intro hr
    obtain rfl := (isEmSuccess_iff r).1 (by simpa using hr)
    rw [wp_bind]
    refine wp_mono (close_spec _ _ _) ?_ fun _ _ h => h.elim
    rintro ret w₂ ⟨hclosed, -⟩
    rw [wp_ite]
    exact ⟨fun _ => .notClosed hdeleted hclosed, fun _ => .done hdeleted hclosed⟩

end EventMachine
