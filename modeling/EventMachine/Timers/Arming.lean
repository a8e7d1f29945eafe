import EventMachine.Lib.Transition
import EventMachine.Timers.Milliseconds

/-!
# Armed and disarmed

`event_timer_start()` and `event_timer_stop()` make the same system call, and it is the time in its
argument that tells them apart: a zero disarms the timer. So a start with zero milliseconds is a stop
that reports success. All other starts that report success arm the timer, and calls that fail change
nothing (`arming_follows_iff`).
-/

namespace EventMachine

open Lib

variable {σ : Type}

/-- A call of one of the two functions, with the arguments after the timer. -/
inductive ArmCall
  | start (msec : Int32) (isOneShot : Bool)
  | stop
  deriving DecidableEq

def ArmCall.exec (t : TimerPtr) : ArmCall → Sys σ UInt32
  | .start msec isOneShot => eventTimerStart (some t) msec isOneShot
  | .stop => eventTimerStop (some t)

/-- The setting a call asks the kernel for. -/
def ArmCall.setting : ArmCall → Itimerspec
  | .start msec isOneShot => startSetting msec isOneShot
  | .stop => ⟨⟨0, 0⟩, ⟨0, 0⟩⟩

theorem ArmCall.exec_eq (t : TimerPtr) (c : ArmCall) : (c.exec t : Sys σ UInt32) = settime t c.setting := by
  cases c <;> rfl

/-- A call on the timer `t`, with the code it returns. -/
def ArmStep (t : TimerPtr) (w : World σ) (x : ArmCall × UInt32) (w' : World σ) : Prop :=
  x.1.exec t w = .ok x.2 w'

theorem ArmStep.settime {t : TimerPtr} {w w' : World σ} {x : ArmCall × UInt32} (h : ArmStep t w x w') :
    settime t x.1.setting w = .ok x.2 w' := by
  rw [← ArmCall.exec_eq]
  exact h

/-- The value and the interval of a timer, or `none` when it is disarmed. -/
def World.arming (w : World σ) (t : TimerPtr) : Option Itimerspec :=
  (w.kernel.file (w.timers t).eventDescriptor.fd).bind fun f => (w.kernel.timerfds f.id).armed

/-- The last call that has reported success. -/
def lastSuccess (l : List (ArmCall × UInt32)) : Option ArmCall :=
  ((l.filter fun x => x.2 = EMResult.success.code).map (·.1)).getLast?

theorem lastSuccess_append (l : List (ArmCall × UInt32)) (x : ArmCall × UInt32) :
    lastSuccess (l ++ [x]) = if x.2 = EMResult.success.code then some x.1 else lastSuccess l := by
  unfold lastSuccess
  rw [List.filter_append, List.map_append]
  split
  · next h => simp [h]
  · next h => simp [h]

/-- A timer is armed if `last` has started it, with an interval if it was to be periodic. -/
structure ArmedBy (last : Option ArmCall) (arming : Option Itimerspec) : Prop where
  armed : arming ≠ none ↔ ∃ msec isOneShot, last = some (.start msec isOneShot)
  periodic : (∃ s, arming = some s ∧ s.itInterval ≠ ⟨0, 0⟩) ↔ ∃ msec, last = some (.start msec false)
  equal : ∀ s, arming = some s → s.itInterval ≠ ⟨0, 0⟩ → s.itValue = s.itInterval

/-- In every state of the run `l` from `w` the timer is as the last successful call has left it. -/
structure ArmingFollows (t : TimerPtr) (w : World σ) (l : List (ArmCall × UInt32)) : Prop where
  last : ∀ l₁ l₂ v, l = l₁ ++ l₂ → Steps (ArmStep t) w l₁ v → ArmedBy (lastSuccess l₁) (v.arming t)
  failed : ∀ l₁ x l₂ v v', l = l₁ ++ x :: l₂ → Steps (ArmStep t) w l₁ v → ArmStep t v x v' →
    x.2 ≠ EMResult.success.code → v'.arming t = v.arming t

/-! ## One call -/

theorem expirationTime_eq_zero (msec : Int32) : expirationTime msec = ⟨0, 0⟩ ↔ msec = 0 := by
  have hdiv := Int.tmod_add_mul_tdiv msec.toInt 1000
  rw [expirationTime_eq, Timespec.mk.injEq, ← Int32.toInt_inj]
  constructor
  · rintro ⟨hsec, hnsec⟩
    show msec.toInt = 0
    omega
  · intro h
    have hzero : msec.toInt = 0 := h
    simp [hzero]

/-- A call that reports success arms the timer as it is asked to, except when it is a start with no time
at all. -/
theorem armedBy_setting (c : ArmCall) :
    ArmedBy (some c) (if c.setting.itValue = ⟨0, 0⟩ then none else some c.setting) ↔
      ∀ isOneShot, c ≠ .start 0 isOneShot := by
  cases c with
  | stop =>
    refine iff_of_true ⟨?_, ?_, ?_⟩ fun _ => by simp
    · simp [ArmCall.setting]
    · simp [ArmCall.setting]
    · simp [ArmCall.setting]
  | start msec isOneShot =>
    simp only [ArmCall.setting, startSetting, expirationTime_eq_zero]
    split
    · next h =>
      subst h
      refine iff_of_false (fun harmed => ?_) fun hne => hne isOneShot rfl
      exact harmed.armed.2 ⟨0, isOneShot, rfl⟩ rfl
    · next h =>
      refine iff_of_true ⟨?_, ?_, ?_⟩ fun isOneShot' heq => h (ArmCall.start.inj heq).1
      · simp
      · cases isOneShot with
        | true => simp
        | false => simpa using fun hzero => h ((expirationTime_eq_zero msec).1 hzero)
      · rintro s hs hinterval
        obtain rfl := Option.some.inj hs
        cases isOneShot with
        | true => exact absurd rfl hinterval
        | false => rfl

theorem Settime.arming {w w' : World σ} {t : TimerPtr} {new : Itimerspec} {r : UInt32}
    (h : Settime w t new r w') : w'.arming t =
      if r = EMResult.success.code then if new.itValue = ⟨0, 0⟩ then none else some new
      else w.arming t := by
  have htimers : w'.timers = w.timers := congrArg (·.timers) h.only
  unfold World.arming
  rw [h.file, htimers]
  rcases h.effect with ⟨hr, hcore⟩ | ⟨hr, f, hf, -, hcore⟩
  · rw [if_neg hr, show w'.kernel.timerfds = w.kernel.timerfds from congrArg (·.timerfds) hcore]
  · have htimerfds : w'.kernel.timerfds = Function.update w.kernel.timerfds f.id
        ⟨if new.itValue = ⟨0, 0⟩ then none else some new, 0⟩ := congrArg (·.timerfds) hcore
    rw [if_pos hr, htimerfds, hf, Option.bind_some, Function.update_self]

/-- The timer has a timerfd. -/
def HasTimerfd (t : TimerPtr) (w : World σ) : Prop :=
  ∃ f, w.kernel.file (w.timers t).eventDescriptor.fd = some f ∧ f.kind = .timerfd

theorem ArmStep.hasTimerfd {t : TimerPtr} {w w' : World σ} {x : ArmCall × UInt32} (h : ArmStep t w x w')
    (hw : HasTimerfd t w) : HasTimerfd t w' := by
  have hset := wp_ok (settime_spec t x.1.setting w) h.settime
  have htimers : w'.timers = w.timers := congrArg (·.timers) hset.only
  unfold HasTimerfd
  rw [htimers, hset.file]
  exact hw

theorem ArmStep.armedBy_iff {t : TimerPtr} {w w' : World σ} {x : ArmCall × UInt32} {last : Option ArmCall}
    (h : ArmStep t w x w') (hw : HasTimerfd t w) (harmed : ArmedBy last (w.arming t)) :
    ArmedBy (if x.2 = EMResult.success.code then some x.1 else last) (w'.arming t) ↔
      ∀ isOneShot, x.1 = .start 0 isOneShot → w.kernel.faults .timerfdSettime 0 ≠ none := by
  have hset := wp_ok (settime_spec t x.1.setting w) h.settime
  obtain ⟨-, hsuccess⟩ := wp_ok (settime_success t x.1.setting w) h.settime
  rw [hset.arming]
  by_cases hr : x.2 = EMResult.success.code
  · have hfault := (hsuccess.1 hr).2.1
    rw [if_pos hr, if_pos hr, armedBy_setting]
    exact forall_congr' fun isOneShot => imp_congr Iff.rfl (iff_of_false id fun hne => hne hfault)
  · rw [if_neg hr, if_neg hr]
    refine iff_of_true harmed fun isOneShot hx hfault => hr (hsuccess.2 ⟨hw, hfault, ?_⟩)
    rw [hx]
    cases isOneShot <;> decide

/-! ## Runs -/

theorem created_disarmed {em : EMRef} {t : TimerPtr} {callback : Option Nat} {data : VoidPtr}
    {w w' : World σ} (h : eventTimerCreate em (some t) callback data w = .ok EMResult.success.code w') :
    HasTimerfd t w' ∧ w'.arming t = none := by
  obtain ⟨m, k, f, -, -, hmade, hadd⟩ := create_success h
  have hout := wp_ok (add_spec _ _ _) hadd
  have hfile : w'.kernel.file (w'.timers t).eventDescriptor.fd = some f := by
    rw [hout.timers, hmade.timer, hout.file, hmade.made.opens.file]
    exact if_pos rfl
  refine ⟨⟨f, hfile, hmade.made.kind⟩, ?_⟩
  unfold World.arming
  rw [hfile, Option.bind_some, hout.timerfds, hmade.made.timerfds, Function.update_self]

/-- The timer is armed as the last successful call has asked, all along a sequence of calls, exactly if
every start with zero milliseconds among them meets a kernel that fails by itself. -/
theorem arming_follows_iff {em : EMRef} {t : TimerPtr} {callback : Option Nat} {data : VoidPtr}
    {w w₀ w' : World σ} {l : List (ArmCall × UInt32)}
    (hcreate : eventTimerCreate em (some t) callback data w = .ok EMResult.success.code w₀)
    (hrun : Steps (ArmStep t) w₀ l w') :
    ArmingFollows t w₀ l ↔ ∀ l₁ x l₂ v, l = l₁ ++ x :: l₂ → Steps (ArmStep t) w₀ l₁ v →
      ∀ isOneShot, x.1 = .start 0 isOneShot → v.kernel.faults .timerfdSettime 0 ≠ none := by
  obtain ⟨hfd, hdisarmed⟩ := created_disarmed hcreate
  have hfds : ∀ {l v}, Steps (ArmStep t) w₀ l v → HasTimerfd t v := fun h =>
    h.invariant (fun _ _ _ hv hstep => hstep.hasTimerfd hv) hfd
  have hunique : ∀ (w : World σ) x v v', ArmStep t w x v → ArmStep t w x v' → v = v' :=
    fun w x v v' h h' => (EStateM.Result.ok.inj (Eq.trans (Eq.symm h) h')).2
  have hstart : ArmedBy (lastSuccess []) (w₀.arming t) := by
    rw [hdisarmed]
    exact ⟨by simp [lastSuccess], by simp [lastSuccess], by simp⟩
  have hiff := hrun.prefixes_iff hunique (P := fun l v => ArmedBy (lastSuccess l) (v.arming t))
    (C := fun v x => ∀ isOneShot, x.1 = .start 0 isOneShot → v.kernel.faults .timerfdSettime 0 ≠ none)
    hstart fun l₁ x l₂ v v' _ hv hstep harmed => by
      rw [lastSuccess_append]
      exact hstep.armedBy_iff (hfds hv) harmed
  constructor
  · intro h
    exact hiff.1 h.last
  · intro h
    refine ⟨hiff.2 h, fun l₁ x l₂ v v' _ _ hstep hr => ?_⟩
    rw [(wp_ok (settime_spec t x.1.setting v) hstep.settime).arming, if_neg hr]

/-- A program with a timer that has just been created. -/
def withTimer : World Unit := registeredWorld ⟨none, none, 0, .null⟩ ()

def withTimerCreated : World Unit := final (eventTimerCreate (some 0) (some 0) (some 0) .null) withTimer

theorem arming_follows_iff_withTimer :
    let l := [(ArmCall.start 1000 false, EMResult.success.code), (.stop, EMResult.success.code)]
    ArmingFollows 0 withTimerCreated l ↔ ∀ l₁ x l₂ v, l = l₁ ++ x :: l₂ →
      Steps (ArmStep 0) withTimerCreated l₁ v → ∀ isOneShot, x.1 = .start 0 isOneShot →
      v.kernel.faults .timerfdSettime 0 ≠ none := by
  intro l
  have hcreate : eventTimerCreate (some 0) (some 0) (some 0) .null withTimer =
      .ok EMResult.success.code withTimerCreated := rfl
  have hstart : ArmStep 0 withTimerCreated (.start 1000 false, EMResult.success.code)
      (final (eventTimerStart (some 0) 1000 false) withTimerCreated) := rfl
  have hstop : ArmStep 0 (final (eventTimerStart (some 0) 1000 false) withTimerCreated)
      (.stop, EMResult.success.code) _ := rfl
  exact arming_follows_iff hcreate (.cons hstart (.cons hstop (.nil _)))

/-- A start with zero milliseconds reports success and leaves the timer disarmed. -/
theorem not_arming_follows :
    ¬ ∀ (w w₀ w' : World Unit) (l : List (ArmCall × UInt32)),
      eventTimerCreate (some 0) (some 0) (some 0) .null w = .ok EMResult.success.code w₀ →
        Steps (ArmStep 0) w₀ l w' → ArmingFollows 0 w₀ l := by
  intro h
  have hcreate : eventTimerCreate (some 0) (some 0) (some 0) .null withTimer =
      .ok EMResult.success.code withTimerCreated := rfl
  have hstart : ArmStep 0 withTimerCreated (.start 0 true, EMResult.success.code)
      (final (eventTimerStart (some 0) 0 true) withTimerCreated) := rfl
  have hfollows := h withTimer withTimerCreated _ _ hcreate (.cons hstart (.nil _))
  have harmed := hfollows.last _ [] _ (List.append_nil _).symm (.cons hstart (.nil _))
  exact harmed.armed.2 ⟨0, true, rfl⟩ rfl

end EventMachine
