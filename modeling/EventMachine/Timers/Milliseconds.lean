import EventMachine.Proof.Timer

/-!
# Milliseconds

`event_timer_start()` is given milliseconds in a 32-bit integer and makes a `struct timespec` of
them. The documentation promises that the timer is set to that time; the code multiplies the rest of
the division by a thousand, which gives microseconds where nanoseconds are expected. The two agree on
whole seconds only (`milliseconds_iff`).
-/

namespace EventMachine

open Lib

variable {σ : Type}

/-! ## Arithmetic -/

theorem expirationTime_exact (msec : Int32) :
    (msec / 1000).toInt = msec.toInt.tdiv 1000 ∧ (msec % 1000).toInt = msec.toInt.tmod 1000 ∧
      (msec % 1000 * 1000).toInt = msec.toInt.tmod 1000 * 1000 := by
  have hmod : (msec % 1000).toInt = msec.toInt.tmod 1000 := Int32.toInt_mod _ _
  refine ⟨Int32.toInt_div_of_ne_right _ _ (by decide), hmod, ?_⟩
  have hmul : (msec % 1000 * 1000).toInt = ((msec % 1000).toInt * 1000).bmod (2 ^ 32) :=
    Int32.toInt_mul _ _
  rw [hmul, hmod]
  have hlt := Int.tmod_lt_of_pos msec.toInt (show (0 : Int) < 1000 by decide)
  have hgt := Int.lt_tmod_of_pos msec.toInt (show (0 : Int) < 1000 by decide)
  exact Int.bmod_eq_of_le (by omega) (by omega)

theorem expirationTime_eq (msec : Int32) :
    expirationTime msec = ⟨msec.toInt.tdiv 1000, msec.toInt.tmod 1000 * 1000⟩ := by
  obtain ⟨hsec, -, hnsec⟩ := expirationTime_exact msec
  rw [expirationTime, hsec, hnsec]

theorem expirationTime_range {msec : Int32} (h : 0 ≤ msec) :
    0 ≤ (expirationTime msec).tvNsec ∧ (expirationTime msec).tvNsec < 1000000000 := by
  have h₀ : 0 ≤ msec.toInt := Int32.le_iff_toInt_le.1 h
  have hpos := Int.tmod_nonneg 1000 h₀
  have hlt := Int.tmod_lt_of_pos msec.toInt (show (0 : Int) < 1000 by decide)
  rw [expirationTime_eq]
  dsimp only
  omega

theorem expirationTime_sum (msec : Int32) :
    (expirationTime msec).tvSec * 1000000000 + (expirationTime msec).tvNsec = msec.toInt * 1000000 ↔
      msec % 1000 = 0 := by
  obtain ⟨-, hmod, -⟩ := expirationTime_exact msec
  have hdiv := Int.tmod_add_mul_tdiv msec.toInt 1000
  have hzero : msec % 1000 = 0 ↔ msec.toInt.tmod 1000 = 0 := by
    rw [← Int32.toInt_inj, hmod]
    rfl
  rw [expirationTime_eq, hzero]
  dsimp only
  omega

theorem expirationTime_neg {msec : Int32} (h : msec < 0) :
    (expirationTime msec).tvSec < 0 ∨ (expirationTime msec).tvNsec < 0 := by
  have h₀ : msec.toInt < 0 := Int32.lt_iff_toInt_lt.1 h
  have hdiv := Int.tmod_add_mul_tdiv msec.toInt 1000
  rw [expirationTime_eq]
  dsimp only
  omega

/-! ## The call -/

theorem settime_success (t : TimerPtr) (new : Itimerspec) (w : World σ) :
    wp (settime t new) (fun r _ => (r = EMResult.success.code ∨ r = EMResult.errorTimerfdSettime.code) ∧
      (r = EMResult.success.code ↔
        (∃ f, w.kernel.file (w.timers t).eventDescriptor.fd = some f ∧ f.kind = .timerfd) ∧
          w.kernel.faults .timerfdSettime 0 = none ∧ new.itValue.valid ∧ new.itInterval.valid))
      (fun _ _ => False) w := by
  unfold settime
  rw [wp_bind, wp_getTimer, wp_bind]
  apply wp_issue.2
  rw [← Kernel.timerfdSettime_nonneg, wp_ite]
  refine ⟨fun hneg => ⟨Or.inr rfl, ?_⟩, fun hpos => ⟨Or.inl rfl, ?_⟩⟩
  · exact iff_of_false (by decide) (Int.not_le.2 hneg)
  · exact iff_of_true rfl (Int.not_lt.1 hpos)

theorem settime_invalid (t : TimerPtr) {new : Itimerspec} (h : ¬ new.itValue.valid) (w : World σ) :
    ∃ w', settime t new w = .ok EMResult.errorTimerfdSettime.code w' := by
  obtain ⟨r, w', hexec, hcode, hsuccess⟩ := wp_total (settime_success t new w)
  have hfails : r ≠ EMResult.success.code := fun hr => h (hsuccess.1 hr).2.2.1
  obtain rfl := hcode.resolve_left hfails
  exact ⟨w', hexec⟩

/-- What `event_timer_start()` is documented to do with its argument: the setting it passes to
`timerfd_settime()` is that number of milliseconds, and negative numbers are refused. -/
structure InMilliseconds (σ : Type) (t : TimerPtr) (msec : Int32) (isOneShot : Bool)
    (new : Itimerspec) : Prop where
  passed : (eventTimerStart (some t) msec isOneShot : Sys σ UInt32) = settime t new
  exact : 0 ≤ msec → new.itValue.tvSec * 1000000000 + new.itValue.tvNsec = msec.toInt * 1000000
  range : 0 ≤ msec → 0 ≤ new.itValue.tvNsec ∧ new.itValue.tvNsec < 1000000000
  noOverflow : (msec / 1000).toInt = msec.toInt.tdiv 1000 ∧
    (msec % 1000).toInt = msec.toInt.tmod 1000 ∧
    (msec % 1000 * 1000).toInt = (msec % 1000).toInt * 1000
  interval : new.itInterval = if isOneShot then ⟨0, 0⟩ else new.itValue
  negative : msec < 0 → new.itValue.tvSec < 0 ∨ new.itValue.tvNsec < 0
  refused : msec < 0 → ∀ w : World σ, ∃ w',
    eventTimerStart (some t) msec isOneShot w = .ok EMResult.errorTimerfdSettime.code w'

theorem startSetting_inMilliseconds (t : TimerPtr) (msec : Int32) (isOneShot : Bool)
    (h : 0 ≤ msec → msec % 1000 = 0) :
    InMilliseconds σ t msec isOneShot (startSetting msec isOneShot) where
  passed := eventTimerStart_eq t msec isOneShot
  exact h₀ := (expirationTime_sum msec).2 (h h₀)
  range := expirationTime_range
  noOverflow := by
    obtain ⟨hdiv, hmod, hmul⟩ := expirationTime_exact msec
    exact ⟨hdiv, hmod, by rw [hmul, hmod]⟩
  interval := rfl
  negative := expirationTime_neg
  refused hneg w := by
    rw [eventTimerStart_eq]
    refine settime_invalid t (fun hvalid => ?_) w
    obtain ⟨hsec, hnsec, -⟩ : _ ∧ _ ∧ _ := hvalid
    exact (expirationTime_neg hneg).elim (fun h => absurd hsec (Int.not_le.2 h))
      fun h => absurd hnsec (Int.not_le.2 h)

/-- `event_timer_start()` sets the timer to the milliseconds it is given if and only if these are
whole seconds or negative. -/
theorem milliseconds_iff (t : TimerPtr) (msec : Int32) (isOneShot : Bool) :
    InMilliseconds σ t msec isOneShot (startSetting msec isOneShot) ↔
      (0 ≤ msec → msec % 1000 = 0) :=
  ⟨fun h h₀ => (expirationTime_sum msec).1 (h.exact h₀), startSetting_inMilliseconds t msec isOneShot⟩

/-- A second and a half becomes a second and half a millisecond. -/
theorem not_milliseconds :
    ¬ ∀ (t : TimerPtr) (msec : Int32) (isOneShot : Bool),
      InMilliseconds Unit t msec isOneShot (startSetting msec isOneShot) := by
  intro h
  have hexact : (1 : Int) * 1000000000 + 500000 = 1500 * 1000000 := (h 0 1500 true).exact (by decide)
  exact absurd hexact (by decide)

end EventMachine
