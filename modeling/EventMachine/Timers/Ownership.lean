import EventMachine.Proof.Owned
import EventMachine.Proof.Timer
import EventMachine.System

/-!
# Whose descriptor a timer uses

A timer stores the number of its timerfd. Setting, unregistering and closing go to whatever that number
refers to (`OwnTimerfd`), and the number is the timer's own from a successful `event_timer_create()` to
the next `event_timer_destroy()`. Not every exit of the two calls clears it afterwards: a creation that
gets no timerfd leaves what was there before, and a destruction that reports an error leaves the number
it has closed. A program that then goes on with the timer uses somebody else's descriptor
(`foreign_timer_close`); one that goes on with created timers only does not
(`timer_descriptors_own`).
-/

namespace EventMachine

open Lib

variable {σ : Type}

/-- The call is on a timerfd that the timer has created and that is still open, if it sets a timer,
unregisters a descriptor or closes one. -/
def OwnTimerfd (t : TimerPtr) (x : SysRecord) : Prop :=
  (x.call = .epollCtl .del →
    ∃ fd f, x.target = some (fd, some f) ∧ f.kind = .timerfd ∧ f.owner = .timer t) ∧
  (x.call = .timerfdSettime ∨ x.call = .close →
    ∃ f, x.file = some f ∧ f.kind = .timerfd ∧ f.owner = .timer t)

/-- Whether the timer is created: the last `event_timer_create()` has succeeded, and there has been no
`event_timer_destroy()` since. -/
def created (_ : Config σ) (a : Act) (_ : Config σ) (live : Prop) : Prop :=
  match a with
  | .event (.ret (.timerCreate ..) r) => r = EMResult.success.code
  | .event (.ret (.timerDestroy _) _) => False
  | _ => live

/-- The calls on the timer. One that is created is not created again. -/
def Call.OnTimer (t : TimerPtr) (live : Prop) : Call → Prop
  | .timerCreate _ x _ _ => x = some t ∧ ¬ live
  | .timerStart x _ _ | .timerStop x | .timerDestroy x => x = some t
  | _ => False

/-- Other code does not write into the timer. -/
def Env.Spares (t : TimerPtr) : Env → Prop
  | .setTimer t' _ => t' ≠ t
  | _ => True

/-- What a program with one timer does, and other code with descriptors of its own. -/
def Act.OnTimer (t : TimerPtr) (w : World σ) (live : Prop) : Act → Prop
  | .event (.ret c _) => c.OnTimer t live
  | .crash c => c.OnTimer t live
  | .event (.env e) => e.Foreign w ∧ e.Spares t
  | _ => False

/-- The steps of a program with one timer. -/
def TimerStep (usePipe2 : Bool) (t : TimerPtr) (x : Config σ × Prop) (a : Act) (y : Config σ × Prop) :
    Prop :=
  history (Step usePipe2) created x a y ∧ a.OnTimer t x.1.world x.2

/-- The call is made on a created timer, unless it creates one. A timer without a machine may be
destroyed as well: `event_timer_destroy()` ends in an assertion then. -/
def Call.OnCreated (w : World σ) (t : TimerPtr) (live : Prop) : Call → Prop
  | .timerStart .. | .timerStop _ => live
  | .timerDestroy _ => live ∨ (w.timers t).eventMachine = none
  | _ => True

def Act.OnCreated (w : World σ) (t : TimerPtr) (live : Prop) : Act → Prop
  | .event (.ret c _) => c.OnCreated w t live
  | .crash c => c.OnCreated w t live
  | _ => True

/-! ## The invariant -/

theorem OwnTimerfd.of_file {t : TimerPtr} {w : World σ} {fd : Int}
    (h : w.Owns (.timer t) fd .timerfd) {x : SysRecord} (hx : x.file = w.kernel.file fd)
    (hcall : x.call ≠ .epollCtl .del) : OwnTimerfd t x := by
  obtain ⟨f, hf, hkind, howner⟩ := h.exists_file
  exact ⟨fun hdel => absurd hdel hcall, fun _ => ⟨f, hx.trans hf, hkind, howner⟩⟩

theorem OwnTimerfd.of_add {t : TimerPtr} {w : World σ} {em : EMPtr} {fd : Int} {x : SysRecord}
    (h : RegRecord w em .add fd x) : OwnTimerfd t x := by
  obtain ⟨-, hcall | ⟨hcall, -⟩⟩ := h <;> rw [OwnTimerfd, hcall] <;> simp

theorem OwnTimerfd.of_del {t : TimerPtr} {w : World σ} {em : EMPtr} {fd : Int} {x : SysRecord}
    (h : RegRecord w em .del fd x) (hown : w.Owns (.timer t) fd .timerfd) : OwnTimerfd t x := by
  obtain ⟨f, hf, hkind, howner⟩ := hown.exists_file
  obtain ⟨-, hcall | ⟨hcall, -, -, htarget⟩⟩ := h
  · rw [OwnTimerfd, hcall]
    simp
  · refine ⟨fun _ => ⟨fd, f, by rw [htarget, hf], hkind, howner⟩, fun h => ?_⟩
    rw [hcall] at h
    simp at h

/-! ## `event_timer_create()` -/

namespace TimerAdded
variable {w w' : World σ} {t : TimerPtr} {fd : Int} {r : UInt32}

theorem owns (h : TimerAdded w t fd r w') : w'.Owns (.timer t) fd .timerfd := by
  obtain ⟨em, callback, data, f, w₁, ⟨hmade, -⟩, hout, -⟩ := h
  have hf : w'.kernel.file fd = some f := by rw [hout.file, hmade.opens.file, if_pos rfl]
  have howns := World.Owns.of_file hf
  rwa [hmade.kind, hmade.owner] at howns

theorem fd_eq (h : TimerAdded w t fd r w') : (w'.timers t).eventDescriptor.fd = fd := by
  obtain ⟨em, callback, data, f, w₁, ⟨-, hframe⟩, hout, -⟩ := h
  have htimers : w₁.timers = (w.setTimer t (createdTimer em t fd callback data)).timers :=
    congrArg (·.timers) hframe
  rw [hout.timers, htimers, World.setTimer_self]
  rfl

theorem records (h : TimerAdded w t fd r w') : Records (OwnTimerfd t) w w' := by
  obtain ⟨em, callback, data, f, w₁, ⟨-, hframe⟩, -, hrec⟩ := h
  have hlog : w₁.log = w.log := congrArg (·.log) hframe
  exact (Records.of_log_eq hlog).trans (hrec.mono fun x hx => .of_add hx)

end TimerAdded

theorem CreateOutcome.records {w w' : World σ} {t : TimerPtr} {r : UInt32}
    (h : CreateOutcome w t r w') : Records (OwnTimerfd t) w w' := by
  cases h with
  | refused => exact .refl w
  | noTimerfd _ frame =>
    have hlog : w'.log = w.log := congrArg (·.log) frame
    exact .of_log_eq hlog
  | notAdded e _ added closed =>
    have hclose := Records.of_one closed.log (OwnTimerfd.of_file added.owns rfl nofun)
    exact (added.records.trans hclose).trans (.of_log_eq rfl)
  | done added => exact added.records

theorem CreateOutcome.owns {w w' : World σ} {t : TimerPtr} {r : UInt32}
    (h : CreateOutcome w t r w') (hr : r = EMResult.success.code) : w'.TimerOwns t := by
  cases h with
  | refused code => exact absurd hr code
  | noTimerfd => exact absurd hr (by decide)
  | notAdded _ code => exact absurd hr code
  | done added =>
    rw [World.TimerOwns, added.fd_eq]
    exact added.owns

/-! ## The other calls -/

theorem Settime.records {w w' : World σ} {t : TimerPtr} {new : Itimerspec} {r : UInt32}
    (h : Settime w t new r w') (hown : w.TimerOwns t) : Records (OwnTimerfd t) w w' := by
  obtain ⟨ret, hlog⟩ := h.log
  exact .of_one hlog (.of_file hown rfl nofun)

theorem Settime.owns {w w' : World σ} {t : TimerPtr} {new : Itimerspec} {r : UInt32}
    (h : Settime w t new r w') (hown : w.TimerOwns t) : w'.TimerOwns t := by
  rw [World.TimerOwns, show w'.timers = w.timers from congrArg (·.timers) h.only]
  exact World.Owns.kept hown (.of_file h.file)

theorem TimerDeleted.records {w w' : World σ} {t : TimerPtr} {r : UInt32} (h : TimerDeleted w t r w')
    (hown : w.TimerOwns t) : Records (OwnTimerfd t) w w' := by
  obtain ⟨em, old, -, -, hrec⟩ := h
  exact hrec.mono fun x hx => .of_del hx hown

theorem TimerDeleted.closed_records {w w₁ w₂ : World σ} {t : TimerPtr} {r : UInt32} {ret : Int}
    (h : TimerDeleted w t r w₁) (hclosed : Closed w₁ (.timer t) (w.timers t).eventDescriptor.fd ret w₂)
    (hown : w.TimerOwns t) : Records (OwnTimerfd t) w w₂ := by
  have hrec := h.records hown
  obtain ⟨em, old, -, hout, -⟩ := h
  have hown₁ : w₁.Owns (.timer t) (w.timers t).eventDescriptor.fd .timerfd :=
    World.Owns.kept hown (.of_file hout.file)
  exact hrec.trans (.of_one hclosed.log (.of_file hown₁ rfl nofun))

theorem TimerDestroyOutcome.records {w w' : World σ} {t : TimerPtr} {r : UInt32}
    (h : TimerDestroyOutcome w t r w') (hown : w.TimerOwns t) : Records (OwnTimerfd t) w w' := by
  cases h with
  | notDeleted _ _ deleted closed => exact (deleted.closed_records closed hown).trans (.of_log_eq rfl)
  | notClosed deleted closed => exact deleted.closed_records closed hown
  | done deleted closed => exact (deleted.closed_records closed hown).trans (.of_log_eq rfl)

theorem TimerDestroyOutcome.machine {w w' : World σ} {t : TimerPtr} {r : UInt32}
    (h : TimerDestroyOutcome w t r w') : (w.timers t).eventMachine ≠ none := by
  have hdeleted : ∃ r w₁, TimerDeleted w t r w₁ := by
    cases h with
    | notDeleted _ _ deleted => exact ⟨_, _, deleted⟩
    | notClosed deleted => exact ⟨_, _, deleted⟩
    | done deleted => exact ⟨_, _, deleted⟩
  obtain ⟨r, w₁, em, old, hem, -⟩ := hdeleted
  rw [hem]
  exact nofun

/-! ## Runs -/

/-- What holds in every state of a run that began in `w₀`. -/
structure TimerCustody (t : TimerPtr) (w₀ : World σ) (x : Config σ × Prop) : Prop where
  owns : x.2 → x.1.world.TimerOwns t
  records : Records (OwnTimerfd t) w₀ x.1.world

/-- The steps of a program that goes on with created timers only. -/
def CreatedStep (usePipe2 : Bool) (t : TimerPtr) (x : Config σ × Prop) (a : Act) (y : Config σ × Prop) :
    Prop :=
  TimerStep usePipe2 t x a y ∧ a.OnCreated x.1.world t x.2

theorem TimerCustody.call {usePipe2 : Bool} {t : TimerPtr} {w₀ w w' : World σ} {fs : List Frame}
    {live : Prop} {c : Call} {r : UInt32} (h : TimerCustody t w₀ (⟨w, fs, .user⟩, live))
    (hc : c.OnTimer t live) (hexec : c.exec usePipe2 w = .ok r w') (hlive : c.OnCreated w t live) :
    TimerCustody t w₀ (⟨w', fs, .user⟩,
      created ⟨w, fs, .user⟩ (.event (.ret c r)) ⟨w', fs, .user⟩ live) := by
  cases c with
  | timerCreate em x callback data =>
    obtain ⟨rfl, -⟩ := hc
    have hout := wp_ok (create_spec em t callback data w) hexec
    exact ⟨hout.owns, h.records.trans hout.records⟩
  | timerStart x msec isOneShot =>
    obtain rfl : x = some t := hc
    have hout := wp_ok (start_spec t msec isOneShot w) hexec
    exact ⟨fun _ => hout.owns (h.owns hlive), h.records.trans (hout.records (h.owns hlive))⟩
  | timerStop x =>
    obtain rfl : x = some t := hc
    have hout := wp_ok (stop_spec t w) hexec
    exact ⟨fun _ => hout.owns (h.owns hlive), h.records.trans (hout.records (h.owns hlive))⟩
  | timerDestroy x =>
    obtain rfl : x = some t := hc
    have hout := wp_ok (timerDestroy_spec t w) hexec
    have hown : w.TimerOwns t := h.owns (hlive.resolve_right hout.machine)
    exact ⟨False.elim, h.records.trans (hout.records hown)⟩
  | _ => exact hc.elim

theorem TimerCustody.crash {usePipe2 : Bool} {t : TimerPtr} {w₀ w w' : World σ} {fs : List Frame}
    {live : Prop} {c : Call} {e : Crash} (h : TimerCustody t w₀ (⟨w, fs, .user⟩, live))
    (hc : c.OnTimer t live) (hexec : c.exec usePipe2 w = .error e w') (hlive : c.OnCreated w t live) :
    TimerCustody t w₀ (⟨w', fs, .crashed⟩, live) := by
  cases c with
  | timerCreate em x callback data =>
    obtain ⟨rfl, hdead⟩ := hc
    obtain ⟨fd, r, hadded⟩ := wp_error (create_spec em t callback data w) hexec
    exact ⟨fun hl => absurd hl hdead, h.records.trans hadded.records⟩
  | timerStart x msec isOneShot =>
    obtain rfl : x = some t := hc
    exact (wp_error (start_spec t msec isOneShot w) hexec).elim
  | timerStop x =>
    obtain rfl : x = some t := hc
    exact (wp_error (stop_spec t w) hexec).elim
  | timerDestroy x =>
    obtain rfl : x = some t := hc
    rcases wp_error (timerDestroy_spec t w) hexec with ⟨-, rfl⟩ | ⟨r, hdeleted, -⟩
    · exact ⟨h.owns, h.records⟩
    have hown : w.TimerOwns t := by
      obtain ⟨em, old, hem, -⟩ := hdeleted
      exact h.owns (hlive.resolve_right fun hnone => absurd (hem.symm.trans hnone) nofun)
    refine ⟨fun _ => ?_, h.records.trans (hdeleted.records hown)⟩
    obtain ⟨em, old, -, hout, -⟩ := hdeleted
    rw [World.TimerOwns, hout.timers]
    exact World.Owns.kept hown (.of_file hout.file)
  | _ => exact hc.elim

theorem TimerCustody.step {usePipe2 : Bool} {t : TimerPtr} {w₀ : World σ} {x y : Config σ × Prop}
    {a : Act} (h : TimerCustody t w₀ x) (hstep : CreatedStep usePipe2 t x a y) :
    TimerCustody t w₀ y := by
  obtain ⟨c, live⟩ := x
  obtain ⟨c', live'⟩ := y
  obtain ⟨⟨⟨hs, rfl : live' = created c a c' live⟩, hon⟩, hcreated⟩ := hstep
  dsimp only at hs hon hcreated
  cases hs with
  | call fs hexec => exact h.call hon hexec hcreated
  | crash fs hexec => exact h.crash hon hexec hcreated
  | env e w fs m =>
    obtain ⟨hforeign, hspares⟩ := hon
    have htimer : (e.exec w).timers t = w.timers t := by
      cases e with
      | setTimer t' x => exact World.setTimer_of_ne w x (Ne.symm hspares)
      | _ => rfl
    have hlog : (e.exec w).log = w.log := by cases e <;> rfl
    refine ⟨fun hl => ?_, ?_⟩
    · show World.Owns _ _ ((e.exec w).timers t).eventDescriptor.fd _
      rw [htimer]
      exact World.Owns.env (h.owns hl) nofun hforeign
    · exact h.records.trans (.of_log_eq hlog)
  | enter => exact hon.elim
  | refuse => exact hon.elim
  | ret => exact hon.elim
  | go => exact hon.elim

/-- In every run of a program with one timer that goes on with created timers only, the library sets,
unregisters and closes only a timerfd which that timer has created and which is still open. Nothing is
assumed about what the memory contains at the beginning. -/
theorem timer_descriptors_own {usePipe2 : Bool} {t : TimerPtr} {w₀ : World σ} {as : List Act}
    {c : Config σ} {live : Prop}
    (h : Steps (CreatedStep usePipe2 t) (⟨w₀, [], .user⟩, False) as (c, live)) :
    Records (OwnTimerfd t) w₀ c.world :=
  (h.invariant (I := TimerCustody t w₀) (fun _ _ _ hx hstep => hx.step hstep)
    ⟨False.elim, .refl w₀⟩).records

/-! ## Going on after a failed destruction -/

/-- A program with a machine, on a kernel whose first `close()` fails. -/
def closeFails : World Unit :=
  final (eventMachineInit true (some 0)) <| World.start (emStaticWithMaxEvents Unit 16 none) ()
    fun s n => if s = .close ∧ n = 0 then some (.code 5) else none

def createFirst : Call := .timerCreate (some 0) (some 0) (some 0) .null

def destroyFirst : Call := .timerDestroy (some 0)

/-- The timer is created, destroyed with an error, other code opens a descriptor, and the timer is
destroyed again. -/
def timerCreated : World Unit := final (createFirst.exec true) closeFails

def timerClosed : World Unit := final (destroyFirst.exec true) timerCreated

def timerfdReused : World Unit := (Env.openFile 0 false).exec timerClosed

def timerClosedAgain : World Unit := final (destroyFirst.exec true) timerfdReused

theorem create_closeFails :
    Step true ⟨closeFails, [], .user⟩ (.event (.ret createFirst 0)) ⟨timerCreated, [], .user⟩ :=
  .call [] rfl

theorem destroy_timerCreated : Step true ⟨timerCreated, [], .user⟩
    (.event (.ret destroyFirst EMResult.errorClose.code)) ⟨timerClosed, [], .user⟩ := .call [] rfl

theorem timer_descriptors_own_closed :
    ∃ as live, Steps (CreatedStep true 0) (⟨closeFails, [], .user⟩, False) as
        (⟨timerClosed, [], .user⟩, live) ∧ Records (OwnTimerfd 0) closeFails timerClosed := by
  have hrun : Steps (CreatedStep true 0) (⟨closeFails, [], .user⟩, False) _
      (⟨timerClosed, [], .user⟩, _) :=
    .cons ⟨⟨history_of_step created create_closeFails _, rfl, id⟩, trivial⟩ <|
      .cons ⟨⟨history_of_step created destroy_timerCreated _, rfl⟩, Or.inl rfl⟩ (.nil _)
  exact ⟨_, _, hrun, timer_descriptors_own hrun⟩

/-- The second one closes what other code has opened. -/
theorem foreign_timer_close :
    ∃ as live, Steps (TimerStep true 0) (⟨closeFails, [], .user⟩, False) as
        (⟨timerClosedAgain, [], .user⟩, live) ∧
      ¬ Records (OwnTimerfd 0) closeFails timerClosedAgain := by
  have hopen : Step true ⟨timerClosed, [], .user⟩ (.event (.env (.openFile 0 false)))
      ⟨timerfdReused, [], .user⟩ := .env _ _ _ _
  have hagain : Step true ⟨timerfdReused, [], .user⟩
      (.event (.ret destroyFirst EMResult.errorEventCtl.code)) ⟨timerClosedAgain, [], .user⟩ :=
    .call [] rfl
  have hrun : Steps (TimerStep true 0) (⟨closeFails, [], .user⟩, False) _
      (⟨timerClosedAgain, [], .user⟩, _) :=
    .cons ⟨history_of_step created create_closeFails _, rfl, id⟩ <|
      .cons ⟨history_of_step created destroy_timerCreated _, rfl⟩ <|
        .cons ⟨history_of_step created hopen _, trivial, trivial⟩ <|
          .cons ⟨history_of_step created hagain _, rfl⟩ (.nil _)
  have hlog : ∃ l, timerClosedAgain.log = closeFails.log ++ l ∧
      (⟨.timer 0, .close, 3, some ⟨4, .other, .other, 0, false⟩, none, 0⟩ : SysRecord) ∈ l :=
    ⟨_, rfl, by decide⟩
  obtain ⟨l, hl, hmem⟩ := hlog
  refine ⟨_, _, hrun, fun hrec => ?_⟩
  obtain ⟨f, hf, -, howner⟩ := (hrec.mem hl _ hmem).2 (Or.inr rfl)
  obtain rfl := Option.some.inj hf
  exact absurd howner nofun

end EventMachine
