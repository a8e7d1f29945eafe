import EventMachine.Proof.Call
import EventMachine.Proof.Untimed
import Mathlib.Data.Set.Insert

/-!
# Silence after `event_timer_stop()` and `event_timer_destroy()`

A timer is silent once it has been stopped, until it is started again, and once it has been destroyed,
until it is created again (`mute`). Stopping disarms the timerfd and discards what it has counted, and
destroying clears the timer, so neither is served by a later call of `internal_timeout_handler()`. But
the handler takes the number of expirations out of the kernel first and then calls the callback as often
as that, without looking again: a callback that silences its own timer while there are expirations left
is called once more, or the handler calls through the `NULL` that destruction has left
(`callback_after_stop`). If no callback returns to the handler like that, silent timers stay silent
(`silent_timers`).
-/

namespace EventMachine

open Lib

variable {σ : Type}

/-- The timers that have been stopped and not started again, and those that have been destroyed and not
created again. -/
structure Muted where
  stopped : Set TimerPtr
  destroyed : Set TimerPtr

/-- Only successful calls count. -/
def mute (_ : Config σ) (a : Act) (_ : Config σ) (m : Muted) : Muted :=
  match a with
  | .event (.ret (.timerStop (some t)) r) =>
    { m with stopped := {x | x ∈ m.stopped ∨ (x = t ∧ r = EMResult.success.code)} }
  | .event (.ret (.timerStart (some t) _ _) r) =>
    { m with stopped := {x | x ∈ m.stopped ∧ ¬ (x = t ∧ r = EMResult.success.code)} }
  | .event (.ret (.timerDestroy (some t)) r) =>
    { m with destroyed := {x | x ∈ m.destroyed ∨ (x = t ∧ r = EMResult.success.code)} }
  | .event (.ret (.timerCreate _ (some t) _ _) r) =>
    { m with destroyed := {x | x ∈ m.destroyed ∧ ¬ (x = t ∧ r = EMResult.success.code)} }
  | _ => m

/-- The timer whose callback and data the next step of `internal_timeout_handler()` reads and whose
callback it calls. -/
def Config.rings (c : Config σ) : Option TimerPtr :=
  match c.mode, c.stack with
  | .library, .timeout (.timer t) (_ + 1) :: _ => some t
  | _, _ => none

/-- A descriptor carries the handler of timers only if `event_timer_create()` has put it there: the
function has no name outside of its file. -/
def Env.Honest : Env → Prop
  | .setDescriptor _ d => d.handler ≠ some .internalTimeoutHandler
  | .setTimer _ x => x.eventDescriptor.handler ≠ some .internalTimeoutHandler
  | _ => True

/-- The steps of a program. -/
def HonestStep (usePipe2 : Bool) (x : Config σ × Muted) (a : Act) (y : Config σ × Muted) : Prop :=
  history (Step usePipe2) mute x a y ∧ ∀ e, a = .event (.env e) → e.Honest

/-- No callback returns to `internal_timeout_handler()` with expirations left when its timer is silent.
And no number that a failed destruction has left behind is used: a stopped timer is served through its
own timerfd, and starting a timer does not start another one. -/
def Considerate (c : Config σ) (m : Muted) : Act → Prop
  | .ret => ∀ t n rest, c.stack = .timeout (.timer t) (n + 1) :: rest →
    t ∉ m.stopped ∧ t ∉ m.destroyed
  | .go _ => ∀ t, c.serves = some (.timer t) →
    (c.world.timers t).eventDescriptor.handler = some .internalTimeoutHandler → t ∈ m.stopped →
    c.world.TimerOwns t
  | .event (.ret (.timerStart (some t) _ _) _) => ∀ f t',
    c.world.kernel.file (c.world.timers t).eventDescriptor.fd = some f → f.owner = .timer t' → t' = t
  | _ => True

/-! ## The invariant -/

/-- The handler of timers is found in timers only, which it gets as its data. The timerfd of a stopped
timer is disarmed and has nothing to report, and a destroyed timer has no handler. -/
structure Quiet (w : World σ) (m : Muted) : Prop where
  numbered : w.kernel.Numbered
  descriptors : ∀ a, (w.descriptors a).handler ≠ some .internalTimeoutHandler
  loops : ∀ em, (w.ems em).breakLoopEventDescriptor.handler ≠ some .internalTimeoutHandler
  timers : ∀ t, (w.timers t).eventDescriptor.handler = some .internalTimeoutHandler →
    (w.timers t).eventDescriptor.data = .timer t
  stopped : ∀ t ∈ m.stopped,
    (w.timers t).eventDescriptor.handler = some .internalTimeoutHandler → ∀ o k,
    (w.kernel.file (w.timers t).eventDescriptor.fd).map File.identity = some (o, k, .timer t) →
    w.kernel.timerfds o = ⟨none, 0⟩
  destroyed : ∀ t ∈ m.destroyed,
    (w.timers t).eventDescriptor.handler ≠ some .internalTimeoutHandler

namespace Quiet
variable {w w' : World σ} {m m' : Muted} {t : TimerPtr} {r : UInt32}

theorem mono (h : Quiet w m) (hs : ∀ t ∈ m'.stopped, t ∈ m.stopped)
    (hd : ∀ t ∈ m'.destroyed, t ∈ m.destroyed) : Quiet w m' :=
  ⟨h.numbered, h.descriptors, h.loops, h.timers, fun t ht => h.stopped t (hs t ht),
    fun t ht => h.destroyed t (hd t ht)⟩

theorem untimed (h : Quiet w m) (hu : Untimed w w') : Quiet w' m where
  numbered := hu.kernel.numbered h.numbered
  descriptors a := by
    rw [hu.descriptors]
    exact h.descriptors a
  loops em := by
    rcases hu.loops em with heq | hnone
    · rw [heq]
      exact h.loops em
    · rw [hnone]
      exact nofun
  timers t := by
    rw [hu.timers t]
    exact h.timers t
  stopped t ht hh o k ho := by
    rw [hu.timers t] at hh ho
    exact hu.kernel.quiet o (h.stopped t ht hh o k (hu.kernel.files _ _ _ _ ho))
  destroyed t ht := by
    rw [hu.timers t]
    exact h.destroyed t ht

theorem setTimer (h : Quiet w m) {x : EventTimer}
    (hx : x.eventDescriptor.handler ≠ some .internalTimeoutHandler) :
    Quiet (w.setTimer t x) ⟨m.stopped, insert t m.destroyed⟩ where
  numbered := h.numbered
  descriptors := h.descriptors
  loops := h.loops
  timers t' hh := by
    by_cases ht : t' = t
    · subst ht
      rw [World.setTimer_self] at hh
      exact absurd hh hx
    · rw [World.setTimer_of_ne w x ht] at hh ⊢
      exact h.timers t' hh
  stopped t' hs hh o k ho := by
    by_cases ht : t' = t
    · subst ht
      rw [World.setTimer_self] at hh
      exact absurd hh hx
    · rw [World.setTimer_of_ne w x ht] at hh ho
      exact h.stopped t' hs hh o k ho
  destroyed t' hd := by
    by_cases ht : t' = t
    · subst ht
      rwa [World.setTimer_self]
    · rw [World.setTimer_of_ne w x ht]
      exact h.destroyed t' (hd.resolve_left ht)

theorem made (h : Quiet w m) {em : EMPtr} {callback : Nat} {data : VoidPtr} {fd : Int} {f : File}
    (hmade : TimerMade w em t callback data fd f w') :
    Quiet w' ⟨m.stopped, m.destroyed \ {t}⟩ := by
  obtain ⟨⟨hopens, hkind, howner, -, htimerfds⟩, hframe⟩ := hmade
  have htimers : w'.timers = (w.setTimer t (createdTimer em t fd callback data)).timers :=
    congrArg (·.timers) hframe
  have hdescriptors : w'.descriptors = w.descriptors := congrArg (·.descriptors) hframe
  have hems : w'.ems = w.ems := congrArg (·.ems) hframe
  have hself : w'.timers t = createdTimer em t fd callback data := by
    rw [htimers, World.setTimer_self]
  have hother : ∀ t', t' ≠ t → w'.timers t' = w.timers t' := fun t' ht => by
    rw [htimers, World.setTimer_of_ne w _ ht]
  refine ⟨h.numbered.opens hopens, fun a => ?_, fun em' => ?_, fun t' hh => ?_,
    fun t' hs hh o k ho => ?_, fun t' hd => ?_⟩
  · rw [hdescriptors]
    exact h.descriptors a
  · rw [hems]
    exact h.loops em'
  · by_cases ht : t' = t
    · subst ht
      rw [hself]
      rfl
    · rw [hother t' ht] at hh ⊢
      exact h.timers t' hh
  · rw [htimerfds]
    by_cases ht : t' = t
    · subst ht
      rw [hself] at ho
      rw [show (createdTimer em t' fd callback data).eventDescriptor.fd = fd from rfl, hopens.file,
        if_pos rfl, Option.map_some] at ho
      obtain ⟨rfl, -, -⟩ := File.of_identity ho
      rw [Function.update_self]
    · rw [hother t' ht] at hh ho
      rw [hopens.file] at ho
      split at ho
      · have hown : f.owner = .timer t' := (File.of_identity ho).2.2
        obtain rfl := Owner.timer.inj (hown.symm.trans howner)
        exact absurd rfl ht
      · have hne : o ≠ f.id := by
          rintro rfl
          have hlt := h.numbered.lt _ _ ho
          rw [hopens.id] at hlt
          exact absurd hlt (Nat.lt_irrefl _)
        rw [Function.update_of_ne hne]
        exact h.stopped t' hs hh o k ho
  · have ht : t' ≠ t := hd.2
    rw [hother t' ht]
    exact h.destroyed t' hd.1

theorem of_refused {new : Itimerspec} (h : Quiet w m) (hset : Settime w t new r w')
    (hcore : w'.kernel.core = w.kernel.core) : Quiet w' m :=
  h.untimed (.of_kernelOnly hset.only (.of_core hcore))

theorem stop (h : Quiet w m) (hset : Settime w t ⟨⟨0, 0⟩, ⟨0, 0⟩⟩ r w') :
    Quiet w' { m with stopped := {x | x ∈ m.stopped ∨ (x = t ∧ r = EMResult.success.code)} } := by
  rcases hset.effect with ⟨hr, hcore⟩ | ⟨-, f, hf, -, hcore⟩
  · exact (h.of_refused hset hcore).mono (fun _ hs => hs.resolve_right fun ht => hr ht.2) fun _ hd => hd
  have htimers : w'.timers = w.timers := congrArg (·.timers) hset.only
  have htimerfds : w'.kernel.timerfds = Function.update w.kernel.timerfds f.id ⟨none, 0⟩ :=
    congrArg (·.timerfds) hcore
  have huntimed : Untimed w w' := by
    refine .of_kernelOnly hset.only (.of_file hset.file (congrArg (·.next) hcore) fun o ho => ?_)
    rw [htimerfds, Function.update_apply]
    split
    · rfl
    · exact ho
  have hquiet := h.untimed huntimed
  refine ⟨hquiet.numbered, hquiet.descriptors, hquiet.loops, hquiet.timers,
    fun t' hs hh o k ho => ?_, hquiet.destroyed⟩
  rcases hs with hs | ⟨rfl, -⟩
  · exact hquiet.stopped t' hs hh o k ho
  · rw [htimers, hset.file, hf, Option.map_some] at ho
    obtain ⟨rfl, -, -⟩ := File.of_identity ho
    rw [htimerfds, Function.update_self]

theorem start (h : Quiet w m) {new : Itimerspec} (hset : Settime w t new r w')
    (howner : ∀ f t', w.kernel.file (w.timers t).eventDescriptor.fd = some f →
      f.owner = .timer t' → t' = t) :
    Quiet w' { m with stopped := {x | x ∈ m.stopped ∧ ¬ (x = t ∧ r = EMResult.success.code)} } := by
  rcases hset.effect with ⟨-, hcore⟩ | ⟨hr, f, hf, -, hcore⟩
  · exact (h.of_refused hset hcore).mono (fun _ hs => hs.1) fun _ hd => hd
  have htimers : w'.timers = w.timers := congrArg (·.timers) hset.only
  have hdescriptors : w'.descriptors = w.descriptors := congrArg (·.descriptors) hset.only
  have htimerfds := congrArg (·.timerfds) hcore
  refine ⟨h.numbered.of_identity (fun n => by rw [hset.file]) (congrArg (·.next) hcore), fun a => ?_,
    fun em => ?_, fun t' => ?_, fun t' hs hh o k ho => ?_, fun t' hd => ?_⟩
  · rw [hdescriptors]
    exact h.descriptors a
  · rw [hset.only.ems]
    exact h.loops em
  · rw [htimers]
    exact h.timers t'
  · have ht : t' ≠ t := fun ht => hs.2 ⟨ht, hr⟩
    rw [htimers] at hh ho
    rw [hset.file] at ho
    -- the object that has been set is another one
    have hne : o ≠ f.id := by
      rintro rfl
      have hid : (w.kernel.file (w.timers t).eventDescriptor.fd).map File.identity =
          some f.identity := by rw [hf, Option.map_some]
      have hfd := h.numbered.inj _ _ _ _ ho hid rfl
      rw [hfd, hid] at ho
      exact ht (howner f t' hf (File.of_identity ho).2.2)
    apply (congrFun htimerfds o).trans
    show Function.update w.kernel.timerfds f.id _ o = _
    rw [Function.update_of_ne hne]
    exact h.stopped t' hs.1 hh o k ho
  · rw [htimers]
    exact h.destroyed t' hd

end Quiet

/-! ## Creating and destroying -/

theorem TimerAdded.quiet {w w' : World σ} {m : Muted} {t : TimerPtr} {fd : Int} {r : UInt32}
    (hadded : TimerAdded w t fd r w') (h : Quiet w m) : Quiet w' ⟨m.stopped, m.destroyed \ {t}⟩ := by
  obtain ⟨em, callback, data, f, w₁, hmade, hout, -⟩ := hadded
  exact (h.made hmade).untimed hout.untimed

theorem shredded_handler : shredded.eventDescriptor.handler ≠ some .internalTimeoutHandler := by
  decide

theorem withErrno_untimed (w : World σ) (e : Errno) : Untimed w (w.withErrno e) := .of_core rfl

theorem CreateOutcome.quiet {w w' : World σ} {m : Muted} {t : TimerPtr} {r : UInt32}
    (hout : CreateOutcome w t r w') (h : Quiet w m) :
    Quiet w' { m with destroyed := {x | x ∈ m.destroyed ∧ ¬ (x = t ∧ r = EMResult.success.code)} } := by
  cases hout with
  | refused => exact h.mono (fun _ hs => hs) fun _ hd => hd.1
  | noTimerfd core frame =>
    have hdescriptors : w'.descriptors = w.descriptors := congrArg (·.descriptors) frame
    have hems : w'.ems = w.ems := congrArg (·.ems) frame
    have htimers := congrArg (·.timers) frame
    have huntimed : Untimed w w' := by
      refine ⟨.of_core core, hdescriptors, fun t' => ?_, fun em => Or.inl (by rw [hems])⟩
      apply (congrArg (·.eventDescriptor) (congrFun htimers t')).trans
      by_cases ht : t' = t
      · subst ht
        rw [World.setTimer_self]
      · rw [World.setTimer_of_ne w _ ht]
    exact (h.untimed huntimed).mono (fun _ hs => hs) fun _ hd => hd.1
  | notAdded e _ added closed =>
    have hquiet := ((((added.quiet h).untimed closed.untimed).setTimer (t := t) shredded_handler).untimed
      (withErrno_untimed _ e))
    refine hquiet.mono (fun _ hs => hs) fun x hd => ?_
    by_cases hx : x = t
    · exact Or.inl hx
    · exact Or.inr ⟨hd.1, hx⟩
  | done added =>
    refine (added.quiet h).mono (fun _ hs => hs) fun x hd => ⟨hd.1, fun hx => hd.2 ⟨hx, rfl⟩⟩

theorem TimerDeleted.quiet {w w₁ w₂ : World σ} {m : Muted} {t : TimerPtr} {r : UInt32} {fd ret : Int}
    (hdeleted : TimerDeleted w t r w₁) (hclosed : Closed w₁ (.timer t) fd ret w₂) (h : Quiet w m) :
    Quiet w₂ m := by
  obtain ⟨em, old, -, hout, -⟩ := hdeleted
  exact (h.untimed hout.untimed).untimed hclosed.untimed

theorem TimerDestroyOutcome.quiet {w w' : World σ} {m : Muted} {t : TimerPtr} {r : UInt32}
    (hout : TimerDestroyOutcome w t r w') (h : Quiet w m) :
    Quiet w' { m with destroyed := {x | x ∈ m.destroyed ∨ (x = t ∧ r = EMResult.success.code)} } := by
  cases hout with
  | notDeleted e code deleted closed =>
    exact ((deleted.quiet closed h).untimed (withErrno_untimed _ e)).mono (fun _ hs => hs)
      fun _ hd => hd.resolve_right fun hx => code hx.2
  | notClosed deleted closed =>
    exact (deleted.quiet closed h).mono (fun _ hs => hs)
      fun _ hd => hd.resolve_right fun hx => absurd hx.2 (by decide)
  | done deleted closed =>
    exact ((deleted.quiet closed h).setTimer shredded_handler).mono (fun _ hs => hs)
      fun _ hd => hd.symm.imp_left And.left

/-! ## Steps -/

/-- What holds in every state. -/
structure Hushed (x : Config σ × Muted) : Prop where
  nested : Nested x.1.stack
  quiet : x.1.mode ≠ .crashed → Quiet x.1.world x.2
  rings : ∀ t, x.1.rings = some t → t ∉ x.2.stopped ∧ t ∉ x.2.destroyed

theorem mute_null {c : Call} (h : c.Null) {r : UInt32} {x y : Config σ} (m : Muted) :
    mute x (.event (.ret c r)) y m = m := by
  cases c with
  | timerCreate em t callback data =>
    obtain rfl : t = none := h
    rfl
  | timerStart t msec isOneShot =>
    obtain rfl : t = none := h
    rfl
  | timerStop t =>
    obtain rfl : t = none := h
    rfl
  | timerDestroy t =>
    obtain rfl : t = none := h
    rfl
  | _ => rfl

theorem Quiet.call {usePipe2 : Bool} {w w' : World σ} {m : Muted} {fs : List Frame} {c : Call}
    {r : UInt32} (h : Quiet w m) (hexec : c.exec usePipe2 w = .ok r w')
    (hconsiderate : Considerate ⟨w, fs, .user⟩ m (.event (.ret c r))) :
    Quiet w' (mute ⟨w, fs, .user⟩ (.event (.ret c r)) ⟨w', fs, .user⟩ m) := by
  cases Call.outcome hexec with
  | null null => rwa [mute_null null]
  | init buffer out => exact h.untimed (out.untimed buffer)
  | destroy out => exact h.untimed out.untimed
  | terminate only still timerfds =>
    refine h.untimed (.of_kernelOnly only (.of_file (Kernel.file_still still)
      (congrArg (·.next) still) fun o ho => ?_))
    rwa [timerfds]
  | reg out => exact h.untimed out.untimed
  | timerCreate out => exact out.quiet h
  | timerStart out => exact h.start out hconsiderate
  | timerStop out => exact h.stop out
  | timerDestroy out => exact out.quiet h

theorem Quiet.env {w : World σ} {m : Muted} (h : Quiet w m) {e : Env} (he : e.Honest) :
    Quiet (e.exec w) m := by
  cases e with
  | openFile status cloexec =>
    have hopens : w.kernel.Opens _ _ (w.kernel.openFile .other .other status cloexec).2 :=
      .of_files rfl rfl rfl
    exact h.untimed (.of_kernel (.of_opens hopens (fun _ => nofun) rfl) rfl rfl rfl)
  | closeFile fd => exact h.untimed (.of_kernel (close_untimed _ _) rfl rfl rfl)
  | setDescriptor a d =>
    refine ⟨h.numbered, fun a' => ?_, h.loops, h.timers, h.stopped, h.destroyed⟩
    show (Function.update w.descriptors a d a').handler ≠ _
    by_cases ha : a' = a
    · subst ha
      rw [Function.update_self]
      exact he
    · rw [Function.update_of_ne ha]
      exact h.descriptors a'
  | setTimer t x => exact (h.setTimer he).mono (fun _ hs => hs) fun _ hd => Or.inr hd
  | expire o => exact h.untimed (.of_kernel (expire_untimed _ _) rfl rfl rfl)

/-- Serving a timer begins with one that is not silent: a stopped one has nothing to report, and a
destroyed one is not served. -/
theorem Quiet.served {w : World σ} {m : Muted} (h : Quiet w m) {p : EDPtr} {f : File} {t : TimerPtr}
    (hhandler : (w.ed p).handler = some .internalTimeoutHandler)
    (hfile : w.kernel.file (w.ed p).fd = some f) (hpos : 0 < (w.kernel.timerfds f.id).pending)
    (hdata : (w.ed p).data = .timer t)
    (hown : p = .timer t → t ∈ m.stopped → w.TimerOwns t) : t ∉ m.stopped ∧ t ∉ m.destroyed := by
  cases p with
  | obj a => exact absurd hhandler (h.descriptors a)
  | breakLoop em => exact absurd hhandler (h.loops em)
  | timer t' =>
    have hself : (w.timers t').eventDescriptor.data = .timer t' := h.timers t' hhandler
    obtain rfl : t' = t := VoidPtr.timer.inj (hself.symm.trans hdata)
    refine ⟨fun hs => ?_, fun hd => h.destroyed t' hd hhandler⟩
    obtain ⟨o, ho⟩ := hown rfl hs
    have hquiet := h.stopped t' hs hhandler o _ ho
    have hfile' : w.kernel.file (w.timers t').eventDescriptor.fd = some f := hfile
    rw [hfile', Option.map_some] at ho
    obtain ⟨rfl, -, -⟩ := File.of_identity ho
    rw [hquiet] at hpos
    exact absurd hpos (Nat.lt_irrefl _)

theorem Hushed.go {w : World σ} {fs : List Frame} {o : WaitOutcome} {m : Muted} {c' : Config σ}
    (h : Hushed (⟨w, fs, .library⟩, m)) (hout : GoOutcome w o fs c')
    (hconsiderate : Considerate ⟨w, fs, .library⟩ m (.go o)) : Hushed (c', m) := by
  have hquiet : Quiet w m := h.quiet nofun
  refine ⟨h.nested.go hout, fun hmode => hquiet.untimed (hout.untimed hmode), fun t ht => ?_⟩
  cases hout with
  | @served em bl b rest w' e p f slot calm _ _ handler file kind pos =>
    -- only here does the handler of timers begin
    have hdata : (w.ed p).data = .timer t := by
      unfold Config.rings at ht
      split at ht
      · next t' n rest _ hstack =>
        obtain rfl := Option.some.inj ht
        exact (Frame.timeout.inj (List.cons.inj hstack).1).1
      · exact absurd ht nofun
    apply hquiet.served handler file pos hdata
    intro hp hs
    subst hp
    exact hconsiderate t slot.pointer handler hs
  | @timeoutDone data rest =>
    have hnested : Nested (.timeout data 0 :: rest) := h.nested
    match rest with
    | [] => exact absurd ht nofun
    | .run _ _ _ :: _ => exact absurd ht nofun
  | _ => exact absurd ht nofun

/-- The steps of a program in which no callback returns to `internal_timeout_handler()` with
expirations left when its timer is silent. -/
def ConsiderateStep (usePipe2 : Bool) (x : Config σ × Muted) (a : Act) (y : Config σ × Muted) : Prop :=
  HonestStep usePipe2 x a y ∧ Considerate x.1 x.2 a

theorem Hushed.step {usePipe2 : Bool} {x y : Config σ × Muted} {a : Act} (h : Hushed x)
    (hstep : ConsiderateStep usePipe2 x a y) : Hushed y := by
  obtain ⟨c, m⟩ := x
  obtain ⟨c', m'⟩ := y
  obtain ⟨⟨⟨hs, rfl : m' = mute c a c' m⟩, hhonest⟩, hconsiderate⟩ := hstep
  dsimp only at hs hhonest hconsiderate
  have hnested := hs.nested h.nested
  cases hs with
  | call fs hexec => exact ⟨hnested, fun _ => (h.quiet nofun).call hexec hconsiderate, nofun⟩
  | crash => exact ⟨hnested, fun hmode => absurd rfl hmode, nofun⟩
  | env e w fs mode => exact ⟨hnested, fun hmode => (h.quiet hmode).env (hhonest e rfl), h.rings⟩
  | enter fs hexec =>
    obtain ⟨hsame, -⟩ := wp_ok (eventMachineRunEnter_spec _ _) hexec
    exact ⟨hnested, fun _ => (h.quiet nofun).untimed (.of_core hsame.core), nofun⟩
  | refuse fs hexec =>
    obtain ⟨hsame, -⟩ := wp_ok (eventMachineRunEnter_spec _ _) hexec
    exact ⟨hnested, fun _ => (h.quiet nofun).untimed (.of_core hsame.core), nofun⟩
  | ret w f fs =>
    refine ⟨hnested, fun _ => h.quiet nofun, fun t ht => ?_⟩
    unfold Config.rings at ht
    split at ht
    · next t' n rest _ hstack =>
      obtain rfl := Option.some.inj ht
      exact hconsiderate t' n rest hstack
    · exact absurd ht nofun
  | go hmay => exact h.go (Config.go_cases _ _ _) hconsiderate

/-! ## Runs -/

/-- In every run in which no callback returns to `internal_timeout_handler()` with expirations left when
its timer is silent, the callback and the data of a silent timer are never read, and the callback is
never called. In the beginning there are no timers. -/
theorem silent_timers {usePipe2 : Bool} {w : World σ} (hnumbered : w.kernel.Numbered)
    (hnew : ∀ p, (w.ed p).handler ≠ some .internalTimeoutHandler) {as : List Act} {c : Config σ}
    {m : Muted} (h : Steps (ConsiderateStep usePipe2) (⟨w, [], .user⟩, ⟨∅, ∅⟩) as (c, m))
    {t : TimerPtr} (ht : c.rings = some t) : t ∉ m.stopped ∧ t ∉ m.destroyed := by
  have hquiet : Quiet w ⟨∅, ∅⟩ :=
    ⟨hnumbered, fun a => hnew (.obj a), fun em => hnew (.breakLoop em),
      fun t hh => absurd hh (hnew (.timer t)), fun t hs => hs.elim, fun t hd => hd.elim⟩
  have hstart : Hushed ((⟨w, [], .user⟩, ⟨∅, ∅⟩) : Config σ × Muted) :=
    ⟨trivial, fun _ => hquiet, nofun⟩
  exact (h.invariant (fun _ _ _ hx hstep => hx.step hstep) hstart).rings t ht

/-! ## A callback that stops its own timer -/

/-- A program that has not done anything yet. -/
def beforeTimer : World Unit := World.start (emStaticWithMaxEvents Unit 16 none) () fun _ _ => none

def makeTimer : Call := .timerCreate (some 0) (some 0) (some 0) .null

def armTimer : Call := .timerStart (some 0) 10 false

def disarmTimer : Call := .timerStop (some 0)

/-- A machine is initialised, and a periodic timer created and started. -/
def machineForTimer : World Unit := final (eventMachineInit true (some 0)) beforeTimer

def timerMade : World Unit := final (makeTimer.exec true) machineForTimer

def timerArmed : World Unit := final (armTimer.exec true) timerMade

/-- The timer expires twice before the main loop is entered. -/
def expiredOnce : World Unit := (Env.expire 3).exec timerArmed

def expiredTwice : World Unit := (Env.expire 3).exec expiredOnce

def timerWaiting : Config Unit :=
  ⟨final (eventMachineRunEnter (some 0)) expiredTwice, [.run 0 false none], .library⟩

def timerReady : WaitOutcome := .batch [⟨EPOLLIN, some (.timer 0)⟩]

/-- Two expirations have been read. -/
def timerRung : Config Unit := (timerWaiting.go timerReady).go timerReady

/-- The callback has been called for the first of them, it has stopped the timer, and it has returned. -/
def callbackCalled : Config Unit := timerRung.go timerReady

def stoppedInside : Config Unit :=
  ⟨final (disarmTimer.exec true) callbackCalled.world, callbackCalled.stack, .library⟩

theorem beforeTimer_handlers (p : EDPtr) :
    (beforeTimer.ed p).handler ≠ some .internalTimeoutHandler := by
  cases p <;> exact nofun

theorem timerWaiting_mayReport : timerWaiting.MayReport timerReady := by
  rintro em bl rest l q hstack hl hq
  obtain ⟨⟨rfl, rfl, -⟩, rfl⟩ := by simpa [timerWaiting] using hstack
  obtain rfl := WaitOutcome.batch.inj hl
  obtain rfl : (⟨2, .epoll, .machine 0, 0, true⟩ : File) = q := Option.some.inj hq
  exact ⟨by decide, [3], by decide, .cons ⟨_, rfl, rfl⟩ .nil⟩

theorem timerRung_run : ∃ as m, Steps (ConsiderateStep true) (⟨beforeTimer, [], .user⟩, ⟨∅, ∅⟩) as
    (timerRung, m) := by
  have hinit : Step true ⟨beforeTimer, [], .user⟩ (.event (.ret (.init (some 0)) 0))
      ⟨machineForTimer, [], .user⟩ := .call [] rfl
  have hmake : Step true ⟨machineForTimer, [], .user⟩ (.event (.ret makeTimer 0))
      ⟨timerMade, [], .user⟩ := .call [] rfl
  have harm : Step true ⟨timerMade, [], .user⟩ (.event (.ret armTimer 0)) ⟨timerArmed, [], .user⟩ :=
    .call [] rfl
  have honce : Step true ⟨timerArmed, [], .user⟩ (.event (.env (.expire 3)))
      ⟨expiredOnce, [], .user⟩ := .env _ _ _ _
  have htwice : Step true ⟨expiredOnce, [], .user⟩ (.event (.env (.expire 3)))
      ⟨expiredTwice, [], .user⟩ := .env _ _ _ _
  have henter : Step true ⟨expiredTwice, [], .user⟩ (.run (some 0)) timerWaiting :=
    .enter [] rfl rfl
  have hwait : Step true timerWaiting (.go timerReady) (timerWaiting.go timerReady) :=
    .of_go rfl timerWaiting_mayReport
  have hserve : Step true (timerWaiting.go timerReady) (.go timerReady) timerRung := .of_go rfl nofun
  have hstart : ∀ f t', timerMade.kernel.file (timerMade.timers 0).eventDescriptor.fd = some f →
      f.owner = .timer t' → t' = 0 := fun f t' hf hown => by
    obtain rfl : (⟨3, .timerfd, .timer 0, O_NONBLOCK, true⟩ : File) = f := Option.some.inj hf
    exact (Owner.timer.inj hown).symm
  have hown : (timerWaiting.go timerReady).world.TimerOwns 0 := ⟨3, rfl⟩
  refine ⟨_, _, .cons ⟨⟨history_of_step mute hinit _, nofun⟩, trivial⟩ <|
    .cons ⟨⟨history_of_step mute hmake _, nofun⟩, trivial⟩ <|
    .cons ⟨⟨history_of_step mute harm _, nofun⟩, hstart⟩ <|
    .cons ⟨⟨history_of_step mute honce _, ?_⟩, trivial⟩ <|
    .cons ⟨⟨history_of_step mute htwice _, ?_⟩, trivial⟩ <|
    .cons ⟨⟨history_of_step mute henter _, nofun⟩, trivial⟩ <|
    .cons ⟨⟨history_of_step mute hwait _, nofun⟩, nofun⟩ <|
    .cons ⟨⟨history_of_step mute hserve _, nofun⟩, ?_⟩ (.nil _)⟩
  · rintro _ ⟨⟩
    trivial
  · rintro _ ⟨⟩
    trivial
  · rintro t ht - -
    obtain rfl : 0 = t := EDPtr.timer.inj (Option.some.inj ht)
    exact hown

/-- What the callback may do with another timer. -/
def makeOther : Call := .timerCreate (some 0) (some 1) (some 1) .null

def disarmOther : Call := .timerStop (some 1)

def destroyOther : Call := .timerDestroy (some 1)

def otherMade : Config Unit :=
  ⟨final (makeOther.exec true) callbackCalled.world, callbackCalled.stack, .user⟩

def otherStopped : Config Unit :=
  ⟨final (disarmOther.exec true) otherMade.world, callbackCalled.stack, .user⟩

/-- The callback has stopped and destroyed the other timer, and it has returned. -/
def otherGone : Config Unit :=
  ⟨final (destroyOther.exec true) otherStopped.world, callbackCalled.stack, .library⟩

theorem call_timerRung : Step true timerRung (.go timerReady) callbackCalled := .of_go rfl nofun

theorem silent_timers_rung : ∃ as m, Steps (ConsiderateStep true) (⟨beforeTimer, [], .user⟩, ⟨∅, ∅⟩) as
      (otherGone, m) ∧ otherGone.rings = some 0 ∧ (0 ∉ m.stopped ∧ 0 ∉ m.destroyed) ∧
      1 ∈ m.stopped ∧ 1 ∈ m.destroyed := by
  obtain ⟨as, m, hrun⟩ := timerRung_run
  obtain ⟨hstopped, hdestroyed⟩ :=
    silent_timers (start_numbered _ _ _) beforeTimer_handlers hrun rfl
  have hmake : Step true callbackCalled (.event (.ret makeOther 0)) otherMade := .of_call _ rfl rfl
  have hstop : Step true otherMade (.event (.ret disarmOther 0)) otherStopped := .of_call _ rfl rfl
  have hdestroy : Step true otherStopped (.event (.ret destroyOther 0))
      ⟨otherGone.world, callbackCalled.stack, .user⟩ := .of_call _ rfl rfl
  have hret : Step true ⟨otherGone.world, callbackCalled.stack, .user⟩ .ret otherGone :=
    .of_ret rfl nofun
  -- an expiration of timer 0 is left, and only timer 1 has been silenced
  have hleft : ∀ t n rest, callbackCalled.stack = .timeout (.timer t) (n + 1) :: rest →
      ¬ (t ∈ m.stopped ∨ t = 1 ∧ 0 = EMResult.success.code) ∧
        ¬ (t ∈ m.destroyed ∧ ¬ (t = 1 ∧ 0 = EMResult.success.code) ∨
          t = 1 ∧ 0 = EMResult.success.code) := by
    intro t n rest hstack
    obtain rfl : 0 = t := VoidPtr.timer.inj (Frame.timeout.inj (List.cons.inj hstack).1).1
    exact ⟨fun h => h.elim hstopped fun h => absurd h.1 (by decide),
      fun h => h.elim (fun h => hdestroyed h.1) fun h => absurd h.1 (by decide)⟩
  have hrest : Steps (ConsiderateStep true) (timerRung, m) _ (otherGone, _) :=
    .cons ⟨⟨history_of_step mute call_timerRung _, nofun⟩, nofun⟩ <|
      .cons ⟨⟨history_of_step mute hmake _, nofun⟩, trivial⟩ <|
        .cons ⟨⟨history_of_step mute hstop _, nofun⟩, trivial⟩ <|
          .cons ⟨⟨history_of_step mute hdestroy _, nofun⟩, trivial⟩ <|
            .cons ⟨⟨history_of_step mute hret _, nofun⟩, hleft⟩ (.nil _)
  have hall := hrun.append hrest
  exact ⟨_, _, hall, rfl, silent_timers (start_numbered _ _ _) beforeTimer_handlers hall rfl,
    Or.inr ⟨rfl, rfl⟩, Or.inr ⟨rfl, rfl⟩⟩

/-- The callback of a timer that has been stopped is called all the same. -/
theorem callback_after_stop : ∃ as m, Steps (HonestStep true) (⟨beforeTimer, [], .user⟩, ⟨∅, ∅⟩) as
      (stoppedInside, m) ∧ stoppedInside.rings = some 0 ∧ 0 ∈ m.stopped := by
  have hstop : Step true callbackCalled (.event (.ret disarmTimer 0))
      ⟨stoppedInside.world, callbackCalled.stack, .user⟩ := .of_call disarmTimer rfl rfl
  have hret : Step true ⟨stoppedInside.world, callbackCalled.stack, .user⟩ .ret stoppedInside :=
    .of_ret rfl nofun
  obtain ⟨as, m, hrun⟩ := timerRung_run
  have hrun' : Steps (HonestStep true) (⟨beforeTimer, [], .user⟩, ⟨∅, ∅⟩) as (timerRung, m) :=
    hrun.mono fun _ _ _ h => h.1
  have hrest : Steps (HonestStep true) (timerRung, m) _ (stoppedInside, _) :=
    .cons ⟨history_of_step mute call_timerRung _, nofun⟩ <|
      .cons ⟨history_of_step mute hstop _, nofun⟩ <|
        .cons ⟨history_of_step mute hret _, nofun⟩ (.nil _)
  exact ⟨_, _, hrun'.append hrest, rfl, Or.inr ⟨rfl, rfl⟩⟩

end EventMachine
