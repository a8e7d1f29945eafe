import EventMachine.Proof.Passive
import EventMachine.Timers.Assertions
import Mathlib.Algebra.GroupWithZero.Nat

/-!
# Expirations are neither lost nor duplicated

An expiration of a timer is waiting in the kernel until `internal_timeout_handler()` reads it or
`timerfd_settime()` discards it, and once it is read the loop of the handler owes a call of the
callback. `tally` counts expirations and discarded ones along a run; what the loops owe is on the stack
(`Config.owed`), and the calls made are in `World.invoked`. The four add up at all times
(`expirations_conserved`), however the handler, the timer and the clock take turns. Counts are natural
numbers here: those of the source are the same as long as they stay below 2^64.
-/

namespace EventMachine

open Lib

variable {σ : Type}

/-- The calls of the callback of a timer. -/
def World.callbacks (w : World σ) (t : TimerPtr) : List Invocation :=
  w.invoked.filter fun x => match x with | .callback _ t' _ => t' = t | .handler .. => false

/-- The calls an activation of `internal_timeout_handler()` has still to make. -/
def Frame.owed (t : TimerPtr) : Frame → Nat
  | .timeout data n => if data = .timer t then n else 0
  | .run .. => 0

def owed (t : TimerPtr) (fs : List Frame) : Nat := (fs.map (Frame.owed t)).sum

/-- How often a timer has expired, and how many of its expirations have been discarded. -/
structure Tally where
  expirations : Nat
  discarded : Nat
  deriving DecidableEq

/-- An armed timer expires; a successful `event_timer_start()` or `event_timer_stop()` discards what has
not been read. -/
def tally (t : TimerPtr) (o : ObjId) (c : Config σ) (a : Act) (_ : Config σ) (g : Tally) : Tally :=
  match a with
  | .event (.env (.expire o')) =>
    if o' = o ∧ (c.world.kernel.timerfds o).armed.isSome then { g with expirations := g.expirations + 1 }
    else g
  | .event (.ret (.timerStart (some t') _ _) r) | .event (.ret (.timerStop (some t')) r) =>
    if t' = t ∧ r = EMResult.success.code then
      { g with discarded := g.discarded + (c.world.kernel.timerfds o).pending }
    else g
  | _ => g

/-- The steps that may change the count of the timer: it expires, is set, or is served. -/
def Act.Counts (t : TimerPtr) (o : ObjId) (c : Config σ) : Act → Prop
  | .event (.env (.expire o')) => o' = o
  | .event (.ret (.timerStart x _ _) _) | .event (.ret (.timerStop x) _) => x = some t
  | .go _ => c.serves = some (.timer t)
  | _ => False

/-- The steps of a program with a created timer, whose timerfd is the object `o`. The timer is neither
created again nor destroyed; other code leaves its memory and its timerfd alone, and calls its callback
through no other descriptor. -/
structure CountedStep (usePipe2 : Bool) (t : TimerPtr) (o : ObjId) (x : Config σ × Tally) (a : Act)
    (y : Config σ × Tally) : Prop where
  step : history (Step usePipe2) (tally t o) x a y
  call : ∀ f r, a = .event (.ret f r) → ¬ f.Writes t
  memory : y.1.world.timers t = x.1.world.timers t
  timerfd : y.1.world.kernel.file (x.1.world.timers t).eventDescriptor.fd =
    x.1.world.kernel.file (x.1.world.timers t).eventDescriptor.fd
  alone : ¬ a.Counts t o x.1 → y.1.world.kernel.timerfds o = x.1.world.kernel.timerfds o
  sole : ∀ p, x.1.serves = some p → p ≠ .timer t →
    (x.1.world.ed p).handler = some .internalTimeoutHandler → (x.1.world.ed p).data ≠ .timer t

/-! ## Calls of the callback -/

section callbacks
variable {w w' : World σ} {t : TimerPtr}

theorem callbacks_congr (h : w'.invoked = w.invoked) : w'.callbacks t = w.callbacks t := by
  unfold World.callbacks
  rw [h]

theorem callbacks_handler {h : Handler} {em : EMPtr} {bits : UInt32} {fd : Int} {data : VoidPtr}
    (hw : w'.invoked = w.invoked ++ [.handler h em bits fd data]) : w'.callbacks t = w.callbacks t := by
  unfold World.callbacks
  rw [hw, List.filter_append]
  simp

theorem callbacks_self {k : Nat} {data : VoidPtr}
    (hw : w'.invoked = w.invoked ++ [.callback k t data]) :
    w'.callbacks t = w.callbacks t ++ [.callback k t data] := by
  unfold World.callbacks
  rw [hw, List.filter_append]
  simp

theorem callbacks_other {k : Nat} {t' : TimerPtr} {data : VoidPtr} (ht : t' ≠ t)
    (hw : w'.invoked = w.invoked ++ [.callback k t' data]) : w'.callbacks t = w.callbacks t := by
  unfold World.callbacks
  rw [hw, List.filter_append]
  simp [ht]

end callbacks

/-! ## The books of a timer -/

@[simp] theorem owed_run (t : TimerPtr) (em : EMPtr) (bl : Bool) (b : Option Batch) (fs : List Frame) :
    owed t (.run em bl b :: fs) = owed t fs := by
  simp [owed, Frame.owed]

@[simp] theorem owed_self (t : TimerPtr) (n : Nat) (fs : List Frame) :
    owed t (.timeout (.timer t) n :: fs) = n + owed t fs := by
  simp [owed, Frame.owed]

theorem owed_other {t : TimerPtr} {data : VoidPtr} (h : data ≠ .timer t) (n : Nat) (fs : List Frame) :
    owed t (.timeout data n :: fs) = owed t fs := by
  simp [owed, Frame.owed, h]

@[simp] theorem owed_done (t : TimerPtr) (data : VoidPtr) (fs : List Frame) :
    owed t (.timeout data 0 :: fs) = owed t fs := by
  simp [owed, Frame.owed]

theorem owed_eq_zero {t : TimerPtr} {fs : List Frame} (h : ∀ n, Frame.timeout (.timer t) n ∉ fs) :
    owed t fs = 0 := by
  induction fs with
  | nil => rfl
  | cons x fs ih =>
    have hrest := ih fun n hn => h n (List.mem_cons_of_mem x hn)
    cases x with
    | run em bl b => rw [owed_run, hrest]
    | timeout data n =>
      have hdata : data ≠ .timer t := fun hd => h n (by rw [hd]; exact List.mem_cons_self)
      rw [owed_other hdata, hrest]

/-- The books of a timer created on `em` with `callback` and `data`, after `n` calls of the callback. -/
structure Accounted (em : EMPtr) (t : TimerPtr) (fd : Int) (callback : Nat) (data : VoidPtr) (f : File)
    (before : List Invocation) (n : Nat) (c : Config σ) (g : Tally) : Prop where
  timer : c.world.timers t = createdTimer em t fd callback data
  file : c.world.kernel.file fd = some f
  calls : c.world.callbacks t = before ++ List.replicate n (.callback callback t data)
  balance : n + owed t c.stack + (c.world.kernel.timerfds f.id).pending + g.discarded = g.expirations

section steps
variable {em : EMPtr} {t : TimerPtr} {fd : Int} {callback : Nat} {data : VoidPtr} {f : File}
  {before : List Invocation} {n : Nat} {usePipe2 : Bool} {c c' : Config σ} {g g' : Tally} {a : Act}

theorem Accounted.same (h : Accounted em t fd callback data f before n c g)
    (htimer : c'.world.timers t = createdTimer em t fd callback data)
    (hfile : c'.world.kernel.file fd = some f) (hcalls : c'.world.callbacks t = c.world.callbacks t)
    (howed : owed t c'.stack = owed t c.stack)
    (hcount : c'.world.kernel.timerfds f.id = c.world.kernel.timerfds f.id) :
    Accounted em t fd callback data f before n c' g where
  timer := htimer
  file := hfile
  calls := hcalls.trans h.calls
  balance := by
    rw [howed, hcount]
    exact h.balance

theorem Settime.pending {w w' : World σ} {new : Itimerspec} {r : UInt32} (h : Settime w t new r w')
    (hf : w.kernel.file (w.timers t).eventDescriptor.fd = some f) :
    (r = EMResult.success.code ∧ (w'.kernel.timerfds f.id).pending = 0) ∨
      (r ≠ EMResult.success.code ∧ w'.kernel.timerfds f.id = w.kernel.timerfds f.id) := by
  rcases h.effect with ⟨hr, hcore⟩ | ⟨hr, f', hf', -, hcore⟩
  · exact Or.inr ⟨hr, congrFun (congrArg (·.timerfds) hcore) f.id⟩
  · obtain rfl := Option.some.inj (hf.symm.trans hf')
    refine Or.inl ⟨hr, ?_⟩
    rw [show w'.kernel.timerfds = Function.update w.kernel.timerfds f.id _ from
      congrArg (·.timerfds) hcore, Function.update_self]

theorem Accounted.settime {w w' : World σ} {fs : List Frame} {new : Itimerspec} {r : UInt32}
    (h : Accounted em t fd callback data f before n ⟨w, fs, .user⟩ g) (hset : Settime w t new r w')
    (htimer : w'.timers t = createdTimer em t fd callback data) (hfile : w'.kernel.file fd = some f) :
    Accounted em t fd callback data f before n ⟨w', fs, .user⟩
      (if r = EMResult.success.code then
        { g with discarded := g.discarded + (w.kernel.timerfds f.id).pending } else g) := by
  have hopen : w.kernel.file (w.timers t).eventDescriptor.fd = some f := by
    rw [show w.timers t = createdTimer em t fd callback data from h.timer]
    exact h.file
  have hcalls : w'.callbacks t = w.callbacks t := callbacks_congr (congrArg (·.invoked) hset.only)
  rcases hset.pending hopen with ⟨hr, hzero⟩ | ⟨hr, hsame⟩
  · rw [if_pos hr]
    refine ⟨htimer, hfile, hcalls.trans h.calls, ?_⟩
    have hbalance := h.balance
    dsimp only at hbalance ⊢
    omega
  · rw [if_neg hr]
    exact h.same htimer hfile hcalls rfl hsame

theorem Accounted.call {w w' : World σ} {fs : List Frame} {q : Call} {r : UInt32}
    (h : Accounted em t fd callback data f before n ⟨w, fs, .user⟩ g)
    (hexec : q.exec usePipe2 w = .ok r w')
    (htimer : w'.timers t = createdTimer em t fd callback data) (hfile : w'.kernel.file fd = some f)
    (halone : ¬ (Act.event (.ret q r)).Counts t f.id (⟨w, fs, .user⟩ : Config σ) →
      w'.kernel.timerfds f.id = w.kernel.timerfds f.id) :
    Accounted em t fd callback data f before n ⟨w', fs, .user⟩
      (tally t f.id ⟨w, fs, .user⟩ (.event (.ret q r)) ⟨w', fs, .user⟩ g) := by
  have hcalls : w'.callbacks t = w.callbacks t :=
    callbacks_congr (congrArg (·.2.2) (Call.passive hexec))
  have hother : ¬ (Act.event (.ret q r)).Counts t f.id (⟨w, fs, .user⟩ : Config σ) →
      Accounted em t fd callback data f before n ⟨w', fs, .user⟩ g := fun hc =>
    h.same htimer hfile hcalls rfl (halone hc)
  cases q with
  | timerStart x msec isOneShot =>
    cases x with
    | none => exact hother nofun
    | some x =>
      by_cases hx : x = t
      · subst hx
        simp only [tally, true_and]
        exact h.settime (wp_ok (start_spec x msec isOneShot w) hexec) htimer hfile
      · simp only [tally, hx, false_and, if_false]
        exact hother fun hc => hx (Option.some.inj hc)
  | timerStop x =>
    cases x with
    | none => exact hother nofun
    | some x =>
      by_cases hx : x = t
      · subst hx
        simp only [tally, true_and]
        exact h.settime (wp_ok (stop_spec x w) hexec) htimer hfile
      · simp only [tally, hx, false_and, if_false]
        exact hother fun hc => hx (Option.some.inj hc)
  | _ => exact hother id

theorem Accounted.env {w : World σ} {fs : List Frame} {m : Mode} {e : Env}
    (h : Accounted em t fd callback data f before n ⟨w, fs, m⟩ g)
    (htimer : (e.exec w).timers t = createdTimer em t fd callback data)
    (hfile : (e.exec w).kernel.file fd = some f)
    (halone : ¬ (Act.event (.env e)).Counts t f.id (⟨w, fs, m⟩ : Config σ) →
      (e.exec w).kernel.timerfds f.id = w.kernel.timerfds f.id) :
    Accounted em t fd callback data f before n ⟨e.exec w, fs, m⟩
      (tally t f.id ⟨w, fs, m⟩ (.event (.env e)) ⟨e.exec w, fs, m⟩ g) := by
  have hcalls : (e.exec w).callbacks t = w.callbacks t := callbacks_congr (by cases e <;> rfl)
  cases e with
  | expire o =>
    by_cases ho : o = f.id
    · subst ho
      simp only [tally, true_and]
      have hbalance := h.balance
      cases harmed : (w.kernel.timerfds f.id).armed with
      | none =>
        have hsame : (w.kernel.expire f.id).timerfds f.id = w.kernel.timerfds f.id := by
          rw [Kernel.expire, harmed]
        rw [if_neg (by simp)]
        exact h.same htimer hfile hcalls rfl hsame
      | some s =>
        have hpending : ((w.kernel.expire f.id).timerfds f.id).pending =
            (w.kernel.timerfds f.id).pending + 1 := by
          rw [Kernel.expire, harmed]
          simp
        rw [if_pos (by simp)]
        refine ⟨htimer, hfile, hcalls.trans h.calls, ?_⟩
        dsimp only [Env.exec] at hbalance ⊢
        omega
    · simp only [tally, ho, false_and, if_false]
      exact h.same htimer hfile hcalls rfl (halone ho)
  | _ => exact h.same htimer hfile hcalls rfl (halone id)

/-- The handler has read from the timer: what was waiting is owed now. -/
theorem Accounted.reads {w w' : World σ} {fs fs' : List Frame} {m m' : Mode}
    (h : Accounted em t fd callback data f before n ⟨w, fs, m⟩ g)
    (htimer : w'.timers t = createdTimer em t fd callback data) (hfile : w'.kernel.file fd = some f)
    (hcalls : w'.callbacks t = w.callbacks t)
    (hzero : w'.kernel.timerfds f.id = { w.kernel.timerfds f.id with pending := 0 })
    (howed : owed t fs' = (w.kernel.timerfds f.id).pending + owed t fs) :
    Accounted em t fd callback data f before n ⟨w', fs', m'⟩ g := by
  refine ⟨htimer, hfile, hcalls.trans h.calls, ?_⟩
  have hbalance := h.balance
  simp only [hzero, howed] at hbalance ⊢
  omega

theorem Accounted.pays {w : World σ} {rest : List Frame} {m m' : Mode} {k : Nat}
    (h : Accounted em t fd callback data f before n ⟨w, .timeout (.timer t) (k + 1) :: rest, m⟩ g) :
    Accounted em t fd callback data f before (n + 1)
      ⟨{ w with invoked := w.invoked ++ [.callback callback t (w.timers t).data] },
        .timeout (.timer t) k :: rest, m'⟩ g := by
  have htimer : w.timers t = createdTimer em t fd callback data := h.timer
  refine ⟨h.timer, h.file, ?_, ?_⟩
  · rw [callbacks_self rfl, htimer, List.replicate_succ', ← List.append_assoc]
    exact congrArg (· ++ _) h.calls
  · have hbalance := h.balance
    simp only [owed_self] at hbalance ⊢
    omega

/-- Library code passes what it reads on to the loop of the handler, and the loop pays it off. -/
theorem Accounted.go {w : World σ} {fs : List Frame} {o : WaitOutcome}
    (h : Accounted em t fd callback data f before n ⟨w, fs, .library⟩ g)
    (hout : GoOutcome w o fs c') (hmode : c'.mode ≠ .crashed)
    (halone : (⟨w, fs, .library⟩ : Config σ).serves ≠ some (.timer t) →
      c'.world.kernel.timerfds f.id = w.kernel.timerfds f.id)
    (hsole : ∀ p, (⟨w, fs, .library⟩ : Config σ).serves = some p → p ≠ .timer t →
      (w.ed p).handler = some .internalTimeoutHandler → (w.ed p).data ≠ .timer t) :
    ∃ n', Accounted em t fd callback data f before n' c' g := by
  have htimer : c'.world.timers t = createdTimer em t fd callback data :=
    (congrFun hout.calm.timers t).trans h.timer
  have hfile : c'.world.kernel.file fd = some f := (hout.calm.file fd).trans h.file
  have hcount : ∀ {w' : World σ}, w'.kernel.core = w.kernel.core →
      w'.kernel.timerfds f.id = w.kernel.timerfds f.id := fun hcore =>
    congrFun (congrArg (·.timerfds) hcore) f.id
  cases hout with
  | idle => exact ⟨n, h⟩
  | crashed => exact absurd rfl hmode
  | waitFailed _ _ _ _ core invoked =>
    exact ⟨n, h.same htimer hfile (callbacks_congr invoked) (owed_run _ _ _ _ _).symm (hcount core)⟩
  | waited _ _ _ _ kernel _ _ invoked =>
    refine ⟨n, h.same htimer hfile (callbacks_congr invoked) ?_ (hcount (by rw [kernel]))⟩
    simp
  | readFailed slot out =>
    cases out with
    | readFailed _ _ core only =>
      have hinvoked := callbacks_congr (t := t) (congrArg (·.invoked) only)
      exact ⟨n, h.same htimer hfile hinvoked (owed_run _ _ _ _ _).symm (hcount core)⟩
  | breakLoop slot out =>
    cases out with
    | breakLoop _ _ _ _ _ _ _ core only =>
      have hinvoked := callbacks_congr (t := t) (congrArg (·.invoked) only)
      refine ⟨n, h.same htimer hfile hinvoked ?_ (congrFun (congrArg (·.timerfds) core) f.id)⟩
      simp
  | handler slot out =>
    cases out with
    | handler _ _ _ =>
      refine ⟨n, h.same htimer hfile (callbacks_handler rfl) ?_ rfl⟩
      simp
  | spurious slot _ _ _ core invoked =>
    refine ⟨n, h.same htimer hfile (callbacks_handler invoked) ?_ (hcount core)⟩
    simp
  | @served m bl b rest w' e p f' slot _ _ _ handler file kind pos core invoked =>
    have hserves : (⟨w, .run m bl (some b) :: rest, .library⟩ : Config σ).serves = some p :=
      slot.pointer
    by_cases hp : p = .timer t
    · -- the timer itself: what was waiting is owed now
      subst hp
      have hed : w.ed (.timer t) = (createdTimer em t fd callback data).eventDescriptor :=
        congrArg (·.eventDescriptor) h.timer
      rw [hed] at file ⊢
      obtain rfl : f = f' := Option.some.inj (h.file.symm.trans file)
      have hzero : w'.kernel.timerfds f.id = { w.kernel.timerfds f.id with pending := 0 } := by
        rw [show w'.kernel.timerfds = Function.update w.kernel.timerfds f.id _ from
          congrArg (·.timerfds) core, Function.update_self]
      refine ⟨n, h.reads htimer hfile (callbacks_handler invoked) hzero ?_⟩
      simp only [createdTimer, owed_self, owed_run]
    · refine ⟨n, h.same htimer hfile (callbacks_handler invoked) ?_ (halone ?_)⟩
      · rw [owed_other (hsole p hserves hp handler)]
        simp
      · rw [hserves]
        exact fun heq => hp (Option.some.inj heq)
  | batchDone => exact ⟨n, h.same htimer hfile rfl (owed_run _ _ _ _ _).symm rfl⟩
  | again =>
    refine ⟨n, h.same htimer hfile rfl ?_ rfl⟩
    simp
  | timeoutDone => exact ⟨n, h.same htimer hfile rfl (owed_done _ _ _).symm rfl⟩
  | @round t' n' k rest hk =>
    by_cases ht : t' = t
    · -- one of the calls that are owed is made
      subst ht
      obtain rfl : callback = k := by
        rw [show w.timers t' = createdTimer em t' fd callback data from h.timer] at hk
        exact Option.some.inj hk
      exact ⟨n + 1, h.pays⟩
    · have hdata : VoidPtr.timer t' ≠ .timer t := fun heq => ht (VoidPtr.timer.inj heq)
      refine ⟨n, h.same htimer hfile (callbacks_other ht rfl) ?_ rfl⟩
      rw [owed_other hdata, owed_other hdata]

theorem CountedStep.accounted (hs : CountedStep usePipe2 t f.id (c, g) a (c', g'))
    (hmode : c'.mode ≠ .crashed) (h : Accounted em t fd callback data f before n c g) :
    ∃ n', Accounted em t fd callback data f before n' c' g' := by
  obtain ⟨⟨hstep, hg⟩, hcall, hmemory, htimerfd, halone, hsole⟩ := hs
  dsimp only at hstep hg hcall hmemory htimerfd halone hsole
  have htimer := hmemory.trans h.timer
  rw [h.timer] at htimerfd
  have hfile : c'.world.kernel.file fd = some f := htimerfd.trans h.file
  rw [hg]
  cases hstep with
  | call fs hexec => exact ⟨n, h.call hexec htimer hfile halone⟩
  | crash => exact absurd rfl hmode
  | env e w fs m => exact ⟨n, h.env htimer hfile halone⟩
  | enter fs hexec =>
    obtain ⟨-, honly, -⟩ := wp_ok (eventMachineRunEnter_spec _ _) hexec
    refine ⟨n, h.same htimer hfile (callbacks_congr (congrArg (·.invoked) honly)) ?_ (halone id)⟩
    simp
  | refuse fs hexec =>
    obtain ⟨-, honly, -⟩ := wp_ok (eventMachineRunEnter_spec _ _) hexec
    exact ⟨n, h.same htimer hfile (callbacks_congr (congrArg (·.invoked) honly)) rfl (halone id)⟩
  | ret w x fs => exact ⟨n, h.same htimer hfile rfl rfl rfl⟩
  | go hmay => exact h.go (Config.go_cases _ _ _) hmode halone hsole

end steps

theorem spurious_go {w : World σ} (m : EMPtr) (bl : Bool) {b : Batch} (rest : List Frame) {e : EpollEvent}
    {em : EMPtr} {t : TimerPtr} {fd : Int} {callback : Nat} {data : VoidPtr} {f : File}
    (slot : InSlot w b e (.timer t)) (htimer : w.timers t = createdTimer em t fd callback data)
    (hfd : fd ≠ b.breakLoopReadFd) (hfile : w.kernel.file fd = some f) (hkind : f.kind = .timerfd)
    (hfault : w.kernel.faults .read 0 = none) (hzero : (w.kernel.timerfds f.id).pending = 0)
    (o : WaitOutcome) :
    ∃ w', Config.go ⟨w, .run m bl (some b) :: rest, .library⟩ o =
        ⟨w', .run m bl (some b.next) :: rest, .library⟩ ∧ w'.callbacks t = w.callbacks t := by
  have hed : w.ed (.timer t) = (createdTimer em t fd callback data).eventDescriptor :=
    congrArg (·.eventDescriptor) htimer
  obtain ⟨hlt, ⟨buf, hbuf, he⟩, hdata⟩ := slot
  have hnumber : (w.ed (.timer t)).fd = fd := by rw [hed]; rfl
  -- the round calls the handler of the timer
  obtain ⟨w₁, hslot, hw₁⟩ : ∃ w₁, runOnceSlot m b.events b.i b.breakLoopReadFd w =
      .ok (.handler .internalTimeoutHandler e.events fd (.timer t)) w₁ ∧ w₁ = { w with
        invoked := w.invoked ++ [.handler .internalTimeoutHandler m e.events fd (.timer t)] } := by
    obtain ⟨r, w₁, hslot, rfl, hw₁⟩ : ∃ r w₁,
        runOnceSlot m b.events b.i b.breakLoopReadFd w = .ok r w₁ ∧
          r = .handler .internalTimeoutHandler e.events fd (.timer t) ∧ w₁ = { w with
            invoked := w.invoked ++ [.handler .internalTimeoutHandler m e.events fd (.timer t)] } := by
      refine wp_total (wp_mono (runOnceSlot_spec m b.events b.i b.breakLoopReadFd w) ?_ ?_)
      · rintro r w₁ ⟨buf', e', p, hbuf', he', hp, hout⟩
        obtain rfl := Option.some.inj (hbuf.symm.trans hbuf')
        obtain rfl := Option.some.inj (he.symm.trans he')
        obtain rfl := Option.some.inj (hdata.symm.trans hp)
        cases hout with
        | readFailed hf => exact absurd (hnumber.symm.trans hf) hfd
        | breakLoop _ _ hf => exact absurd (hnumber.symm.trans hf) hfd
        | handler h _ hh =>
          rw [hed] at hh ⊢
          obtain rfl := Option.some.inj hh
          exact ⟨rfl, rfl⟩
      · rintro _ _ ⟨-, hnone⟩
        have hhandler := (hnone buf e _ hbuf he hdata).2
        rw [hed] at hhandler
        exact absurd hhandler (Option.some_ne_none _)
    exact ⟨w₁, hslot, hw₁⟩
  have hkernel : w₁.kernel = w.kernel := by rw [hw₁]
  -- which reads nothing
  have hread := internalTimeoutRead_spec fd (.timer t) w₁
  cases hrun : internalTimeoutRead fd (.timer t) w₁ with
  | error x w₂ =>
    refine absurd hrun (read_not_asserts ?_ hkind (Or.inl ?_) x)
    · rw [hkernel, hfile]
    · rw [hkernel, hfault]
  | ok r w₂ =>
    obtain ⟨-, -, hinvoked, -, ⟨rfl, -⟩ | ⟨f', hf', -, hpos, -⟩⟩ := wp_ok hread hrun
    · refine ⟨w₂, ?_, ?_⟩
      · simp only [Config.go, if_pos hlt, hslot, hrun]
        rfl
      · rw [callbacks_congr hinvoked]
        exact callbacks_handler (congrArg (·.invoked) hw₁)
    · rw [hkernel] at hf' hpos
      obtain rfl := Option.some.inj (hfile.symm.trans hf')
      omega

/-! ## Runs -/

theorem Accounted.of_create {em : EMPtr} {t : TimerPtr} {callback : Nat} {data : VoidPtr}
    {w w' : World σ} {f : File} {fs : List Frame}
    (hmade : TimerMade w em t callback data (w.kernel.timerfdCreate (.timer t)).1 f
      (w.timerOpened em t callback data))
    (hadd : eventMachineAdd (some em) (some (.timer t)) (w.timerOpened em t callback data) =
      .ok EMResult.success.code w') :
    Accounted em t (w.kernel.timerfdCreate (.timer t)).1 callback data f (w'.callbacks t) 0
      ⟨w', fs, .user⟩ ⟨owed t fs, 0⟩ := by
  have hout := wp_ok (add_spec _ _ _) hadd
  refine ⟨(congrFun hout.timers t).trans hmade.timer, ?_, (List.append_nil _).symm, ?_⟩
  · rw [hout.file, hmade.made.opens.file, if_pos rfl]
  · have hcount : w'.kernel.timerfds f.id = ⟨none, 0⟩ := by
      rw [hout.timerfds, hmade.made.timerfds, Function.update_self]
    simp [hcount]

/-- What has become of the expirations of a timer, after `n` calls of its callback: each has been passed
to the callback, or the loop of the handler is about to do so, or it is waiting, or it has been discarded.
A handler that is called for nothing calls nothing and fails no assertion. -/
structure Conserved (t : TimerPtr) (o : ObjId) (call : Invocation) (before : List Invocation) (n : Nat)
    (c : Config σ) (g : Tally) : Prop where
  calls : c.world.callbacks t = before ++ List.replicate n call
  balance : n + owed t c.stack + (c.world.kernel.timerfds o).pending + g.discarded = g.expirations
  idle : (∀ n, Frame.timeout (.timer t) n ∉ c.stack) →
    n + (c.world.kernel.timerfds o).pending + g.discarded = g.expirations
  spurious : c.Dispatches t → (c.world.kernel.timerfds o).pending = 0 →
    c.world.kernel.faults .read 0 = none → ∀ wait, (c.go wait).mode = .library ∧
      (c.go wait).world.callbacks t = c.world.callbacks t ∧ owed t (c.go wait).stack = owed t c.stack

/-- Expirations of a timer are neither lost nor duplicated, and the callback gets the timer and the data
`event_timer_create()` was given. -/
theorem expirations_conserved {usePipe2 : Bool} {em : EMRef} {t : TimerPtr} {callback : Option Nat}
    {data : VoidPtr} {w₀ w₁ : World σ} {fs : List Frame} {f : File} {as : List Act} {c : Config σ}
    {g : Tally}
    (hcreate : eventTimerCreate em (some t) callback data w₀ = .ok EMResult.success.code w₁)
    (hf : w₁.kernel.file (w₁.timers t).eventDescriptor.fd = some f)
    (hfs : ∀ n, Frame.timeout (.timer t) n ∉ fs)
    (hrun : Steps (CountedStep usePipe2 t f.id) (⟨w₁, fs, .user⟩, ⟨0, 0⟩) as (c, g))
    (hmode : c.mode ≠ .crashed) :
    ∃ k n, callback = some k ∧ Conserved t f.id (.callback k t data) (w₁.callbacks t) n c g := by
  obtain ⟨m, k, f', -, rfl, hmade, hadd⟩ := create_success hcreate
  have hstart : Accounted m t _ k data f' _ 0 ⟨w₁, fs, .user⟩ ⟨owed t fs, 0⟩ := .of_create hmade hadd
  rw [owed_eq_zero hfs] at hstart
  have hkind := hmade.made.kind
  generalize (w₀.kernel.timerfdCreate (.timer t)).1 = fd at hstart
  have htimer : w₁.timers t = createdTimer m t fd k data := hstart.timer
  rw [htimer] at hf
  obtain rfl : f' = f := Option.some.inj (hstart.file.symm.trans hf)
  obtain ⟨n, h⟩ : ∃ n, Accounted m t fd k data f' (w₁.callbacks t) n c g := by
    refine hrun.invariant (I := fun x => x.1.mode ≠ .crashed →
      ∃ n, Accounted m t fd k data f' (w₁.callbacks t) n x.1 x.2) (fun x a y hx hs hy => ?_)
      (fun _ => ⟨0, hstart⟩) hmode
    obtain ⟨n, hn⟩ := hx (hs.step.1.not_crashed hy)
    exact hs.accounted hy hn
  refine ⟨k, n, rfl, h.calls, h.balance, fun hidle => ?_, fun hserves hzero hfault wait => ?_⟩
  · have hbalance := h.balance
    rwa [owed_eq_zero hidle] at hbalance
  · obtain ⟨em', bl, b, rest, e, hc, slot⟩ := Config.serves_inv hserves.1
    have hfd : fd ≠ b.breakLoopReadFd := by
      have hne := hserves.2 em' bl b rest (congrArg (·.stack) hc)
      rwa [h.timer] at hne
    obtain ⟨w', hgo, hcalls⟩ := spurious_go em' bl rest slot h.timer hfd h.file hkind hfault hzero wait
    rw [hc, hgo]
    exact ⟨rfl, hcalls, by simp⟩

theorem expirations_conserved_rung :
    ∃ k n, some 0 = some k ∧ Conserved 0 3 (.callback k 0 .null) (timerMade.callbacks 0) n callbackCalled
      ⟨2, 0⟩ := by
  have hcreate : eventTimerCreate (some 0) (some 0) (some 0) .null machineForTimer =
      .ok EMResult.success.code timerMade := rfl
  have harm : CountedStep true 0 3 (⟨timerMade, [], .user⟩, ⟨0, 0⟩) (.event (.ret armTimer 0))
      (⟨timerArmed, [], .user⟩, ⟨0, 0⟩) := by
    refine ⟨⟨.call [] rfl, rfl⟩, ?_, rfl, rfl, fun h => absurd rfl h, nofun⟩
    rintro f r ⟨⟩
    exact id
  have honce : CountedStep true 0 3 (⟨timerArmed, [], .user⟩, ⟨0, 0⟩) (.event (.env (.expire 3)))
      (⟨expiredOnce, [], .user⟩, ⟨1, 0⟩) :=
    ⟨⟨.env _ _ _ _, rfl⟩, nofun, rfl, rfl, fun h => absurd rfl h, nofun⟩
  have htwice : CountedStep true 0 3 (⟨expiredOnce, [], .user⟩, ⟨1, 0⟩) (.event (.env (.expire 3)))
      (⟨expiredTwice, [], .user⟩, ⟨2, 0⟩) :=
    ⟨⟨.env _ _ _ _, rfl⟩, nofun, rfl, rfl, fun h => absurd rfl h, nofun⟩
  have henter : CountedStep true 0 3 (⟨expiredTwice, [], .user⟩, ⟨2, 0⟩) (.run (some 0))
      (timerWaiting, ⟨2, 0⟩) :=
    ⟨⟨.enter [] rfl rfl, rfl⟩, nofun, rfl, rfl, fun _ => rfl, nofun⟩
  have hwait : CountedStep true 0 3 (timerWaiting, ⟨2, 0⟩) (.go timerReady)
      (timerWaiting.go timerReady, ⟨2, 0⟩) :=
    ⟨⟨.of_go rfl timerWaiting_mayReport, rfl⟩, nofun, rfl, rfl, fun _ => rfl, nofun⟩
  have hserve : CountedStep true 0 3 (timerWaiting.go timerReady, ⟨2, 0⟩) (.go timerReady)
      (timerRung, ⟨2, 0⟩) := by
    refine ⟨⟨.of_go rfl nofun, rfl⟩, nofun, rfl, rfl, fun h => absurd rfl h, ?_⟩
    rintro p ⟨⟩ hp
    exact absurd rfl hp
  have hcall : CountedStep true 0 3 (timerRung, ⟨2, 0⟩) (.go timerReady) (callbackCalled, ⟨2, 0⟩) :=
    ⟨⟨.of_go rfl nofun, rfl⟩, nofun, rfl, rfl, fun _ => rfl, nofun⟩
  have hf : timerMade.kernel.file (timerMade.timers 0).eventDescriptor.fd =
      some ⟨3, .timerfd, .timer 0, O_NONBLOCK, true⟩ := rfl
  exact expirations_conserved hcreate hf (by simp)
    (.cons harm <| .cons honce <| .cons htwice <| .cons henter <| .cons hwait <| .cons hserve <|
      .cons hcall (.nil _)) (by decide)

end EventMachine
