import EventMachine.Timers.Arming
import EventMachine.Timers.Conservation

/-!
# One-shot and periodic timers

`event_timer_start()` is told whether the timer is to expire once or again and again. What the program
sees of it are calls of the callback, which come later, from the main loop, and the loop may owe some from
before. A one-shot start is followed by one call at most, these apart (`one_shot_fires_once`); after a
periodic one the timer stays armed, and each expiration is passed to the callback or still waiting
(`periodic_keeps_going`).
-/

namespace EventMachine

open Lib

variable {σ : Type}

/-! ## What a step does to the timer -/

/-- A step sets the timer. -/
def Act.Sets (t : TimerPtr) : Act → Prop
  | .event (.ret (.timerStart x _ _) _) | .event (.ret (.timerStop x) _) => x = some t
  | _ => False

/-- A step starts the timer. -/
def Act.Starts (t : TimerPtr) : Act → Prop
  | .event (.ret (.timerStart x _ _) _) => x = some t
  | _ => False

theorem GoOutcome.armed {w : World σ} {o : WaitOutcome} {fs : List Frame} {c' : Config σ}
    (h : GoOutcome w o fs c') (hmode : c'.mode ≠ .crashed) (x : ObjId) :
    (c'.world.kernel.timerfds x).armed = (w.kernel.timerfds x).armed := by
  have hcore : ∀ {w' : World σ}, w'.kernel.core = w.kernel.core →
      (w'.kernel.timerfds x).armed = (w.kernel.timerfds x).armed := fun hc =>
    congrArg (·.armed) (congrFun (congrArg (·.timerfds) hc) x)
  cases h with
  | idle => rfl
  | crashed => exact absurd rfl hmode
  | waitFailed _ _ _ _ core => exact hcore core
  | waited _ _ _ _ kernel => exact hcore (by rw [kernel])
  | readFailed _ out =>
    cases out with
    | readFailed _ _ core => exact hcore core
  | breakLoop _ out =>
    cases out with
    | breakLoop _ _ _ _ _ _ _ core =>
      exact congrArg (·.armed) (congrFun (congrArg (·.timerfds) core) x)
  | handler _ out =>
    cases out with
    | handler => rfl
  | spurious _ _ _ _ core => exact hcore core
  | @served em bl b rest w' e p f _ _ _ _ _ _ _ _ core =>
    have htimerfds : w'.kernel.timerfds = Function.update w.kernel.timerfds f.id
        { w.kernel.timerfds f.id with pending := 0 } := congrArg (·.timerfds) core
    show (w'.kernel.timerfds x).armed = _
    rw [htimerfds, Function.update_apply]
    split
    · next hx => rw [hx]
    · rfl
  | batchDone => rfl
  | again => rfl
  | timeoutDone => rfl
  | round => rfl

theorem prefix_of_invoked {w w' : World σ} (h : w'.invoked = w.invoked) : w.invoked <+: w'.invoked :=
  ⟨[], by simpa using h.symm⟩

theorem GoOutcome.invoked {w : World σ} {o : WaitOutcome} {fs : List Frame} {c' : Config σ}
    (h : GoOutcome w o fs c') (hmode : c'.mode ≠ .crashed) : w.invoked <+: c'.world.invoked := by
  cases h with
  | idle => exact List.prefix_rfl
  | crashed => exact absurd rfl hmode
  | waitFailed _ _ _ _ _ invoked => exact prefix_of_invoked invoked
  | waited _ _ _ _ _ _ _ invoked => exact prefix_of_invoked invoked
  | readFailed _ out =>
    cases out with
    | readFailed _ _ _ only => exact prefix_of_invoked (congrArg (·.invoked) only)
  | breakLoop _ out =>
    cases out with
    | breakLoop _ _ _ _ _ _ _ _ only => exact prefix_of_invoked (congrArg (·.invoked) only)
  | handler _ out =>
    cases out with
    | handler => exact List.prefix_append _ _
  | spurious _ _ _ _ _ invoked => exact ⟨_, invoked.symm⟩
  | served _ _ _ _ _ _ _ _ _ invoked => exact ⟨_, invoked.symm⟩
  | batchDone => exact List.prefix_rfl
  | again => exact List.prefix_rfl
  | timeoutDone => exact List.prefix_rfl
  | round => exact List.prefix_append _ _

theorem Step.invoked {usePipe2 : Bool} {c c' : Config σ} {a : Act} (h : Step usePipe2 c a c')
    (hmode : c'.mode ≠ .crashed) : c.world.invoked <+: c'.world.invoked := by
  cases h with
  | call fs hexec => exact prefix_of_invoked (congrArg (·.2.2) (Call.passive hexec))
  | crash => exact absurd rfl hmode
  | env e w fs m => exact prefix_of_invoked (by cases e <;> rfl)
  | enter fs hexec =>
    obtain ⟨-, honly, -⟩ := wp_ok (eventMachineRunEnter_spec _ _) hexec
    exact prefix_of_invoked (congrArg (·.invoked) honly)
  | refuse fs hexec =>
    obtain ⟨-, honly, -⟩ := wp_ok (eventMachineRunEnter_spec _ _) hexec
    exact prefix_of_invoked (congrArg (·.invoked) honly)
  | ret => exact List.prefix_rfl
  | go => exact (Config.go_cases _ _ _).invoked hmode

section steps
variable {usePipe2 : Bool} {t : TimerPtr} {f : File} {c c' : Config σ} {g g' : Tally} {a : Act}

/-- The number in the timer is that of the object `f`. -/
def Config.TimerFile (c : Config σ) (t : TimerPtr) (f : File) : Prop :=
  c.world.kernel.file (c.world.timers t).eventDescriptor.fd = some f

theorem CountedStep.timerFile (h : CountedStep usePipe2 t f.id (c, g) a (c', g')) (hf : c.TimerFile t f) :
    c'.TimerFile t f := by
  unfold Config.TimerFile
  rw [show c'.world.timers t = c.world.timers t from h.memory]
  exact h.timerfd.trans hf

theorem tally_quiet (hset : ¬ a.Sets t) (hexpire : a ≠ .event (.env (.expire f.id))) :
    tally t f.id c a c' g = g := by
  unfold tally
  split
  · next o =>
    rw [if_neg]
    rintro ⟨rfl, -⟩
    exact hexpire rfl
  · next x msec b r =>
    rw [if_neg]
    rintro ⟨rfl, -⟩
    exact hset rfl
  · next x r =>
    rw [if_neg]
    rintro ⟨rfl, -⟩
    exact hset rfl
  · rfl

theorem CountedStep.quiet (h : CountedStep usePipe2 t f.id (c, g) a (c', g')) (hmode : c'.mode ≠ .crashed)
    (hset : ¬ a.Sets t) (hexpire : a ≠ .event (.env (.expire f.id))) :
    (c'.world.kernel.timerfds f.id).armed = (c.world.kernel.timerfds f.id).armed ∧ g' = g := by
  obtain ⟨⟨hstep, hg⟩, -, -, -, halone, -⟩ := h
  dsimp only at hstep hg halone
  refine ⟨?_, hg.trans (tally_quiet hset hexpire)⟩
  have hcount : ¬ a.Counts t f.id c →
      (c'.world.kernel.timerfds f.id).armed = (c.world.kernel.timerfds f.id).armed := fun hc =>
    congrArg (·.armed) (halone hc)
  cases hstep with
  | @call q w w' r fs hexec =>
    apply hcount
    cases q with
    | timerStart x msec b => exact hset
    | timerStop x => exact hset
    | _ => exact id
  | env e w fs m =>
    apply hcount
    cases e with
    | expire o =>
      rintro rfl
      exact hexpire rfl
    | _ => exact id
  | go => exact (Config.go_cases _ _ _).armed hmode f.id
  | _ => exact hcount id

theorem CountedStep.expired
    (h : CountedStep usePipe2 t f.id (c, g) (.event (.env (.expire f.id))) (c', g')) :
    match (c.world.kernel.timerfds f.id).armed with
    | none => (c'.world.kernel.timerfds f.id).armed = none ∧ g' = g
    | some s => (c'.world.kernel.timerfds f.id).armed = (if s.itInterval = ⟨0, 0⟩ then none else some s) ∧
        g' = { g with expirations := g.expirations + 1 } := by
  obtain ⟨⟨hstep, hg⟩, -⟩ := h
  dsimp only at hstep hg
  rw [hg]
  cases hstep with
  | env e w fs m =>
    simp only [tally, true_and, Env.exec, Kernel.expire]
    cases harmed : (w.kernel.timerfds f.id).armed with
    | none => simp [harmed]
    | some s => simp

theorem Settime.timerfd {w w' : World σ} {new : Itimerspec} {r : UInt32} (h : Settime w t new r w')
    (hf : w.kernel.file (w.timers t).eventDescriptor.fd = some f) :
    (r = EMResult.success.code ∧
        w'.kernel.timerfds f.id = ⟨if new.itValue = ⟨0, 0⟩ then none else some new, 0⟩) ∨
      (r ≠ EMResult.success.code ∧ w'.kernel.timerfds f.id = w.kernel.timerfds f.id) := by
  rcases h.effect with ⟨hr, hcore⟩ | ⟨hr, f', hf', -, hcore⟩
  · exact Or.inr ⟨hr, congrFun (congrArg (·.timerfds) hcore) f.id⟩
  · obtain rfl := Option.some.inj (hf.symm.trans hf')
    refine Or.inl ⟨hr, ?_⟩
    rw [show w'.kernel.timerfds = Function.update w.kernel.timerfds f.id _ from
      congrArg (·.timerfds) hcore, Function.update_self]

theorem CountedStep.started {msec : Int32} {b : Bool}
    (h : CountedStep usePipe2 t f.id (c, g)
      (.event (.ret (.timerStart (some t) msec b) EMResult.success.code)) (c', g'))
    (hf : c.TimerFile t f) :
    c'.world.kernel.timerfds f.id = ⟨if expirationTime msec = ⟨0, 0⟩ then none
        else some (startSetting msec b), 0⟩ ∧
      g' = { g with discarded := g.discarded + (c.world.kernel.timerfds f.id).pending } ∧
      c'.stack = c.stack ∧ c'.world.callbacks t = c.world.callbacks t ∧ c.mode = .user := by
  obtain ⟨⟨hstep, hg⟩, -⟩ := h
  dsimp only at hstep hg
  cases hstep with
  | @call q w w' r fs hexec =>
    have hset := wp_ok (start_spec t msec b w) hexec
    have htimerfd := (hset.timerfd hf).resolve_right fun hr => hr.1 rfl
    exact ⟨htimerfd.2, hg.trans (if_pos ⟨rfl, rfl⟩), rfl,
      callbacks_congr (congrArg (·.invoked) hset.only), rfl⟩

theorem CountedStep.stopped {r : UInt32}
    (h : CountedStep usePipe2 t f.id (c, g) (.event (.ret (.timerStop (some t)) r)) (c', g'))
    (hf : c.TimerFile t f) :
    g'.expirations = g.expirations ∧ g.discarded ≤ g'.discarded ∧
      ((c'.world.kernel.timerfds f.id).armed = (c.world.kernel.timerfds f.id).armed ∨
        (c'.world.kernel.timerfds f.id).armed = none) := by
  obtain ⟨⟨hstep, hg⟩, -⟩ := h
  dsimp only at hstep hg
  rw [hg]
  cases hstep with
  | @call q w w' r fs hexec =>
    have hset := wp_ok (stop_spec t w) hexec
    simp only [tally, true_and]
    rcases hset.timerfd hf with ⟨hr, htimerfd⟩ | ⟨hr, htimerfd⟩
    · rw [if_pos hr]
      exact ⟨rfl, Nat.le_add_right _ _, Or.inr (by rw [htimerfd, if_pos rfl])⟩
    · rw [if_neg hr]
      exact ⟨rfl, Nat.le_refl _, Or.inl (by rw [htimerfd])⟩

end steps

/-! ## Runs without another start -/

section runs
variable {usePipe2 : Bool} {t : TimerPtr} {f : File} {c c' : Config σ} {g g' : Tally} {as : List Act}

/-- The timer has not expired since its expirations were counted to be `n`, or it has done so once and is
disarmed. -/
def AtMostOnce (o : ObjId) (n : Nat) (c : Config σ) (g : Tally) : Prop :=
  (g.expirations = n ∧ ∀ s, (c.world.kernel.timerfds o).armed = some s → s.itInterval = ⟨0, 0⟩) ∨
    (g.expirations = n + 1 ∧ (c.world.kernel.timerfds o).armed = none)

theorem AtMostOnce.step {n : Nat} {a : Act} (h : AtMostOnce f.id n c g)
    (hs : CountedStep usePipe2 t f.id (c, g) a (c', g')) (hmode : c'.mode ≠ .crashed)
    (hf : c.TimerFile t f) (ha : ¬ a.Starts t) :
    AtMostOnce f.id n c' g' ∧ g.discarded ≤ g'.discarded := by
  by_cases hset : a.Sets t
  · match a, hset, ha with
    | .event (.ret (.timerStart x msec b) r), hset, ha => exact absurd hset ha
    | .event (.ret (.timerStop x) r), hset, ha =>
      obtain rfl : x = some t := hset
      obtain ⟨hexp, hdisc, harmed⟩ := hs.stopped hf
      refine ⟨?_, hdisc⟩
      unfold AtMostOnce
      rw [hexp]
      rcases harmed with harmed | harmed
      · rw [harmed]
        exact h
      · rw [harmed]
        exact h.imp (fun h => ⟨h.1, nofun⟩) fun h => ⟨h.1, rfl⟩
  · by_cases hexpire : a = .event (.env (.expire f.id))
    · subst hexpire
      have hexpired := hs.expired
      rcases h with ⟨hexp, hinterval⟩ | ⟨hexp, hnone⟩
      · cases harmed : (c.world.kernel.timerfds f.id).armed with
        | none =>
          simp only [harmed] at hexpired
          obtain ⟨hnone, rfl⟩ := hexpired
          exact ⟨Or.inl ⟨hexp, by simp [hnone]⟩, Nat.le_refl _⟩
        | some s =>
          simp only [harmed, hinterval s harmed, if_true] at hexpired
          obtain ⟨hnone, rfl⟩ := hexpired
          exact ⟨Or.inr ⟨congrArg (· + 1) hexp, hnone⟩, Nat.le_refl _⟩
      · simp only [hnone] at hexpired
        obtain ⟨hnone, rfl⟩ := hexpired
        exact ⟨Or.inr ⟨hexp, hnone⟩, Nat.le_refl _⟩
    · obtain ⟨harmed, rfl⟩ := hs.quiet hmode hset hexpire
      refine ⟨?_, Nat.le_refl _⟩
      unfold AtMostOnce
      rw [harmed]
      exact h

theorem AtMostOnce.run {n : Nat} (h : AtMostOnce f.id n c g) (hf : c.TimerFile t f)
    (hrun : Steps (CountedStep usePipe2 t f.id) (c, g) as (c', g')) (has : ∀ a ∈ as, ¬ a.Starts t)
    (hmode : c'.mode ≠ .crashed) : AtMostOnce f.id n c' g' ∧ g.discarded ≤ g'.discarded := by
  have hinv := hrun.invariant_mem (I := fun x => x.1.mode ≠ .crashed →
    x.1.TimerFile t f ∧ AtMostOnce f.id n x.1 x.2 ∧ g.discarded ≤ x.2.discarded) ?_
    (fun _ => ⟨hf, h, Nat.le_refl _⟩) hmode
  · exact hinv.2
  · rintro ⟨c, g₁⟩ a ⟨c', g₂⟩ ha hx hs hc'
    obtain ⟨hf, honce, hdisc⟩ := hx (hs.step.1.not_crashed hc')
    obtain ⟨honce', hdisc'⟩ := honce.step hs hc' hf (has a ha)
    exact ⟨hs.timerFile hf, honce', Nat.le_trans hdisc hdisc'⟩

theorem not_crashed_before {x y : Config σ × Tally} (hrun : Steps (CountedStep usePipe2 t f.id) x as y)
    (hmode : y.1.mode ≠ .crashed) : x.1.mode ≠ .crashed := by
  induction hrun with
  | nil x => exact hmode
  | cons hstep _ ih => exact hstep.step.1.not_crashed (ih hmode)

/-- Without a step that sets the timer, one that has an interval stays armed, and each time it is to expire
it does. -/
theorem periodic_run {x y : Config σ × Tally} {s : Itimerspec} (hs : s.itInterval ≠ ⟨0, 0⟩)
    (hrun : Steps (CountedStep usePipe2 t f.id) x as y)
    (harmed : (x.1.world.kernel.timerfds f.id).armed = some s) (has : ∀ a ∈ as, ¬ a.Sets t)
    (hmode : y.1.mode ≠ .crashed) :
    (y.1.world.kernel.timerfds f.id).armed = some s ∧ y.2.discarded = x.2.discarded ∧
      y.2.expirations = x.2.expirations + as.count (.event (.env (.expire f.id))) := by
  induction hrun with
  | nil x => exact ⟨harmed, rfl, rfl⟩
  | @cons x z y a as hstep hrest ih =>
    have hset := has a List.mem_cons_self
    have hrest' := fun h => ih h (fun b hb => has b (List.mem_cons_of_mem a hb)) hmode
    by_cases hexpire : a = .event (.env (.expire f.id))
    · subst hexpire
      obtain ⟨c, g⟩ := x
      obtain ⟨c', g'⟩ := z
      have hexpired := hstep.expired
      dsimp only at harmed
      simp only [harmed, hs, if_false] at hexpired
      obtain ⟨hz, htally⟩ := hexpired
      obtain ⟨hy, hdisc, hexp⟩ := hrest' hz
      rw [htally] at hdisc hexp
      refine ⟨hy, hdisc, ?_⟩
      rw [hexp, List.count_cons_self]
      dsimp only
      omega
    · obtain ⟨c, g⟩ := x
      obtain ⟨c', g'⟩ := z
      obtain ⟨hz, htally⟩ := hstep.quiet (not_crashed_before hrest hmode) hset hexpire
      obtain ⟨hy, hdisc, hexp⟩ := hrest' (hz.trans harmed)
      rw [htally] at hdisc hexp
      refine ⟨hy, hdisc, ?_⟩
      rw [hexp, List.count_cons_of_ne hexpire]

theorem callbacks_run (hrun : Steps (CountedStep usePipe2 t f.id) (c, g) as (c', g'))
    (hmode : c'.mode ≠ .crashed) : c.world.callbacks t <+: c'.world.callbacks t := by
  have hinv := hrun.invariant (I := fun x => x.1.mode ≠ .crashed → c.world.invoked <+: x.1.world.invoked) ?_
    (fun _ => List.prefix_rfl) hmode
  · exact hinv.filter _
  · rintro x a y hx hs hy
    exact (hx (hs.step.1.not_crashed hy)).trans (hs.step.1.invoked hy)

theorem Accounted.run {em : EMPtr} {fd : Int} {k : Nat} {data : VoidPtr} {before : List Invocation} {n : Nat}
    (h : Accounted em t fd k data f before n c g)
    (hrun : Steps (CountedStep usePipe2 t f.id) (c, g) as (c', g')) (hmode : c'.mode ≠ .crashed) :
    ∃ n', Accounted em t fd k data f before n' c' g' := by
  refine hrun.invariant (I := fun x => x.1.mode ≠ .crashed →
    ∃ n, Accounted em t fd k data f before n x.1 x.2) (fun x a y hx hs hy => ?_) (fun _ => ⟨n, h⟩) hmode
  obtain ⟨n, hn⟩ := hx (hs.step.1.not_crashed hy)
  exact hs.accounted hy hn

end runs

/-! ## From the start on -/

section started
variable {usePipe2 : Bool} {em : EMRef} {t : TimerPtr} {callback : Option Nat} {data : VoidPtr}
  {w₀ w₁ : World σ} {fs : List Frame} {f : File} {as₁ as₂ : List Act} {c₁ c₂ c₃ : Config σ}
  {g₁ g₂ g₃ : Tally} {msec : Int32} {b : Bool}

/-- The books of a timer since it was last started: its callback has been called `n` times since. They
open with the calls that a loop still owes when the timer is created, in its own callback say. -/
theorem books_since_start
    (hcreate : eventTimerCreate em (some t) callback data w₀ = .ok EMResult.success.code w₁)
    (hf : w₁.kernel.file (w₁.timers t).eventDescriptor.fd = some f)
    (hrun₁ : Steps (CountedStep usePipe2 t f.id) (⟨w₁, fs, .user⟩, ⟨owed t fs, 0⟩) as₁ (c₁, g₁))
    (hstart : CountedStep usePipe2 t f.id (c₁, g₁)
      (.event (.ret (.timerStart (some t) msec b) EMResult.success.code)) (c₂, g₂))
    (hrun₂ : Steps (CountedStep usePipe2 t f.id) (c₂, g₂) as₂ (c₃, g₃)) (hmode : c₃.mode ≠ .crashed) :
    c₁.TimerFile t f ∧ c₂.TimerFile t f ∧ ∃ k n, callback = some k ∧
      c₃.world.callbacks t = c₁.world.callbacks t ++ List.replicate n (.callback k t data) ∧
      n + owed t c₃.stack + (c₃.world.kernel.timerfds f.id).pending + g₃.discarded + g₂.expirations =
        owed t c₁.stack + g₂.discarded + g₃.expirations := by
  obtain ⟨m, k, f', -, rfl, hmade, hadd⟩ := create_success hcreate
  have hnew : Accounted m t _ k data f' _ 0 ⟨w₁, fs, .user⟩ ⟨owed t fs, 0⟩ := .of_create hmade hadd
  generalize (w₀.kernel.timerfdCreate (.timer t)).1 = fd at hnew
  have htimer : w₁.timers t = createdTimer m t fd k data := hnew.timer
  rw [htimer] at hf
  obtain rfl : f' = f := Option.some.inj (hnew.file.symm.trans hf)
  have hmode₂ := not_crashed_before hrun₂ hmode
  obtain ⟨n₁, h₁⟩ := hnew.run hrun₁ (hstart.step.1.not_crashed hmode₂)
  have hf₁ : c₁.TimerFile t f' := by
    unfold Config.TimerFile
    rw [h₁.timer]
    exact h₁.file
  obtain ⟨n₂, h₂⟩ := hstart.accounted hmode₂ h₁
  obtain ⟨n₃, h₃⟩ := h₂.run hrun₂ hmode
  obtain ⟨htimerfd, -, hstack, hcalls, -⟩ := hstart.started hf₁
  refine ⟨hf₁, hstart.timerFile hf₁, k, n₃ - n₂, rfl, ?_⟩
  -- calls are only ever added
  have hle : n₂ ≤ n₃ := by
    have hprefix := (callbacks_run hrun₂ hmode).length_le
    rw [h₂.calls, h₃.calls] at hprefix
    simpa using hprefix
  constructor
  · rw [← hcalls, h₂.calls, h₃.calls, List.append_assoc, List.replicate_append_replicate,
      Nat.add_sub_cancel' hle]
  · have hbalance₂ := h₂.balance
    have hbalance₃ := h₃.balance
    rw [htimerfd, hstack] at hbalance₂
    dsimp only at hbalance₂
    omega

/-- After a successful one-shot start, and until the next start, the callback is called once at most, the
calls apart that the loop of the handler owed before. What it still owes, what is waiting and the
expiration an armed timer is going to have all count as that one call. -/
theorem one_shot_fires_once
    (hcreate : eventTimerCreate em (some t) callback data w₀ = .ok EMResult.success.code w₁)
    (hf : w₁.kernel.file (w₁.timers t).eventDescriptor.fd = some f)
    (hrun₁ : Steps (CountedStep usePipe2 t f.id) (⟨w₁, fs, .user⟩, ⟨owed t fs, 0⟩) as₁ (c₁, g₁))
    (hstart : CountedStep usePipe2 t f.id (c₁, g₁)
      (.event (.ret (.timerStart (some t) msec true) EMResult.success.code)) (c₂, g₂))
    (hrun₂ : Steps (CountedStep usePipe2 t f.id) (c₂, g₂) as₂ (c₃, g₃)) (hmode : c₃.mode ≠ .crashed)
    (hlast : ∀ a ∈ as₂, ¬ a.Starts t) :
    ∃ k n, callback = some k ∧
      c₃.world.callbacks t = c₁.world.callbacks t ++ List.replicate n (.callback k t data) ∧
      n + owed t c₃.stack + (c₃.world.kernel.timerfds f.id).pending +
        (if (c₃.world.kernel.timerfds f.id).armed.isSome then 1 else 0) ≤ owed t c₁.stack + 1 := by
  obtain ⟨hf₁, hf₂, k, n, hk, hcalls, hbalance⟩ := books_since_start hcreate hf hrun₁ hstart hrun₂ hmode
  obtain ⟨htimerfd, -⟩ := hstart.started hf₁
  have hfirst : AtMostOnce f.id g₂.expirations c₂ g₂ := by
    refine Or.inl ⟨rfl, fun s hs => ?_⟩
    rw [htimerfd] at hs
    dsimp only at hs
    split at hs
    · exact absurd hs nofun
    · obtain rfl := Option.some.inj hs
      rfl
  obtain ⟨honce, hdisc⟩ := hfirst.run hf₂ hrun₂ hlast hmode
  refine ⟨k, n, hk, hcalls, ?_⟩
  rcases honce with ⟨hexp, -⟩ | ⟨hexp, hnone⟩
  · split <;> omega
  · rw [hnone, if_neg (by simp)]
    omega

/-- After a successful periodic start, until the next start or stop, the timer stays armed as it has been
set, and none of its expirations is lost: each has been passed to the callback, is owed, or is waiting. -/
theorem periodic_keeps_going
    (hcreate : eventTimerCreate em (some t) callback data w₀ = .ok EMResult.success.code w₁)
    (hf : w₁.kernel.file (w₁.timers t).eventDescriptor.fd = some f)
    (hrun₁ : Steps (CountedStep usePipe2 t f.id) (⟨w₁, fs, .user⟩, ⟨owed t fs, 0⟩) as₁ (c₁, g₁))
    (hstart : CountedStep usePipe2 t f.id (c₁, g₁)
      (.event (.ret (.timerStart (some t) msec false) EMResult.success.code)) (c₂, g₂))
    (hrun₂ : Steps (CountedStep usePipe2 t f.id) (c₂, g₂) as₂ (c₃, g₃)) (hmode : c₃.mode ≠ .crashed)
    (hlast : ∀ a ∈ as₂, ¬ a.Sets t) (hmsec : msec ≠ 0) :
    (c₃.world.kernel.timerfds f.id).armed = some (startSetting msec false) ∧ ∃ k n, callback = some k ∧
      c₃.world.callbacks t = c₁.world.callbacks t ++ List.replicate n (.callback k t data) ∧
      n + owed t c₃.stack + (c₃.world.kernel.timerfds f.id).pending =
        owed t c₁.stack + as₂.count (.event (.env (.expire f.id))) := by
  obtain ⟨hf₁, hf₂, k, n, hk, hcalls, hbalance⟩ := books_since_start hcreate hf hrun₁ hstart hrun₂ hmode
  obtain ⟨htimerfd, -⟩ := hstart.started hf₁
  have htime : expirationTime msec ≠ ⟨0, 0⟩ := fun h => hmsec ((expirationTime_eq_zero msec).1 h)
  rw [if_neg htime] at htimerfd
  obtain ⟨harmed, hdisc, hexp⟩ := periodic_run (s := startSetting msec false) htime hrun₂
    (congrArg (·.armed) htimerfd) hlast hmode
  dsimp only at harmed hdisc hexp
  refine ⟨harmed, k, n, hk, hcalls, ?_⟩
  omega

end started

/-! ## A timer of each kind -/

theorem timerMade_created : eventTimerCreate (some 0) (some 0) (some 0) .null machineForTimer =
    .ok EMResult.success.code timerMade := rfl

theorem timerMade_file : timerMade.kernel.file (timerMade.timers 0).eventDescriptor.fd =
    some ⟨3, .timerfd, .timer 0, O_NONBLOCK, true⟩ := rfl

/-- The timer is started once and expires. -/
def shotArmed : World Unit := final ((Call.timerStart (some 0) 10 true).exec true) timerMade

def shotFired : World Unit := (Env.expire 3).exec shotArmed

theorem one_shot_fires_once_shotFired : ∃ k n, some 0 = some k ∧
    shotFired.callbacks 0 = timerMade.callbacks 0 ++ List.replicate n (.callback k 0 .null) ∧
    n + owed 0 [] + (shotFired.kernel.timerfds 3).pending +
      (if (shotFired.kernel.timerfds 3).armed.isSome then 1 else 0) ≤ owed 0 [] + 1 := by
  have hstart : CountedStep true 0 3 (⟨timerMade, [], .user⟩, ⟨0, 0⟩)
      (.event (.ret (.timerStart (some 0) 10 true) EMResult.success.code))
      (⟨shotArmed, [], .user⟩, ⟨0, 0⟩) := by
    refine ⟨⟨.call [] rfl, rfl⟩, ?_, rfl, rfl, fun h => absurd rfl h, nofun⟩
    rintro f r ⟨⟩
    exact id
  have hexpire : CountedStep true 0 3 (⟨shotArmed, [], .user⟩, ⟨0, 0⟩) (.event (.env (.expire 3)))
      (⟨shotFired, [], .user⟩, ⟨1, 0⟩) :=
    ⟨⟨.env _ _ _ _, rfl⟩, nofun, rfl, rfl, fun h => absurd rfl h, nofun⟩
  refine one_shot_fires_once timerMade_created timerMade_file (.nil _) hstart
    (.cons hexpire (.nil _)) (by decide) fun a ha => ?_
  obtain rfl := List.mem_singleton.1 ha
  exact id

theorem periodic_keeps_going_callbackCalled :
    (callbackCalled.world.kernel.timerfds 3).armed = some (startSetting 10 false) ∧
      ∃ k n, some 0 = some k ∧
        callbackCalled.world.callbacks 0 = timerMade.callbacks 0 ++ List.replicate n (.callback k 0 .null) ∧
        n + owed 0 callbackCalled.stack + (callbackCalled.world.kernel.timerfds 3).pending =
          owed 0 [] + [Act.event (.env (.expire 3)), .event (.env (.expire 3)), .run (some 0),
            .go timerReady, .go timerReady, .go timerReady].count (.event (.env (.expire 3))) := by
  have hstart : CountedStep true 0 3 (⟨timerMade, [], .user⟩, ⟨0, 0⟩)
      (.event (.ret (.timerStart (some 0) 10 false) EMResult.success.code))
      (⟨timerArmed, [], .user⟩, ⟨0, 0⟩) := by
    refine ⟨⟨.call [] rfl, rfl⟩, ?_, rfl, rfl, fun h => absurd rfl h, nofun⟩
    rintro f r ⟨⟩
    exact id
  have honce : CountedStep true 0 3 (⟨timerArmed, [], .user⟩, ⟨0, 0⟩) (.event (.env (.expire 3)))
      (⟨expiredOnce, [], .user⟩, ⟨1, 0⟩) :=
    ⟨⟨.env _ _ _ _, rfl⟩, nofun, rfl, rfl, fun h => absurd rfl h, nofun⟩
  have htwice : CountedStep true 0 3 (⟨expiredOnce, [], .user⟩, ⟨1, 0⟩) (.event (.env (.expire 3)))
      (⟨expiredTwice, [], .user⟩, ⟨2, 0⟩) :=
    ⟨⟨.env _ _ _ _, rfl⟩, nofun, rfl, rfl, fun h => absurd rfl h, nofun⟩
  have henter : CountedStep true 0 3 (⟨expiredTwice, [], .user⟩, ⟨2, 0⟩) (.run (some 0))
      (timerWaiting, ⟨2, 0⟩) :=
    ⟨⟨.enter [] rfl rfl, rfl⟩, nofun, rfl, rfl, fun _ => rfl, nofun⟩
  have hwait : CountedStep true 0 3 (timerWaiting, ⟨2, 0⟩) (.go timerReady)
      (timerWaiting.go timerReady, ⟨2, 0⟩) :=
    ⟨⟨.of_go rfl timerWaiting_mayReport, rfl⟩, nofun, rfl, rfl, fun _ => rfl, nofun⟩
  have hserve : CountedStep true 0 3 (timerWaiting.go timerReady, ⟨2, 0⟩) (.go timerReady)
      (timerRung, ⟨2, 0⟩) := by
    refine ⟨⟨.of_go rfl nofun, rfl⟩, nofun, rfl, rfl, fun h => absurd rfl h, ?_⟩
    rintro p ⟨⟩ hp
    exact absurd rfl hp
  have hcall : CountedStep true 0 3 (timerRung, ⟨2, 0⟩) (.go timerReady) (callbackCalled, ⟨2, 0⟩) :=
    ⟨⟨.of_go rfl nofun, rfl⟩, nofun, rfl, rfl, fun _ => rfl, nofun⟩
  refine periodic_keeps_going timerMade_created timerMade_file (.nil _) hstart
    (.cons honce <| .cons htwice <| .cons henter <| .cons hwait <| .cons hserve <| .cons hcall (.nil _))
    (by decide) (fun a ha => ?_) (by decide)
  simp only [List.mem_cons, List.not_mem_nil, or_false] at ha
  rcases ha with rfl | rfl | rfl | rfl | rfl | rfl <;> exact id

end EventMachine
