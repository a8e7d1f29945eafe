import EventMachine.Registry.Agreement
import EventMachine.Timers.Creation
import EventMachine.Timers.References

/-!
# Destroying a timer

`event_timer_destroy()` closes the timerfd whatever happens, which takes it out of the interest set.
The storage is asked to forget the timer by `event_machine_delete()` only, and that function asks it
last: when the queue has been closed already, or one of its system calls fails, the storage keeps a
pointer into the memory of the timer, which the caller is free to reuse (`timer_forgotten_iff`).
-/

namespace EventMachine

open Lib

variable {σ : Type}

/-- A timer that has been created and not been destroyed yet: no registry knew of it before it was
created on `em`, and every step since then has left it alive. -/
structure TimerAlive (view : σ → Int → Option EDRef) (usePipe2 : Bool) (em : EMPtr) (t : TimerPtr)
    (w₀ : World σ) (c : Config σ) : Prop where
  callbacks : ∀ m, (w₀.ems m).descriptorStorage.Viewed view
  noEntry : ∀ q n ev, w₀.kernel.interest q n = some ev → ev.data ≠ some (.timer t)
  notStored : ∀ n, view w₀.storage n ≠ some (some (.timer t))
  life : ∃ callback data w₁ fs as,
    eventTimerCreate (some em) (some t) callback data w₀ = .ok EMResult.success.code w₁ ∧
      Steps (SparingStep usePipe2 t) ⟨w₁, fs, .user⟩ as c
  mode : c.mode = .user

/-- What holds of a timer while it is alive. -/
structure Referenced (view : σ → Int → Option EDRef) (em : EMPtr) (t : TimerPtr) (fd : Int)
    (w : World σ) : Prop where
  callbacks : ∀ m, (w.ems m).descriptorStorage.Viewed view
  machine : (w.timers t).eventMachine = some em
  number : (w.timers t).eventDescriptor.fd = fd
  timerfd : (w.kernel.file fd).isSome
  interest : ∀ q n ev, w.kernel.interest q n = some ev → ev.data = some (.timer t) → n = fd
  stored : ∀ n, view w.storage n = some (some (.timer t)) → n = fd

namespace Referenced
variable {view : σ → Int → Option EDRef} {em : EMPtr} {t : TimerPtr} {fd : Int} {usePipe2 : Bool}

theorem step {c c' : Config σ} {a : Act} (h : Referenced view em t fd c.world)
    (hs : SparingStep usePipe2 t c a c') (hmode : c'.mode ≠ .crashed) :
    Referenced view em t fd c'.world := by
  have hfiled := hs.filed hmode h.callbacks
  have htimerfd := hs.timerfd
  rw [h.number] at hfiled htimerfd
  refine ⟨fun m => ?_, ?_, ?_, ?_, fun q n ev he hd => ?_, fun n hv => ?_⟩
  · rw [hfiled.callbacks]
    exact h.callbacks m
  · rw [hs.memory]
    exact h.machine
  · rw [hs.memory]
    exact h.number
  · rw [htimerfd]
    exact h.timerfd
  · exact (hfiled.interest q n ev he hd).elim id fun he' => h.interest q n ev he' hd
  · exact (hfiled.stored n hv).elim id fun hv' => h.stored n hv'

end Referenced

theorem Referenced.of_create {view : σ → Int → Option EDRef} {em : EMPtr} {t : TimerPtr}
    {callback : Option Nat} {data : VoidPtr} {w w' : World σ}
    (hs : ∀ m, (w.ems m).descriptorStorage.Viewed view)
    (hi : ∀ q n ev, w.kernel.interest q n = some ev → ev.data ≠ some (.timer t))
    (hv : ∀ n, view w.storage n ≠ some (some (.timer t)))
    (h : eventTimerCreate (some em) (some t) callback data w = .ok EMResult.success.code w') :
    Referenced view em t (w.kernel.timerfdCreate (.timer t)).1 w' := by
  obtain ⟨_, k, f, ⟨⟩, rfl, hmade, hadd⟩ := create_success h
  have hout := wp_ok (add_spec _ _ _) hadd
  have hems : (w.timerOpened em t k data).ems = w.ems := rfl
  have htimer : w'.timers t = createdTimer em t (w.kernel.timerfdCreate (.timer t)).1 k data := by
    rw [hout.timers, hmade.timer]
  have hfiled : Filed view t (w.kernel.timerfdCreate (.timer t)).1 w w' :=
    hmade.filed.trans (Outcome.filed (c := .add (some (.timer t))) hout (hs em)
      (by rw [hmade.timer]; rfl) fun _ _ h => absurd h (by simp))
  refine ⟨fun m => ?_, by rw [htimer]; rfl, by rw [htimer]; rfl, ?_, fun q n ev he hd => ?_,
    fun n hn => ?_⟩
  · rw [hfiled.callbacks]
    exact hs m
  · rw [hout.file, hmade.made.opens.file, if_pos rfl]
    rfl
  · exact (hfiled.interest q n ev he hd).resolve_right fun he' => hi q n ev he' hd
  · exact (hfiled.stored n hn).resolve_right (hv n)

theorem TimerAlive.referenced {view : σ → Int → Option EDRef} {usePipe2 : Bool} {em : EMPtr}
    {t : TimerPtr} {w₀ : World σ} {c : Config σ} (h : TimerAlive view usePipe2 em t w₀ c) :
    ∃ fd, Referenced view em t fd c.world := by
  obtain ⟨callback, data, w₁, fs, as, hcreate, hrun⟩ := h.life
  have hstart := Referenced.of_create h.callbacks h.noEntry h.notStored hcreate
  refine ⟨_, hrun.invariant (I := fun c => c.mode ≠ .crashed → Referenced view em t _ c.world)
    (fun c a c' hc hs hmode => ?_) (fun _ => hstart) (by rw [h.mode]; decide)⟩
  exact (hc (hs.step.not_crashed hmode)).step hs hmode

/-! ## The call -/

/-- The timerfd is closed, and nothing refers to the timer any more. -/
structure TimerForgotten (view : σ → Int → Option EDRef) (t : TimerPtr) (fd : Int) (w : World σ) :
    Prop where
  closed : w.kernel.file fd = none
  interest : ∀ q n ev, w.kernel.interest q n = some ev → ev.data ≠ some (.timer t)
  stored : ∀ n, view w.storage n ≠ some (some (.timer t))

/-- The storage does not hold the timer, or it has a callback for removals and
`event_machine_delete()` gets as far as calling it. -/
def StorageAsked (view : σ → Int → Option EDRef) (em : EMPtr) (t : TimerPtr) (w : World σ) : Prop :=
  (∀ n, view w.storage n ≠ some (some (.timer t))) ∨
    ((w.ems em).descriptorStorage.remove ≠ none ∧
      Reaches w em (deleteChange w em (w.timers t).eventDescriptor.fd none))

theorem TimerDestroyOutcome.closed {w w' : World σ} {t : TimerPtr} {r : UInt32}
    (h : TimerDestroyOutcome w t r w') :
    ∃ r' w₁ ret w₂, TimerDeleted w t r' w₁ ∧
      Closed w₁ (.timer t) (w.timers t).eventDescriptor.fd ret w₂ ∧
      w'.kernel.core = w₂.kernel.core ∧ w'.storage = w₂.storage := by
  cases h with
  | notDeleted e _ deleted closed => exact ⟨_, _, _, _, deleted, closed, rfl, rfl⟩
  | notClosed deleted closed => exact ⟨_, _, _, _, deleted, closed, rfl, rfl⟩
  | done deleted closed => exact ⟨_, _, _, _, deleted, closed, rfl, rfl⟩

theorem Outcome.delete_storage {w w' : World σ} {em : EMPtr} {fd : Int} {r : UInt32 × OutVar}
    (h : Outcome w em (deleteChange w em fd none) none r w') :
    (¬ Reaches w em (deleteChange w em fd none) ∧ w'.storage = w.storage) ∨
      (Reaches w em (deleteChange w em fd none) ∧
        w'.storage = ((w.ems em).descriptorStorage.removeEntry fd w.storage).2.2) := by
  cases h with
  | refused why _ same => exact Or.inl ⟨why.not_reaches, World.storage_congr same.core⟩
  | done _ _ _ core _ reached => exact Or.inr ⟨reached, World.storage_congr core⟩

/-- After a `event_timer_destroy()` nothing refers to the timer any more if and only if the storage has
been asked to forget it. -/
theorem timer_forgotten_iff {view : σ → Int → Option EDRef} {usePipe2 : Bool} {em : EMPtr}
    {t : TimerPtr} {w₀ : World σ} {c : Config σ} (h : TimerAlive view usePipe2 em t w₀ c)
    {r : UInt32} {w' : World σ} (hexec : eventTimerDestroy (some t) c.world = .ok r w') :
    TimerForgotten view t (c.world.timers t).eventDescriptor.fd w' ↔ StorageAsked view em t c.world := by
  obtain ⟨fd, href⟩ := h.referenced
  generalize c.world = w at href hexec ⊢
  obtain ⟨r', w₁, ret, w₂, ⟨m, old, hm, hout, -⟩, hclosed, hcore, hstorage⟩ :=
    (wp_ok (timerDestroy_spec t w) hexec).closed
  obtain rfl : em = m := Option.some.inj (href.machine.symm.trans hm)
  have hnumber := href.number
  unfold StorageAsked
  rw [hnumber] at hout hclosed ⊢
  have hst : w'.storage = w₁.storage := hstorage.trans (congrArg (·.storage) hclosed.only)
  constructor
  · intro hforgotten
    by_contra hnot
    obtain ⟨hstored, hreach⟩ := not_or.1 hnot
    apply hstored
    intro n hn
    obtain rfl := href.stored n hn
    apply hforgotten.stored n
    rw [hst]
    rcases hout.delete_storage with ⟨-, hsame⟩ | ⟨hreached, hremoved⟩
    · rwa [hsame]
    · have hnone : (w.ems em).descriptorStorage.remove = none := by
        by_contra hne
        exact hreach ⟨hne, hreached⟩
      rw [hremoved]
      simp only [EMDescriptorStorage.removeEntry, hnone]
      exact hn
  · intro hasked
    obtain ⟨f, hf⟩ := Option.isSome_iff_exists.1 href.timerfd
    refine ⟨?_, fun q n ev he hd => ?_, fun n hn => ?_⟩
    · rw [Kernel.file_congr hcore, hclosed.file, if_pos rfl]
    · -- closing the timerfd takes its number out of every interest set
      rw [Kernel.interest_congr hcore, Kernel.interest_congr hclosed.core,
        Kernel.released_interest ((hout.file fd).trans hf)] at he
      have hfiled : Filed view t fd w w₁ :=
        Outcome.filed (c := .delete fd none) hout (href.callbacks em) hnumber
          fun _ _ h => absurd h (by simp)
      split at he
      · exact absurd he (by simp)
      · next hor =>
        rcases hfiled.interest q n ev he hd with hn | he'
        · exact hor (Or.inr hn)
        · exact hor (Or.inr (href.interest q n ev he' hd))
    · rw [hst] at hn
      rcases hout.delete_storage with ⟨hrefused, hsame⟩ | ⟨-, hremoved⟩
      · rw [hsame] at hn
        rcases hasked with hnot | ⟨-, hreach⟩
        · exact hnot n hn
        · exact hrefused hreach
      · rw [hremoved] at hn
        have hbefore := (href.callbacks em).removeEntry hn
        rcases hasked with hnot | ⟨hremove, -⟩
        · exact hnot n hbefore
        · obtain ⟨remove, hr⟩ := Option.ne_none_iff_exists'.1 hremove
          simp only [EMDescriptorStorage.removeEntry, hr] at hn
          rw [(href.callbacks em).remove remove hr, href.stored n hbefore, Function.update_self] at hn
          exact absurd hn (by simp)

/-! ## A storage of lists -/

theorem DescriptorStore.viewed (S : DescriptorStore σ) {s : EMDescriptorStorage σ}
    (hinsert : s.insert = some S.insert) (hremove : s.remove = some S.remove) : s.Viewed S.view := by
  constructor
  · intro f hf fd p st
    obtain rfl := Option.some.inj (hinsert.symm.trans hf)
    by_cases hfree : S.view st fd = none
    · exact Or.inr (S.insert_free st fd p hfree).2
    · exact Or.inl (S.insert_taken st fd p hfree).2
  · intro f hf fd st
    obtain rfl := Option.some.inj (hremove.symm.trans hf)
    exact S.view_remove st fd

/-- A machine with a timer, and the machine destroyed before the timer. -/
def listTimer : World (List (Int × EDRef)) :=
  final (eventTimerCreate (some 0) (some 0) (some 0) .null) listMachine

def listDestroyed : World (List (Int × EDRef)) := final (eventMachineDestroy (some 0)) listTimer

theorem listMachine_filed (fd : Int) : Filed listStore.view 0 fd listWorld listMachine := by
  have hinit : eventMachineInit true (some 0) listWorld = .ok EMResult.success.code listMachine := rfl
  obtain ⟨ms, m, hb, hout⟩ := wp_ok (init_spec true listWorld 0) hinit
  exact hout.filed hb

theorem listTimer_alive : TimerAlive listStore.view true 0 0 listMachine ⟨listTimer, [], .user⟩ where
  callbacks m := by
    rw [(listMachine_filed 0).callbacks]
    exact DescriptorStore.viewed listStore rfl rfl
  noEntry q n ev he hd := by
    have hn : ∀ fd : Int, n = fd := fun fd =>
      ((listMachine_filed fd).interest q n ev he hd).resolve_right fun h =>
        absurd h (Option.some_ne_none ev).symm
    exact absurd ((hn 0).symm.trans (hn 1)) (by decide)
  notStored n hn := by
    change ([] : List (Int × EDRef)).lookup n = _ at hn
    simp at hn
  life := ⟨some 0, .null, listTimer, [], [], rfl, .nil _⟩
  mode := rfl

theorem timer_forgotten_listTimer :
    TimerForgotten listStore.view 0 3 (final (eventTimerDestroy (some 0)) listTimer) := by
  have hasked : StorageAsked listStore.view 0 0 listTimer :=
    Or.inr ⟨Option.some_ne_none listStore.remove, ⟨⟨rfl, rfl, rfl, rfl⟩, Or.inl rfl,
      ⟨⟨2, .epoll, .machine 0, 0, true⟩, ⟨rfl, rfl, rfl, by decide, rfl⟩⟩⟩⟩
  exact (timer_forgotten_iff listTimer_alive (r := EMResult.success.code) rfl).2 hasked

/-- The storage of a machine that has been destroyed keeps its pointer to the timer. -/
theorem not_timer_forgotten : ¬ ∀ (c : Config (List (Int × EDRef))) (r : UInt32)
    (w' : World (List (Int × EDRef))), TimerAlive listStore.view true 0 0 listMachine c →
      eventTimerDestroy (some 0) c.world = .ok r w' →
        TimerForgotten listStore.view 0 (c.world.timers 0).eventDescriptor.fd w' := by
  intro h
  have hdestroy : SparingStep true 0 ⟨listTimer, [], .user⟩
      (.event (.ret (.destroy (some 0)) EMResult.errorClose.code)) ⟨listDestroyed, [], .user⟩ := by
    refine ⟨.call [] rfl, ?_, rfl, rfl⟩
    rintro f r ⟨⟩
    trivial
  have halive : TimerAlive listStore.view true 0 0 listMachine ⟨listDestroyed, [], .user⟩ :=
    { listTimer_alive with
      life := ⟨some 0, .null, listTimer, [], _, rfl, .cons hdestroy (.nil _)⟩, mode := rfl }
  have hforgotten := h ⟨listDestroyed, [], .user⟩ EMResult.errorBadfd.code
    (final (eventTimerDestroy (some 0)) listDestroyed) halive rfl
  exact hforgotten.stored 3 rfl

end EventMachine
