import EventMachine.Proof.Consistent

/-!
# A failed creation leaves no trace

`event_machine_add()` may fail when the timerfd has been registered already, and it does not put that
right. `event_timer_create()` closes the timerfd then, and with it goes the entry of the interest set.
Since the number of the timerfd was free before, and no interest set has entries for free numbers, this
is all that has to be undone.
-/

namespace EventMachine

open Lib

variable {σ : Type}

/-! ## Closing a number that is new -/

theorem Kernel.released_interest {k : Kernel} {fd : Int} {f : File} (hf : k.file fd = some f)
    (q : ObjId) (n : Int) :
    (k.released fd).interest q n = if q = f.id ∨ n = fd then none else k.interest q n := by
  unfold released
  rw [hf]
  rfl

theorem Kernel.Consistent.reopened {k k₁ k₂ : Kernel} {owner : Owner} {fd : Int} {f : File}
    (h : k.Consistent) (hmade : TimerfdMade k owner fd f k₁)
    (hfile : ∀ n, k₂.file n = k₁.file n)
    (hinterest : ∀ q n, n ≠ fd → k₂.interest q n = k₁.interest q n) :
    (k₂.released fd).interest = k.interest ∧ ∀ n, (k₂.released fd).file n = k.file n := by
  have hf : k₂.file fd = some f := by rw [hfile, hmade.opens.file, if_pos rfl]
  refine ⟨?_, fun n => ?_⟩
  · funext q n
    rw [released_interest hf]
    split
    · next hor =>
      rcases hor with rfl | rfl
      · rw [hmade.opens.id, h.no_entries]
      · rw [h.no_entry hmade.opens.free]
    · next hor => rw [hinterest q n fun hn => hor (Or.inr hn), hmade.interest]
  · rw [released_file, hfile, hmade.opens.file]
    split
    · next hn => rw [hn, hmade.opens.free]
    · rfl

/-! ## The call -/

theorem add_storage {w w' : World σ} {em : EMPtr} {ed : EDRef} {r : UInt32 × OutVar}
    (h : Outcome w em (addChange w em ed) none r w')
    (hs : (w.ems em).descriptorStorage.InsertsClean) (hr : r.1 ≠ EMResult.success.code) :
    w'.storage = w.storage := by
  cases h with
  | refused _ _ same => exact World.storage_congr same.core
  | done _ _ code core =>
    apply (World.storage_congr core).trans
    rw [code] at hr
    exact hs.insertEntry hr

/-- Both registries and the open descriptors are as they were. -/
structure Untouched (w w' : World σ) : Prop where
  interest : w'.kernel.interest = w.kernel.interest
  storage : w'.storage = w.storage
  file : ∀ n, w'.kernel.file n = w.kernel.file n

/-- What a call of `event_timer_create()` leaves that has returned the error `r`. When it had opened a
timerfd, the timer is cleared and `errno` is the one `event_machine_add()` left. -/
structure CreationUndone (w : World σ) (em : EMPtr) (t : TimerPtr) (callback : Nat) (data : VoidPtr)
    (r : UInt32) (w' : World σ) : Prop where
  untouched : Untouched w w'
  cleared : 0 ≤ (w.kernel.timerfdCreate (.timer t)).1 →
    (w'.timers t).eventDescriptor.fd = -1 ∧ (w'.timers t).eventMachine = none ∧
      (w'.timers t).callback = none ∧ (w'.timers t).data = .null
  errno : 0 ≤ (w.kernel.timerfdCreate (.timer t)).1 →
    ∃ w₂, eventMachineAdd (some em) (some (.timer t)) (w.timerOpened em t callback data) = .ok r w₂ ∧
      w'.kernel.errno = w₂.kernel.errno

theorem TimerMade.undone {w w₁ w₂ w₃ : World σ} {em : EMPtr} {t : TimerPtr} {callback : Nat}
    {data : VoidPtr} {fd ret : Int} {f : File} {r : UInt32}
    (hmade : TimerMade w em t callback data fd f w₁) (hk : w.kernel.Consistent)
    (hs : (w.ems em).descriptorStorage.InsertsClean)
    (hadd : Outcome w₁ em (addChange w₁ em (some (.timer t))) none (r, none) w₂)
    (hr : r ≠ EMResult.success.code) (hclosed : Closed w₂ (.timer t) fd ret w₃) (e : Errno) :
    Untouched w ((w₃.setTimer t shredded).withErrno e) := by
  have hems : w₁.ems = w.ems := congrArg (·.ems) hmade.frame
  have hstorage : w₁.storage = w.storage := congrArg (·.storage) hmade.frame
  have hfd : (addChange w₁ em (some (.timer t))).fd = fd := by
    have htimers : w₁.timers = (w.setTimer t (createdTimer em t fd callback data)).timers :=
      congrArg (·.timers) hmade.frame
    simp [addChange, ctlFd, World.ed, htimers, createdTimer]
  obtain ⟨hinterest, hfile⟩ := hk.reopened hmade.made hadd.file
    fun q n hn => hadd.interest_of_ne q (by rwa [hfd])
  refine ⟨(Kernel.interest_congr hclosed.core).trans hinterest, ?_, fun n => ?_⟩
  · apply (congrArg (·.storage) hclosed.only).trans
    exact (add_storage hadd (by rwa [hems]) hr).trans hstorage
  · exact (Kernel.file_congr hclosed.core n).trans (hfile n)

/-- A failed `event_timer_create()` leaves the machine as it was, and clears the timer. -/
theorem failed_creation (w : World σ) (em : EMPtr) (t : TimerPtr) (callback : Nat) (data : VoidPtr)
    (hk : w.kernel.Consistent) (hs : (w.ems em).descriptorStorage.InsertsClean) {r : UInt32}
    {w' : World σ}
    (hexec : eventTimerCreate (some em) (some t) (some callback) data w = .ok r w')
    (hr : r ≠ EMResult.success.code) :
    CreationUndone w em t callback data r w' := by
  refine wp_ok (Q := fun r w' => r ≠ EMResult.success.code → CreationUndone w em t callback data r w')
    (E := fun _ _ => True) ?_ hexec hr
  refine wp_eventTimerCreate.2 ⟨fun hneg _ => ?_, fun hpos => ?_⟩
  · -- no timerfd has been opened
    refine ⟨?_, fun h => absurd hneg (by omega), fun h => absurd hneg (by omega)⟩
    rcases Kernel.timerfdCreate_cases w.kernel (.timer t) with ⟨-, hcore⟩ | ⟨f, hmade⟩
    · exact ⟨Kernel.interest_congr hcore, rfl, Kernel.file_congr hcore⟩
    · have := hmade.opens.nonneg
      omega
  · obtain ⟨f, hmade⟩ := timerOpened_made em callback data hpos
    refine wp_mono (createAdd_spec _ _ _ _) ?_ fun _ _ _ => trivial
    rintro r w' ⟨w₂, hadd, ⟨hok, -⟩ | ⟨-, ret, w₃, hclosed, rfl⟩⟩ hr
    · exact absurd hok hr
    · have hout := wp_ok (add_spec _ _ _) hadd
      refine ⟨hmade.undone hk hs hout hr hclosed _, fun _ => ?_, fun _ => ⟨w₂, hadd, rfl⟩⟩
      have hself : ((w₃.setTimer t shredded).withErrno w₂.kernel.errno).timers t = shredded :=
        World.setTimer_self w₃ t shredded
      rw [hself]
      exact ⟨rfl, rfl, rfl, rfl⟩

/-- A storage that is full. -/
def fullStorage : EMDescriptorStorage Unit where
  insert := some fun _ _ st => (EMResult.errorStorageDuplicateEntry.code, st)
  remove := none
  dataSize := 0
  data := .null

/-- A machine with that storage, before and after `event_machine_init()`. -/
def fullWorld : World Unit :=
  World.start { emStaticWithMaxEvents Unit 16 none with descriptorStorage := fullStorage } ()
    fun _ _ => none

def fullMachine : World Unit := final (eventMachineInit true (some 0)) fullWorld

theorem failed_creation_fullMachine :
    CreationUndone fullMachine 0 0 0 .null EMResult.errorStorageDuplicateEntry.code
      (final (eventTimerCreate (some 0) (some 0) (some 0) .null) fullMachine) := by
  have hinit : eventMachineInit true (some 0) fullWorld = .ok EMResult.success.code fullMachine := rfl
  have hk : fullMachine.kernel.Consistent :=
    (eventMachineInit_preserves Kernel.consistent_invariant true (some 0)).ok hinit
      (start_consistent _ _ _)
  refine failed_creation fullMachine 0 0 0 .null hk ?_ rfl (by decide)
  rintro f ⟨⟩ fd p st -
  rfl

end EventMachine
