import EventMachine.Timers.References
import EventMachine.Timers.Silence

/-!
# The assertions of timers

The comments next to the assertions of `event_timer_create()` and `event_timer_destroy()` say that their
conditions have been checked before. In `event_timer_create()` they have. `event_timer_destroy()` checks
its own argument only, and the machine a cleared timer names is `NULL`: destroying a timer twice ends in
the first assertion. The handler expects its `read()` to find a timerfd, but a failed
`event_timer_destroy()` closes the number and leaves it in the timer, whose descriptor may still be
served in the same batch. These are the only two ways into a failed assertion (`timer_assertions`).
-/

namespace EventMachine

open Lib

variable {σ : Type}

/-! ## What storage callbacks return -/

/-- `EM_SUCCESS` and `EM_ERROR_STORAGE_*`. -/
def StorageCode (r : UInt32) : Prop :=
  r = EMResult.success.code ∨ r = EMResult.errorStorageDuplicateEntry.code ∨
    r = EMResult.errorStorageNoSuchEntry.code

/-- The callbacks of the storage return such codes only. -/
structure EMDescriptorStorage.ReturnsCodes (s : EMDescriptorStorage σ) : Prop where
  insert : ∀ f, s.insert = some f → ∀ fd p st, StorageCode (f fd p st).1
  remove : ∀ f, s.remove = some f → ∀ fd st, StorageCode (f fd st).1

/-- What `event_machine_add()` and `event_machine_delete()` return, when they are given a machine and a
descriptor. -/
def RegCode (r : UInt32) : Prop :=
  r = EMResult.errorBadfd.code ∨ r = EMResult.errorEventCtl.code ∨ StorageCode r

/-- The codes the assertions exclude. -/
def NullCode (r : UInt32) : Prop :=
  r = EMResult.errorNull.code ∨ r = EMResult.errorDescriptorNull.code

theorem RegCode.not_null {r : UInt32} (h : RegCode r) : ¬ NullCode r := by
  rcases h with rfl | rfl | rfl | rfl | rfl <;> unfold NullCode <;> decide

theorem RegCode.ne_timerfdCreate {r : UInt32} (h : RegCode r) : r ≠ EMResult.errorTimerfdCreate.code := by
  rcases h with rfl | rfl | rfl | rfl | rfl <;> decide

namespace EMDescriptorStorage.ReturnsCodes
variable {s : EMDescriptorStorage σ}

theorem insertEntry (h : s.ReturnsCodes) (fd : Int) (p : EDRef) (st : σ) :
    StorageCode (s.insertEntry fd p st).1 := by
  rcases s.insertEntry_cases fd p st with heq | ⟨f, hf, heq⟩
  · rw [heq]
    exact Or.inl rfl
  · rw [heq]
    exact h.insert f hf fd p st

theorem removeEntry (h : s.ReturnsCodes) (fd : Int) (st : σ) : StorageCode (s.removeEntry fd st).1 := by
  rcases s.removeEntry_cases fd st with heq | ⟨f, hf, heq⟩
  · rw [heq]
    exact Or.inl rfl
  · rw [heq]
    exact h.remove f hf fd st

end EMDescriptorStorage.ReturnsCodes

theorem Refusal.code {w : World σ} {em : EMPtr} {c : Change σ} {r : UInt32} (h : Refusal w em c r)
    (hc : c.op = .add → c.event.data ≠ none) : RegCode r := by
  rcases h.cause hc with ⟨rfl, -⟩ | ⟨rfl, -⟩
  · exact Or.inl rfl
  · exact Or.inr (Or.inl rfl)

theorem Outcome.add_code {w w' : World σ} {em : EMPtr} {p : EDPtr} {r : UInt32 × OutVar}
    (h : Outcome w em (addChange w em (some p)) none r w')
    (hs : (w.ems em).descriptorStorage.ReturnsCodes) : RegCode r.1 := by
  cases h with
  | refused why => exact why.code fun _ => Option.some_ne_none p
  | done _ _ code =>
    rw [code]
    exact Or.inr (Or.inr (hs.insertEntry _ _ _))

theorem Outcome.delete_code {w w' : World σ} {em : EMPtr} {fd : Int} {oldEd : OutVar}
    {r : UInt32 × OutVar} (h : Outcome w em (deleteChange w em fd oldEd) oldEd r w')
    (hs : (w.ems em).descriptorStorage.ReturnsCodes) : RegCode r.1 := by
  cases h with
  | refused why => exact why.code nofun
  | done _ _ code =>
    rw [code]
    exact Or.inr (Or.inr (hs.removeEntry _ _))

/-! ## The calls -/

section calls
variable {w w' : World σ} {t : TimerPtr}

/-- The assertions of `event_timer_create()` hold. -/
theorem create_not_asserts (em : EMRef) (callback : Option Nat) (data : VoidPtr)
    (hs : ∀ m, (w.ems m).descriptorStorage.ReturnsCodes) (e : Crash) :
    eventTimerCreate em (some t) callback data w ≠ .error e w' := by
  intro hexec
  cases em with
  | none => exact absurd hexec (by simp [eventTimerCreate, pure, EStateM.pure])
  | some m =>
  cases callback with
  | none => exact absurd hexec (by simp [eventTimerCreate, pure, EStateM.pure])
  | some k =>
  have hcall : wp (eventTimerCreate (some m) (some t) (some k) data) (fun _ _ => True)
      (fun _ _ => False) w := by
    refine wp_eventTimerCreate.2 ⟨fun _ => trivial, fun _ => ?_⟩
    refine wp_mono (createAdd_spec _ _ _ _) (fun _ _ _ => trivial) ?_
    rintro e w₂ ⟨r, hadd, hnull⟩
    exact ((wp_ok (add_spec _ _ _) hadd).add_code (hs m)).not_null hnull
  exact wp_error hcall hexec

theorem destroy_not_asserts (hs : ∀ m, (w.ems m).descriptorStorage.ReturnsCodes)
    (hm : (w.timers t).eventMachine ≠ none) (e : Crash) :
    eventTimerDestroy (some t) w ≠ .error e w' := by
  intro hexec
  rcases wp_error (timerDestroy_spec t w) hexec with ⟨hnone, -⟩ | ⟨r, ⟨em, old, -, hout, -⟩, hnull⟩
  · exact hm hnone
  · exact (hout.delete_code (hs em)).not_null hnull

theorem Kernel.readExpirations_timerfd {k : Kernel} {fd : Int} {f : File} (hf : k.file fd = some f)
    (hkind : f.kind = .timerfd) (hfault : k.faults .read 0 = none ∨ k.faults .read 0 = some .EAGAIN) :
    (k.readExpirations fd).1.1 = 8 ∨ (k.readExpirations fd).2.errno = .EAGAIN := by
  have hturn : (k.turn .read).1 = k.faults .read 0 := rfl
  unfold Kernel.readExpirations
  simp only [Kernel.file_turn, hf, hturn]
  rcases hfault with hfault | hfault
  · simp only [hfault, hkind, ne_eq, not_true_eq_false, if_false]
    split
    · exact Or.inr rfl
    · exact Or.inl rfl
  · simp only [hfault]
    exact Or.inr trivial

theorem read_not_asserts {fd : Int} {data : VoidPtr} {f : File} (hf : w.kernel.file fd = some f)
    (hkind : f.kind = .timerfd)
    (hfault : w.kernel.faults .read 0 = none ∨ w.kernel.faults .read 0 = some .EAGAIN) (e : Crash) :
    internalTimeoutRead fd data w ≠ .error e w' := by
  intro hexec
  have hread := Kernel.readExpirations_timerfd hf hkind hfault
  have hcall : wp (internalTimeoutRead fd data) (fun _ _ => True) (fun _ _ => False) w := by
    unfold internalTimeoutRead
    rw [wp_bind, wp_cAssert]
    refine ⟨fun _ => ?_, fun h => h (Kernel.nonneg_of_file hf)⟩
    rw [wp_bind]
    apply (wp_modifyGet _).2
    rw [wp_bind, wp_getErrno, wp_ite]
    refine ⟨fun _ => trivial, fun hagain => ?_⟩
    rw [wp_bind, wp_cAssert]
    refine ⟨fun _ => trivial, fun h8 => ?_⟩
    exact hagain ⟨h8, hread.resolve_left h8⟩
  exact wp_error hcall hexec

/-- What a creation leaves of the timer, by its code. -/
inductive CreateLeaves (w : World σ) (t : TimerPtr) (r : UInt32) (w' : World σ) : Prop
  | noTimerfd (code : r = EMResult.errorTimerfdCreate.code)
      (machine : (w'.timers t).eventMachine ≠ none)
      (descriptor : (w'.timers t).eventDescriptor = (w.timers t).eventDescriptor)
      (file : ∀ n, w'.kernel.file n = w.kernel.file n)
  | made (code : r = EMResult.success.code) (machine : (w'.timers t).eventMachine ≠ none)
      (f : File) (file : w'.kernel.file (w'.timers t).eventDescriptor.fd = some f)
      (kind : f.kind = .timerfd)
  | cleared (code : r ≠ EMResult.errorTimerfdCreate.code) (failed : r ≠ EMResult.success.code)
      (timer : w'.timers t = shredded)

theorem create_leaves {em : EMPtr} {callback : Nat} {data : VoidPtr} {r : UInt32}
    (hs : (w.ems em).descriptorStorage.ReturnsCodes)
    (hexec : eventTimerCreate (some em) (some t) (some callback) data w = .ok r w') :
    CreateLeaves w t r w' := by
  refine wp_ok (Q := CreateLeaves w t) (E := fun _ _ => True)
    (wp_eventTimerCreate.2 ⟨fun hneg => ?_, fun hpos => ?_⟩) hexec
  · refine .noTimerfd rfl ?_ ?_ ?_
    · rw [World.timerfdRefused]
      simp
    · rw [World.timerfdRefused]
      simp
    · rcases Kernel.timerfdCreate_cases w.kernel (.timer t) with ⟨-, hcore⟩ | ⟨f, hmade⟩
      · exact Kernel.file_congr hcore
      · exact absurd hmade.opens.nonneg (by omega)
  obtain ⟨f, hmade⟩ := timerOpened_made em callback data hpos
  refine wp_mono (createAdd_spec _ _ _ _) ?_ fun _ _ _ => trivial
  rintro r w' ⟨w₂, hadd, ⟨rfl, rfl⟩ | ⟨hfail, ret, w₃, hclosed, rfl⟩⟩
  · have hout := wp_ok (add_spec _ _ _) hadd
    have htimer := (congrFun hout.timers t).trans hmade.timer
    refine .made rfl ?_ f ?_ hmade.made.kind
    · rw [htimer]
      exact Option.some_ne_none em
    · rw [htimer, hout.file, hmade.made.opens.file]
      exact if_pos rfl
  · have hcode := (wp_ok (add_spec _ _ _) hadd).add_code hs
    exact .cleared hcode.ne_timerfdCreate hfail (World.setTimer_self _ _ _)

theorem destroy_leaves {r : UInt32} (hexec : eventTimerDestroy (some t) w = .ok r w') :
    (r = EMResult.success.code ∧ w'.timers t = shredded) ∨
      (r ≠ EMResult.success.code ∧ w'.timers t = w.timers t) := by
  have hkept : ∀ {r' ret w₁ w₂}, TimerDeleted w t r' w₁ →
      Closed w₁ (.timer t) (w.timers t).eventDescriptor.fd ret w₂ → w₂.timers t = w.timers t := by
    rintro r' ret w₁ w₂ ⟨em, old, -, hout, -⟩ hclosed
    rw [show w₂.timers = w₁.timers from congrArg (·.timers) hclosed.only, hout.timers]
  cases wp_ok (timerDestroy_spec t w) hexec with
  | notDeleted e code deleted closed =>
    have hsame := hkept deleted closed
    exact Or.inr ⟨code, hsame⟩
  | notClosed deleted closed => exact Or.inr ⟨by decide, hkept deleted closed⟩
  | done deleted closed => exact Or.inl ⟨rfl, World.setTimer_self _ _ _⟩

end calls

/-! ## The life of a timer -/

/-- What the event descriptor of a timer is: nothing `event_timer_create()` has filled in, or cleared
since; one with a timerfd; one whose timerfd a failed `event_timer_destroy()` has closed. -/
inductive DescriptorLife
  | blank
  | opened
  | closed
  deriving DecidableEq

/-- Whether the timer names a machine, and what its event descriptor is. -/
structure TimerLife where
  machine : Bool
  descriptor : DescriptorLife

/-- A timer is given a machine first; what it has been given is taken away when a creation or a
destruction clears it. -/
def live (t : TimerPtr) (_ : Config σ) (a : Act) (_ : Config σ) (x : TimerLife) : TimerLife :=
  match a with
  | .event (.ret (.timerCreate (some _) (some t') (some _) _) r) =>
    if t' ≠ t then x
    else if r = EMResult.success.code then ⟨true, .opened⟩
    else if r = EMResult.errorTimerfdCreate.code then { x with machine := true }
    else ⟨false, .blank⟩
  | .event (.ret (.timerDestroy (some t')) r) =>
    if t' ≠ t then x
    else if r = EMResult.success.code then ⟨false, .blank⟩
    else if x.descriptor = .opened then { x with descriptor := .closed }
    else x
  | _ => x

/-- The memory of the timer is as its life says. -/
structure TimerLife.Holds (x : TimerLife) (t : TimerPtr) (w : World σ) : Prop where
  machine : x.machine = true → (w.timers t).eventMachine ≠ none
  blank : x.descriptor = .blank →
    (w.timers t).eventDescriptor.handler ≠ some .internalTimeoutHandler
  opened : x.descriptor = .opened →
    ∃ f, w.kernel.file (w.timers t).eventDescriptor.fd = some f ∧ f.kind = .timerfd

/-- The calls that write the timer. -/
def Call.Writes (t : TimerPtr) : Call → Prop
  | .timerCreate _ x _ _ | .timerDestroy x => x = some t
  | _ => False

/-- The steps that are such calls, whether they return or crash. -/
def Act.Writes (t : TimerPtr) : Act → Prop
  | .event (.ret f _) | .crash f => f.Writes t
  | _ => False

/-- The steps of a program in which nothing else writes the timer or closes its timerfd, with the
assumptions on storages and on the kernel: callbacks of a storage return codes of a storage, and reading
from an open timerfd fails when there is nothing to read only. -/
structure LifeStep (usePipe2 : Bool) (t : TimerPtr) (x : Config σ × TimerLife) (a : Act)
    (y : Config σ × TimerLife) : Prop where
  step : history (Step usePipe2) (live t) x a y
  memory : ¬ a.Writes t → y.1.world.timers t = x.1.world.timers t
  timerfd : ¬ a.Writes t → x.2.descriptor = .opened →
    y.1.world.kernel.file (x.1.world.timers t).eventDescriptor.fd =
      x.1.world.kernel.file (x.1.world.timers t).eventDescriptor.fd
  codes : ∀ m, (x.1.world.ems m).descriptorStorage.ReturnsCodes
  reads : x.1.serves = some (.timer t) →
    x.1.world.kernel.faults .read 0 = none ∨ x.1.world.kernel.faults .read 0 = some .EAGAIN

section steps
variable {usePipe2 : Bool} {t : TimerPtr} {c c' : Config σ} {x x' : TimerLife} {a : Act}

theorem live_of_not_writes (h : ¬ a.Writes t) : live t c a c' x = x := by
  unfold live
  split
  · next em t' k d r =>
    rw [if_pos fun ht => h (congrArg some ht)]
  · next t' r =>
    rw [if_pos fun ht => h (congrArg some ht)]
  · rfl

theorem TimerLife.Holds.create {w w' : World σ} {em : EMPtr} {callback : Nat} {data : VoidPtr}
    {r : UInt32} (h : x.Holds t w) (hs : (w.ems em).descriptorStorage.ReturnsCodes)
    (hexec : eventTimerCreate (some em) (some t) (some callback) data w = .ok r w') :
    (live t c (.event (.ret (.timerCreate (some em) (some t) (some callback) data) r)) c' x).Holds t
      w' := by
  simp only [live, ne_eq, not_true_eq_false, if_false]
  cases create_leaves hs hexec with
  | noTimerfd code machine descriptor file =>
    rw [if_neg (by rw [code]; decide), if_pos code]
    refine ⟨fun _ => machine, fun hb => ?_, fun ho => ?_⟩
    · rw [descriptor]
      exact h.blank hb
    · obtain ⟨f, hf, hkind⟩ := h.opened ho
      exact ⟨f, by rw [descriptor, file, hf], hkind⟩
  | made code machine f file kind =>
    rw [if_pos code]
    exact ⟨fun _ => machine, fun hb => absurd hb (by decide), fun _ => ⟨f, file, kind⟩⟩
  | cleared code failed timer =>
    rw [if_neg failed, if_neg code]
    refine ⟨fun hm => absurd hm (by decide), fun _ => ?_, fun ho => absurd ho (by decide)⟩
    rw [timer]
    exact (Option.some_ne_none _).symm

theorem TimerLife.Holds.destroy {w w' : World σ} {r : UInt32} (h : x.Holds t w)
    (hexec : eventTimerDestroy (some t) w = .ok r w') :
    (live t c (.event (.ret (.timerDestroy (some t)) r)) c' x).Holds t w' := by
  simp only [live, ne_eq, not_true_eq_false, if_false]
  rcases destroy_leaves hexec with ⟨hr, htimer⟩ | ⟨hr, htimer⟩
  · rw [if_pos hr]
    refine ⟨fun hm => absurd hm (by decide), fun _ => ?_, fun ho => absurd ho (by decide)⟩
    rw [htimer]
    exact (Option.some_ne_none _).symm
  · rw [if_neg hr]
    split
    · refine ⟨fun hm => ?_, fun hb => absurd hb (by simp), fun ho => absurd ho (by simp)⟩
      rw [htimer]
      exact h.machine hm
    · next hclosed =>
      refine ⟨fun hm => ?_, fun hb => ?_, fun ho => absurd ho hclosed⟩
      · rw [htimer]
        exact h.machine hm
      · rw [htimer]
        exact h.blank hb

/-- Every step keeps the memory of the timer as its life says. -/
theorem LifeStep.holds (hs : LifeStep usePipe2 t (c, x) a (c', x')) (hmode : c'.mode ≠ .crashed)
    (h : x.Holds t c.world) : x'.Holds t c'.world := by
  obtain ⟨⟨hstep, hlive⟩, hmemory, htimerfd, hcodes, -⟩ := hs
  dsimp only at hstep hlive hmemory htimerfd hcodes
  by_cases hwrites : ¬ a.Writes t
  · rw [hlive, live_of_not_writes hwrites]
    refine ⟨fun hm => ?_, fun hb => ?_, fun ho => ?_⟩
    · rw [hmemory hwrites]
      exact h.machine hm
    · rw [hmemory hwrites]
      exact h.blank hb
    · rw [hmemory hwrites, htimerfd hwrites ho]
      exact h.opened ho
  · rw [not_not] at hwrites
    cases hstep with
    | @call f w w' _ fs hexec =>
      have hf : f.Writes t := hwrites
      cases f with
      | timerCreate em y callback data =>
        obtain rfl : y = some t := hf
        cases em with
        | none =>
          obtain ⟨-, rfl⟩ := EStateM.Result.ok.inj hexec
          rwa [hlive]
        | some em =>
        cases callback with
        | none =>
          obtain ⟨-, rfl⟩ := EStateM.Result.ok.inj hexec
          rwa [hlive]
        | some callback =>
          rw [hlive]
          exact h.create (hcodes em) hexec
      | timerDestroy y =>
        obtain rfl : y = some t := hf
        rw [hlive]
        exact h.destroy hexec
      | _ => exact hf.elim
    | crash => exact absurd rfl hmode
    | _ => exact hwrites.elim

end steps

/-! ## Assertions -/

/-- The step fails an assertion of `event_timer_create()` or `event_timer_destroy()` called on the timer,
or of `internal_timeout_handler()` called through the event descriptor of the timer. -/
def AssertionFails (usePipe2 : Bool) (t : TimerPtr) (c : Config σ) : Act → Prop
  | .crash f => f.Writes t ∧ ∃ w, f.exec usePipe2 c.world = .error .assertion w
  | .go _ => ∃ em bl b rest bits fd data w₁ w₂, c.stack = .run em bl (some b) :: rest ∧
      b.pointer c.world b.i = some (.timer t) ∧
      runOnceSlot em b.events b.i b.breakLoopReadFd c.world =
        .ok (.handler .internalTimeoutHandler bits fd data) w₁ ∧
      internalTimeoutRead fd data w₁ = .error .assertion w₂
  | _ => False

/-- The next step calls the handler of the event descriptor of the timer, unless it is cleared. -/
def Config.Dispatches (c : Config σ) (t : TimerPtr) : Prop :=
  c.serves = some (.timer t) ∧ ∀ em bl b rest, c.stack = .run em bl (some b) :: rest →
    (c.world.timers t).eventDescriptor.fd ≠ b.breakLoopReadFd

/-- A timer is destroyed only while it names a machine, and its event descriptor is not dispatched with
a timerfd that has been closed, unless its number has become that of another timerfd. -/
def Prudent (t : TimerPtr) (c : Config σ) (x : TimerLife) : Act → Prop
  | .event (.ret (.timerDestroy (some t')) _) | .crash (.timerDestroy (some t')) =>
    t' = t → x.machine = true
  | .go _ => c.Dispatches t → x.descriptor = .closed →
    ∃ f, c.world.kernel.file (c.world.timers t).eventDescriptor.fd = some f ∧ f.kind = .timerfd
  | _ => True

/-- The steps of a program that takes this care. -/
def PrudentStep (usePipe2 : Bool) (t : TimerPtr) (x : Config σ × TimerLife) (a : Act)
    (y : Config σ × TimerLife) : Prop :=
  LifeStep usePipe2 t x a y ∧ Prudent t x.1 x.2 a

section steps
variable {usePipe2 : Bool} {t : TimerPtr} {c c' : Config σ} {x x' : TimerLife} {a : Act}

theorem PrudentStep.not_asserts (hs : PrudentStep usePipe2 t (c, x) a (c', x'))
    (h : x.Holds t c.world) : ¬ AssertionFails usePipe2 t c a := by
  obtain ⟨⟨⟨hstep, -⟩, -, -, hcodes, hreads⟩, hcare⟩ := hs
  dsimp only at hstep hcodes hreads hcare
  intro hfails
  cases hstep with
  | @crash f w w' e fs hexec =>
    obtain ⟨hf, w₂, hassert⟩ := hfails
    cases f with
    | timerCreate em y callback data =>
      obtain rfl : y = some t := hf
      exact create_not_asserts em callback data hcodes _ hassert
    | timerDestroy y =>
      obtain rfl : y = some t := hf
      exact destroy_not_asserts hcodes (h.machine (hcare rfl)) _ hassert
    | _ => exact hf.elim
  | @go w fs o hmay =>
    obtain ⟨em, bl, b, rest, bits, fd, data, w₁, w₂, hstack, hpointer, hslot, hread⟩ := hfails
    obtain rfl : fs = .run em bl (some b) :: rest := hstack
    obtain ⟨buf, e, p, hb, he, hp, hout⟩ := wp_ok (runOnceSlot_spec em b.events b.i _ w) hslot
    have hserves : (⟨w, .run em bl (some b) :: rest, .library⟩ : Config σ).serves = some (.timer t) :=
      hpointer
    obtain rfl : p = .timer t := by
      rw [Batch.pointer] at hpointer
      split at hpointer
      · rw [hb, Option.bind_some, he, Option.bind_some, hp] at hpointer
        exact Option.some.inj hpointer
      · exact absurd hpointer (by simp)
    cases hout with
    | handler _ hfd hh =>
      have hopen : ∃ f, w.kernel.file (w.timers t).eventDescriptor.fd = some f ∧ f.kind = .timerfd := by
        cases hd : x.descriptor with
        | blank => exact absurd hh (h.blank hd)
        | opened => exact h.opened hd
        | closed =>
          refine hcare ⟨hserves, ?_⟩ hd
          rintro em' bl' b' rest' hstack'
          obtain ⟨⟨rfl, rfl, rfl⟩, rfl⟩ := by simpa using hstack'
          exact hfd
      obtain ⟨f, hf, hkind⟩ := hopen
      refine read_not_asserts ?_ hkind ?_ _ hread
      · exact hf
      · exact hreads hserves
  | _ => exact hfails.elim

end steps

/-- No step of a run fails an assertion of the timer. -/
theorem timer_assertions {usePipe2 : Bool} {t : TimerPtr} {c₀ c c' : Config σ} {x x' : TimerLife}
    {as : List Act} {a : Act}
    (hstart : (c₀.world.timers t).eventDescriptor.handler ≠ some .internalTimeoutHandler)
    (hrun : Steps (PrudentStep usePipe2 t) (c₀, ⟨false, .blank⟩) as (c, x))
    (hstep : PrudentStep usePipe2 t (c, x) a (c', x')) : ¬ AssertionFails usePipe2 t c a := by
  have hholds : c.mode ≠ .crashed → x.Holds t c.world := by
    refine hrun.invariant (I := fun y => y.1.mode ≠ .crashed → y.2.Holds t y.1.world)
      (fun y a z hy hs hmode => ?_) fun _ => ?_
    · exact hs.1.holds hmode (hy (hs.1.step.1.not_crashed hmode))
    · exact ⟨fun hm => absurd hm (by simp), fun _ => hstart, fun ho => absurd ho (by simp)⟩
  intro hfails
  refine hstep.not_asserts (hholds fun hcrashed => ?_) hfails
  -- a program that has crashed calls nothing
  have hs : Step usePipe2 c a c' := hstep.1.step.1
  cases hs with
  | crash => exact absurd hcrashed (by simp)
  | go => exact absurd hcrashed (by simp)
  | _ => exact hfails.elim

/-! ## A timer that is served, and one that is destroyed twice -/

theorem machineForTimer_codes (m : EMPtr) :
    (machineForTimer.ems m).descriptorStorage.ReturnsCodes := by
  have hinit : eventMachineInit true (some 0) beforeTimer = .ok EMResult.success.code machineForTimer :=
    rfl
  obtain ⟨ms, m', hb, hout⟩ := wp_ok (init_spec true beforeTimer 0) hinit
  have hfiled : Filed (fun _ _ => none) 0 0 beforeTimer machineForTimer := hout.filed hb
  rw [hfiled.callbacks]
  exact ⟨nofun, nofun⟩

theorem LifeStep.of_silent {c c' : Config Unit} {x : TimerLife} {a : Act}
    (hs : Step true c a c') (hlive : live 0 c a c' x = x) (hems : c.world.ems = machineForTimer.ems)
    (hmemory : c'.world.timers 0 = c.world.timers 0)
    (hfile : c'.world.kernel.file (c.world.timers 0).eventDescriptor.fd =
      c.world.kernel.file (c.world.timers 0).eventDescriptor.fd)
    (hreads : c.world.kernel.faults .read 0 = none) : LifeStep true 0 (c, x) a (c', x) where
  step := ⟨hs, hlive.symm⟩
  memory _ := hmemory
  timerfd _ _ := hfile
  codes m := by
    rw [hems]
    exact machineForTimer_codes m
  reads _ := Or.inl hreads

theorem makeTimer_step : LifeStep true 0 (⟨machineForTimer, [], .user⟩, ⟨false, .blank⟩)
    (.event (.ret makeTimer 0)) (⟨timerMade, [], .user⟩, ⟨true, .opened⟩) :=
  ⟨⟨.call [] rfl, rfl⟩, fun h => absurd rfl h, fun h => absurd rfl h, machineForTimer_codes, nofun⟩

theorem timer_assertions_served :
    ¬ AssertionFails true 0 (timerWaiting.go timerReady) (.go timerReady) := by
  have harm : LifeStep true 0 (⟨timerMade, [], .user⟩, ⟨true, .opened⟩)
      (.event (.ret armTimer 0)) (⟨timerArmed, [], .user⟩, ⟨true, .opened⟩) :=
    .of_silent (.call [] rfl) rfl rfl rfl rfl rfl
  have hexpire : LifeStep true 0 (⟨timerArmed, [], .user⟩, ⟨true, .opened⟩)
      (.event (.env (.expire 3))) (⟨expiredOnce, [], .user⟩, ⟨true, .opened⟩) :=
    .of_silent (.env _ _ _ _) rfl rfl rfl rfl rfl
  have htwice : LifeStep true 0 (⟨expiredOnce, [], .user⟩, ⟨true, .opened⟩)
      (.event (.env (.expire 3))) (⟨expiredTwice, [], .user⟩, ⟨true, .opened⟩) :=
    .of_silent (.env _ _ _ _) rfl rfl rfl rfl rfl
  have henter : LifeStep true 0 (⟨expiredTwice, [], .user⟩, ⟨true, .opened⟩)
      (.run (some 0)) (timerWaiting, ⟨true, .opened⟩) :=
    .of_silent (.enter [] rfl rfl) rfl rfl rfl rfl rfl
  have hwait : LifeStep true 0 (timerWaiting, ⟨true, .opened⟩)
      (.go timerReady) (timerWaiting.go timerReady, ⟨true, .opened⟩) :=
    .of_silent (.of_go rfl timerWaiting_mayReport) rfl rfl rfl rfl rfl
  have hserve : LifeStep true 0 (timerWaiting.go timerReady, ⟨true, .opened⟩)
      (.go timerReady) (timerRung, ⟨true, .opened⟩) :=
    .of_silent (.of_go rfl nofun) rfl rfl rfl rfl rfl
  have hstart : ((⟨machineForTimer, [], .user⟩ : Config Unit).world.timers 0).eventDescriptor.handler ≠
      some .internalTimeoutHandler := nofun
  exact timer_assertions hstart
    (.cons ⟨makeTimer_step, trivial⟩ <| .cons ⟨harm, trivial⟩ <| .cons ⟨hexpire, trivial⟩ <|
      .cons ⟨htwice, trivial⟩ <| .cons ⟨henter, trivial⟩ <| .cons ⟨hwait, nofun⟩ (.nil _))
    ⟨hserve, nofun⟩

def timerGone : World Unit := final (eventTimerDestroy (some 0)) timerMade

/-- A timer that has been destroyed has no machine, and destroying it again fails an assertion. -/
theorem destroyed_twice : ∃ as c x c', Steps (LifeStep true 0) (⟨machineForTimer, [], .user⟩,
      ⟨false, .blank⟩) (.event (.ret makeTimer 0) :: as) (c, x) ∧
    LifeStep true 0 (c, x) (.crash (.timerDestroy (some 0))) (c', x) ∧
    AssertionFails true 0 c (.crash (.timerDestroy (some 0))) := by
  have hdestroy : LifeStep true 0 (⟨timerMade, [], .user⟩, ⟨true, .opened⟩)
      (.event (.ret (.timerDestroy (some 0)) 0)) (⟨timerGone, [], .user⟩, ⟨false, .blank⟩) :=
    ⟨⟨.call [] rfl, rfl⟩, fun h => absurd rfl h, fun h => absurd rfl h, machineForTimer_codes, nofun⟩
  have hagain : LifeStep true 0 (⟨timerGone, [], .user⟩, ⟨false, .blank⟩)
      (.crash (.timerDestroy (some 0))) (⟨timerGone, [], .crashed⟩, ⟨false, .blank⟩) :=
    .of_silent (.crash [] rfl) rfl rfl rfl rfl rfl
  exact ⟨_, _, _, _, .cons makeTimer_step (.cons hdestroy (.nil _)), hagain, rfl, timerGone, rfl⟩

end EventMachine
