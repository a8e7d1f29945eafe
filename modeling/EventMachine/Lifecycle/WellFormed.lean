import EventMachine.Dispatch.LoopRule
import EventMachine.Proof.Owned

/-!
# Well-formed machines

What `event_machine_init()` should establish when it reports success, and what `event_machine_run()`
relies on (`WellFormed`). Everything that is done with the machine afterwards keeps it
(`WellFormed.step`), and a machine that is well formed can be run. But `event_machine_init()` does not
look at the result of `malloc()`: when it has to allocate the buffer and gets no memory, it reports
success for a machine without one (`well_formed_iff`).
-/

namespace EventMachine

open Lib

variable {σ : Type}

/-- The buffer of a machine that was initialised in the world `w₀`: allocated by
`event_machine_init()`, with the room it was allocated with, or the user's, with the room the user has
promised for it. -/
inductive HasBuffer (w₀ : World σ) (em : EMPtr) (w : World σ) : Prop
  | allocated (b : BufPtr) (events : (w.ems em).events = some b)
      (free : (w.ems em).doFreeEvents = true)
      (room : w.mallocs = w₀.mallocs ++ [(b, (w.ems em).maxEvents)])
  | user (b : BufPtr) (events : (w.ems em).events = some b)
      (free : (w.ems em).doFreeEvents = false) (mallocs : w.mallocs = w₀.mallocs)
      (own : (w₀.ems em).events = some b) (room : (w.ems em).maxEvents = (w₀.ems em).maxEvents)

/-- A machine that was initialised in the world `w₀` is ready to run. -/
structure WellFormed (w₀ : World σ) (em : EMPtr) (w : World σ) : Prop where
  queue : ∃ q, w.kernel.file (w.ems em).queueFd = some q ∧ q.kind = .epoll ∧
    w.kernel.interest q.id (w.ems em).breakLoopPipe.1 = some ⟨EPOLLIN, some (.breakLoop em)⟩
  pipe : ∃ p r s, w.kernel.file (w.ems em).breakLoopPipe.1 = some r ∧ r.kind = .pipeRead p ∧
    w.kernel.file (w.ems em).breakLoopPipe.2 = some s ∧ s.kind = .pipeWrite p
  breakLoop : (w.ems em).breakLoopEventDescriptor = breakLoopDescriptor (w.ems em).breakLoopPipe.1
  maxEvents : 0 < (w.ems em).maxEvents
  buffer : HasBuffer w₀ em w
  notFreed : w.frees = w₀.frees

/-! ## What is done with the machine -/

/-- The numbers a machine has for itself. -/
def EM.ownFds (m : EM σ) : List Int := [m.queueFd, m.breakLoopPipe.1, m.breakLoopPipe.2]

/-- The call does not name the machine's own descriptors. -/
def RegCall.Foreign (w : World σ) (em : EMPtr) : RegCall → Prop
  | .add ed => ctlFd w ed (-1) ∉ (w.ems em).ownFds
  | .delete fd _ => fd ∉ (w.ems em).ownFds
  | .modify fd ed _ => fd ∉ (w.ems em).ownFds ∧ ctlFd w ed (-1) ∉ (w.ems em).ownFds

def Call.Operates (w : World σ) (em : EMPtr) : Call → Prop
  | .terminate m => m = some em
  | .reg m c => m = some em ∧ c.Foreign w em
  | _ => False

/-- Other code does not close the machine's descriptors. -/
def Env.Avoids (w : World σ) (em : EMPtr) : Env → Prop
  | .closeFile fd => fd ∉ (w.ems em).ownFds ∧ ∀ f q, w.kernel.file fd = some f →
      w.kernel.file (w.ems em).queueFd = some q → f.id ≠ q.id
  | _ => True

/-- Adding, deleting and modifying entries, terminating and running, and other code meanwhile. -/
def Act.Operates (w : World σ) (em : EMPtr) : Act → Prop
  | .event (.ret c _) => c.Operates w em
  | .event (.env e) => e.Avoids w em
  | .crash c => c.Operates w em
  | .run _ | .ret | .go _ => True

def OperatingStep (usePipe2 : Bool) (em : EMPtr) (c : Config σ) (a : Act) (c' : Config σ) : Prop :=
  Step usePipe2 c a c' ∧ a.Operates c.world em

/-! ## Keeping it -/

namespace WellFormed
variable {w₀ w w' : World σ} {em : EMPtr}

theorem ownFds_open (h : WellFormed w₀ em w) {fd : Int} (hfd : fd ∈ (w.ems em).ownFds) :
    (w.kernel.file fd).isSome := by
  obtain ⟨q, hq, -⟩ := h.queue
  obtain ⟨p, r, s, hr, -, hs, -⟩ := h.pipe
  simp only [EM.ownFds, List.mem_cons, List.not_mem_nil, or_false] at hfd
  rcases hfd with rfl | rfl | rfl
  · rw [hq]; rfl
  · rw [hr]; rfl
  · rw [hs]; rfl

theorem congr (h : WellFormed w₀ em w) (hem : w'.ems em = w.ems em)
    (hfile : ∀ fd ∈ (w.ems em).ownFds, w'.kernel.file fd = w.kernel.file fd)
    (hinterest : ∀ q, w.kernel.file (w.ems em).queueFd = some q →
      w'.kernel.interest q.id (w.ems em).breakLoopPipe.1 =
        w.kernel.interest q.id (w.ems em).breakLoopPipe.1)
    (hmallocs : w'.mallocs = w.mallocs) (hfrees : w'.frees = w.frees) : WellFormed w₀ em w' := by
  obtain ⟨q, hq, hkind, hentry⟩ := h.queue
  obtain ⟨p, r, s, hr, hrkind, hs, hskind⟩ := h.pipe
  refine ⟨⟨q, ?_, hkind, ?_⟩, ⟨p, r, s, ?_, hrkind, ?_, hskind⟩, ?_, ?_, ?_, hfrees.trans h.notFreed⟩
  · rw [hem, hfile _ (by simp [EM.ownFds]), hq]
  · rw [hem, hinterest q hq, hentry]
  · rw [hem, hfile _ (by simp [EM.ownFds]), hr]
  · rw [hem, hfile _ (by simp [EM.ownFds]), hs]
  · rw [hem, h.breakLoop]
  · rw [hem]
    exact h.maxEvents
  · cases h.buffer with
    | allocated b events free room =>
      exact .allocated b (by rw [hem, events]) (by rw [hem, free]) (by rw [hmallocs, hem, room])
    | user b events free mallocs own room =>
      exact .user b (by rw [hem, events]) (by rw [hem, free]) (hmallocs.trans mallocs) own
        (by rw [hem, room])

theorem of_same (h : WellFormed w₀ em w) (hs : Same w w') : WellFormed w₀ em w' :=
  h.congr (congrFun (World.ems_congr hs.core) em) (fun fd _ => World.file_congr hs.core fd)
    (fun q _ => by rw [World.interest_congr hs.core]) (congrArg (·.mallocs) hs.core)
    (congrArg (·.frees) hs.core)

theorem of_calm (h : WellFormed w₀ em w) (hc : Calm w w') : WellFormed w₀ em w' :=
  h.congr (congrFun hc.ems em) (fun fd _ => hc.file fd) (fun q _ => by rw [hc.interest])
    (congrArg (·.mallocs) hc) (congrArg (·.frees) hc)

theorem reg (h : WellFormed w₀ em w) {c : RegCall} (hc : c.Foreign w em) {r : UInt32 × OutVar}
    (hout : Outcome w em (c.change w em) c.oldEd r w') : WellFormed w₀ em w' := by
  have hne : (c.change w em).fd ∉ (w.ems em).ownFds := by
    cases c with
    | add ed => exact hc
    | delete fd oldEd => exact hc
    | modify fd ed oldEd => exact hc.2
  cases hout with
  | refused _ _ same => exact h.of_same same
  | done q can _ core =>
    refine h.congr (congrFun (World.ems_congr core) em) (fun fd _ => World.file_congr core fd) ?_
      (congrArg (·.mallocs) core) (congrArg (·.frees) core)
    intro q' hq'
    obtain rfl : q = q' := Option.some.inj (can.queue.symm.trans hq')
    rw [World.interest_congr core]
    have hread : (w.ems em).breakLoopPipe.1 ≠ (c.change w em).fd := fun heq =>
      hne (heq ▸ by simp [EM.ownFds])
    show Function.update w.kernel.interest q.id _ q.id (w.ems em).breakLoopPipe.1 = _
    rw [Function.update_self, Function.update_of_ne hread]

theorem env (h : WellFormed w₀ em w) {e : Env} (he : e.Avoids w em) :
    WellFormed w₀ em (e.exec w) := by
  cases e with
  | openFile status cloexec =>
    have hopens : w.kernel.Opens _ _ (w.kernel.openFile .other .other status cloexec).2 :=
      .of_files rfl rfl rfl
    refine h.congr rfl (fun fd hfd => ?_) (fun q _ => rfl) rfl rfl
    refine (hopens.file fd).trans (if_neg fun hnew => ?_)
    have hopen := h.ownFds_open hfd
    rw [hnew, hopens.free] at hopen
    exact absurd hopen (by simp)
  | closeFile fd =>
    obtain ⟨hfd, hid⟩ := he
    rcases Kernel.close_cases w.kernel fd with ⟨-, -, hcore⟩ | ⟨f, hf, hcore, -⟩
    · exact h.congr rfl (fun n _ => Kernel.file_congr hcore n)
        (fun q _ => congrFun (congrFun (Kernel.interest_congr hcore) q.id) _) rfl rfl
    · refine h.congr rfl (fun n hn => ?_) (fun q hq => ?_) rfl rfl
      · have hne : n ≠ fd := fun heq => hfd (heq ▸ hn)
        exact (Kernel.file_congr hcore n).trans ((Kernel.closeFile_file hf n).trans (if_neg hne))
      · show (w.kernel.close fd).2.interest q.id _ = _
        rw [Kernel.interest_congr hcore]
        apply if_neg
        rintro (heq | heq)
        · exact hid f q hf hq heq.symm
        · exact hfd (heq ▸ by simp [EM.ownFds])
  | setDescriptor a d => exact h.congr rfl (fun _ _ => rfl) (fun _ _ => rfl) rfl rfl
  | setTimer t x => exact h.congr rfl (fun _ _ => rfl) (fun _ _ => rfl) rfl rfl
  | expire o =>
    have hinterest : (w.kernel.expire o).interest = w.kernel.interest := by
      unfold Kernel.expire
      split <;> rfl
    have hfile : ∀ n, (w.kernel.expire o).file n = w.kernel.file n := fun n => by
      unfold Kernel.expire
      split <;> rfl
    exact h.congr rfl (fun n _ => hfile n) (fun q _ => congrFun (congrFun hinterest q.id) _) rfl rfl

theorem call {usePipe2 : Bool} (h : WellFormed w₀ em w) {c : Call} (hc : c.Operates w em) :
    wp (c.exec usePipe2) (fun _ w' => WellFormed w₀ em w') (fun _ _ => False) w := by
  cases c with
  | terminate m =>
    obtain rfl : m = some em := hc
    refine wp_mono (terminate_spec w em) ?_ fun _ _ hf => hf
    rintro - w' ⟨honly, hstill, -⟩
    exact h.of_calm (.of_kernelOnly honly hstill)
  | reg m c =>
    obtain ⟨rfl, hforeign⟩ := hc
    exact wp_reg.2 (wp_mono (c.spec w em) (fun _ _ hout => h.reg hforeign hout) fun _ _ hf => hf)
  | _ => exact hc.elim

/-- Whatever is done with the machine, it stays well formed. -/
theorem step {usePipe2 : Bool} {c c' : Config σ} {a : Act} (h : WellFormed w₀ em c.world)
    (hstep : OperatingStep usePipe2 em c a c') : WellFormed w₀ em c'.world := by
  obtain ⟨hs, ha⟩ := hstep
  cases hs with
  | call fs hexec => exact wp_ok (h.call ha) hexec
  | crash fs hexec => exact (wp_error (h.call ha) hexec).elim
  | env e w fs m => exact h.env ha
  | enter fs hexec => exact h.of_same (wp_ok (eventMachineRunEnter_spec _ _) hexec).1
  | refuse fs hexec => exact h.of_same (wp_ok (eventMachineRunEnter_spec _ _) hexec).1
  | ret => exact h
  | go => exact h.of_calm (Config.go_cases _ _ _).calm

end WellFormed

/-! ## Establishing it -/

theorem HasBuffer.of_buffered {w₀ w : World σ} {em : EMPtr} {m : EM σ} {ms : List (BufPtr × Int)}
    (hb : Buffered w₀ em m ms) (hms : w.mallocs = ms) (hevents : (w.ems em).events = m.events)
    (hmax : (w.ems em).maxEvents = m.maxEvents) (hfree : (w.ems em).doFreeEvents = m.doFreeEvents)
    (hmem : (0 < (w₀.ems em).maxEvents ∧ (w₀.ems em).events ≠ none) ∨
      w₀.kernel.faults .malloc 0 = none) :
    HasBuffer w₀ em w ∧ 0 < (w.ems em).maxEvents := by
  cases hb with
  | user hn hb =>
    obtain ⟨b, hb⟩ := Option.isSome_iff_exists.1 hb
    exact ⟨.user b (hevents.trans hb) hfree hms hb hmax, hmax ▸ hn⟩
  | allocated h fault =>
    refine ⟨.allocated _ hevents hfree ?_, hmax ▸ EM.capacity_pos _⟩
    rw [hms, hmax]
  | noMemory h fault =>
    refine absurd (hmem.resolve_left ?_) fault
    rintro ⟨hn, he⟩
    rcases h with hn' | he'
    · omega
    · exact he he'

theorem WellFormed.of_init {usePipe2 : Bool} {w₀ w₁ : World σ} {em : EMPtr}
    (hinit : eventMachineInit usePipe2 (some em) w₀ = .ok EMResult.success.code w₁)
    (hmem : (0 < (w₀.ems em).maxEvents ∧ (w₀.ems em).events ≠ none) ∨
      w₀.kernel.faults .malloc 0 = none) : WellFormed w₀ em w₁ := by
  obtain ⟨ms, m, hb, hout⟩ := wp_ok (init_spec usePipe2 w₀ em) hinit
  obtain ⟨m', base⟩ := hout.base
  obtain ⟨ends, fd, q, hem, hq, hkind, hentry, -⟩ := hout.registered
  obtain ⟨-, -, -, hpipe⟩ := hout.initialised hb
  obtain ⟨hbuffer, hmax⟩ := HasBuffer.of_buffered hb base.mallocs (by rw [hem]) (by rw [hem])
    (by rw [hem]) hmem
  obtain ⟨-, p, hread, hwrite⟩ := hpipe.resolve_left fun h => absurd h.1 (by decide)
  obtain ⟨r, hr, hrkind, -⟩ := hread.exists_file
  obtain ⟨s, hs, hskind, -⟩ := hwrite.exists_file
  refine ⟨⟨q, ?_, hkind, ?_⟩, ⟨p, r, s, hr, hrkind, hs, hskind⟩, ?_, hmax, hbuffer,
    congrArg (·.frees) base.frame⟩
  · rw [hem]
    exact hq
  · rw [hem, hentry, Function.update_self]
  · rw [hem]

/-! ## Running -/

/-- The codes the loop of `event_machine_run()` ends with. -/
def LoopCode (r : UInt32) : Prop :=
  r = EMResult.success.code ∨ r = EMResult.errorEventWait.code ∨ r = EMResult.errorRead.code

theorem loopRule_codes (user : UserCode σ) (em : EMPtr) (waits : Nat → WaitOutcome) :
    LoopRule user em waits (fun _ _ => True) fun pc _ => ∀ r, pc = .done r → LoopCode r where
  waiting := by
    intro n w pc w' _ _ hstep
    refine wp_ok (Q := fun pc _ => ∀ r, pc = .done r → LoopCode r) (E := fun _ _ => True) ?_ hstep
    unfold runStep
    rw [wp_bind]
    refine wp_mono (wp_self _ w) (fun r w' _ => ?_) fun _ _ _ => trivial
    dsimp only
    rw [wp_ite]
    refine ⟨fun _ code hcode => ?_, fun _ code hcode => by cases hcode⟩
    obtain rfl := RunPc.done.inj hcode
    exact Or.inr (Or.inl rfl)
  slot := by
    intro bl b w r w' _ _ _ _ code hcode
    cases r with
    | readFailed =>
      obtain rfl := RunPc.done.inj hcode
      exact Or.inr (Or.inr rfl)
    | breakLoop => cases hcode
    | handler => cases hcode
  handler := by
    intro bl b w h events fd data w' _ _ _
    exact wp_mono (wp_self _ w') (fun _ _ _ code hcode => by cases hcode) fun _ _ _ => trivial
  afterBatch := by
    intro bl b w _ _ code hcode
    cases bl with
    | true =>
      obtain rfl := RunPc.done.inj hcode
      exact Or.inl rfl
    | false => cases hcode

theorem WellFormed.enter {w₀ w : World σ} {em : EMPtr} (h : WellFormed w₀ em w)
    (hfcntl : w.kernel.Never .fcntlGetfl) :
    wp (eventMachineRunEnter (some em)) (fun r _ => r = EMResult.success.code) (fun _ _ => False) w := by
  obtain ⟨q, hq, -⟩ := h.queue
  have hfd := Kernel.nonneg_of_file hq
  have hmax := h.maxEvents
  have hevents : (w.ems em).events ≠ none := by
    cases h.buffer with
    | allocated b events => simp [events]
    | user b events => simp [events]
  unfold eventMachineRunEnter
  simp only
  rw [wp_bind, wp_getEM, if_neg (by omega), if_neg (by omega), if_neg hevents, wp_bind]
  apply wp_issue.2
  have hflags : ¬ (w.kernel.fcntlGetfl (w.ems em).queueFd).1 < 0 := fun hneg => by
    rcases (Kernel.fcntlGetfl_neg w.kernel _).1 hneg with hnone | hfault
    · simp [hq] at hnone
    · exact hfault (hfcntl 0)
  rw [if_neg hflags]
  rfl

/-- A well-formed machine is run: `event_machine_run()` returns from its loop only. -/
theorem WellFormed.run {w₀ w : World σ} {em : EMPtr} (h : WellFormed w₀ em w)
    (hfcntl : w.kernel.Never .fcntlGetfl) (user : UserCode σ) (waits : Nat → WaitOutcome)
    (fuel : Nat) :
    wp (eventMachineRun user (some em) waits fuel) (fun r _ => ∀ code, r = some code → LoopCode code)
      (fun _ _ => True) w := by
  unfold eventMachineRun
  rw [wp_bind]
  refine wp_mono (h.enter hfcntl) ?_ fun _ _ _ => trivial
  rintro r w' rfl
  rw [if_neg (by decide)]
  have hloop := (loopRule_codes user em waits).loop fuel 0 w' (fun _ hcode => by cases hcode)
    fun _ _ _ => trivial
  exact wp_mono hloop (fun _ _ hr code hcode => hr code hcode code rfl) fun _ _ h => h

/-- A successful `event_machine_init()` leaves a machine that is well formed whatever is done with it,
and that `event_machine_run()` can be called for, exactly when it did not have to allocate the buffer or
`malloc()` succeeded. -/
theorem well_formed_iff {usePipe2 : Bool} {em : EMPtr} {w₀ w₁ : World σ}
    (hinit : eventMachineInit usePipe2 (some em) w₀ = .ok EMResult.success.code w₁) :
    (∀ tr c, Steps (OperatingStep usePipe2 em) ⟨w₁, [], .user⟩ tr c →
      WellFormed w₀ em c.world ∧
      (w₁.kernel.Never .fcntlGetfl → ∀ user waits fuel r w',
        eventMachineRun user (some em) waits fuel c.world = .ok (some r) w' →
          r ≠ EMResult.errorBadfd.code ∧ r ≠ EMResult.errorEventsNull.code ∧
          r ≠ EMResult.errorMaxEventsTooSmall.code)) ↔
      (0 < (w₀.ems em).maxEvents ∧ (w₀.ems em).events ≠ none) ∨
        w₀.kernel.faults .malloc 0 = none := by
  constructor
  · intro hall
    have hbuffer := (hall [] _ (.nil _)).1.buffer
    by_contra hnot
    rw [not_or] at hnot
    obtain ⟨ms, m, hb, hout⟩ := wp_ok (init_spec usePipe2 w₀ em) hinit
    obtain ⟨ends, fd, q, hem, -⟩ := hout.registered
    have hnone : (w₁.ems em).events = none := by
      rw [hem]
      cases hb with
      | user hn hb => exact absurd ⟨hn, Option.isSome_iff_ne_none.1 hb⟩ hnot.1
      | allocated _ fault => exact absurd fault hnot.2
      | noMemory => rfl
    cases hbuffer with
    | allocated b events => simp [hnone] at events
    | user b events => simp [hnone] at events
  · intro hmem tr c hrun
    have hwf : WellFormed w₀ em c.world :=
      hrun.invariant (I := fun c => WellFormed w₀ em c.world) (fun _ _ _ h hs => h.step hs)
        (.of_init hinit hmem)
    refine ⟨hwf, fun hfcntl user waits fuel r w' hexec => ?_⟩
    have hnever : c.world.kernel.Never .fcntlGetfl :=
      hrun.invariant (I := fun c => c.world.kernel.Never .fcntlGetfl)
        (fun _ _ _ h hs => (Kernel.never_invariant _).step hs.1 h) hfcntl
    rcases wp_ok (hwf.run hnever user waits fuel) hexec r rfl with rfl | rfl | rfl <;> decide

/-- Machine 0 is to have a buffer for 16 events; `malloc()` fails when `memory` is false. -/
def sixteenEvents (memory : Bool) : World Unit :=
  World.start (emStaticWithMaxEvents Unit 16 none) () fun s _ =>
    if s = .malloc ∧ ¬ memory then some (.code 12) else none

theorem well_formed_iff_sixteenEvents :
    let w₀ := sixteenEvents true
    let w₁ := final (eventMachineInit true (some 0)) w₀
    (∀ tr c, Steps (OperatingStep true 0) ⟨w₁, [], .user⟩ tr c →
      WellFormed w₀ 0 c.world ∧
      (w₁.kernel.Never .fcntlGetfl → ∀ user waits fuel r w',
        eventMachineRun user (some 0) waits fuel c.world = .ok (some r) w' →
          r ≠ EMResult.errorBadfd.code ∧ r ≠ EMResult.errorEventsNull.code ∧
          r ≠ EMResult.errorMaxEventsTooSmall.code)) ↔
      (0 < (w₀.ems 0).maxEvents ∧ (w₀.ems 0).events ≠ none) ∨
        w₀.kernel.faults .malloc 0 = none := by
  intro w₀ w₁
  have hinit : eventMachineInit true (some 0) w₀ = .ok EMResult.success.code w₁ := rfl
  exact well_formed_iff hinit

/-- Without memory, `event_machine_init()` reports success, and `event_machine_run()` finds out. -/
theorem not_well_formed :
    let w₀ := sixteenEvents false
    let w₁ := final (eventMachineInit true (some 0)) w₀
    eventMachineInit true (some 0) w₀ = .ok EMResult.success.code w₁ ∧
      (w₁.ems 0).events = none ∧ ¬ WellFormed w₀ 0 w₁ ∧
      ∀ user waits fuel, eventMachineRun user (some 0) waits fuel w₁ =
        .ok (some EMResult.errorEventsNull.code) w₁ := by
  intro w₀ w₁
  have hnone : (w₁.ems 0).events = none := rfl
  refine ⟨rfl, hnone, fun h => ?_, fun user waits fuel => rfl⟩
  cases h.buffer with
  | allocated b events => simp [hnone] at events
  | user b events => simp [hnone] at events

end EventMachine
