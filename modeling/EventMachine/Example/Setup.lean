import EventMachine.Proof.Registration
import EventMachine.Proof.Init

/-!
# Setting a machine up

What the programs of `example/` do before they call `event_machine_run()`: a machine without a storage,
its macro `EM_STATIC_WITH_MAX_EVENTS`, is initialised and gets its first descriptor.
-/

namespace EventMachine

open Lib

variable {σ : Type}

namespace InitOutcome
variable {usePipe2 : Bool} {w w' : World σ} {em : EMPtr} {ms : List (BufPtr × Int)} {m : EM σ}

theorem emptyPipe (h : InitOutcome usePipe2 w em ms m EMResult.success.code w') :
    ∃ p f, w'.kernel.file (w'.ems em).breakLoopPipe.1 = some f ∧ f.kind = .pipeRead p ∧
      w'.kernel.bytes p = 0 := by
  cases h with
  | noPipe code => exact absurd code (by decide)
  | noFlags _ code => exact absurd code (by decide)
  | noQueue _ code => exact absurd code (by decide)
  | queue ends fd q k₁ k₂ base pipe queue event =>
    obtain ⟨-, hcore⟩ : _ ∧ w'.kernel.core = _ := event.resolve_right fun h => absurd h.1 (by decide)
    obtain ⟨⟨-, -, hne⟩, -, -, hfile⟩ := pipeMade_files pipe
    have hread := hfile ends.1
    rw [if_neg hne, if_pos rfl, Option.map_eq_some_iff] at hread
    obtain ⟨f, hf, hfid⟩ := hread
    refine ⟨w.kernel.next, f, ?_, congrArg (·.2.1) hfid, ?_⟩
    · rw [base.ems_self, Kernel.file_congr (k := k₂.setInterest _ _ _) hcore]
      -- the queue has got another number
      refine (queue.1.file _).trans ((if_neg fun heq => ?_).trans hf)
      have hfree := queue.1.free
      rw [← heq, hf] at hfree
      cases hfree
    · obtain ⟨r, e, k₃, k₄, -, -, -, -, -, -, -, -, -, hpipe, hflags⟩ := pipe
      rw [show w'.kernel.bytes = k₂.bytes from congrArg (·.bytes) hcore, queue.2.2.2.2.1,
        show k₁.bytes = k₄.bytes from congrArg (·.bytes) hflags.2, hpipe, Function.update_self]

theorem queue_old (h : InitOutcome usePipe2 w em ms m EMResult.success.code w') {q : File}
    (hq : w'.kernel.file (w'.ems em).queueFd = some q) : q.id < w'.kernel.next := by
  cases h with
  | noPipe code => exact absurd code (by decide)
  | noFlags _ code => exact absurd code (by decide)
  | noQueue _ code => exact absurd code (by decide)
  | queue ends fd q' k₁ k₂ base pipe queue event =>
    obtain ⟨-, hcore⟩ : _ ∧ w'.kernel.core = _ := event.resolve_right fun h => absurd h.1 (by decide)
    have hnext : w'.kernel.next = k₂.next := congrArg (·.next) hcore
    rw [base.ems_self, Kernel.file_congr (k := k₂.setInterest _ _ _) hcore] at hq
    obtain rfl : q' = q := Option.some.inj (((queue.1.file fd).trans (if_pos rfl)).symm.trans hq)
    rw [hnext, queue.1.next, queue.1.id]
    exact Nat.lt_succ_self _

end InitOutcome

/-- A machine that has been initialised, has no storage and has not been told to break its loop; `reg` is
what its queue holds. -/
structure SetUp (em : EMPtr) (m : EM σ) (q : File) (reg : Int → Option EpollEvent) (w : World σ) :
    Prop where
  machine : w.ems em = m
  insert : m.descriptorStorage.insert = none
  remove : m.descriptorStorage.remove = none
  breakLoop : m.breakLoopEventDescriptor.handler = none
  queue : w.kernel.file m.queueFd = some q
  old : q.id < w.kernel.next
  registered : w.kernel.interest q.id = reg
  emptyPipe : ∃ p f, w.kernel.file m.breakLoopPipe.1 = some f ∧ f.kind = .pipeRead p ∧
    w.kernel.bytes p = 0

theorem init_setUp (usePipe2 : Bool) {w : World σ} {em : EMPtr} {maxEvents : Int}
    {events : Option BufPtr} (hm : w.ems em = emStaticWithMaxEvents σ maxEvents events) :
    wp (eventMachineInit usePipe2 (some em))
      (fun r w₁ => w₁.storage = w.storage ∧ (r = EMResult.success.code → ∃ m q, SetUp em m q
        (Function.update (fun _ => none) m.breakLoopPipe.1 (some ⟨EPOLLIN, some (.breakLoop em)⟩)) w₁))
      (fun _ _ => False) w := by
  refine wp_mono (init_spec usePipe2 w em) ?_ fun _ _ h => h
  rintro r w₁ ⟨ms, m, hbuffered, hout⟩
  obtain ⟨m', base⟩ := hout.base
  refine ⟨congrArg (·.storage) base.frame, ?_⟩
  rintro rfl
  obtain ⟨ends, fd, q, hem, hq, -, hregistered, -⟩ := hout.registered
  have hpipe := hout.emptyPipe
  have hold := hout.queue_old (q := q) (by rw [hem]; exact hq)
  have hstorage : m.descriptorStorage = ⟨none, none, 0, .null⟩ := by
    have hkept : m.descriptorStorage = (w.ems em).descriptorStorage := by
      cases hbuffered <;> rfl
    rw [hkept, hm]
    rfl
  rw [hem] at hpipe
  refine ⟨_, q, hem, ?_, ?_, rfl, hq, hold, hregistered, hpipe⟩
  · show m.descriptorStorage.insert = none
    rw [hstorage]
  · show m.descriptorStorage.remove = none
    rw [hstorage]

namespace SetUp
variable {em : EMPtr} {m : EM σ} {q : File} {reg : Int → Option EpollEvent} {w : World σ}

theorem setDescriptors (h : SetUp em m q reg w) (descriptors : Nat → EMEventDescriptor) :
    SetUp em m q reg { w with descriptors } :=
  ⟨h.machine, h.insert, h.remove, h.breakLoop, h.queue, h.old, h.registered, h.emptyPipe⟩

theorem quiet (h : SetUp em m q reg w) {f : File} {p : ObjId}
    (hf : w.kernel.file m.breakLoopPipe.1 = some f) (hkind : f.kind = .pipeRead p) :
    w.kernel.bytes p = 0 := by
  obtain ⟨p', f', hf', hkind', hbytes⟩ := h.emptyPipe
  obtain rfl := Option.some.inj (hf.symm.trans hf')
  obtain rfl : p = p' := by simpa using hkind.symm.trans hkind'
  exact hbytes

theorem add (h : SetUp em m q reg w) (p : EDPtr) :
    wp (eventMachineAdd (some em) (some p))
      (fun r w₁ => w₁.storage = w.storage ∧ w₁.descriptors = w.descriptors ∧
        (r = EMResult.success.code → SetUp em m q
          (Function.update reg (w.ed p).fd (some ⟨(w.ed p).events, some p⟩)) w₁))
      (fun _ _ => False) w := by
  refine wp_mono (add_spec w em (some p)) ?_ fun _ _ h => h
  intro r w₁ hadd
  cases hadd with
  | refused why _ same =>
    exact ⟨World.storage_congr same.core, congrArg (·.descriptors) same.core,
      fun hok => absurd hok why.ne_success⟩
  | done q' can code core =>
    have hinsert : (w.ems em).descriptorStorage.insert = none := by
      rw [h.machine]
      exact h.insert
    simp only [addChange, EMDescriptorStorage.insertEntry, hinsert, ctlFd, ctlEvent] at can core
    obtain rfl : q' = q := by
      have hqueue := can.queue
      rw [h.machine] at hqueue
      exact Option.some.inj (hqueue.symm.trans h.queue)
    have hfile : ∀ n, w₁.kernel.file n = w.kernel.file n := fun n =>
      World.file_congr (w := (w.setInterest _ _ _).setStorage _) core n
    refine ⟨congrArg (·.storage) core, congrArg (·.descriptors) core, fun _ => ⟨?_, h.insert, h.remove,
      h.breakLoop, ?_, ?_, ?_, ?_⟩⟩
    · exact (congrArg (·.ems em) core).trans h.machine
    · rw [hfile]
      exact h.queue
    · rw [show w₁.kernel.next = w.kernel.next from congrArg (·.kernel.next) core]
      exact h.old
    · rw [World.interest_congr (w := (w.setInterest _ _ _).setStorage _) core]
      show Function.update w.kernel.interest q'.id _ q'.id = _
      rw [Function.update_self, h.registered]
      rfl
    · rw [hfile, show w₁.kernel.bytes = w.kernel.bytes from congrArg (·.kernel.bytes) core]
      exact h.emptyPipe

end SetUp

end EventMachine
