import EventMachine.Proof.Registration

/-!
# What `event_machine_init()` can do

The function takes up to four resources one after the other (the buffer, the pipe, the queue, the
entry of the break-loop descriptor in the queue) and returns at the first failure, keeping what it
has. `init_spec` says how far it can get (`InitOutcome`) and what the world looks like then.
-/

namespace EventMachine

open Lib

variable {σ : Type}

/-! ## The buffer -/

/-- The number of events a machine asks for, or the default when that is not positive. -/
def EM.capacity (m : EM σ) : Int := if m.maxEvents ≤ 0 then EM_DEFAULT_MAX_EVENTS else m.maxEvents

theorem EM.capacity_pos (m : EM σ) : 0 < m.capacity := by
  unfold EM.capacity
  split
  · decide
  · omega

/-- The machine after the buffer has been dealt with, and the allocations then: the buffer is the
user's, or it is allocated, or the allocation fails and there is none. -/
inductive Buffered (w : World σ) (em : EMPtr) : EM σ → List (BufPtr × Int) → Prop
  | user (hn : 0 < (w.ems em).maxEvents) (hb : (w.ems em).events.isSome) :
      Buffered w em { w.ems em with doFreeEvents := false } w.mallocs
  | allocated (h : (w.ems em).maxEvents ≤ 0 ∨ (w.ems em).events = none)
      (fault : w.kernel.faults .malloc 0 = none) :
      Buffered w em
        { w.ems em with
          maxEvents := (w.ems em).capacity
          events := some (.malloc w.mallocs.length)
          doFreeEvents := true }
        (w.mallocs ++ [(.malloc w.mallocs.length, (w.ems em).capacity)])
  | noMemory (h : (w.ems em).maxEvents ≤ 0 ∨ (w.ems em).events = none)
      (fault : w.kernel.faults .malloc 0 ≠ none) :
      Buffered w em
        { w.ems em with maxEvents := (w.ems em).capacity, events := none, doFreeEvents := true }
        w.mallocs

theorem malloc_spec (n : Int) (w : World σ) :
    wp (malloc n)
      (fun b w' => w'.kernel.core = w.kernel.core ∧
        (∀ s, s ≠ .malloc → w'.kernel.faults s = w.kernel.faults s) ∧
        { w' with kernel := w.kernel, mallocs := w.mallocs } = w ∧
        ((b = none ∧ w.kernel.faults .malloc 0 ≠ none ∧ w'.mallocs = w.mallocs) ∨
          (b = some (.malloc w.mallocs.length) ∧ w.kernel.faults .malloc 0 = none ∧
            w'.mallocs = w.mallocs ++ [(.malloc w.mallocs.length, n)])))
      (fun _ _ => False) w := by
  have hf := fun s (hs : s ≠ .malloc) => Kernel.turn_faults_of_ne w.kernel hs
  unfold malloc
  rw [wp_modifyGet]
  simp only [Kernel.turn] at hf ⊢
  split
  · next e k h =>
    obtain ⟨hfault, rfl⟩ := Prod.mk.inj h
    exact ⟨rfl, hf, rfl, Or.inl ⟨rfl, by simp [hfault], rfl⟩⟩
  · next k h =>
    obtain ⟨hfault, rfl⟩ := Prod.mk.inj h
    exact ⟨rfl, hf, rfl, Or.inr ⟨rfl, hfault, rfl⟩⟩

/-- What the world looks like once the buffer has been dealt with. -/
structure Prepared (w : World σ) (em : EMPtr) (m : EM σ) (w' : World σ) : Prop where
  core : w'.kernel.core = w.kernel.core
  faults : ∀ s, s ≠ .malloc → w'.kernel.faults s = w.kernel.faults s
  frame : { w' with kernel := w.kernel, ems := w.ems, mallocs := w.mallocs } = w
  ems : w'.ems = Function.update w.ems em m
  buffer : Buffered w em m w'.mallocs

theorem allocate_spec (em : EMPtr) (w : World σ)
    (hn : (w.ems em).maxEvents ≤ 0 ∨ (w.ems em).events = none) :
    wp (do
        let events ← malloc (w.ems em).capacity
        modifyEM em fun m => { m with events := events, doFreeEvents := true } : Sys σ Unit)
      (fun _ w' => ∃ m, Prepared w em m w') (fun _ _ => False)
      (w.setEM em { w.ems em with events := none, maxEvents := (w.ems em).capacity }) := by
  rw [wp_bind]
  refine wp_mono (malloc_spec _ _) ?_ (fun _ _ h => h)
  rintro b w₁ ⟨hcore, hf, hframe, hb⟩
  have hems : w₁.ems = Function.update w.ems em
      { w.ems em with events := none, maxEvents := (w.ems em).capacity } := congrArg (·.ems) hframe
  rw [wp_modifyEM]
  refine ⟨{ w.ems em with events := b, maxEvents := (w.ems em).capacity, doFreeEvents := true },
    hcore, hf, ?_, ?_, ?_⟩
  · exact congrArg (fun v : World σ => { v with ems := w.ems }) hframe
  · simp [World.setEM, hems]
  · rcases hb with ⟨rfl, hfault, hm⟩ | ⟨rfl, hfault, hm⟩
    · simp only [World.setEM, hm]
      exact .noMemory hn hfault
    · simp only [World.setEM, hm]
      exact .allocated hn hfault

theorem initEvents_spec (em : EMPtr) (w : World σ) :
    wp (initEvents em) (fun _ w' => ∃ m, Prepared w em m w') (fun _ _ => False) w := by
  unfold initEvents
  rw [wp_bind, wp_getEM, wp_ite]
  constructor
  · intro hmax
    rw [wp_bind, wp_modifyEM, wp_bind, wp_getEM]
    simp only [World.setEM, Function.update_self]
    have h := allocate_spec em w (Or.inl hmax)
    rwa [EM.capacity, if_pos hmax] at h
  · intro hmax
    rw [wp_bind, wp_getEM]
    cases hb : (w.ems em).events with
    | none =>
      have hw : w.setEM em { w.ems em with events := none, maxEvents := (w.ems em).maxEvents } = w := by
        rw [← hb]
        exact congrArg (fun e => { w with ems := e }) (Function.update_eq_self em w.ems)
      have h := allocate_spec em w (Or.inr hb)
      rwa [EM.capacity, if_neg hmax, hw] at h
    | some b =>
      exact ⟨_, rfl, fun _ _ => rfl, rfl, rfl, .user (by omega) (by simp [hb])⟩

/-! ## The flags of the pipe -/

/-- The system calls `event_machine_init()` makes on descriptors: on its own ones only. -/
def InitRecord (em : EMPtr) (x : SysRecord) : Prop :=
  x.who = .machine em ∧ (x.call = .fcntlGetfl ∨ x.call = .fcntlSetfl ∨
    x.call = .epollCtl .add ∧ ∃ q, x.file = some q ∧ q.owner = .machine em)

/-- Whether a call of `fcntl()` fails while the flags of `n` descriptors are set. -/
def FcntlFails (k : Kernel) (n : Nat) : Prop :=
  ∃ i < n, k.faults .fcntlGetfl i ≠ none ∨ k.faults .fcntlSetfl i ≠ none

theorem fcntlFails_succ {k k₁ k₂ : Kernel} {n : Nat} (h₁ : k₁.faults = (k.turn .fcntlGetfl).2.faults)
    (h₂ : k₂.faults = (k₁.turn .fcntlSetfl).2.faults) (hget : k.faults .fcntlGetfl 0 = none)
    (hset : k.faults .fcntlSetfl 0 = none) : FcntlFails k (n + 1) ↔ FcntlFails k₂ n := by
  have hg : ∀ i, k₂.faults .fcntlGetfl i = k.faults .fcntlGetfl (i + 1) := fun i => by
    rw [h₂, Kernel.turn_faults_of_ne _ (by decide), h₁, Kernel.turn_faults_self]
  have hs : ∀ i, k₂.faults .fcntlSetfl i = k.faults .fcntlSetfl (i + 1) := fun i => by
    rw [h₂, Kernel.turn_faults_self, h₁, Kernel.turn_faults_of_ne _ (by decide)]
  constructor
  · rintro ⟨i, hi, hfail⟩
    cases i with
    | zero => simp [hget, hset] at hfail
    | succ i => exact ⟨i, by omega, by simpa [hg, hs] using hfail⟩
  · rintro ⟨i, hi, hfail⟩
    exact ⟨i + 1, by omega, by simpa [hg, hs] using hfail⟩

/-- What the calls of `fcntl()` do not change. -/
structure FlagsKept (em : EMPtr) (w w' : World σ) : Prop where
  flags : w.kernel.FlagsOnly w'.kernel
  only : KernelOnly w w'
  records : Records (InitRecord em) w w'
  faults : ∀ s, s ≠ .fcntlGetfl → s ≠ .fcntlSetfl → w'.kernel.faults s = w.kernel.faults s

namespace FlagsKept
variable {em : EMPtr} {w w' w'' : World σ}

theorem refl (em : EMPtr) (w : World σ) : FlagsKept em w w :=
  ⟨.refl _, .refl _, .refl _, fun _ _ _ => rfl⟩

theorem trans (h : FlagsKept em w w') (h' : FlagsKept em w' w'') : FlagsKept em w w'' where
  flags := h.flags.trans h'.flags
  only := h.only.trans h'.only
  records := h.records.trans h'.records
  faults s hg hs := (h'.faults s hg hs).trans (h.faults s hg hs)

theorem file_ne_none (h : FlagsKept em w w') {fd : Int} (hfd : w.kernel.file fd ≠ none) :
    w'.kernel.file fd ≠ none := by
  intro hnone
  have hsame := h.flags.1 fd
  rw [hnone] at hsame
  exact hfd (by simpa using hsame.symm)

end FlagsKept

theorem getfl_spec (em : EMPtr) (fd : Int) (w : World σ) (hopen : w.kernel.file fd ≠ none) :
    wp (fcntlGetfl (.machine em) fd)
      (fun r w' => FlagsKept em w w' ∧ w'.kernel.faults = (w.kernel.turn .fcntlGetfl).2.faults ∧
        (r < 0 ↔ w.kernel.faults .fcntlGetfl 0 ≠ none)) (fun _ _ => False) w := by
  have hfaults := Kernel.fcntlGetfl_faults w.kernel fd
  refine wp_issue.2 ⟨⟨?_, rfl, World.issued_records ⟨rfl, Or.inl rfl⟩, fun s hg _ => ?_⟩, hfaults, ?_⟩
  · exact Kernel.fcntlGetfl_flagsOnly w.kernel fd
  · exact (congrFun hfaults s).trans (Kernel.turn_faults_of_ne _ hg)
  · exact (Kernel.fcntlGetfl_neg w.kernel fd).trans (or_iff_right hopen)

theorem setfl_spec (em : EMPtr) (fd : Int) (flags : UInt32) (w : World σ)
    (hopen : w.kernel.file fd ≠ none) :
    wp (fcntlSetfl (.machine em) fd flags)
      (fun r w' => FlagsKept em w w' ∧ w'.kernel.faults = (w.kernel.turn .fcntlSetfl).2.faults ∧
        (r < 0 ↔ w.kernel.faults .fcntlSetfl 0 ≠ none)) (fun _ _ => False) w := by
  have hfaults := Kernel.fcntlSetfl_faults w.kernel fd flags
  refine wp_issue.2 ⟨⟨?_, rfl, World.issued_records ⟨rfl, Or.inr (Or.inl rfl)⟩, fun s _ hs => ?_⟩,
    hfaults, ?_⟩
  · exact Kernel.fcntlSetfl_flagsOnly w.kernel fd flags
  · exact (congrFun hfaults s).trans (Kernel.turn_faults_of_ne _ hs)
  · exact (Kernel.fcntlSetfl_neg w.kernel fd flags).trans (or_iff_right hopen)

theorem setPipeFlags_spec (em : EMPtr) (fds : List Int) (w : World σ)
    (hopen : ∀ fd ∈ fds, w.kernel.file fd ≠ none) :
    wp (setPipeFlags (.machine em) fds)
      (fun r w' => FlagsKept em w w' ∧
        ((r = EMResult.success.code ∧ ¬ FcntlFails w.kernel fds.length) ∨
          (r = EMResult.errorFcntl.code ∧ FcntlFails w.kernel fds.length)))
      (fun _ _ => False) w := by
  induction fds generalizing w with
  | nil =>
    refine ⟨.refl em w, Or.inl ⟨rfl, ?_⟩⟩
    rintro ⟨i, hi, -⟩
    exact absurd hi (Nat.not_lt_zero i)
  | cons fd rest ih =>
    obtain ⟨hfd, hrest⟩ := List.forall_mem_cons.1 hopen
    unfold setPipeFlags
    rw [wp_bind]
    refine wp_mono (getfl_spec em fd w hfd) ?_ fun _ _ h => h
    rintro r₁ w₁ ⟨hkept₁, hfaults₁, hneg₁⟩
    rw [wp_ite]
    refine ⟨fun h => ⟨hkept₁, Or.inr ⟨rfl, 0, by simp, Or.inl (hneg₁.1 h)⟩⟩, fun hr₁ => ?_⟩
    rw [hneg₁, not_not] at hr₁
    -- the second call, on the same descriptor
    rw [wp_bind]
    refine wp_mono (setfl_spec em fd _ w₁ (hkept₁.file_ne_none hfd)) ?_ fun _ _ h => h
    rintro r₂ w₂ ⟨hkept₂, hfaults₂, hneg₂⟩
    have hkept := hkept₁.trans hkept₂
    rw [hfaults₁, Kernel.turn_faults_of_ne _ (by decide)] at hneg₂
    rw [wp_ite]
    refine ⟨fun h => ⟨hkept, Or.inr ⟨rfl, 0, by simp, Or.inr (hneg₂.1 h)⟩⟩, fun hr₂ => ?_⟩
    rw [hneg₂, not_not] at hr₂
    have hsucc := fcntlFails_succ (n := rest.length) hfaults₁ hfaults₂ hr₁ hr₂
    refine wp_mono (ih w₂ fun fd' hfd' => hkept.file_ne_none (hrest fd' hfd')) ?_ fun _ _ h => h
    rintro r w' ⟨hkept', hcase⟩
    rw [List.length_cons, hsucc]
    exact ⟨hkept.trans hkept', hcase⟩

/-! ## The whole function -/

/-- What `event_machine_init()` leaves alone, with the machine `m` and the allocations `ms` it leaves
behind. -/
structure InitFrame (w : World σ) (em : EMPtr) (ms : List (BufPtr × Int)) (m : EM σ) (w' : World σ) :
    Prop where
  mallocs : w'.mallocs = ms
  frame : { w' with kernel := w.kernel, ems := w.ems, log := w.log, mallocs := w.mallocs } = w
  ems : w'.ems = Function.update w.ems em m
  records : Records (InitRecord em) w w'

/-- The descriptor through which the queue watches the read end of the pipe. -/
def breakLoopDescriptor (fd : Int) : EMEventDescriptor := ⟨EPOLLIN, fd, .null, none⟩

/-- How far `event_machine_init()` gets, on a machine that is `m` once its buffer has been dealt
with. -/
inductive InitOutcome (usePipe2 : Bool) (w : World σ) (em : EMPtr) (ms : List (BufPtr × Int))
    (m : EM σ) (r : UInt32) (w' : World σ) : Prop
  | noPipe (code : r = EMResult.errorPipe.code) (base : InitFrame w em ms m w')
      (core : w'.kernel.core = w.kernel.core) (fault : w.kernel.faults .pipe 0 ≠ none)
  | noFlags (ends : Int × Int) (code : r = EMResult.errorFcntl.code)
      (base : InitFrame w em ms { m with breakLoopPipe := ends } w')
      (pipe : w.kernel.PipeMade (.machine em) ends w'.kernel)
      (fault : usePipe2 = false ∧ FcntlFails w.kernel 2)
  | noQueue (ends : Int × Int) (code : r = EMResult.errorEventCreateQueue.code)
      (base : InitFrame w em ms { m with
        breakLoopPipe := ends
        breakLoopEventDescriptor := breakLoopDescriptor ends.1 } w')
      (pipe : w.kernel.PipeMade (.machine em) ends w'.kernel)
      (fault : w.kernel.faults .epollCreate 0 ≠ none)
  | queue (ends : Int × Int) (fd : Int) (q : File) (k₁ k₂ : Kernel)
      (base : InitFrame w em ms { m with
        breakLoopPipe := ends
        breakLoopEventDescriptor := breakLoopDescriptor ends.1
        queueFd := fd } w')
      (pipe : w.kernel.PipeMade (.machine em) ends k₁)
      (queue : k₁.QueueMade (.machine em) fd q k₂)
      (event : (r = EMResult.success.code ∧ w'.kernel.core =
          (k₂.setInterest q.id ends.1 (some ⟨EPOLLIN, some (.breakLoop em)⟩)).core) ∨
        (r = EMResult.errorEventCtl.code ∧ w'.kernel.core = k₂.core))
      (noFault : w.kernel.faults .pipe 0 = none ∧ (usePipe2 = true ∨ ¬ FcntlFails w.kernel 2) ∧
        w.kernel.faults .epollCreate 0 = none)

theorem InitOutcome.base {usePipe2 : Bool} {w w' : World σ} {em : EMPtr} {ms : List (BufPtr × Int)}
    {m : EM σ} {r : UInt32} (h : InitOutcome usePipe2 w em ms m r w') :
    ∃ m', InitFrame w em ms m' w' := by
  cases h with
  | noPipe _ base => exact ⟨_, base⟩
  | noFlags _ _ base => exact ⟨_, base⟩
  | noQueue _ _ base => exact ⟨_, base⟩
  | queue _ _ _ _ _ base => exact ⟨_, base⟩

theorem pipe_spec (em : EMPtr) (usePipe2 : Bool) (w : World σ) :
    wp (pipe (.machine em) usePipe2)
      (fun r w' => KernelOnly w w' ∧ w'.log = w.log ∧
        w'.kernel.faults = (w.kernel.turn .pipe).2.faults ∧
        ((r.1 = -1 ∧ w.kernel.faults .pipe 0 ≠ none ∧ w'.kernel.core = w.kernel.core) ∨
          (r.1 = 0 ∧ w.kernel.faults .pipe 0 = none ∧
            w.kernel.PipeMade (.machine em) r.2 w'.kernel)))
      (fun _ _ => False) w :=
  (wp_modifyGet _).2 ⟨rfl, rfl, Kernel.pipe_faults _ _ _, Kernel.pipe_cases _ _ _⟩

theorem epollCreate_spec (em : EMPtr) (w : World σ) :
    wp (epollCreate (.machine em))
      (fun r w' => KernelOnly w w' ∧ w'.log = w.log ∧
        ((r = -1 ∧ w.kernel.faults .epollCreate 0 ≠ none ∧ w'.kernel.core = w.kernel.core) ∨
          (w.kernel.faults .epollCreate 0 = none ∧
            ∃ q, w.kernel.QueueMade (.machine em) r q w'.kernel)))
      (fun _ _ => False) w :=
  (wp_modifyGet _).2 ⟨rfl, rfl, Kernel.epollCreate_cases _ _⟩

namespace InitFrame
variable {w w₁ w₂ : World σ} {em : EMPtr} {ms : List (BufPtr × Int)} {m : EM σ}

theorem setEM (h : InitFrame w em ms m w₁) (m' : EM σ) : InitFrame w em ms m' (w₁.setEM em m') where
  mallocs := h.mallocs
  frame := h.frame
  ems := by simp [World.setEM, h.ems]
  records := h.records

theorem kernelOnly (h : InitFrame w em ms m w₁) (hk : KernelOnly w₁ w₂)
    (hr : Records (InitRecord em) w₁ w₂) : InitFrame w em ms m w₂ where
  mallocs := (congrArg (·.mallocs) hk).trans h.mallocs
  frame := by
    rw [← h.frame, ← hk]
  ems := (congrArg (·.ems) hk).trans h.ems
  records := h.records.trans hr

theorem ems_self (h : InitFrame w em ms m w₁) : w₁.ems em = m := by simp [h.ems]

end InitFrame

theorem pipeMade_flags {k k₁ k₂ : Kernel} {who : Owner} {ends : Int × Int}
    (h : k.PipeMade who ends k₁) (hflags : k₁.FlagsOnly k₂) : k.PipeMade who ends k₂ := by
  obtain ⟨r, w, k', k'', h₁, h₂, h₃, h₄, h₅, h₆, h₇, h₈, h₉, h₁₀, hflags₁⟩ := h
  exact ⟨r, w, k', k'', h₁, h₂, h₃, h₄, h₅, h₆, h₇, h₈, h₉, h₁₀, hflags₁.trans hflags⟩

theorem initPipeFlags_spec (usePipe2 : Bool) (em : EMPtr) (ends : Int × Int) (w : World σ)
    (hopen : ∀ fd ∈ [ends.1, ends.2], w.kernel.file fd ≠ none) :
    wp (initPipeFlags usePipe2 (.machine em) ends)
      (fun r w' => FlagsKept em w w' ∧
        ((r = EMResult.success.code ∧ (usePipe2 = true ∨ ¬ FcntlFails w.kernel 2)) ∨
          (r = EMResult.errorFcntl.code ∧ usePipe2 = false ∧ FcntlFails w.kernel 2)))
      (fun _ _ => False) w := by
  unfold initPipeFlags
  cases usePipe2 with
  | true => exact ⟨.refl em w, Or.inl ⟨rfl, Or.inl rfl⟩⟩
  | false =>
    refine wp_mono (setPipeFlags_spec em [ends.1, ends.2] w hopen) ?_ fun _ _ h => h
    rintro r w' ⟨hkept, hcase⟩
    refine ⟨hkept, ?_⟩
    rcases hcase with ⟨hr, hf⟩ | ⟨hr, hf⟩
    · exact Or.inl ⟨hr, Or.inr hf⟩
    · exact Or.inr ⟨hr, rfl, hf⟩

/-- `event_machine_init()` from the flags of the pipe on. -/
def initQueue (em : EMPtr) : Sys σ UInt32 := do
  modifyEM em fun m =>
    { m with breakLoopEventDescriptor := ⟨EPOLLIN, m.breakLoopPipe.1, .null, none⟩ }
  let queueFd ← epollCreate (.machine em)
  if queueFd < 0 then return EMResult.errorEventCreateQueue.code
  modifyEM em fun m => { m with queueFd := queueFd }
  let ret ← eventCtl (.machine em) queueFd (some (.breakLoop em)) (-1) .add
  if ret ≠ 0 then return EMResult.errorEventCtl.code
  return EMResult.success.code

theorem initQueue_spec (usePipe2 : Bool) (em : EMPtr) (ms : List (BufPtr × Int)) (m : EM σ)
    (ends : Int × Int) (w w₁ : World σ) (hbase : InitFrame w em ms { m with breakLoopPipe := ends } w₁)
    (hpipe : w.kernel.PipeMade (.machine em) ends w₁.kernel)
    (hfault : w.kernel.faults .pipe 0 = none ∧ (usePipe2 = true ∨ ¬ FcntlFails w.kernel 2) ∧
      w₁.kernel.faults .epollCreate = w.kernel.faults .epollCreate) :
    wp (initQueue em)
      (fun r w' => InitOutcome usePipe2 w em ms m r w') (fun _ _ => False) w₁ := by
  unfold initQueue
  rw [wp_bind, wp_modifyEM, wp_bind, hbase.ems_self]
  have hbase₁ := hbase.setEM { m with
    breakLoopPipe := ends, breakLoopEventDescriptor := breakLoopDescriptor ends.1 }
  refine wp_mono (epollCreate_spec em _) ?_ fun _ _ h => h
  rintro fd w₂ ⟨honly, hlog, hcase⟩
  have hbase₂ := hbase₁.kernelOnly honly (.of_log_eq hlog)
  rcases hcase with ⟨rfl, hfail, hcore⟩ | ⟨hok, q, hqueue⟩
  · rw [if_pos (by decide)]
    refine .noQueue ends rfl hbase₂ (pipeMade_flags hpipe (.of_core hcore)) ?_
    rw [← hfault.2.2]
    exact hfail
  · rw [if_neg (by have := hqueue.1.nonneg; omega), wp_bind, wp_modifyEM, wp_bind, hbase₂.ems_self]
    have hbase₃ := hbase₂.setEM { m with
      breakLoopPipe := ends
      breakLoopEventDescriptor := breakLoopDescriptor ends.1
      queueFd := fd }
    generalize hw₃ : w₂.setEM em _ = w₃ at hbase₃ ⊢
    have hk₃ : w₃.kernel = w₂.kernel := by rw [← hw₃]; rfl
    have hed : w₃.ed (.breakLoop em) = breakLoopDescriptor ends.1 :=
      congrArg (·.breakLoopEventDescriptor) hbase₃.ems_self
    have hctl : ctlFd w₃ (some (.breakLoop em)) (-1) = ends.1 := congrArg (·.fd) hed
    have hq : w₃.kernel.file fd = some q := by
      rw [hk₃, hqueue.1.file, if_pos rfl]
    refine wp_mono (wp_and (eventCtl_spec (.machine em) fd (some (.breakLoop em)) (-1) .add _)
      (eventCtl_records (.machine em) fd (some (.breakLoop em)) (-1) .add _)) ?_
      (fun _ _ h => absurd h.1.1 (by simp))
    rintro ret w₄ ⟨⟨-, hcase⟩, hrec⟩
    have hrec' : Records (InitRecord em) w₃ w₄ := hrec.mono fun x ⟨hwho, hcall, _, hfile, _⟩ =>
      ⟨hwho, Or.inr (Or.inr ⟨hcall, q, hfile.trans hq, hqueue.2.2.1⟩)⟩
    have hnoFault := And.intro hfault.1 (And.intro hfault.2.1 (hfault.2.2 ▸ hok))
    rcases hcase with ⟨hret, q', hcan, hcore⟩ | ⟨hret, hsame, -⟩
    · obtain rfl : q' = q := Option.some.inj (hcan.queue.symm.trans hq)
      rw [hctl] at hcore
      rw [if_neg (by simp [hret])]
      refine .queue ends fd q' _ _ (hbase₃.kernelOnly (.of_core hcore) hrec') hpipe hqueue
        (Or.inl ⟨rfl, ?_⟩) hnoFault
      have hcore' := World.kernel_core (w := w₃.setInterest _ _ _) hcore
      rw [show ctlEvent w₃ (some (.breakLoop em)) = ⟨EPOLLIN, some (.breakLoop em)⟩ from
        congrArg (fun d => (⟨d.events, some (.breakLoop em)⟩ : EpollEvent)) hed] at hcore'
      rw [hcore']
      simp only [World.setInterest, hk₃]
      rfl
    · rw [if_pos hret]
      refine .queue ends fd q _ _ (hbase₃.kernelOnly (.of_core (k := w₃.kernel) hsame.core) hrec')
        hpipe hqueue (Or.inr ⟨rfl, ?_⟩) hnoFault
      rw [World.kernel_core hsame.core, hk₃]

theorem pipeMade_congr {k k' k₁ : Kernel} {who : Owner} {ends : Int × Int}
    (h : k.PipeMade who ends k₁) (hcore : k.core = k'.core) : k'.PipeMade who ends k₁ := by
  obtain ⟨r, w, k₂, k₃, h₁, h₂, h₃, h₄, h₅, h₆, h₇, h₈, h₉, h₁₀, hflags⟩ := h
  have hnext : k.next = k'.next := congrArg (·.next) hcore
  refine ⟨r, w, k₂, k₃, ⟨h₁.nonneg, ?_, ?_, ?_, fun n => ?_⟩, h₂, hnext ▸ h₃, hnext ▸ h₄, h₅, h₆,
    h₇.trans (congrArg (·.interest) hcore), h₈.trans (congrArg (·.timerfds) hcore),
    h₉.trans (congrArg (·.capacity) hcore), ?_, hflags⟩
  · rw [← Kernel.file_congr hcore]
    exact h₁.free
  · rw [← hnext]
    exact h₁.id
  · rw [← hnext]
    exact h₁.next
  · rw [← Kernel.file_congr hcore]
    exact h₁.file n
  · rw [h₁₀, show k.bytes = k'.bytes from congrArg (·.bytes) hcore, hnext]

theorem pipeMade_files {k k' : Kernel} {who : Owner} {ends : Int × Int}
    (h : k.PipeMade who ends k') :
    (0 ≤ ends.1 ∧ 0 ≤ ends.2 ∧ ends.1 ≠ ends.2) ∧ (k.file ends.1 = none ∧ k.file ends.2 = none) ∧
      k'.next = k.next + 2 ∧
      ∀ n, (k'.file n).map File.identity =
        if n = ends.2 then some (k.next + 1, .pipeWrite k.next, who)
        else if n = ends.1 then some (k.next, .pipeRead k.next, who)
        else (k.file n).map File.identity := by
  obtain ⟨r, w, k₁, k₂, h₁, h₂, hr, hw, hr', hw', -, -, -, -, hflags⟩ := h
  have hne : ends.1 ≠ ends.2 := fun heq => by
    have hfree := h₂.free
    rw [← heq, h₁.file, if_pos rfl] at hfree
    exact absurd hfree nofun
  have hfree₂ : k.file ends.2 = none := by
    have hfree := h₂.free
    rwa [h₁.file, if_neg hne.symm] at hfree
  refine ⟨⟨h₁.nonneg, h₂.nonneg, hne⟩, ⟨h₁.free, hfree₂⟩, ?_, fun n => ?_⟩
  · rw [show k'.next = k₂.next from congrArg (·.next) hflags.2, h₂.next, h₁.next]
  · rw [hflags.1 n, h₂.file, h₁.file]
    split_ifs
    · simp [File.identity, h₂.id, h₁.next, hw, hw']
    · simp [File.identity, h₁.id, hr, hr']
    · rfl

theorem pipeMade_open {k k' : Kernel} {who : Owner} {ends : Int × Int}
    (h : k.PipeMade who ends k') : ∀ fd ∈ [ends.1, ends.2], k'.file fd ≠ none := by
  obtain ⟨-, -, -, hfile⟩ := pipeMade_files h
  intro fd hfd hnone
  have hfd' := hfile fd
  rw [hnone] at hfd'
  simp only [List.mem_cons, List.not_mem_nil, or_false] at hfd
  split_ifs at hfd' with h₁ h₂
  · simp at hfd'
  · simp at hfd'
  · exact hfd.elim h₂ h₁

theorem init_spec (usePipe2 : Bool) (w : World σ) (em : EMPtr) :
    wp (eventMachineInit usePipe2 (some em))
      (fun r w' => ∃ ms m, Buffered w em m ms ∧
        InitOutcome usePipe2 w em ms m r w')
      (fun _ _ => False) w := by
  unfold eventMachineInit
  rw [wp_bind]
  refine wp_mono (initEvents_spec em w) ?_ fun _ _ h => h
  rintro - w₀ ⟨m, hprep⟩
  have hbase₀ : InitFrame w em w₀.mallocs m w₀ :=
    ⟨rfl, congrArg (fun v : World σ => { v with log := w.log }) hprep.frame, hprep.ems,
      .of_log_eq (congrArg (·.log) hprep.frame)⟩
  suffices h : wp _ (fun r w' => InitOutcome usePipe2 w em w₀.mallocs m r w')
      (fun _ _ => False) w₀ from
    wp_mono h (fun r w' hout => ⟨_, m, hprep.buffer, hout⟩) fun _ _ h => h
  rw [wp_bind]
  refine wp_mono (pipe_spec em usePipe2 w₀) ?_ fun _ _ h => h
  rintro ⟨ret, ends⟩ w₁ ⟨honly, hlog, hfaults, hcase⟩
  have hbase₁ := hbase₀.kernelOnly honly (.of_log_eq hlog)
  dsimp only at hcase ⊢
  rcases hcase with ⟨rfl, hfail, hcore⟩ | ⟨rfl, hok, hpipe⟩
  · rw [if_pos (by decide)]
    refine .noPipe rfl hbase₁ (hcore.trans hprep.core) ?_
    rwa [← hprep.faults _ (by decide)]
  rw [if_neg (by decide), wp_bind, wp_modifyEM, hbase₁.ems_self]
  have hbase₂ := hbase₁.setEM { m with breakLoopPipe := ends }
  generalize hw₂ : w₁.setEM em { m with breakLoopPipe := ends } = w₂ at hbase₂ ⊢
  have hk₂ : w₂.kernel = w₁.kernel := by rw [← hw₂]; rfl
  have hpipe₂ : w.kernel.PipeMade (.machine em) ends w₂.kernel := by
    rw [hk₂]
    exact pipeMade_congr hpipe hprep.core
  have hfaults₂ : ∀ s, s ≠ .malloc → s ≠ .pipe → w₂.kernel.faults s = w.kernel.faults s :=
    fun s hm hp => by rw [hk₂, hfaults, Kernel.turn_faults_of_ne _ hp, hprep.faults s hm]
  have hpipeOk : w.kernel.faults .pipe 0 = none := by rwa [← hprep.faults _ (by decide)]
  have hfcntl : FcntlFails w₂.kernel 2 ↔ FcntlFails w.kernel 2 := by
    simp only [FcntlFails, hfaults₂ .fcntlGetfl (by decide) (by decide),
      hfaults₂ .fcntlSetfl (by decide) (by decide)]
  rw [wp_bind]
  refine wp_mono (initPipeFlags_spec usePipe2 em ends w₂ (pipeMade_open hpipe₂)) ?_ fun _ _ h => h
  rintro flags w₃ ⟨hkept, hcase⟩
  have hbase₃ := hbase₂.kernelOnly hkept.only hkept.records
  rw [hfcntl] at hcase
  have hpipe₃ : w.kernel.PipeMade (.machine em) ends w₃.kernel := pipeMade_flags hpipe₂ hkept.flags
  rcases hcase with ⟨rfl, hnofcntl⟩ | ⟨rfl, hfail⟩
  · rw [if_neg (by decide)]
    refine initQueue_spec usePipe2 em w₀.mallocs m ends w w₃ hbase₃ hpipe₃ ⟨hpipeOk, hnofcntl, ?_⟩
    rw [hkept.faults _ (by decide) (by decide), hfaults₂ _ (by decide) (by decide)]
  · rw [if_pos (by decide)]
    exact .noFlags ends rfl hbase₃ hpipe₃ hfail

theorem InitOutcome.registered {usePipe2 : Bool} {w w' : World σ} {em : EMPtr}
    {ms : List (BufPtr × Int)} {m : EM σ}
    (h : InitOutcome usePipe2 w em ms m EMResult.success.code w') :
    ∃ ends fd q, w'.ems em = { m with
        breakLoopPipe := ends
        breakLoopEventDescriptor := breakLoopDescriptor ends.1
        queueFd := fd } ∧
      w'.kernel.file fd = some q ∧ q.kind = .epoll ∧
      w'.kernel.interest q.id =
        Function.update (fun _ => none) ends.1 (some ⟨EPOLLIN, some (.breakLoop em)⟩) ∧
      fd ≠ ends.1 := by
  cases h with
  | noPipe code => exact absurd code (by decide)
  | noFlags _ code => exact absurd code (by decide)
  | noQueue _ code => exact absurd code (by decide)
  | queue ends fd q k₁ k₂ base pipe queue event =>
    obtain ⟨-, hcore⟩ : _ ∧ w'.kernel.core = _ := event.resolve_right fun h => absurd h.1 (by decide)
    obtain ⟨hopens, hkind, -, hinterest, -⟩ := queue
    refine ⟨ends, fd, q, base.ems_self, ?_, hkind, ?_, ?_⟩
    · rw [Kernel.file_congr hcore]
      exact (hopens.file fd).trans (if_pos rfl)
    · rw [Kernel.interest_congr hcore]
      simp [Kernel.setInterest, hinterest]
    · rintro rfl
      exact pipeMade_open pipe ends.1 List.mem_cons_self hopens.free

end EventMachine
