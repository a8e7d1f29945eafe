import EventMachine.Proof.World
import EventMachine.System

/-!
# What the main loop can do

Library code on its way from one handler to the next changes little: bytes in pipes, the counts of
timers, the buffer of events (`Calm`). `Config.go_cases` says what one step of it can do, and every
later result about the loop goes through that.
-/

namespace EventMachine

open Lib

variable {σ : Type}

/-- The world without what the library may change on its way from one handler to the next. -/
def World.still (w : World σ) : World σ :=
  { w with kernel := w.kernel.still, buffers := fun _ => [], log := [], invoked := [] }

/-- Nothing but such things has changed. -/
def Calm (w w' : World σ) : Prop := w'.still = w.still

namespace Calm
variable {w w' : World σ}

theorem of_kernelOnly (h : KernelOnly w w') (hk : w'.kernel.still = w.kernel.still) : Calm w w' := by
  have hw := congrArg (fun v : World σ => { v.still with kernel := w'.kernel.still }) h
  rw [hk] at hw
  rw [Calm, show w'.still = { w'.still with kernel := w'.kernel.still } from rfl, hk]
  exact hw

theorem file (h : Calm w w') (n : Int) : w'.kernel.file n = w.kernel.file n :=
  Kernel.file_still (congrArg (·.kernel) h) n

theorem interest (h : Calm w w') : w'.kernel.interest = w.kernel.interest :=
  congrArg (·.kernel.interest) h

theorem next (h : Calm w w') : w'.kernel.next = w.kernel.next := congrArg (·.kernel.next) h

theorem ems (h : Calm w w') : w'.ems = w.ems := congrArg (·.ems) h

theorem timers (h : Calm w w') : w'.timers = w.timers := congrArg (·.timers) h

theorem ed (h : Calm w w') (p : EDPtr) : w'.ed p = w.ed p := by
  have hed : ∀ v : World σ, v.still.ed p = v.ed p := fun v => by cases p <;> rfl
  rw [← hed w', h, hed]

end Calm

/-! ## The pieces of `event_machine_run_once()` -/

theorem wp_epollWait {who : Owner} {epfd maxEvents : Int} {events : Option BufPtr} {o : WaitOutcome}
    {w : World σ} :
    wp (epollWait who epfd events maxEvents o)
      (fun ret w' => w'.log = w.log ++ [⟨who, .epollWait, epfd, w.kernel.file epfd, none, ret⟩] ∧
        ((ret = -1 ∧ w'.kernel.core = w.kernel.core ∧ KernelOnly w w' ∧
            ∀ q l, w.kernel.file epfd = some q → q.kind = .epoll → 0 < maxEvents →
              events.isSome → o ≠ .batch l) ∨
          ∃ q l b, w.kernel.file epfd = some q ∧ o = .batch l ∧ events = some b ∧
            ret = l.length ∧ w'.kernel = w.kernel ∧
            w' = { w with
              log := w'.log
              buffers := Function.update w.buffers b (l ++ (w.buffers b).drop l.length) }))
      (fun _ _ => False) w := by
  unfold epollWait
  rw [wp_bind]
  apply wp_issue.2
  rcases Kernel.epollWait_cases w.kernel epfd maxEvents events.isSome o with
    ⟨hret, hcore, hwhy⟩ | ⟨q, l, hq, -, -, hb, rfl, hret⟩
  · have hlog : (w.issued who .epollWait epfd (·.epollWait epfd maxEvents events.isSome o)).log =
        w.log ++ [⟨who, .epollWait, epfd, w.kernel.file epfd, none, -1⟩] := by
      simp only [World.issued, hret]
    rw [hret]
    cases events <;> cases o <;> exact ⟨hlog, Or.inl ⟨rfl, hcore, rfl, hwhy⟩⟩
  · obtain ⟨b, rfl⟩ := Option.isSome_iff_exists.1 hb
    rw [hret]
    rw [Option.isSome_some] at hret
    have hneg : ¬ ((l.length : Int) < 0) := by omega
    simp only [hneg, if_false]
    refine (wp_modifyGet _).2 ⟨?_, Or.inr ⟨q, l, b, hq, rfl, rfl, rfl, ?_, ?_⟩⟩
    · simp [World.issued, hret]
    · simp [World.issued, hret]
    · simp [World.issued, hret]

/-- A system call on one descriptor, as it is recorded. -/
def CallRecord (w : World σ) (who : Owner) (call : Syscall) (fd : Int) (x : SysRecord) : Prop :=
  x.who = who ∧ x.call = call ∧ x.fd = fd ∧ x.file = w.kernel.file fd

theorem CallRecord.of_log {w w' : World σ} {who : Owner} {call : Syscall} {fd ret : Int}
    (h : w'.log = w.log ++ [⟨who, call, fd, w.kernel.file fd, none, ret⟩]) :
    Records (CallRecord w who call fd) w w' := .of_one h ⟨rfl, rfl, rfl, rfl⟩

theorem runOnceWait_spec (em : EMPtr) (queueFd : Int) (events : Option BufPtr) (maxEvents : Int)
    (breakLoopReadFd : Int) (o : WaitOutcome) (w : World σ) :
    wp (runOnceWait em queueFd events maxEvents breakLoopReadFd o)
      (fun ret w' => 0 ≤ queueFd ∧ 0 ≤ breakLoopReadFd ∧ Calm w w' ∧ w'.invoked = w.invoked ∧
        w'.log = w.log ++
          [⟨.machine em, .epollWait, queueFd, w.kernel.file queueFd, none, ret⟩] ∧
        ((ret = -1 ∧ w'.kernel.core = w.kernel.core ∧ w'.buffers = w.buffers ∧
            ∀ q l, w.kernel.file queueFd = some q → q.kind = .epoll → 0 < maxEvents →
              events.isSome → o ≠ .batch l) ∨
          ∃ q l b, w.kernel.file queueFd = some q ∧ o = .batch l ∧ events = some b ∧
            ret = l.length ∧ w'.kernel = w.kernel ∧
            w'.buffers = Function.update w.buffers b (l ++ (w.buffers b).drop l.length)))
      (fun _ w' => w' = w ∧ (queueFd < 0 ∨ breakLoopReadFd < 0)) w := by
  unfold runOnceWait
  rw [wp_bind, wp_cAssert]
  refine ⟨fun hq => ?_, fun h => ⟨rfl, Or.inl (by omega)⟩⟩
  rw [wp_bind, wp_cAssert]
  refine ⟨fun hb => ?_, fun h => ⟨rfl, Or.inr (by omega)⟩⟩
  refine wp_mono wp_epollWait ?_ fun _ _ h => h.elim
  rintro ret w' ⟨hlog, hcase⟩
  rcases hcase with ⟨rfl, hcore, honly, hwhy⟩ | ⟨q, l, b, hfile, ho, he, hret, hk, hw⟩
  · exact ⟨hq, hb, .of_kernelOnly honly (Kernel.still_of_core hcore), congrArg (·.invoked) honly, hlog,
      Or.inl ⟨rfl, hcore, congrArg (·.buffers) honly, hwhy⟩⟩
  · refine ⟨hq, hb, ?_, congrArg (·.invoked) hw, hlog,
      Or.inr ⟨q, l, b, hfile, ho, he, hret, hk, congrArg (·.buffers) hw⟩⟩
    rw [Calm, hw]
    rfl

theorem runOnceBegin_spec (em : EMPtr) (o : WaitOutcome) (w : World σ) :
    wp (runOnceBegin em o)
      (fun r w' => r.2 = ((w.ems em).events, (w.ems em).breakLoopPipe.1) ∧
        0 ≤ (w.ems em).queueFd ∧ 0 ≤ (w.ems em).breakLoopPipe.1 ∧ Calm w w' ∧
        Records (CallRecord w (.machine em) .epollWait (w.ems em).queueFd) w w' ∧
        w'.invoked = w.invoked ∧
        ((r.1 = -1 ∧ w'.kernel.core = w.kernel.core ∧ w'.buffers = w.buffers) ∨
          ∃ q l b, w.kernel.file (w.ems em).queueFd = some q ∧ o = .batch l ∧
            (w.ems em).events = some b ∧ r.1 = l.length ∧ w'.kernel = w.kernel ∧
            w'.buffers = Function.update w.buffers b (l ++ (w.buffers b).drop l.length)))
      (fun _ w' => w' = w) w := by
  unfold runOnceBegin
  rw [wp_bind, wp_getEM, wp_bind]
  refine wp_mono (runOnceWait_spec _ _ _ _ _ _ _) ?_ fun _ _ h => h.1
  rintro ret w' ⟨hq, hb, hcalm, hinv, hlog, hcase⟩
  refine ⟨rfl, hq, hb, hcalm, CallRecord.of_log hlog, hinv, ?_⟩
  rcases hcase with ⟨rfl, hcore, hbuf, -⟩ | hbatch
  · exact Or.inl ⟨rfl, hcore, hbuf⟩
  · exact Or.inr hbatch

/-- What one round of the loop of `event_machine_run_once()` can do with the event descriptor `p` and
the event `e` in its slot. -/
inductive SlotOutcome (w : World σ) (em : EMPtr) (breakLoopReadFd : Int) (e : EpollEvent) (p : EDPtr) :
    Slot → World σ → Prop
  | readFailed {w' : World σ} (fd : (w.ed p).fd = breakLoopReadFd)
      (log : w'.log = w.log ++
        [⟨.machine em, .read, breakLoopReadFd, w.kernel.file breakLoopReadFd, none, -1⟩])
      (core : w'.kernel.core = w.kernel.core) (only : KernelOnly w w') :
      SlotOutcome w em breakLoopReadFd e p .readFailed w'
  | breakLoop {w' : World σ} (f : File) (o : ObjId) (fd : (w.ed p).fd = breakLoopReadFd)
      (log : w'.log = w.log ++
        [⟨.machine em, .read, breakLoopReadFd, w.kernel.file breakLoopReadFd, none, 1⟩])
      (file : w.kernel.file breakLoopReadFd = some f) (kind : f.kind = .pipeRead o)
      (pos : 0 < w.kernel.bytes o)
      (core : w'.kernel.core =
        { w.kernel.core with bytes := Function.update w.kernel.bytes o (w.kernel.bytes o - 1) })
      (only : KernelOnly w w') :
      SlotOutcome w em breakLoopReadFd e p .breakLoop w'
  | handler (h : Handler) (fd : (w.ed p).fd ≠ breakLoopReadFd) (handler : (w.ed p).handler = some h) :
      SlotOutcome w em breakLoopReadFd e p (.handler h e.events (w.ed p).fd (w.ed p).data)
        { w with invoked := w.invoked ++ [.handler h em e.events (w.ed p).fd (w.ed p).data] }

theorem runOnceSlot_spec (em : EMPtr) (events : Option BufPtr) (i : Nat) (breakLoopReadFd : Int)
    (w : World σ) :
    wp (runOnceSlot em events i breakLoopReadFd)
      (fun r w' => ∃ b e p, events = some b ∧ (w.buffers b)[i]? = some e ∧ e.data = some p ∧
        SlotOutcome w em breakLoopReadFd e p r w')
      (fun _ w' => w' = w ∧ ∀ b e p, events = some b → (w.buffers b)[i]? = some e →
        e.data = some p → (w.ed p).fd ≠ breakLoopReadFd ∧ (w.ed p).handler = none) w := by
  unfold runOnceSlot
  rw [wp_bind, wp_get]
  cases events with
  | none => exact ⟨rfl, nofun⟩
  | some b =>
  cases he : (w.buffers b)[i]? with
  | none =>
    simp only [he]
    refine ⟨rfl, ?_⟩
    rintro b' e p ⟨⟩ he'
    exact absurd (he.symm.trans he') nofun
  | some e =>
  simp only [he]
  cases hp : e.data with
  | none =>
    refine ⟨rfl, ?_⟩
    rintro b' e' p ⟨⟩ he' hp'
    obtain rfl := Option.some.inj (he.symm.trans he')
    exact absurd (hp.symm.trans hp') nofun
  | some p =>
  simp only
  rw [wp_bind, wp_getED, wp_ite]
  constructor
  · intro hfd
    rw [wp_bind]
    apply wp_issue.2
    rcases Kernel.readByte_cases w.kernel breakLoopReadFd with
      ⟨hret, hcore⟩ | ⟨f, o, hf, hk, hpos, hret, hcore⟩
    · rw [hret, if_pos (by decide)]
      exact ⟨b, e, p, rfl, he, hp, .readFailed hfd (by simp only [World.issued, hret]) hcore rfl⟩
    · rw [hret, if_neg (by decide)]
      exact ⟨b, e, p, rfl, he, hp,
        .breakLoop f o hfd (by simp only [World.issued, hret]) hf hk hpos hcore rfl⟩
  · intro hfd
    cases hh : (w.ed p).handler with
    | none =>
      refine ⟨rfl, ?_⟩
      rintro b' e' p' ⟨⟩ he' hp'
      obtain rfl := Option.some.inj (he.symm.trans he')
      obtain rfl := Option.some.inj (hp.symm.trans hp')
      exact ⟨hfd, hh⟩
    | some h => exact ⟨b, e, p, rfl, he, hp, .handler h hfd hh⟩

namespace SlotOutcome
variable {w w' : World σ} {em : EMPtr} {fd : Int} {e : EpollEvent} {p : EDPtr} {r : Slot}

theorem calm (h : SlotOutcome w em fd e p r w') : Calm w w' := by
  cases h with
  | readFailed _ _ core only => exact .of_kernelOnly only (Kernel.still_of_core core)
  | breakLoop f o _ _ _ _ _ core only =>
    exact .of_kernelOnly only (congrArg (fun k : Kernel =>
      { k with bytes := fun _ => 0, timerfds := fun _ => ⟨none, 0⟩ }) core)
  | handler => rfl

theorem buffers (h : SlotOutcome w em fd e p r w') : w'.buffers = w.buffers := by
  cases h with
  | readFailed _ _ _ only => exact congrArg (·.buffers) only
  | breakLoop _ _ _ _ _ _ _ _ only => exact congrArg (·.buffers) only
  | handler => rfl

end SlotOutcome

/-! ## The pieces of `internal_timeout_handler()` -/

theorem internalTimeoutRead_spec (fd : Int) (data : VoidPtr) (w : World σ) :
    wp (internalTimeoutRead fd data)
      (fun r w' => Calm w w' ∧ w'.buffers = w.buffers ∧ w'.invoked = w.invoked ∧
        Records (CallRecord w data.owner .read fd) w w' ∧
        ((r = none ∧ w'.kernel.core = w.kernel.core) ∨
          ∃ f, w.kernel.file fd = some f ∧ f.kind = .timerfd ∧
            0 < (w.kernel.timerfds f.id).pending ∧ r = some (w.kernel.timerfds f.id).pending ∧
            w'.kernel.core = { w.kernel.core with
              timerfds := Function.update w.kernel.timerfds f.id
                { w.kernel.timerfds f.id with pending := 0 } }))
      (fun _ w' => Calm w w' ∧ w'.buffers = w.buffers ∧
        Records (CallRecord w data.owner .read fd) w w') w := by
  unfold internalTimeoutRead
  rw [wp_bind, wp_cAssert]
  refine ⟨fun hfd => ?_, fun _ => ⟨rfl, rfl, .refl w⟩⟩
  rw [wp_bind]
  apply (wp_modifyGet _).2
  generalize hw' : ({ w with kernel := _, log := _ } : World σ) = w'
  have hk : w'.kernel = (w.kernel.readExpirations fd).2 := by rw [← hw']
  have hcalm : Calm w w' := by
    rw [← hw']
    exact .of_kernelOnly rfl (Kernel.readExpirations_still w.kernel fd)
  have hbuf : w'.buffers = w.buffers := by rw [← hw']
  have hinv : w'.invoked = w.invoked := by rw [← hw']
  have hrec : Records (CallRecord w data.owner .read fd) w w' := by
    rw [← hw']
    exact .of_one rfl ⟨rfl, rfl, rfl, rfl⟩
  rw [wp_bind, wp_getErrno, wp_ite]
  rcases Kernel.readExpirations_cases w.kernel fd with ⟨hret, hcore⟩ | ⟨f, hf, hkind, hpos, hret, hcore⟩
  · refine ⟨fun _ => ⟨hcalm, hbuf, hinv, hrec, Or.inl ⟨rfl, hk ▸ hcore⟩⟩, fun _ => ?_⟩
    rw [wp_bind, wp_cAssert]
    exact ⟨fun h8 => absurd (hret.symm.trans h8) (by decide), fun _ => ⟨hcalm, hbuf, hrec⟩⟩
  · have h8 : (w.kernel.readExpirations fd).1.1 = 8 := congrArg (·.1) hret
    have hn : (w.kernel.readExpirations fd).1.2 = (w.kernel.timerfds f.id).pending :=
      congrArg (·.2) hret
    refine ⟨fun h => absurd h8 h.1, fun _ => ?_⟩
    rw [wp_bind, wp_cAssert]
    refine ⟨fun _ => ⟨hcalm, hbuf, hinv, hrec, Or.inr ⟨f, hf, hkind, hpos, ?_, hk ▸ hcore⟩⟩,
      fun h => absurd h8 h⟩
    rw [← hn]

theorem internalTimeoutRound_spec (data : VoidPtr) (w : World σ) :
    wp (internalTimeoutRound data)
      (fun r w' => ∃ t c, data = .timer t ∧ (w.timers t).callback = some c ∧
        r = (c, t, (w.timers t).data) ∧
        w' = { w with invoked := w.invoked ++ [.callback c t (w.timers t).data] })
      (fun _ w' => w' = w) w := by
  unfold internalTimeoutRound
  cases data with
  | null => rfl
  | user a => rfl
  | timer t =>
    simp only
    rw [wp_bind, wp_getTimer]
    cases hc : (w.timers t).callback with
    | none => rfl
    | some c => exact ⟨t, c, rfl, hc, rfl, rfl⟩

theorem eventMachineRunEnter_spec (em : EMRef) (w : World σ) :
    wp (eventMachineRunEnter em)
      (fun r w' => Same w w' ∧ KernelOnly w w' ∧
        (∀ m, em = some m → Records (CallRecord w (.machine m) .fcntlGetfl (w.ems m).queueFd) w w') ∧
        (r = EMResult.success.code → ∀ m, em = some m → 0 ≤ (w.ems m).queueFd))
      (fun _ _ => False) w := by
  unfold eventMachineRunEnter
  have hnone : ∀ r, r ≠ EMResult.success.code → Same w w ∧ KernelOnly w w ∧
      (∀ m, em = some m → Records (CallRecord w (.machine m) .fcntlGetfl (w.ems m).queueFd) w w) ∧
      (r = EMResult.success.code → ∀ m, em = some m → 0 ≤ (w.ems m).queueFd) := fun r hr =>
    ⟨.refl w, .refl w, fun _ _ => .refl w, fun h => absurd h hr⟩
  cases em with
  | none => exact hnone _ (by decide)
  | some m =>
    simp only
    rw [wp_bind, wp_getEM, wp_ite]
    refine ⟨fun _ => hnone _ (by decide), fun hq => ?_⟩
    rw [wp_ite]
    refine ⟨fun _ => hnone _ (by decide), fun _ => ?_⟩
    rw [wp_ite]
    refine ⟨fun _ => hnone _ (by decide), fun _ => ?_⟩
    rw [wp_bind]
    apply wp_issue.2
    generalize hw₁ : w.issued (.machine m) .fcntlGetfl _ _ = w₁
    have hcalled : ∀ r, Same w w₁ ∧ KernelOnly w w₁ ∧ (∀ m', some m = some m' →
        Records (CallRecord w (.machine m') .fcntlGetfl (w.ems m').queueFd) w w₁) ∧
        (r = EMResult.success.code → ∀ m', some m = some m' → 0 ≤ (w.ems m').queueFd) := by
      intro r
      rw [← hw₁]
      refine ⟨⟨?_, fun h => Kernel.fcntlGetfl_faultFree h _⟩, rfl, fun m' hm => ?_, fun _ m' hm => ?_⟩
      · simp only [World.core, World.issued, Kernel.fcntlGetfl_core]
      · obtain rfl := Option.some.inj hm
        exact World.issued_records ⟨rfl, rfl, rfl, rfl⟩
      · obtain rfl := Option.some.inj hm
        omega
    rw [wp_ite]
    exact ⟨fun _ => hcalled _, fun _ => hcalled _⟩

/-! ## One step of the library -/

/-- The event in the slot a batch has come to, and the event descriptor it points to. -/
structure InSlot (w : World σ) (b : Batch) (e : EpollEvent) (p : EDPtr) : Prop where
  lt : b.i < b.numEvents
  event : ∃ buf, b.events = some buf ∧ (w.buffers buf)[b.i]? = some e
  data : e.data = some p

/-- The batch after one more slot. -/
def Batch.next (b : Batch) : Batch := { b with i := b.i + 1 }

/-- What a step of library code can do, by the activation that takes it. -/
inductive GoOutcome (w : World σ) (o : WaitOutcome) : List Frame → Config σ → Prop
  | idle : GoOutcome w o [] ⟨w, [], .library⟩
  | crashed {fs : List Frame} {w' : World σ} (calm : Calm w w') (buffers : w'.buffers = w.buffers)
      (records : Records (fun x => ∀ em, x.who ≠ .machine em) w w') :
      GoOutcome w o fs ⟨w', fs, .crashed⟩
  | waitFailed {em : EMPtr} {bl : Bool} {rest : List Frame} {w' : World σ} (calm : Calm w w')
      (buffers : w'.buffers = w.buffers)
      (records : Records (CallRecord w (.machine em) .epollWait (w.ems em).queueFd) w w')
      (queue : 0 ≤ (w.ems em).queueFd) (core : w'.kernel.core = w.kernel.core)
      (invoked : w'.invoked = w.invoked) :
      GoOutcome w o (.run em bl none :: rest) ⟨w', rest, .user⟩
  | waited {em : EMPtr} {bl : Bool} {rest : List Frame} {w' : World σ} {q : File}
      {l : List EpollEvent} {buf : BufPtr} (calm : Calm w w')
      (records : Records (CallRecord w (.machine em) .epollWait (w.ems em).queueFd) w w')
      (queue : w.kernel.file (w.ems em).queueFd = some q) (outcome : o = .batch l)
      (kernel : w'.kernel = w.kernel)
      (buffers : w'.buffers = Function.update w.buffers buf (l ++ (w.buffers buf).drop l.length))
      (readFd : 0 ≤ (w.ems em).breakLoopPipe.1) (invoked : w'.invoked = w.invoked) :
      GoOutcome w o (.run em bl none :: rest)
        ⟨w', .run em bl (some ⟨some buf, (w.ems em).breakLoopPipe.1, 0, l.length⟩) :: rest, .library⟩
  | readFailed {em : EMPtr} {bl : Bool} {b : Batch} {rest : List Frame} {w' : World σ}
      {e : EpollEvent} {p : EDPtr} (slot : InSlot w b e p)
      (out : SlotOutcome w em b.breakLoopReadFd e p .readFailed w') :
      GoOutcome w o (.run em bl (some b) :: rest) ⟨w', rest, .user⟩
  | breakLoop {em : EMPtr} {bl : Bool} {b : Batch} {rest : List Frame} {w' : World σ}
      {e : EpollEvent} {p : EDPtr} (slot : InSlot w b e p)
      (out : SlotOutcome w em b.breakLoopReadFd e p .breakLoop w') :
      GoOutcome w o (.run em bl (some b) :: rest) ⟨w', .run em true (some b.next) :: rest, .library⟩
  | handler {em : EMPtr} {bl : Bool} {b : Batch} {rest : List Frame} {w' : World σ}
      {e : EpollEvent} {p : EDPtr} {h : Nat} (slot : InSlot w b e p)
      (out : SlotOutcome w em b.breakLoopReadFd e p
        (.handler (.user h) e.events (w.ed p).fd (w.ed p).data) w') :
      GoOutcome w o (.run em bl (some b) :: rest) ⟨w', .run em bl (some b.next) :: rest, .user⟩
  | spurious {em : EMPtr} {bl : Bool} {b : Batch} {rest : List Frame} {w' : World σ}
      {e : EpollEvent} {p : EDPtr} (slot : InSlot w b e p) (calm : Calm w w')
      (buffers : w'.buffers = w.buffers)
      (records : Records (CallRecord w (w.ed p).data.owner .read (w.ed p).fd) w w')
      (core : w'.kernel.core = w.kernel.core)
      (invoked : w'.invoked = w.invoked ++
        [.handler .internalTimeoutHandler em e.events (w.ed p).fd (w.ed p).data]) :
      GoOutcome w o (.run em bl (some b) :: rest) ⟨w', .run em bl (some b.next) :: rest, .library⟩
  | served {em : EMPtr} {bl : Bool} {b : Batch} {rest : List Frame} {w' : World σ}
      {e : EpollEvent} {p : EDPtr} {f : File} (slot : InSlot w b e p) (calm : Calm w w')
      (buffers : w'.buffers = w.buffers)
      (records : Records (CallRecord w (w.ed p).data.owner .read (w.ed p).fd) w w')
      (handler : (w.ed p).handler = some .internalTimeoutHandler)
      (file : w.kernel.file (w.ed p).fd = some f) (kind : f.kind = .timerfd)
      (pos : 0 < (w.kernel.timerfds f.id).pending)
      (core : w'.kernel.core = { w.kernel.core with
        timerfds := Function.update w.kernel.timerfds f.id
          { w.kernel.timerfds f.id with pending := 0 } })
      (invoked : w'.invoked = w.invoked ++
        [.handler .internalTimeoutHandler em e.events (w.ed p).fd (w.ed p).data]) :
      GoOutcome w o (.run em bl (some b) :: rest)
        ⟨w', .timeout (w.ed p).data (w.kernel.timerfds f.id).pending ::
          .run em bl (some b.next) :: rest, .library⟩
  | batchDone {em : EMPtr} {bl : Bool} {b : Batch} {rest : List Frame} (done : b.numEvents ≤ b.i)
      (break_loop : bl = true) : GoOutcome w o (.run em bl (some b) :: rest) ⟨w, rest, .user⟩
  | again {em : EMPtr} {bl : Bool} {b : Batch} {rest : List Frame} (done : b.numEvents ≤ b.i)
      (break_loop : bl = false) :
      GoOutcome w o (.run em bl (some b) :: rest) ⟨w, .run em bl none :: rest, .library⟩
  | timeoutDone {data : VoidPtr} {rest : List Frame} :
      GoOutcome w o (.timeout data 0 :: rest) ⟨w, rest, .library⟩
  | round {t : TimerPtr} {n c : Nat} {rest : List Frame} (callback : (w.timers t).callback = some c) :
      GoOutcome w o (.timeout (.timer t) (n + 1) :: rest)
        ⟨{ w with invoked := w.invoked ++ [.callback c t (w.timers t).data] },
          .timeout (.timer t) n :: rest, .user⟩

theorem GoOutcome.calm {w : World σ} {o : WaitOutcome} {fs : List Frame} {c' : Config σ}
    (h : GoOutcome w o fs c') : Calm w c'.world := by
  cases h with
  | idle => rfl
  | crashed calm => exact calm
  | waitFailed calm => exact calm
  | waited calm => exact calm
  | readFailed _ out => exact out.calm
  | breakLoop _ out => exact out.calm
  | handler _ out => exact out.calm
  | spurious _ calm => exact calm
  | served _ calm => exact calm
  | batchDone => rfl
  | again => rfl
  | timeoutDone => rfl
  | round => rfl

theorem InSlot.pointer {w : World σ} {b : Batch} {e : EpollEvent} {p : EDPtr} (h : InSlot w b e p) :
    b.pointer w b.i = some p := by
  obtain ⟨hlt, ⟨buf, hbuf, he⟩, hp⟩ := h
  rw [Batch.pointer, if_pos hlt, hbuf, Option.bind_some, he, Option.bind_some, hp]

theorem InSlot.of_pointer {w : World σ} {b : Batch} {p : EDPtr} (h : b.pointer w b.i = some p) :
    ∃ e, InSlot w b e p := by
  unfold Batch.pointer at h
  split at h
  · next hlt =>
    obtain ⟨buf, hbuf, he⟩ := Option.bind_eq_some_iff.1 h
    obtain ⟨e, he, hp⟩ := Option.bind_eq_some_iff.1 he
    exact ⟨e, hlt, ⟨buf, hbuf, he⟩, hp⟩
  · exact absurd h (by simp)

theorem Config.serves_inv {c : Config σ} {p : EDPtr} (h : c.serves = some p) :
    ∃ em bl b rest e, c = ⟨c.world, .run em bl (some b) :: rest, .library⟩ ∧ InSlot c.world b e p := by
  obtain ⟨w, fs, m⟩ := c
  unfold Config.serves at h
  split at h
  · next em bl b rest hm hfs =>
    obtain rfl : m = .library := hm
    obtain rfl : fs = .run em bl (some b) :: rest := hfs
    obtain ⟨e, he⟩ := InSlot.of_pointer h
    exact ⟨em, bl, b, rest, e, rfl, he⟩
  · exact absurd h (by simp)

/-- Library code leaves timers alone that are neither armed nor have expirations left. -/
theorem GoOutcome.quiet {w : World σ} {o : WaitOutcome} {fs : List Frame} {c' : Config σ}
    (h : GoOutcome w o fs c') (hmode : c'.mode ≠ .crashed) {x : ObjId}
    (hx : w.kernel.timerfds x = ⟨none, 0⟩) : c'.world.kernel.timerfds x = ⟨none, 0⟩ := by
  have hcore : ∀ {w' : World σ}, w'.kernel.core = w.kernel.core →
      w'.kernel.timerfds x = ⟨none, 0⟩ := fun hcore =>
    (congrFun (congrArg (·.timerfds) hcore) x).trans hx
  have hslot : ∀ {em : EMPtr} {fd : Int} {e : EpollEvent} {p : EDPtr} {r : Slot} {w' : World σ},
      SlotOutcome w em fd e p r w' → w'.kernel.timerfds x = ⟨none, 0⟩ := fun hout => by
    cases hout with
    | readFailed _ _ core => exact hcore core
    | breakLoop _ _ _ _ _ _ _ core => exact (congrFun (congrArg (·.timerfds) core) x).trans hx
    | handler => exact hx
  cases h with
  | idle => exact hx
  | crashed => exact absurd rfl hmode
  | waitFailed _ _ _ _ core => exact hcore core
  | waited _ _ _ _ kernel => exact hcore (by rw [kernel])
  | readFailed _ out => exact hslot out
  | breakLoop _ out => exact hslot out
  | handler _ out => exact hslot out
  | spurious _ _ _ _ core => exact hcore core
  | @served _ _ _ _ w' e p f slot _ _ _ _ _ _ _ core =>
    apply (congrFun (congrArg (·.timerfds) core) x).trans
    show Function.update w.kernel.timerfds f.id _ x = _
    by_cases hf : x = f.id
    · rw [← hf, Function.update_self, hx]
    · rw [Function.update_of_ne hf, hx]
  | batchDone => exact hx
  | again => exact hx
  | timeoutDone => exact hx
  | round => exact hx

theorem VoidPtr.owner_ne (data : VoidPtr) (em : EMPtr) : data.owner ≠ .machine em := by
  cases data <;> simp [VoidPtr.owner]

theorem Config.go_served {w : World σ} {o : WaitOutcome} {em : EMPtr} {bl : Bool} {b : Batch}
    {e : EpollEvent} {p : EDPtr} (rest : List Frame) (slot : InSlot w b e p)
    (hh : (w.ed p).handler = some .internalTimeoutHandler) :
    GoOutcome w o (.run em bl (some b) :: rest)
      (match internalTimeoutRead (w.ed p).fd (w.ed p).data { w with invoked := w.invoked ++
          [.handler .internalTimeoutHandler em e.events (w.ed p).fd (w.ed p).data] } with
        | .error _ w' => ⟨w', .run em bl (some b) :: rest, .crashed⟩
        | .ok none w' => ⟨w', .run em bl (some b.next) :: rest, .library⟩
        | .ok (some n) w' =>
          ⟨w', .timeout (w.ed p).data n :: .run em bl (some b.next) :: rest, .library⟩) := by
  have hspec := internalTimeoutRead_spec (w.ed p).fd (w.ed p).data
    { w with invoked := w.invoked ++
      [.handler .internalTimeoutHandler em e.events (w.ed p).fd (w.ed p).data] }
  split
  · next w' h =>
    obtain ⟨hcalm, hbuf, hrec⟩ := wp_error hspec h
    refine .crashed hcalm hbuf (hrec.mono fun x hx em => ?_)
    rw [hx.1]
    exact VoidPtr.owner_ne _ _
  · next w' h =>
    obtain ⟨hcalm, hbuf, hinv, hrec, hcase⟩ := wp_ok hspec h
    rcases hcase with ⟨-, hcore⟩ | ⟨f, -, -, -, hn, -⟩
    · exact .spurious slot hcalm hbuf hrec hcore hinv
    · simp at hn
  · next n w' h =>
    obtain ⟨hcalm, hbuf, hinv, hrec, hcase⟩ := wp_ok hspec h
    rcases hcase with ⟨hn, -⟩ | ⟨f, hfile, hkind, hpos, hn, hcore⟩
    · simp at hn
    · obtain rfl := Option.some.inj hn
      exact .served slot hcalm hbuf hrec hh hfile hkind hpos hcore hinv

theorem Config.go_cases (w : World σ) (fs : List Frame) (o : WaitOutcome) :
    GoOutcome w o fs (Config.go ⟨w, fs, .library⟩ o) := by
  match fs with
  | [] => exact .idle
  | .timeout data 0 :: rest => exact .timeoutDone
  | .timeout data (n + 1) :: rest =>
    have hspec := internalTimeoutRound_spec data w
    simp only [Config.go]
    split
    · next e w' h =>
      obtain rfl := wp_error hspec h
      exact .crashed rfl rfl (.refl _)
    · next r w' h =>
      obtain ⟨t, c, rfl, hc, -, rfl⟩ := wp_ok hspec h
      exact .round hc
  | .run em bl none :: rest =>
    have hspec := runOnceBegin_spec em o w
    simp only [Config.go]
    split
    · next e w' h =>
      obtain rfl := wp_error hspec h
      exact .crashed rfl rfl (.refl _)
    · next n events fd w' h =>
      obtain ⟨hr, hq, hb, hcalm, hrec, hinv, hcase⟩ := wp_ok hspec h
      obtain ⟨rfl, rfl⟩ := Prod.mk.inj hr
      rcases hcase with ⟨hn, hcore, hbuf⟩ | ⟨q, l, buf, hqueue, ho, he, hn, hk, hbuf⟩
      · obtain rfl : n = -1 := hn
        rw [if_pos (by decide)]
        exact .waitFailed hcalm hbuf hrec hq hcore hinv
      · obtain rfl : n = l.length := hn
        rw [if_neg (by omega), Int.toNat_natCast, he]
        exact .waited hcalm hrec hqueue ho hk hbuf hb hinv
  | .run em bl (some b) :: rest =>
    simp only [Config.go]
    split
    · next hlt =>
      have hspec := runOnceSlot_spec em b.events b.i b.breakLoopReadFd w
      split
      · next e w' h =>
        obtain ⟨rfl, -⟩ := wp_error hspec h
        exact .crashed rfl rfl (.refl _)
      · next w' h =>
        obtain ⟨buf, e, p, hb, he, hp, hout⟩ := wp_ok hspec h
        exact .readFailed ⟨hlt, ⟨buf, hb, he⟩, hp⟩ hout
      · next w' h =>
        obtain ⟨buf, e, p, hb, he, hp, hout⟩ := wp_ok hspec h
        exact .breakLoop ⟨hlt, ⟨buf, hb, he⟩, hp⟩ hout
      · next w' h =>
        obtain ⟨buf, e, p, hb, he, hp, hout⟩ := wp_ok hspec h
        cases hout with
        | handler h hfd hh => exact .handler ⟨hlt, ⟨buf, hb, he⟩, hp⟩ (.handler _ hfd hh)
      · next fd data w₁ h =>
        obtain ⟨buf, e, p, hb, he, hp, hout⟩ := wp_ok hspec h
        cases hout with
        | handler h hfd hh =>
        exact Config.go_served rest ⟨hlt, ⟨buf, hb, he⟩, hp⟩ hh
    · next hge =>
      split
      · next hbl => exact .batchDone (by omega) hbl
      · next hbl => exact .again (by omega) (by simpa using hbl)

/-! ## Activations -/

/-- `internal_timeout_handler()` is called by `event_machine_run_once()` only. -/
def Nested : List Frame → Prop
  | [] => True
  | .timeout _ _ :: .timeout _ _ :: _ => False
  | _ :: fs => Nested fs

theorem Nested.tail {f : Frame} {fs : List Frame} (h : Nested (f :: fs)) : Nested fs := by
  match f, fs with
  | .run _ _ _, _ => exact h
  | .timeout _ _, [] => trivial
  | .timeout _ _, .run _ _ _ :: _ => exact h

theorem Nested.timeout {data data' : VoidPtr} {n n' : Nat} {fs : List Frame}
    (h : Nested (.timeout data n :: fs)) : Nested (.timeout data' n' :: fs) := by
  match fs with
  | [] => trivial
  | .run _ _ _ :: _ => exact h

theorem Nested.go {w : World σ} {o : WaitOutcome} {fs : List Frame} {c' : Config σ} (h : Nested fs)
    (hout : GoOutcome w o fs c') : Nested c'.stack := by
  cases hout with
  | idle => trivial
  | crashed => exact h
  | waitFailed => exact h.tail
  | waited => exact h.tail
  | readFailed => exact h.tail
  | breakLoop => exact h.tail
  | handler => exact h.tail
  | spurious => exact h.tail
  | served => exact h.tail
  | batchDone => exact h.tail
  | again => exact h.tail
  | timeoutDone => exact h.tail
  | round => exact h.timeout

theorem Step.nested {usePipe2 : Bool} {c c' : Config σ} {a : Act} (h : Step usePipe2 c a c')
    (hc : Nested c.stack) : Nested c'.stack := by
  cases h with
  | call => exact hc
  | crash => exact hc
  | env => exact hc
  | enter => exact hc
  | refuse => exact hc
  | ret => exact hc
  | go => exact hc.go (Config.go_cases _ _ _)

theorem Step.not_crashed {usePipe2 : Bool} {c c' : Config σ} {a : Act} (h : Step usePipe2 c a c')
    (hc : c'.mode ≠ .crashed) : c.mode ≠ .crashed := by
  cases h with
  | env => exact hc
  | _ => exact fun h => absurd h (by simp)

/-! ## The loop of `event_machine_run()` -/

/-- What becomes of the loop after a round of it. -/
def AfterRound (user : UserCode σ) (em : EMPtr) (waits : Nat → WaitOutcome) (fuel n : Nat)
    (Q : Option UInt32 → World σ → Prop) (E : Crash → World σ → Prop) (r : UInt32 × Bool) (w : World σ) :
    Prop :=
  (r.1 ≠ EMResult.success.code → Q (some r.1) w) ∧
    (r.1 = EMResult.success.code → r.2 = true → Q (some EMResult.success.code) w) ∧
    (r.1 = EMResult.success.code → r.2 = false → wp (runLoop user em waits fuel (n + 1)) Q E w)

theorem wp_runLoop_succ {user : UserCode σ} {em : EMPtr} {waits : Nat → WaitOutcome} {fuel n : Nat}
    {w : World σ} {Q : Option UInt32 → World σ → Prop} {E : Crash → World σ → Prop} :
    wp (runLoop user em waits (fuel + 1) n) Q E w ↔
      wp (eventMachineRunOnce user em (w.ems em).queueFd (w.ems em).events (w.ems em).maxEvents
        (w.ems em).breakLoopPipe.1 false (waits n)) (AfterRound user em waits fuel n Q E) E w := by
  unfold runLoop
  rw [wp_bind, wp_getEM, wp_bind]
  have hafter : ∀ r w', AfterRound user em waits fuel n Q E r w' ↔
      wp (if ¬ isEmSuccess r.1 then pure (some r.1)
        else if r.2 then pure (some EMResult.success.code)
        else runLoop user em waits fuel (n + 1)) Q E w' := by
    rintro ⟨code, breakLoop⟩ w'
    rw [wp_ite, wp_ite, isEmSuccess_iff, not_not]
    simp only [AfterRound, wp_pure, Bool.not_eq_true]
    constructor
    · rintro ⟨hbad, hbreak, hrest⟩
      exact ⟨hbad, fun hok => ⟨hbreak hok, hrest hok⟩⟩
    · rintro ⟨hbad, hok⟩
      exact ⟨hbad, fun h => (hok h).1, fun h => (hok h).2⟩
  constructor
  · intro h
    exact wp_mono h (fun r w' hr => (hafter r w').2 hr) fun _ _ he => he
  · intro h
    exact wp_mono h (fun r w' hr => (hafter r w').1 hr) fun _ _ he => he

theorem runLoop_succ {user : UserCode σ} {em : EMPtr} {waits : Nat → WaitOutcome} (fuel n : Nat)
    {w w' : World σ} {code : UInt32} {breakLoop : Bool}
    (h : eventMachineRunOnce user em (w.ems em).queueFd (w.ems em).events (w.ems em).maxEvents
      (w.ems em).breakLoopPipe.1 false (waits n) w = .ok (code, breakLoop) w') :
    runLoop user em waits (fuel + 1) n w =
      if code ≠ EMResult.success.code then .ok (some code) w'
      else if breakLoop then .ok (some EMResult.success.code) w'
      else runLoop user em waits fuel (n + 1) w' := by
  show EStateM.bind (eventMachineRunOnce _ _ _ _ _ _ _ _) _ w = _
  rw [EStateM.bind, h]
  dsimp only
  by_cases hcode : code = EMResult.success.code
  · subst hcode
    cases breakLoop <;> rfl
  · rw [if_pos (by simpa using hcode), if_pos hcode]
    rfl

theorem eventMachineRun_eq (user : UserCode σ) (waits : Nat → WaitOutcome) {em : EMPtr} {r : UInt32}
    {w w₁ : World σ} (h : eventMachineRunEnter (some em) w = .ok r w₁) (fuel : Nat) :
    eventMachineRun user (some em) waits fuel w =
      if r ≠ EMResult.success.code then .ok (some r) w₁ else runLoop user em waits fuel 0 w₁ := by
  show EStateM.bind (eventMachineRunEnter (some em)) _ w = _
  rw [EStateM.bind, h]
  dsimp only
  by_cases hr : r = EMResult.success.code
  · rw [if_neg (by simpa using hr), if_neg (by simpa using hr)]
  · rw [if_pos (by simpa using hr), if_pos hr]
    rfl

end EventMachine
