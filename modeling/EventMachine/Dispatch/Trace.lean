import EventMachine.Proof.Loop

/-!
# The calls a run makes

What `event_machine_run()` does with a stream of outcomes of `epoll_wait()`, up to the first one that
is a failure or a batch with an event of the break-loop descriptor: which handlers it calls, how often
it waits, and what it returns. The handlers may do what they like to their own data and to other
machines (`Benign`), as long as they return.

The trace of one batch (`BatchTrace`) is proved for the loop of `event_machine_run_once()` by
induction on the events left, and that of the run by induction on the batches left.
-/

namespace EventMachine

open Lib

variable {σ : Type}

/-! ## Observing a run -/

/-- The calls through `ed->handler` a machine has made. -/
def World.handlerCalls (w : World σ) (em : EMPtr) : List Invocation :=
  w.invoked.filter fun x => match x with | .handler _ em' _ _ _ => em' = em | .callback _ _ _ => false

/-- The calls of `event_wait()` for a machine. -/
def World.waits (w : World σ) (em : EMPtr) : List SysRecord :=
  w.log.filter fun x => x.who = .machine em ∧ x.call = .epollWait

/-- What the reads from the break-loop pipe of a machine have returned. -/
def World.breakReads (w : World σ) (em : EMPtr) : List Int :=
  (w.log.filter fun x => x.who = .machine em ∧ x.call = .read).map (·.ret)

/-- The event is one of the break-loop read descriptor. -/
def World.isBreak (w : World σ) (em : EMPtr) (e : EpollEvent) : Bool :=
  e.data.any fun p => (w.ed p).fd = (w.ems em).breakLoopPipe.1

/-- The call of a handler that an event leads to. -/
def World.handlerCall (w : World σ) (em : EMPtr) (e : EpollEvent) : Option Invocation :=
  if w.isBreak em e then none
  else e.data.bind fun p => (w.ed p).handler.map fun h =>
    .handler h em e.events (w.ed p).fd (w.ed p).data

/-- The calls of handlers that the events of a batch lead to. -/
def World.dispatched (w : World σ) (em : EMPtr) (l : List EpollEvent) : List Invocation :=
  l.filterMap (w.handlerCall em)

/-- The event points to a descriptor, which has a handler unless it is the break-loop one. -/
def World.Sound (w : World σ) (em : EMPtr) (e : EpollEvent) : Prop :=
  ∃ p, e.data = some p ∧ (w.isBreak em e = false → (w.ed p).handler.isSome)

/-- What a run relies on while it is going on: the machine, the event descriptors, and what the queue
refers to. -/
structure Setting (em : EMPtr) (w w' : World σ) : Prop where
  machine : w'.ems em = w.ems em
  descriptors : ∀ p, w'.ed p = w.ed p
  queue : w'.kernel.file (w.ems em).queueFd = w.kernel.file (w.ems em).queueFd

/-- What a handler must not do: change the setting or the buffer of the machine, or run the machine
again. -/
structure Benign (em : EMPtr) (w w' : World σ) : Prop extends Setting em w w' where
  buffer : ∀ b, (w.ems em).events = some b → w'.buffers b = w.buffers b
  handlerCalls : w'.handlerCalls em = w.handlerCalls em
  waits : w'.waits em = w.waits em
  breakReads : w'.breakReads em = w.breakReads em

/-- How the loop over a batch ends: the code, the calls of handlers, and what the reads from the
break-loop pipe have returned. -/
inductive BatchTrace (w : World σ) (em : EMPtr) (l : List EpollEvent) :
    EMResult → List Invocation → List Int → Prop
  | success (reads : List Int) (read : ∀ r ∈ reads, 0 ≤ r)
      (length : reads.length = (l.filter (w.isBreak em)).length) :
      BatchTrace w em l .success (w.dispatched em l) reads
  | readFailed (before : List EpollEvent) (e : EpollEvent) (after : List EpollEvent)
      (split : l = before ++ e :: after) (isBreak : w.isBreak em e) (reads : List Int) (ret : Int)
      (read : ∀ r ∈ reads, 0 ≤ r) (failed : ret < 0)
      (length : reads.length = (before.filter (w.isBreak em)).length) :
      BatchTrace w em l .errorRead (w.dispatched em before) (reads ++ [ret])

/-! ## The setting stays -/

namespace Setting
variable {em : EMPtr} {w w' w'' : World σ}

theorem refl (em : EMPtr) (w : World σ) : Setting em w w := ⟨rfl, fun _ => rfl, rfl⟩

theorem trans (h : Setting em w w') (h' : Setting em w' w'') : Setting em w w'' where
  machine := h'.machine.trans h.machine
  descriptors p := (h'.descriptors p).trans (h.descriptors p)
  queue := by
    have hq := h'.queue
    rw [h.machine] at hq
    exact hq.trans h.queue

theorem of_calm (h : Calm w w') : Setting em w w' :=
  ⟨congrFun h.ems em, h.ed, h.file _⟩

theorem isBreak (h : Setting em w w') (e : EpollEvent) : w'.isBreak em e = w.isBreak em e := by
  simp only [World.isBreak, h.descriptors, h.machine]

end Setting

/-! ## What one call adds -/

section calls
variable {w w' : World σ} {em : EMPtr}

theorem read_observed {fd ret : Int} {f : Option File}
    (h : w'.log = w.log ++ [⟨.machine em, .read, fd, f, none, ret⟩]) :
    w'.waits em = w.waits em ∧ w'.breakReads em = w.breakReads em ++ [ret] := by
  unfold World.waits World.breakReads
  rw [h]
  simp

theorem wait_observed {fd ret : Int} {f : Option File}
    (h : w'.log = w.log ++ [⟨.machine em, .epollWait, fd, f, none, ret⟩]) :
    w'.waits em = w.waits em ++ [⟨.machine em, .epollWait, fd, f, none, ret⟩] ∧
      w'.breakReads em = w.breakReads em := by
  unfold World.waits World.breakReads
  rw [h]
  simp

theorem handlerCalls_invoked (w : World σ) (em : EMPtr) (h : Handler) (bits : UInt32) (fd : Int)
    (data : VoidPtr) :
    ({ w with invoked := w.invoked ++ [.handler h em bits fd data] } : World σ).handlerCalls em =
      w.handlerCalls em ++ [.handler h em bits fd data] := by
  simp [World.handlerCalls]

theorem handlerCalls_congr (em : EMPtr) (h : w'.invoked = w.invoked) :
    w'.handlerCalls em = w.handlerCalls em := by
  simp only [World.handlerCalls, h]

end calls

/-! ## One batch -/

namespace BatchTrace
variable {w : World σ} {em : EMPtr} {l : List EpollEvent} {e : EpollEvent} {res : EMResult}
  {calls : List Invocation} {reads : List Int}

theorem cons_break (h : BatchTrace w em l res calls reads) (he : w.isBreak em e = true) {ret : Int}
    (hret : 0 ≤ ret) : BatchTrace w em (e :: l) res calls (ret :: reads) := by
  have hdisp : ∀ l', w.dispatched em (e :: l') = w.dispatched em l' := fun l' =>
    List.filterMap_cons_none (by simp only [World.handlerCall, he, if_true])
  cases h with
  | success reads read length =>
    rw [← hdisp]
    refine .success _ (List.forall_mem_cons.2 ⟨hret, read⟩) ?_
    rw [List.filter_cons_of_pos he, List.length_cons, List.length_cons, length]
  | readFailed before e' after split isBreak reads ret' read failed length =>
    rw [← hdisp]
    refine .readFailed (e :: before) e' after (by rw [split]; rfl) isBreak (ret :: reads) ret'
      (List.forall_mem_cons.2 ⟨hret, read⟩) failed ?_
    rw [List.filter_cons_of_pos he, List.length_cons, List.length_cons, length]

theorem cons_handler (h : BatchTrace w em l res calls reads) (he : w.isBreak em e = false)
    {call : Invocation} (hcall : w.handlerCall em e = some call) :
    BatchTrace w em (e :: l) res (call :: calls) reads := by
  have hdisp : ∀ l', w.dispatched em (e :: l') = call :: w.dispatched em l' := fun l' =>
    List.filterMap_cons_some hcall
  have hbreak : ¬ w.isBreak em e = true := by simp [he]
  cases h with
  | success reads read length =>
    rw [← hdisp]
    refine .success _ read ?_
    rw [List.filter_cons_of_neg hbreak, length]
  | readFailed before e' after split isBreak reads ret' read failed length =>
    rw [← hdisp]
    refine .readFailed (e :: before) e' after (by rw [split]; rfl) isBreak reads ret' read failed ?_
    rw [List.filter_cons_of_neg hbreak, length]

end BatchTrace

/-- The handler an event leads to is benign, in every setting like that of `w`. What it may do when it
does not return is `E`. -/
def BenignHandler (user : UserCode σ) (em : EMPtr) (E : Crash → World σ → Prop) (w : World σ)
    (e : EpollEvent) : Prop :=
  ∀ h fd data, w.handlerCall em e = some (.handler h em e.events fd data) →
    ∀ w', Setting em w w' →
      wp (callHandler user h em e.events fd data) (fun _ w'' => Benign em w' w'') E w'

/-- What the loop over a batch has added to a world. -/
structure BatchRun (w₀ : World σ) (em : EMPtr) (l : List EpollEvent) (breakLoop : Bool) (w : World σ)
    (r : UInt32 × Bool) (w' : World σ) : Prop where
  setting : Setting em w₀ w'
  waits : w'.waits em = w.waits em
  trace : ∃ res calls reads, r.1 = res.code ∧ BatchTrace w₀ em l res calls reads ∧
    w'.handlerCalls em = w.handlerCalls em ++ calls ∧
    w'.breakReads em = w.breakReads em ++ reads ∧
    (res = .success → r.2 = (breakLoop || l.any (w₀.isBreak em)))

theorem runOnceLoop_spec (user : UserCode σ) {em : EMPtr} {E : Crash → World σ → Prop}
    {w₀ : World σ} {b : BufPtr} (hb : (w₀.ems em).events = some b) (l : List EpollEvent)
    (hsound : ∀ e ∈ l, w₀.Sound em e) (hbenign : ∀ e ∈ l, BenignHandler user em E w₀ e)
    (i : Nat) (breakLoop : Bool) (w : World σ) (hset : Setting em w₀ w)
    (hbuf : ∃ before after, w.buffers b = before ++ (l ++ after) ∧ before.length = i) :
    wp (runOnceLoop user em (some b) (w₀.ems em).breakLoopPipe.1 l.length i breakLoop)
      (fun r w' => BatchRun w₀ em l breakLoop w r w') E w := by
  induction l generalizing i breakLoop w with
  | nil =>
    refine ⟨hset, rfl, .success, [], [], rfl, .success [] (by simp) rfl, ?_, ?_, fun _ => ?_⟩
    · rw [List.append_nil]
    · rw [List.append_nil]
    · rw [List.any_nil, Bool.or_false]
  | cons e l ih =>
    obtain ⟨hsound₁, hsound⟩ := List.forall_mem_cons.1 hsound
    obtain ⟨hbenign₁, hbenign⟩ := List.forall_mem_cons.1 hbenign
    obtain ⟨p, hp, hhandler⟩ := hsound₁
    obtain ⟨before, after, hbuf, rfl⟩ := hbuf
    have hslot : (w.buffers b)[before.length]? = some e := by simp [hbuf]
    have hbreak : w₀.isBreak em e = true ↔ (w.ed p).fd = (w₀.ems em).breakLoopPipe.1 := by
      simp [World.isBreak, hp, hset.descriptors]
    have hnext : ∀ w' : World σ, w'.buffers b = w.buffers b → ∃ before' after',
        w'.buffers b = before' ++ (l ++ after') ∧ before'.length = before.length + 1 := fun w' hw' =>
      ⟨before ++ [e], after, by simp [hw', hbuf], by simp⟩
    rw [List.length_cons]
    unfold runOnceLoop
    rw [wp_bind]
    refine wp_mono (runOnceSlot_spec em (some b) before.length _ w) ?_ ?_
    · rintro r w₁ ⟨b', e', p', hb', he', hp', hout⟩
      obtain rfl := Option.some.inj hb'
      obtain rfl := Option.some.inj (hslot.symm.trans he')
      obtain rfl := Option.some.inj (hp.symm.trans hp')
      have hset₁ : Setting em w₀ w₁ := hset.trans (.of_calm hout.calm)
      have hbuf₁ := hnext w₁ (congrFun hout.buffers b)
      cases hout with
      | readFailed hfd hlog hcore honly =>
        obtain ⟨hwaits, hreads⟩ := read_observed hlog
        refine ⟨hset₁, hwaits, .errorRead, [], [-1], rfl, ?_, ?_, hreads, nofun⟩
        · exact .readFailed [] e l rfl (hbreak.2 hfd) [] (-1) (by simp) (by decide) rfl
        · rw [List.append_nil]
          exact handlerCalls_congr em (congrArg (·.invoked) honly)
      | breakLoop f o hfd hlog _ _ _ _ honly =>
        obtain ⟨hwaits, hreads⟩ := read_observed hlog
        have hinvoked : w₁.invoked = w.invoked := congrArg (·.invoked) honly
        refine wp_mono (ih hsound hbenign _ true w₁ hset₁ hbuf₁) ?_ fun _ _ h => h
        rintro r w₂ ⟨hset₂, hwaits₂, res, calls, reads, hr, htrace, hcalls₂, hreads₂, hbl⟩
        refine ⟨hset₂, hwaits₂.trans hwaits, res, calls, 1 :: reads, hr,
          htrace.cons_break (hbreak.2 hfd) (by decide), ?_, ?_, fun hres => ?_⟩
        · rw [hcalls₂, handlerCalls_congr em hinvoked]
        · rw [hreads₂, hreads, List.append_assoc, List.singleton_append]
        · rw [hbl hres, List.any_cons, hbreak.2 hfd]
          simp
      | handler h hfd hh =>
        have hnot : w₀.isBreak em e = false := by simpa using mt hbreak.1 hfd
        have hcall : w₀.handlerCall em e = some (.handler h em e.events (w.ed p).fd (w.ed p).data) := by
          simp [World.handlerCall, hnot, hp, ← hset.descriptors, hh]
        dsimp only
        rw [wp_bind]
        refine wp_mono (hbenign₁ h _ _ hcall _ hset₁) ?_ fun _ _ h => h
        rintro - w₂ hben
        have hset₂ := hset₁.trans hben.toSetting
        have hmachine : (w.ems em).events = some b := by rw [hset.machine, hb]
        have hbuf₂ := hnext w₂ (hben.buffer b hmachine)
        refine wp_mono (ih hsound hbenign _ breakLoop w₂ hset₂ hbuf₂) ?_ fun _ _ h => h
        rintro r w₃ ⟨hset₃, hwaits₃, res, calls, reads, hr, htrace, hcalls₃, hreads₃, hbl⟩
        refine ⟨hset₃, hwaits₃.trans hben.waits, res, _, reads, hr, htrace.cons_handler hnot hcall,
          ?_, hreads₃.trans (congrArg (· ++ reads) hben.breakReads), fun hres => ?_⟩
        · rw [hcalls₃, hben.handlerCalls, handlerCalls_invoked, List.append_assoc,
            List.singleton_append]
        · rw [hbl hres, List.any_cons, hnot, Bool.false_or]
    · rintro c w₁ ⟨-, hcrash⟩
      obtain ⟨hfd, hnone⟩ := hcrash b e p rfl hslot hp
      have hsome := hhandler (by simpa using mt hbreak.1 hfd)
      rw [← hset.descriptors, hnone] at hsome
      exact absurd hsome nofun

/-! ## The whole run -/

/-- The events of a batch. -/
def WaitOutcome.events : WaitOutcome → List EpollEvent
  | .fail _ => []
  | .batch l => l

/-- The run ends with this outcome: a failure, or a batch with an event of the break-loop
descriptor. -/
def World.stops (w : World σ) (em : EMPtr) : WaitOutcome → Bool
  | .fail _ => true
  | .batch l => l.any (w.isBreak em)

/-- What a machine must be like for its loop to be entered and to wait: it has an open queue, a buffer
and a valid break-loop descriptor, and `fcntl()` does not fail on the queue. -/
structure Runnable (w : World σ) (em : EMPtr) : Prop where
  queue : ∃ q, w.kernel.file (w.ems em).queueFd = some q ∧ q.kind = .epoll
  maxEvents : 0 < (w.ems em).maxEvents
  buffer : ∃ b, (w.ems em).events = some b
  breakLoop : 0 ≤ (w.ems em).breakLoopPipe.1
  fcntl : w.kernel.faults .fcntlGetfl 0 = none

/-- What an outcome of `epoll_wait()` leads to: the code `event_machine_run_once()` returns, the calls
of handlers, and what the reads from the break-loop pipe have returned. -/
inductive OutcomeTrace (w : World σ) (em : EMPtr) :
    WaitOutcome → EMResult → List Invocation → List Int → Prop
  | waitFailed (e : Errno) : OutcomeTrace w em (.fail e) .errorEventWait [] []
  | batch {l : List EpollEvent} {res : EMResult} {calls : List Invocation} {reads : List Int}
      (h : BatchTrace w em l res calls reads) : OutcomeTrace w em (.batch l) res calls reads

theorem OutcomeTrace.of_not_stops {w : World σ} {em : EMPtr} {o : WaitOutcome} {res : EMResult}
    {calls : List Invocation} {reads : List Int} (h : OutcomeTrace w em o res calls reads)
    (ho : w.stops em o = false) :
    res = .success ∧ calls = w.dispatched em o.events ∧ reads = [] := by
  cases h with
  | waitFailed => simp [World.stops] at ho
  | @batch l res calls reads h =>
    have hno : ∀ e ∈ l, ¬ w.isBreak em e = true := by simpa [World.stops] using ho
    cases h with
    | success reads read length =>
      rw [List.filter_eq_nil_iff.2 hno] at length
      exact ⟨rfl, rfl, List.length_eq_zero_iff.1 length⟩
    | readFailed before e after split isBreak =>
      exact absurd isBreak (hno e (by simp [split]))

section run
variable (user : UserCode σ) {em : EMPtr} {E : Crash → World σ → Prop} {w₀ : World σ}

/-- What one call of `event_machine_run_once()` has added to a world. -/
structure OnceRun (w₀ : World σ) (em : EMPtr) (o : WaitOutcome) (w : World σ) (r : UInt32 × Bool)
    (w' : World σ) : Prop where
  setting : Setting em w₀ w'
  waits : (w'.waits em).length = (w.waits em).length + 1
  trace : ∃ res calls reads, r.1 = res.code ∧ OutcomeTrace w₀ em o res calls reads ∧
    w'.handlerCalls em = w.handlerCalls em ++ calls ∧
    w'.breakReads em = w.breakReads em ++ reads ∧
    (res = .success → r.2 = w₀.stops em o)

theorem eventMachineRunOnce_spec (hrunnable : Runnable w₀ em) (o : WaitOutcome)
    (hsound : ∀ e ∈ o.events, w₀.Sound em e)
    (hbenign : ∀ e ∈ o.events, BenignHandler user em E w₀ e) (w : World σ)
    (hset : Setting em w₀ w) :
    wp (eventMachineRunOnce user em (w₀.ems em).queueFd (w₀.ems em).events (w₀.ems em).maxEvents
      (w₀.ems em).breakLoopPipe.1 false o) (fun r w' => OnceRun w₀ em o w r w') E w := by
  obtain ⟨q, hq, hkind⟩ := hrunnable.queue
  obtain ⟨b, hb⟩ := hrunnable.buffer
  have hqueue : w.kernel.file (w₀.ems em).queueFd = some q := by rw [hset.queue, hq]
  unfold eventMachineRunOnce
  rw [wp_bind]
  refine wp_mono (runOnceWait_spec _ _ _ _ _ _ _) ?_ ?_
  · rintro ret w₁ ⟨-, -, hcalm, hinvoked, hlog, hcase⟩
    obtain ⟨hwaits, hreads⟩ := wait_observed hlog
    have hset₁ : Setting em w₀ w₁ := hset.trans (.of_calm hcalm)
    have hlength : (w₁.waits em).length = (w.waits em).length + 1 := by simp [hwaits]
    have hcalls := handlerCalls_congr em hinvoked
    rcases hcase with ⟨rfl, -, -, hwhy⟩ | ⟨q', l, b', -, rfl, hb', rfl, -, hbuf⟩
    · rw [if_pos (by decide)]
      cases o with
      | batch l => exact absurd rfl (hwhy q l hqueue hkind hrunnable.maxEvents (by simp [hb]))
      | fail e =>
        refine ⟨hset₁, hlength, .errorEventWait, [], [], rfl, .waitFailed e, ?_, ?_, nofun⟩
        · rw [List.append_nil, hcalls]
        · rw [List.append_nil, hreads]
    · obtain rfl := Option.some.inj (hb.symm.trans hb')
      rw [if_neg (by omega), Int.toNat_natCast, hb]
      have hslots : ∃ before after, w₁.buffers b = before ++ (l ++ after) ∧ before.length = 0 :=
        ⟨[], _, by rw [hbuf, Function.update_self]; rfl, rfl⟩
      refine wp_mono (runOnceLoop_spec user hb l hsound hbenign 0 false w₁ hset₁ hslots) ?_
        fun _ _ h => h
      rintro r w₂ ⟨hset₂, hwaits₂, res, calls, reads, hr, htrace, hcalls₂, hreads₂, hbl⟩
      refine ⟨hset₂, by rw [hwaits₂, hlength], res, calls, reads, hr, .batch htrace, ?_, ?_, ?_⟩
      · rw [hcalls₂, hcalls]
      · rw [hreads₂, hreads]
      · exact hbl
  · rintro c w₁ ⟨-, h⟩
    have hpos := Kernel.nonneg_of_file hq
    have hbreak := hrunnable.breakLoop
    omega

/-- What the loop of `event_machine_run()` has added to a world when it has gone through the outcomes
from `round` on, of which the `n`-th has ended it. -/
structure LoopRun (outcomes : Nat → WaitOutcome) (w₀ : World σ) (em : EMPtr) (round n : Nat) (w : World σ)
    (r : Option UInt32) (w' : World σ) : Prop where
  waited : (w'.waits em).length = (w.waits em).length + (n + 1)
  trace : ∃ res calls reads, r = some res.code ∧
    OutcomeTrace w₀ em (outcomes (round + n)) res calls reads ∧
    w'.handlerCalls em = w.handlerCalls em ++
      (List.range' round n).flatMap (fun j => w₀.dispatched em (outcomes j).events) ++ calls ∧
    w'.breakReads em = w.breakReads em ++ reads

theorem runLoop_spec (hrunnable : Runnable w₀ em) (outcomes : Nat → WaitOutcome) (n : Nat) {k : Nat}
    (hsound : ∀ j ≤ k, ∀ e ∈ (outcomes j).events, w₀.Sound em e)
    (hbenign : ∀ j ≤ k, ∀ e ∈ (outcomes j).events, BenignHandler user em E w₀ e)
    (hgo : ∀ j < k, w₀.stops em (outcomes j) = false) (hstop : w₀.stops em (outcomes k) = true)
    (round fuel : Nat) (hk : round + n = k) (hfuel : n < fuel) (w : World σ)
    (hset : Setting em w₀ w) :
    wp (runLoop user em outcomes fuel round) (fun r w' => LoopRun outcomes w₀ em round n w r w') E w := by
  induction n generalizing round fuel w with
  | zero =>
    obtain ⟨fuel, rfl⟩ := Nat.exists_eq_add_one_of_ne_zero (Nat.ne_of_gt hfuel)
    obtain rfl : round = k := hk
    rw [wp_runLoop_succ, hset.machine]
    refine wp_mono (eventMachineRunOnce_spec user hrunnable (outcomes round) (hsound round (Nat.le_refl _))
      (hbenign round (Nat.le_refl _)) w hset) ?_ fun _ _ h => h
    rintro ⟨code, breakLoop⟩ w₁ ⟨-, hwaits, res, calls, reads, rfl, htrace, hcalls, hreads, hbl⟩
    have hdone : LoopRun outcomes w₀ em round 0 w (some res.code) w₁ :=
      ⟨hwaits, res, calls, reads, rfl, htrace, by rw [hcalls]; simp, hreads⟩
    have hsuccess : res.code = EMResult.success.code → res = .success := fun h => EMResult.code_inj.1 h
    refine ⟨fun _ => hdone, fun hok _ => ?_, fun hok hgoing => ?_⟩
    · obtain rfl := hsuccess hok
      exact hdone
    · have hstopped := (hbl (hsuccess hok)).trans hstop
      exact absurd (hgoing.symm.trans hstopped) (by decide)
  | succ n ih =>
    obtain ⟨fuel, rfl⟩ := Nat.exists_eq_add_one_of_ne_zero (Nat.ne_of_gt (Nat.zero_lt_of_lt hfuel))
    rw [wp_runLoop_succ, hset.machine]
    refine wp_mono (eventMachineRunOnce_spec user hrunnable (outcomes round)
      (hsound round (by omega)) (hbenign round (by omega)) w hset) ?_ fun _ _ h => h
    rintro ⟨code, breakLoop⟩ w₁ ⟨hset₁, hwaits, res, calls, reads, rfl, htrace, hcalls, hreads, hbl⟩
    have hgo₁ := hgo round (by omega)
    obtain ⟨rfl, rfl, rfl⟩ := htrace.of_not_stops hgo₁
    have hgoing := (hbl rfl).trans hgo₁
    refine ⟨fun h => absurd rfl h, fun _ h => absurd (h.symm.trans hgoing) (by decide), fun _ _ => ?_⟩
    refine wp_mono (ih (round + 1) fuel (by omega) (by omega) w₁ hset₁) ?_ fun _ _ h => h
    rintro r w₂ ⟨hwaits₂, res, calls, reads, hr, htrace₂, hcalls₂, hreads₂⟩
    refine ⟨by omega, res, calls, reads, hr, ?_, ?_, ?_⟩
    · rwa [Nat.add_assoc, Nat.add_comm 1 n] at htrace₂
    · rw [hcalls₂, hcalls, List.range'_succ, List.flatMap_cons]
      simp only [List.append_assoc]
    · rw [hreads₂, hreads, List.append_nil]

end run

theorem eventMachineRunEnter_runnable {w : World σ} {em : EMPtr} (hrunnable : Runnable w em) :
    wp (eventMachineRunEnter (some em))
      (fun r w' => r = EMResult.success.code ∧ Setting em w w' ∧
        w'.handlerCalls em = w.handlerCalls em ∧ w'.waits em = w.waits em ∧
        w'.breakReads em = w.breakReads em) (fun _ _ => False) w := by
  obtain ⟨q, hq, -⟩ := hrunnable.queue
  obtain ⟨b, hb⟩ := hrunnable.buffer
  have hpos := Kernel.nonneg_of_file hq
  have hmax := hrunnable.maxEvents
  have hflags : ¬ (w.kernel.fcntlGetfl (w.ems em).queueFd).1 < 0 := by
    simp [Kernel.fcntlGetfl_neg, hq, hrunnable.fcntl]
  unfold eventMachineRunEnter
  simp only
  rw [wp_bind, wp_getEM, if_neg (by omega), if_neg (by omega), if_neg (by simp [hb]), wp_bind]
  apply wp_issue.2
  rw [if_neg hflags]
  have hcore := Kernel.fcntlGetfl_core w.kernel (w.ems em).queueFd
  refine ⟨rfl, .of_calm (.of_kernelOnly rfl (Kernel.still_of_core hcore)), rfl, ?_, ?_⟩
  · simp [World.waits, World.issued]
  · simp [World.breakReads, World.issued]

/-- The whole-run dispatch trace. Let `k` be the first outcome of `event_wait()` that is a failure or a
batch with an event of the break-loop descriptor. A run that may go on for more than `k` rounds
returns; it has waited `k + 1` times, and called the handlers of the batches before, in order, and
then of outcome `k` what `OutcomeTrace` says, with the code it says. -/
theorem run_dispatch_trace (user : UserCode σ) (em : EMPtr) (outcomes : Nat → WaitOutcome)
    (E : Crash → World σ → Prop) {w : World σ} {k fuel : Nat} (hrunnable : Runnable w em)
    (hsound : ∀ j ≤ k, ∀ e ∈ (outcomes j).events, w.Sound em e)
    (hbenign : ∀ j ≤ k, ∀ e ∈ (outcomes j).events, BenignHandler user em E w e)
    (hgo : ∀ j < k, w.stops em (outcomes j) = false) (hstop : w.stops em (outcomes k) = true)
    (hfuel : k < fuel) :
    wp (eventMachineRun user (some em) outcomes fuel)
      (fun r w' => (w'.waits em).length = (w.waits em).length + (k + 1) ∧
        ∃ res calls reads, r = some res.code ∧ OutcomeTrace w em (outcomes k) res calls reads ∧
          w'.handlerCalls em = w.handlerCalls em ++
            (List.range k).flatMap (fun j => w.dispatched em (outcomes j).events) ++ calls ∧
          w'.breakReads em = w.breakReads em ++ reads) E w := by
  unfold eventMachineRun
  rw [wp_bind]
  refine wp_mono (eventMachineRunEnter_runnable hrunnable) ?_ fun _ _ h => h.elim
  rintro r w₁ ⟨rfl, hset, hcalls₁, hwaits₁, hreads₁⟩
  rw [if_neg (by decide)]
  refine wp_mono (runLoop_spec user hrunnable outcomes k hsound hbenign hgo hstop 0 fuel
    (Nat.zero_add k) hfuel w₁ hset) ?_ fun _ _ h => h
  rintro r w₂ ⟨hwaits, res, calls, reads, hr, htrace, hcalls, hreads⟩
  rw [hwaits₁] at hwaits
  rw [hcalls₁, ← List.range_eq_range'] at hcalls
  rw [hreads₁] at hreads
  rw [Nat.zero_add] at htrace
  exact ⟨hwaits, res, calls, reads, hr, htrace, hcalls, hreads⟩

/-! ### A run of two rounds -/

/-- Handlers that do nothing. -/
def idleUser : UserCode Unit := ⟨fun _ _ _ _ _ => pure (), fun _ _ _ => pure ()⟩

/-- A machine with one registered descriptor, which has been told to terminate. -/
def terminated : World Unit :=
  let w := World.start (emStaticWithMaxEvents Unit 16 none) () fun _ _ => none
  let w := { w with descriptors := fun a => ⟨EPOLLIN, 3 + a, .null, some (.user a)⟩ }
  let w := (Env.openFile 0 false).exec (final (eventMachineInit true (some 0)) w)
  final (eventMachineTerminate (some 0)) (final (eventMachineAdd (some 0) (some (.obj 0))) w)

/-- The descriptor becomes ready alone, and then together with the pipe. -/
def twoRounds : Nat → WaitOutcome
  | 0 => .batch [⟨EPOLLIN, some (.obj 0)⟩]
  | _ => .batch [⟨EPOLLIN, some (.breakLoop 0)⟩, ⟨EPOLLIN, some (.obj 0)⟩]

theorem twoRounds_events {j : Nat} {e : EpollEvent} (h : e ∈ (twoRounds j).events) :
    e = ⟨EPOLLIN, some (.breakLoop 0)⟩ ∨ e = ⟨EPOLLIN, some (.obj 0)⟩ := by
  cases j with
  | zero => exact Or.inr (List.mem_singleton.1 h)
  | succ j => simpa [twoRounds, WaitOutcome.events] using h

theorem run_dispatch_trace_twoRounds :
    ∃ r w', eventMachineRun idleUser (some 0) twoRounds 2 terminated = .ok r w' ∧
      (w'.waits 0).length = (terminated.waits 0).length + (1 + 1) ∧
      ∃ res calls reads, r = some res.code ∧
        OutcomeTrace terminated 0 (twoRounds 1) res calls reads ∧
        w'.handlerCalls 0 = terminated.handlerCalls 0 ++
          (List.range 1).flatMap (fun j => terminated.dispatched 0 (twoRounds j).events) ++ calls ∧
        w'.breakReads 0 = terminated.breakReads 0 ++ reads := by
  have hrunnable : Runnable terminated 0 :=
    ⟨⟨_, rfl, rfl⟩, by decide, ⟨_, rfl⟩, by decide, rfl⟩
  have hsound : ∀ j ≤ 1, ∀ e ∈ (twoRounds j).events, terminated.Sound 0 e := by
    intro j _ e he
    rcases twoRounds_events he with rfl | rfl
    · exact ⟨_, rfl, nofun⟩
    · exact ⟨_, rfl, fun _ => rfl⟩
  have hbreak : terminated.handlerCall 0 ⟨EPOLLIN, some (.breakLoop 0)⟩ = none := rfl
  have hobj : terminated.handlerCall 0 ⟨EPOLLIN, some (.obj 0)⟩ =
      some (.handler (.user 0) 0 EPOLLIN 3 .null) := rfl
  have hbenign : ∀ j ≤ 1, ∀ e ∈ (twoRounds j).events,
      BenignHandler idleUser 0 (fun _ _ => False) terminated e := by
    intro j _ e he h fd data hcall w hset
    rcases twoRounds_events he with rfl | rfl
    · rw [hbreak] at hcall
      exact absurd hcall nofun
    · rw [hobj] at hcall
      obtain ⟨⟩ := hcall
      exact ⟨.refl 0 w, fun _ _ => rfl, rfl, rfl, rfl⟩
  have hgo : ∀ j < 1, terminated.stops 0 (twoRounds j) = false := by
    intro j hj
    obtain rfl : j = 0 := by omega
    rfl
  have hstop : terminated.stops 0 (twoRounds 1) = true := rfl
  generalize terminated = w at hrunnable hsound hbenign hgo hstop ⊢
  exact wp_total (run_dispatch_trace idleUser 0 twoRounds (fun _ _ => False) hrunnable hsound hbenign
    hgo hstop (Nat.lt_succ_self 1))

end EventMachine
