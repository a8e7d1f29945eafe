import EventMachine.Dispatch.LoopRule
import EventMachine.Proof.Owned

/-!
# Destroying a machine that is running

Handlers may call `event_machine_destroy()` on the machine that calls them. As the machine has a queue,
all that does is close the queue: the machine keeps its number, its buffer and its pipe. So the rest of
the batch is dealt with as if nothing had happened, and the next `epoll_wait()` fails on the number that
is no longer open (`destroy_fails_safe`).
-/

namespace EventMachine

open Lib

variable {σ : Type}

/-! ## Handlers that destroy their machine -/

/-- The machine's buffer is not freed on the way. -/
def NotFreed (em : EMPtr) (w w' : World σ) : Prop :=
  ∀ b, (w.ems em).events = some b → b ∈ w'.frees → b ∈ w.frees

/-- A `close()` of the machine. -/
def SysRecord.ClosesFor (em : EMPtr) (x : SysRecord) : Prop := x.who = .machine em ∧ x.call = .close

/-- What a handler does apart from destroying the machine that runs: it leaves that machine alone, and
the number of its queue is not used again once it is closed. -/
structure Bystanding (em : EMPtr) (w w' : World σ) : Prop where
  machine : w'.ems em = w.ems em
  notReused : w.kernel.file (w.ems em).queueFd = none → w'.kernel.file (w.ems em).queueFd = none
  notFreed : NotFreed em w w'
  records : Records (fun x => ¬ x.ClosesFor em) w w'

inductive HandlerAct
  | destroy (r : UInt32)
  | other
  deriving DecidableEq, Repr

def HandlerStep (em : EMPtr) (w : World σ) (a : HandlerAct) (w' : World σ) : Prop :=
  match a with
  | .destroy r => eventMachineDestroy (some em) w = .ok r w'
  | .other => Bystanding em w w'

/-- Handlers and callbacks that destroy the machine `em` as often and whenever they like. What they do
while the machine is something else than `m` does not matter. -/
structure UserCode.Destroying (user : UserCode σ) (em : EMPtr) (m : EM σ) : Prop where
  handler : ∀ h em' bits fd data w, w.ems em = m →
    wp (user.handler h em' bits fd data) (fun _ w' => ∃ acts, Steps (HandlerStep em) w acts w')
      (fun _ _ => True) w
  callback : ∀ c t data w, w.ems em = m →
    wp (user.callback c t data) (fun _ w' => ∃ acts, Steps (HandlerStep em) w acts w')
      (fun _ _ => True) w

/-- The machine has been destroyed on the way. -/
def DestroyedIn (em : EMPtr) (w w' : World σ) : Prop :=
  ∃ l, w'.log = w.log ++ l ∧ ∃ x ∈ l, x.ClosesFor em

/-- A read from the break-loop descriptor has succeeded on the way. -/
def BreakRead (em : EMPtr) (w w' : World σ) : Prop :=
  ∃ l, w'.log = w.log ++ l ∧ ∃ x ∈ l, x.who = .machine em ∧ x.call = .read ∧
    x.fd = (w.ems em).breakLoopPipe.1 ∧ 0 ≤ x.ret

/-! ## What the machine keeps -/

/-- The machine keeps everything, and its queue is closed if it has been destroyed. -/
structure Handled (em : EMPtr) (w w' : World σ) : Prop where
  machine : w'.ems em = w.ems em
  notReused : w.kernel.file (w.ems em).queueFd = none → w'.kernel.file (w.ems em).queueFd = none
  notFreed : NotFreed em w w'
  log : ∃ l, w'.log = w.log ++ l ∧
    ((∃ x ∈ l, x.ClosesFor em) → w'.kernel.file (w.ems em).queueFd = none)

namespace Handled
variable {em : EMPtr} {w w' w'' : World σ}

theorem refl (em : EMPtr) (w : World σ) : Handled em w w where
  machine := rfl
  notReused := id
  notFreed _ _ h := h
  log := ⟨[], by rw [List.append_nil], by simp⟩

theorem trans (h : Handled em w w') (h' : Handled em w' w'') : Handled em w w'' := by
  have hreused := h'.notReused
  have hfreed := h'.notFreed
  unfold NotFreed at hfreed
  obtain ⟨l, hl, hclosed⟩ := h.log
  obtain ⟨l', hl', hclosed'⟩ := h'.log
  rw [h.machine] at hreused hfreed hclosed'
  refine ⟨h'.machine.trans h.machine, fun hq => hreused (h.notReused hq),
    fun b hb hfree => h.notFreed b hb (hfreed b hb hfree),
    l ++ l', by rw [hl', hl, List.append_assoc], ?_⟩
  rintro ⟨x, hx, hcloses⟩
  rcases List.mem_append.1 hx with hx | hx
  · exact hreused (hclosed ⟨x, hx, hcloses⟩)
  · exact hclosed' ⟨x, hx, hcloses⟩

theorem of_bystanding (h : Bystanding em w w') : Handled em w w' := by
  obtain ⟨l, hl, hno⟩ := h.records
  exact ⟨h.machine, h.notReused, h.notFreed, l, hl, fun ⟨x, hx, hcloses⟩ =>
    absurd hcloses (hno x hx)⟩

theorem of_calm (h : Calm w w') (hrec : Records (fun x => x.call ≠ .close) w w') : Handled em w w' := by
  refine .of_bystanding ⟨congrFun h.ems em, fun hq => (h.file _).trans hq, fun b _ hb => ?_,
    hrec.mono fun x hx hcloses => hx hcloses.2⟩
  rwa [show w'.frees = w.frees from congrArg (·.frees) h] at hb

theorem destroy (hq : 0 ≤ (w.ems em).queueFd) {r : UInt32}
    (h : eventMachineDestroy (some em) w = .ok r w') : Handled em w w' := by
  have hout := wp_ok (destroy_spec w em) h
  cases hout with
  | queue _ closed =>
    have hfile : w'.kernel.file (w.ems em).queueFd = none := (closed.file _).trans (if_pos rfl)
    refine ⟨congrFun closed.only.ems em, fun _ => hfile, fun b _ hb => ?_, _, closed.log,
      fun _ => hfile⟩
    rwa [show w'.frees = w.frees from congrArg (·.frees) closed.only] at hb
  | writeEnd hneg => omega
  | readEnd hneg => omega
  | done hneg => omega

theorem step (hq : 0 ≤ (w.ems em).queueFd) {a : HandlerAct} (h : HandlerStep em w a w') :
    Handled em w w' := by
  cases a with
  | destroy r => exact .destroy hq h
  | other => exact .of_bystanding h

theorem steps {acts : List HandlerAct} (hq : 0 ≤ (w.ems em).queueFd)
    (h : Steps (HandlerStep em) w acts w') : Handled em w w' := by
  refine h.invariant (I := fun v => Handled em w v) (fun v a v' hv hs => hv.trans ?_) (.refl em w)
  refine .step ?_ hs
  rw [hv.machine]
  exact hq

theorem closed (h : Handled em w w') (hd : DestroyedIn em w w') :
    w'.kernel.file (w.ems em).queueFd = none := by
  obtain ⟨l, hl, hclosed⟩ := h.log
  obtain ⟨l', hl', hcloses⟩ := hd
  obtain rfl := List.append_cancel_left (hl.symm.trans hl')
  exact hclosed hcloses

end Handled

namespace BreakRead
variable {em : EMPtr} {w w' w'' : World σ}

theorem after (h : Handled em w w') (h' : BreakRead em w' w'') : BreakRead em w w'' := by
  obtain ⟨l, hl, -⟩ := h.log
  obtain ⟨l', hl', x, hx, hread⟩ := h'
  rw [h.machine] at hread
  exact ⟨l ++ l', by rw [hl', hl, List.append_assoc], x, List.mem_append_right l hx, hread⟩

theorem before (h : BreakRead em w w') (h' : Handled em w' w'') : BreakRead em w w'' := by
  obtain ⟨l, hl, x, hx, hread⟩ := h
  obtain ⟨l', hl', -⟩ := h'.log
  exact ⟨l ++ l', by rw [hl', hl, List.append_assoc], x, List.mem_append_left l' hx, hread⟩

end BreakRead

/-! ## One batch -/

theorem SlotOutcome.handled {em : EMPtr} {fd : Int} {e : EpollEvent} {p : EDPtr} {r : Slot}
    {w w' : World σ} (h : SlotOutcome w em fd e p r w') : Handled em w w' := by
  refine .of_calm h.calm ?_
  cases h with
  | readFailed _ log => exact .of_one log (by simp)
  | breakLoop _ _ _ log => exact .of_one log (by simp)
  | handler => exact .of_log_eq rfl

section batch
variable {user : UserCode σ} {em : EMPtr} {m : EM σ} (huser : user.Destroying em m)
  (hq : 0 ≤ m.queueFd)

include huser hq

theorem timeoutLoop_handled (data : VoidPtr) (n : Nat) (w : World σ) (hm : w.ems em = m) :
    wp (timeoutLoop user data n) (fun _ w' => Handled em w w') (fun _ _ => True) w := by
  induction n generalizing w with
  | zero => exact .refl em w
  | succ n ih =>
    unfold timeoutLoop
    rw [wp_bind]
    refine wp_mono (internalTimeoutRound_spec data w) ?_ fun _ _ _ => trivial
    rintro r w₁ ⟨t, c, rfl, -, rfl, rfl⟩
    have hround : Handled em w
        { w with invoked := w.invoked ++ [.callback c t (w.timers t).data] } :=
      .of_calm rfl (.of_log_eq rfl)
    dsimp only
    rw [wp_bind]
    refine wp_mono (huser.callback c t _ _ hm) ?_ fun _ _ _ => trivial
    rintro - w₂ ⟨acts, hacts⟩
    have hcallback := hround.trans (.steps (by rwa [hround.machine, hm]) hacts)
    refine wp_mono (ih w₂ (hcallback.machine.trans hm)) ?_ fun _ _ _ => trivial
    exact fun _ w₃ hrest => hcallback.trans hrest

theorem callHandler_handled (h : Handler) (bits : UInt32) (fd : Int) (data : VoidPtr) (w : World σ)
    (hm : w.ems em = m) :
    wp (callHandler user h em bits fd data) (fun _ w' => Handled em w w') (fun _ _ => True) w := by
  cases h with
  | user h =>
    refine wp_mono (huser.handler h em bits fd data w hm) ?_ fun _ _ _ => trivial
    exact fun _ w' ⟨acts, hacts⟩ => .steps (by rwa [hm]) hacts
  | internalTimeoutHandler =>
    show wp (internalTimeoutHandler user fd data) _ _ w
    unfold internalTimeoutHandler
    rw [wp_bind]
    refine wp_mono (internalTimeoutRead_spec fd data w) ?_ fun _ _ _ => trivial
    rintro r w₁ ⟨hcalm, -, -, hrec, -⟩
    have hread : Handled em w w₁ := .of_calm hcalm (hrec.mono fun x hx => by simp [hx.2.1])
    cases r with
    | none => exact hread
    | some n =>
      refine wp_mono (timeoutLoop_handled huser hq data n w₁ (hread.machine.trans hm)) ?_
        fun _ _ _ => trivial
      exact fun _ w₂ hloop => hread.trans hloop

/-- What the loop over a batch that began in the world `w₁` keeps: the machine keeps everything, and
`break_loop` is set only after a read that succeeded. -/
def BatchState (em : EMPtr) (w₁ : World σ) : RunPc → World σ → Prop
  | .batch breakLoop b, w => Handled em w₁ w ∧ (breakLoop = true → BreakRead em w₁ w) ∧
      b.breakLoopReadFd = (w₁.ems em).breakLoopPipe.1
  | .done r, w => Handled em w₁ w ∧ (r = EMResult.success.code → BreakRead em w₁ w)
  | _, w => Handled em w₁ w

theorem batchState_rule (waits : Nat → WaitOutcome) {w₁ : World σ} (hm : w₁.ems em = m) :
    LoopRule user em waits (fun _ _ => False) (BatchState em w₁) where
  waiting := fun _ hmay => hmay.elim
  slot := by
    intro bl b w r w' hP _ hslot hno
    obtain ⟨hhandled, hread, hfd⟩ := hP
    obtain ⟨buf, e, p, -, -, -, hout⟩ := wp_ok (runOnceSlot_spec em b.events b.i _ w) hslot
    have hkept := hhandled.trans hout.handled
    cases hout with
    | readFailed => exact ⟨hkept, fun h => absurd h (by decide)⟩
    | breakLoop f o _ hlog =>
      have hread : BreakRead em w w' := by
        refine ⟨_, hlog, _, List.mem_singleton.2 rfl, rfl, rfl, ?_, Int.one_nonneg⟩
        rw [hhandled.machine]
        exact hfd
      exact ⟨hkept, fun _ => hread.after hhandled, hfd⟩
    | handler => exact absurd rfl (hno _ _ _ _)
  handler := by
    intro bl b w h events fd data w' hP _ hslot
    obtain ⟨hhandled, hread, hfd⟩ := hP
    obtain ⟨buf, e, p, -, -, -, hout⟩ := wp_ok (runOnceSlot_spec em b.events b.i _ w) hslot
    have hkept := hhandled.trans hout.handled
    refine wp_mono (callHandler_handled huser hq h events fd data w' (hkept.machine.trans hm)) ?_
      fun _ _ _ => trivial
    exact fun _ w'' hcalled => ⟨hkept.trans hcalled,
      fun hbl => ((hread hbl).before hout.handled).before hcalled, hfd⟩
  afterBatch := by
    intro bl b w hP _
    obtain ⟨hhandled, hread, -⟩ := hP
    cases bl with
    | true => exact ⟨hhandled, fun _ => hread rfl⟩
    | false => exact hhandled

theorem runOnceLoop_handled (left : Nat) (w : World σ) (hm : w.ems em = m) :
    wp (runOnceLoop user em m.events m.breakLoopPipe.1 left 0 false)
      (fun r w' => Handled em w w' ∧
        (r.1 = EMResult.success.code → r.2 = true → BreakRead em w w'))
      (fun _ _ => True) w := by
  have hrule := batchState_rule huser hq (fun _ => .batch []) hm
  have hstart : BatchState em w (.batch false ⟨m.events, m.breakLoopPipe.1, 0, left⟩) w :=
    ⟨.refl em w, fun h => absurd h (by decide), by rw [hm]⟩
  refine wp_mono (hrule.runOnceLoop left 0 (Nat.zero_add _) false w hstart) ?_ fun _ _ _ => trivial
  rintro ⟨code, breakLoop⟩ w' (⟨hcode, hafter⟩ | ⟨hcode, hdone⟩)
  · cases breakLoop with
    | true => exact ⟨hafter.1, fun _ _ => hafter.2 rfl⟩
    | false => exact ⟨hafter, fun _ h => by cases h⟩
  · exact ⟨hdone.1, fun h => absurd h hcode⟩

omit huser in
theorem runOnceWait_handled (o : WaitOutcome) (w : World σ) (hread : 0 ≤ m.breakLoopPipe.1) :
    wp (runOnceWait em m.queueFd m.events m.maxEvents m.breakLoopPipe.1 o)
      (fun ret w' => Handled em w w' ∧ w'.invoked = w.invoked ∧
        (w.kernel.file m.queueFd = none → ret < 0))
      (fun _ _ => False) w := by
  refine wp_mono (runOnceWait_spec em _ _ _ _ o w) ?_ fun _ _ h => ?_
  · rintro ret w' ⟨-, -, hcalm, hinv, hlog, hcase⟩
    refine ⟨.of_calm hcalm (.of_one hlog (by simp)), hinv, fun hnone => ?_⟩
    rcases hcase with ⟨rfl, -⟩ | ⟨q, l, b, hfile, -⟩
    · decide
    · simp [hnone] at hfile
  · omega

theorem runOnce_handled (o : WaitOutcome) (w : World σ) (hm : w.ems em = m)
    (hread : 0 ≤ m.breakLoopPipe.1) :
    wp (eventMachineRunOnce user em m.queueFd m.events m.maxEvents m.breakLoopPipe.1 false o)
      (fun r w' => Handled em w w' ∧
        (r.1 = EMResult.success.code → r.2 = true → BreakRead em w w'))
      (fun _ _ => True) w := by
  unfold eventMachineRunOnce
  rw [wp_bind]
  refine wp_mono (runOnceWait_handled hq o w hread) ?_ fun _ _ _ => trivial
  rintro ret w₁ ⟨hwait, -, -⟩
  rw [wp_ite]
  refine ⟨fun _ => ⟨hwait, fun h => absurd h (by decide)⟩, fun _ => ?_⟩
  refine wp_mono (runOnceLoop_handled huser hq ret.toNat w₁ (hwait.machine.trans hm)) ?_
    fun _ _ _ => trivial
  exact fun r w₂ ⟨hloop, hbreak⟩ => ⟨hwait.trans hloop, fun hr hbl => (hbreak hr hbl).after hwait⟩

omit huser in
/-- Waiting on a queue that is closed. -/
theorem runOnce_closed (o : WaitOutcome) (w : World σ) (hread : 0 ≤ m.breakLoopPipe.1)
    (hclosed : w.kernel.file m.queueFd = none) :
    wp (eventMachineRunOnce user em m.queueFd m.events m.maxEvents m.breakLoopPipe.1 false o)
      (fun r w' => r = (EMResult.errorEventWait.code, false) ∧ w'.invoked = w.invoked ∧
        Handled em w w')
      (fun _ _ => False) w := by
  unfold eventMachineRunOnce
  rw [wp_bind]
  refine wp_mono (runOnceWait_handled hq o w hread) ?_ fun _ _ h => h
  rintro ret w₁ ⟨hwait, hinvoked, hneg⟩
  rw [if_pos (hneg hclosed)]
  exact ⟨rfl, hinvoked, hwait⟩

/-! ## The whole run -/

theorem runLoop_handled (waits : Nat → WaitOutcome) (hread : 0 ≤ m.breakLoopPipe.1) (fuel n : Nat)
    (w : World σ) (hm : w.ems em = m) :
    wp (runLoop user em waits fuel n) (fun _ w' => Handled em w w') (fun _ _ => True) w := by
  induction fuel generalizing n w with
  | zero => exact .refl em w
  | succ fuel ih =>
    rw [wp_runLoop_succ, hm]
    refine wp_mono (runOnce_handled huser hq (waits n) w hm hread) ?_ fun _ _ _ => trivial
    rintro ⟨code, breakLoop⟩ w₁ ⟨honce, -⟩
    refine ⟨fun _ => honce, fun _ _ => honce, fun _ _ => ?_⟩
    refine wp_mono (ih (n + 1) w₁ (honce.machine.trans hm)) ?_ fun _ _ _ => trivial
    exact fun _ w₂ hrest => honce.trans hrest

end batch

theorem runLoop_add {user : UserCode σ} {em : EMPtr} {waits : Nat → WaitOutcome} (n fuel round : Nat)
    {w w' : World σ} (h : runLoop user em waits n round w = .ok none w') :
    runLoop user em waits (n + fuel) round w = runLoop user em waits fuel (round + n) w' := by
  induction n generalizing round w with
  | zero =>
    obtain ⟨-, rfl⟩ := EStateM.Result.ok.inj h
    rw [Nat.zero_add, Nat.add_zero]
  | succ n ih =>
    rw [Nat.succ_add]
    cases honce : eventMachineRunOnce user em (w.ems em).queueFd (w.ems em).events
        (w.ems em).maxEvents (w.ems em).breakLoopPipe.1 false (waits round) w with
    | error e w₁ =>
      have herror : runLoop user em waits (n + 1) round w = .error e w₁ := by
        show EStateM.bind (eventMachineRunOnce _ _ _ _ _ _ _ _) _ w = _
        rw [EStateM.bind, honce]
      exact absurd (h.symm.trans herror) (by simp)
    | ok r w₁ =>
      obtain ⟨code, breakLoop⟩ := r
      rw [runLoop_succ n round honce] at h
      rw [runLoop_succ (n + fuel) round honce]
      split at h
      · cases h
      · next hcode =>
        split at h
        · cases h
        · next hbl =>
          rw [if_neg hcode, if_neg hbl, ih (round + 1) h, Nat.add_right_comm, Nat.add_assoc]

theorem run_of_none {user : UserCode σ} {em : EMPtr} {waits : Nat → WaitOutcome} {n : Nat}
    {w w' : World σ} (h : eventMachineRun user (some em) waits n w = .ok none w') :
    ∃ v, eventMachineRunEnter (some em) w = .ok EMResult.success.code v ∧
      ∀ fuel, eventMachineRun user (some em) waits fuel w = runLoop user em waits fuel 0 v := by
  obtain ⟨r, v, henter, -⟩ := wp_total (eventMachineRunEnter_spec (some em) w)
  have hrun : ∀ fuel, eventMachineRun user (some em) waits fuel w =
      (if ¬ isEmSuccess r then pure (some r) else runLoop user em waits fuel 0 : Sys σ _) v := by
    intro fuel
    show EStateM.bind (eventMachineRunEnter (some em)) _ w = _
    rw [EStateM.bind, henter]
  by_cases hr : r = EMResult.success.code
  · subst hr
    exact ⟨v, henter, fun fuel => (hrun fuel).trans rfl⟩
  · rw [hrun n, if_pos (by simpa using hr)] at h
    cases h

/-- The next call of `event_machine_run_once()` by `event_machine_run()`. -/
def runOnceOf (user : UserCode σ) (em : EMPtr) (m : EM σ) (o : WaitOutcome) : Sys σ (UInt32 × Bool) :=
  eventMachineRunOnce user em m.queueFd m.events m.maxEvents m.breakLoopPipe.1 false o

/-- A run of `event_machine_run()` that began in the world `w` and has come to batch `n` in the world
`w'`. -/
structure FailsSafe (user : UserCode σ) (em : EMPtr) (waits : Nat → WaitOutcome) (w : World σ) (n : Nat)
    (w' : World σ) : Prop where
  /-- The assertions of `event_machine_run_once()` hold. -/
  assertions : ∀ o, wp (runOnceWait em (w'.ems em).queueFd (w'.ems em).events (w'.ems em).maxEvents
    (w'.ems em).breakLoopPipe.1 o) (fun _ _ => True) (fun _ _ => False) w'
  /-- The buffer has not been freed after any number of slots. -/
  slots : ∀ ret u left r v, runOnceWait em (w'.ems em).queueFd (w'.ems em).events
    (w'.ems em).maxEvents (w'.ems em).breakLoopPipe.1 (waits n) w' = .ok ret u →
    runOnceLoop user em (w'.ems em).events (w'.ems em).breakLoopPipe.1 left 0 false u = .ok r v →
    NotFreed em w v
  /-- If the machine is destroyed in the batch, then the run returns after it without calling another
  handler, and with an error unless the break-loop descriptor has been read in this batch. -/
  returns : ∀ r w'', runOnceOf user em (w'.ems em) (waits n) w' = .ok r w'' → DestroyedIn em w' w'' →
    ∀ fuel, n + 2 ≤ fuel → ∃ code v, eventMachineRun user (some em) waits fuel w = .ok (some code) v ∧
      v.invoked = w''.invoked ∧ NotFreed em w v ∧
      (code = EMResult.success.code → BreakRead em w' w'')

/-- The rest of a run in which the machine has just been destroyed. -/
theorem runLoop_destroyed {user : UserCode σ} {em : EMPtr} (waits : Nat → WaitOutcome)
    {w w' : World σ} {r : UInt32 × Bool} (n fuel : Nat) (hq : 0 ≤ (w.ems em).queueFd)
    (hread : 0 ≤ (w.ems em).breakLoopPipe.1)
    (honce : runOnceOf user em (w.ems em) (waits n) w = .ok r w') (hhandled : Handled em w w')
    (hbreak : r.1 = EMResult.success.code → r.2 = true → BreakRead em w w')
    (hdestroyed : DestroyedIn em w w') :
    ∃ code v, runLoop user em waits (fuel + 2) n w = .ok (some code) v ∧ v.invoked = w'.invoked ∧
      Handled em w v ∧ (code = EMResult.success.code → BreakRead em w w') := by
  obtain ⟨code, breakLoop⟩ := r
  rw [runLoop_succ (fuel + 1) n honce]
  by_cases hcode : code = EMResult.success.code
  · rw [if_neg (by simpa using hcode)]
    cases breakLoop with
    | true => exact ⟨_, w', rfl, rfl, hhandled, fun _ => hbreak hcode rfl⟩
    | false =>
      -- one more round, on the queue that has been closed
      have hclosed := hhandled.closed hdestroyed
      have hlastRound : wp (eventMachineRunOnce user em _ _ _ _ _ _) _ _ w' :=
        runOnce_closed hq (waits (n + 1)) w' hread hclosed
      obtain ⟨r', w'', hwait, rfl, hinvoked, hlast⟩ := wp_total hlastRound
      rw [← hhandled.machine] at hwait
      rw [if_neg (by decide), runLoop_succ fuel (n + 1) hwait, if_pos (by decide)]
      exact ⟨_, w'', rfl, hinvoked, hhandled.trans hlast, fun h => absurd h (by decide)⟩
  · rw [if_pos hcode]
    exact ⟨code, w', rfl, rfl, hhandled, fun h => absurd h hcode⟩

theorem nonneg_of_init {usePipe2 : Bool} {em : EMPtr} {w w' : World σ}
    (h : eventMachineInit usePipe2 (some em) w = .ok EMResult.success.code w') :
    0 ≤ (w'.ems em).queueFd ∧ 0 ≤ (w'.ems em).breakLoopPipe.1 := by
  obtain ⟨ms, m, hb, hout⟩ := wp_ok (init_spec usePipe2 w em) h
  obtain ⟨-, -, hqueue, hpipe⟩ := hout.initialised hb
  obtain ⟨-, hq⟩ := hqueue.resolve_left fun h => h.2.1 rfl
  obtain ⟨-, p, hread, -⟩ := hpipe.resolve_left fun h => absurd h.1 (by decide)
  exact ⟨hq.nonneg, hread.nonneg⟩

/-- Destroying a machine in the handlers it calls fails safe. -/
theorem destroy_fails_safe {usePipe2 : Bool} {em : EMPtr} {user : UserCode σ}
    {waits : Nat → WaitOutcome} {w₀ w₁ w w' : World σ} {n : Nat}
    (hinit : eventMachineInit usePipe2 (some em) w₀ = .ok EMResult.success.code w₁)
    (hmachine : w.ems em = w₁.ems em) (huser : user.Destroying em (w.ems em))
    (hrun : eventMachineRun user (some em) waits n w = .ok none w') :
    FailsSafe user em waits w n w' := by
  obtain ⟨hq, hread⟩ := nonneg_of_init hinit
  rw [← hmachine] at hq hread
  obtain ⟨v, henter, hloop⟩ := run_of_none hrun
  obtain ⟨hsame, -, hrec, -⟩ := wp_ok (eventMachineRunEnter_spec (some em) w) henter
  have hentered : Handled em w v := by
    refine .of_bystanding ⟨congrFun (World.ems_congr hsame.core) em,
      fun hnone => (World.file_congr hsame.core _).trans hnone, fun b _ hb => ?_,
      (hrec em rfl).mono fun x hx hcloses => ?_⟩
    · rwa [show v.frees = w.frees from congrArg (·.frees) hsame.core] at hb
    · exact absurd (hx.2.1.symm.trans hcloses.2) (by decide)
  rw [hloop n] at hrun
  have hbefore : Handled em w w' :=
    hentered.trans (wp_ok (runLoop_handled huser hq waits hread n 0 v hentered.machine) hrun)
  have hm := hbefore.machine
  refine ⟨fun o => ?_, fun ret u left r u' hwait hslots => ?_, fun r w'' honce hd fuel hfuel => ?_⟩
  · rw [hm]
    exact wp_mono (runOnceWait_handled hq o w' hread) (fun _ _ _ => trivial) fun _ _ h => h
  · rw [hm] at hwait hslots
    have hwaited := (wp_ok (runOnceWait_handled hq _ w' hread) hwait).1
    have hslotted := wp_ok (runOnceLoop_handled huser hq left u (hwaited.machine.trans hm)) hslots
    exact ((hbefore.trans hwaited).trans hslotted.1).notFreed
  · have honce' : runOnceOf user em (w.ems em) (waits n) w' = .ok r w'' := by rwa [hm] at honce
    obtain ⟨hhandled, hbreak⟩ := wp_ok (runOnce_handled huser hq (waits n) w' hm hread) honce'
    obtain ⟨k, rfl⟩ := Nat.exists_eq_add_of_le hfuel
    rw [hloop, Nat.add_assoc, runLoop_add n _ 0 hrun, Nat.zero_add, Nat.add_comm 2 k]
    obtain ⟨code, x, hend, hinvoked, hlast, hcode⟩ := runLoop_destroyed waits n k (by rwa [hm])
      (by rwa [hm]) honce hhandled hbreak hd
    exact ⟨code, x, hend, hinvoked, (hbefore.trans hlast).notFreed, hcode⟩

/-- Every handler destroys machine 0, twice. -/
def destroyer : UserCode Unit where
  handler _ _ _ _ _ := do
    let _ ← eventMachineDestroy (some 0)
    let _ ← eventMachineDestroy (some 0)
  callback _ _ _ := pure ()

theorem destroyer_destroying (m : EM Unit) : destroyer.Destroying 0 m where
  handler _ _ _ _ _ w _ := by
    obtain ⟨r, w₁, h₁, -⟩ := wp_total (destroy_spec w 0)
    obtain ⟨r', w₂, h₂, -⟩ := wp_total (destroy_spec w₁ 0)
    have hexec : destroyer.handler 0 0 0 0 .null w = .ok () w₂ := by
      simp [destroyer, bind, EStateM.bind, h₁, h₂, pure, EStateM.pure]
    exact (wp_eq_ok hexec).2 ⟨[.destroy r, .destroy r'], .cons h₁ (.cons h₂ (.nil w₂))⟩
  callback _ _ _ w _ := ⟨[], .nil w⟩

/-- Machine 0 has been initialised, and event descriptors are for number 3. -/
def runningWorld : World Unit :=
  final (eventMachineInit true (some 0))
    { World.start (emStaticWithMaxEvents Unit 16 none) () fun _ _ => none with
      descriptors := fun _ => ⟨EPOLLIN, 3, .null, some (.user 0)⟩ }

/-- `event_machine_run()` is about to wait for the first time. -/
def waitingWorld : World Unit := final (eventMachineRunEnter (some 0)) runningWorld

/-- Two numbers are ready, again and again. -/
def twoReady (_ : Nat) : WaitOutcome := .batch [⟨EPOLLIN, some (.obj 0)⟩, ⟨EPOLLIN, some (.obj 1)⟩]

/-- The first batch: each of the two events is dispatched, although the handler of the first one has
destroyed the machine. -/
def batchWaited : World Unit := final (runOnceWait 0 2 (some (.malloc 0)) 16 0 (twoReady 0)) waitingWorld

def batchFirst : World Unit := final (runOnceSlot 0 (some (.malloc 0)) 0 0) batchWaited

def batchDestroyed : World Unit := final (destroyer.handler 0 0 EPOLLIN 3 .null) batchFirst

def batchSecond : World Unit := final (runOnceSlot 0 (some (.malloc 0)) 1 0) batchDestroyed

def batchDone : World Unit := final (destroyer.handler 0 0 EPOLLIN 3 .null) batchSecond

theorem destroyer_batch : runOnceOf destroyer 0 (waitingWorld.ems 0) (twoReady 0) waitingWorld =
    .ok (EMResult.success.code, false) batchDone := by
  have hqueue : (waitingWorld.ems 0).queueFd = 2 := rfl
  have hevents : (waitingWorld.ems 0).events = some (.malloc 0) := rfl
  have hmax : (waitingWorld.ems 0).maxEvents = 16 := rfl
  have hread : (waitingWorld.ems 0).breakLoopPipe.1 = 0 := rfl
  have hwait : runOnceWait 0 2 (some (.malloc 0)) 16 0 (twoReady 0) waitingWorld = .ok 2 batchWaited := rfl
  have hfirst : runOnceSlot 0 (some (.malloc 0)) 0 0 batchWaited =
      .ok (.handler (.user 0) EPOLLIN 3 .null) batchFirst := rfl
  have hdestroyed : destroyer.handler 0 0 EPOLLIN 3 .null batchFirst = .ok () batchDestroyed := rfl
  have hsecond : runOnceSlot 0 (some (.malloc 0)) 1 0 batchDestroyed =
      .ok (.handler (.user 0) EPOLLIN 3 .null) batchSecond := rfl
  have hdone : destroyer.handler 0 0 EPOLLIN 3 .null batchSecond = .ok () batchDone := rfl
  -- from here on the worlds are only names
  generalize waitingWorld = w₀ at *
  generalize batchWaited = w₁ at *
  generalize batchFirst = w₂ at *
  generalize batchDestroyed = w₃ at *
  generalize batchSecond = w₄ at *
  generalize batchDone = w₅ at *
  have hrun : wp (runOnceOf destroyer 0 (w₀.ems 0) (twoReady 0))
      (fun r w => r = (EMResult.success.code, false) ∧ w = w₅) (fun _ _ => False) w₀ := by
    unfold runOnceOf eventMachineRunOnce
    rw [hqueue, hevents, hmax, hread, wp_bind, wp_eq_ok hwait, if_neg (by decide)]
    show wp (runOnceLoop destroyer 0 (some (.malloc 0)) 0 2 0 false) _ _ w₁
    unfold runOnceLoop
    rw [wp_bind, wp_eq_ok hfirst]
    show wp (destroyer.handler 0 0 EPOLLIN 3 .null >>= _) _ _ w₂
    rw [wp_bind, wp_eq_ok hdestroyed]
    unfold runOnceLoop
    rw [wp_bind, wp_eq_ok hsecond]
    show wp (destroyer.handler 0 0 EPOLLIN 3 .null >>= _) _ _ w₄
    rw [wp_bind, wp_eq_ok hdone]
    exact ⟨rfl, rfl⟩
  obtain ⟨r, w, hexec, rfl, rfl⟩ := wp_total hrun
  exact hexec

theorem destroyer_batch_destroyed : DestroyedIn 0 waitingWorld batchDone := by
  refine ⟨batchDone.log.drop waitingWorld.log.length, by decide, ?_⟩
  unfold SysRecord.ClosesFor
  decide

theorem destroy_fails_safe_destroyer :
    FailsSafe destroyer 0 twoReady runningWorld 0 waitingWorld ∧
      ∃ code w, eventMachineRun destroyer (some 0) twoReady 2 runningWorld = .ok (some code) w ∧
        w.invoked = batchDone.invoked := by
  have hinit : eventMachineInit true (some 0)
      { World.start (emStaticWithMaxEvents Unit 16 none) () fun _ _ => none with
        descriptors := fun _ => ⟨EPOLLIN, 3, .null, some (.user 0)⟩ } =
      .ok EMResult.success.code runningWorld := rfl
  have hrun : eventMachineRun destroyer (some 0) twoReady 0 runningWorld = .ok none waitingWorld := rfl
  have hsafe : FailsSafe destroyer 0 twoReady runningWorld 0 waitingWorld :=
    destroy_fails_safe hinit rfl (destroyer_destroying _) hrun
  obtain ⟨code, w, hend, hinvoked, -⟩ := hsafe.returns _ _ destroyer_batch destroyer_batch_destroyed 2
    (Nat.le_refl 2)
  exact ⟨hsafe, code, w, hend, hinvoked⟩

end EventMachine
