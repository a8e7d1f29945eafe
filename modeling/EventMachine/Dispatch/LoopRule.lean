import EventMachine.Dispatch.Handshake

/-!
# A rule for the main loop

`event_machine_run()` around given user code (`eventMachineRun`) is made of the steps of `runStep` and
of calls of handlers. What each of these keeps (`LoopRule`) therefore holds when the loop over a batch
ends (`LoopRule.once`) and when the whole loop does (`LoopRule.loop`).
-/

namespace EventMachine

open Lib

variable {σ : Type}

/-- Where a round of the loop of `event_machine_run_once()` leads. -/
def Slot.next (breakLoop : Bool) (b : Batch) : Slot → RunPc
  | .readFailed => .done EMResult.errorRead.code
  | .breakLoop => .batch true b.next
  | .handler _ _ _ _ => .batch breakLoop b.next

/-- Where the end of that loop leads. -/
def RunPc.afterBatch (breakLoop : Bool) : RunPc :=
  if breakLoop then .done EMResult.success.code else .waiting

/-- What the main loop keeps: `P` of where it has come to and of the world, through its own system
calls and the handlers it calls. It waits for the `n`-th time in worlds with `May n` only. -/
structure LoopRule (user : UserCode σ) (em : EMPtr) (waits : Nat → WaitOutcome)
    (May : Nat → World σ → Prop) (P : RunPc → World σ → Prop) : Prop where
  waiting : ∀ {n w pc w'}, P .waiting w → May n w →
    runStep em (waits n) .waiting w = .ok pc w' → P pc w'
  slot : ∀ {breakLoop b w r w'}, P (.batch breakLoop b) w → b.i < b.numEvents →
    runOnceSlot em b.events b.i b.breakLoopReadFd w = .ok r w' →
    (∀ h events fd data, r ≠ .handler h events fd data) → P (r.next breakLoop b) w'
  handler : ∀ {breakLoop b w h events fd data w'}, P (.batch breakLoop b) w → b.i < b.numEvents →
    runOnceSlot em b.events b.i b.breakLoopReadFd w = .ok (.handler h events fd data) w' →
    wp (callHandler user h em events fd data) (fun _ w'' => P (.batch breakLoop b.next) w'')
      (fun _ _ => True) w'
  afterBatch : ∀ {breakLoop b w}, P (.batch breakLoop b) w → ¬ b.i < b.numEvents →
    P (.afterBatch breakLoop) w

/-- What `event_machine_run_once()` has come to when it returns. -/
def OnceDone (P : RunPc → World σ → Prop) (r : UInt32 × Bool) (w : World σ) : Prop :=
  (r.1 = EMResult.success.code ∧ P (.afterBatch r.2) w) ∨
    (r.1 ≠ EMResult.success.code ∧ P (.done r.1) w)

namespace LoopRule
variable {user : UserCode σ} {em : EMPtr} {waits : Nat → WaitOutcome} {May : Nat → World σ → Prop}
  {P : RunPc → World σ → Prop}

theorem runOnceLoop (h : LoopRule user em waits May P) {events : Option BufPtr} {fd : Int} {k : Nat}
    (left i : Nat) (hk : i + left = k) (breakLoop : Bool) (w : World σ)
    (hP : P (.batch breakLoop ⟨events, fd, i, k⟩) w) :
    wp (runOnceLoop user em events fd left i breakLoop) (OnceDone P) (fun _ _ => True) w := by
  induction left generalizing i breakLoop w with
  | zero => exact Or.inl ⟨rfl, h.afterBatch hP (Nat.not_lt.2 (Nat.le_of_eq hk.symm))⟩
  | succ left ih =>
    have hlt : i < k := by omega
    have hk' : i + 1 + left = k := by omega
    unfold EventMachine.runOnceLoop
    rw [wp_bind]
    refine wp_mono (wp_self _ w) ?_ fun _ _ _ => trivial
    rintro (_ | _ | ⟨g, bits, fd', data⟩) w₁ hslot
    · exact Or.inr ⟨by decide, h.slot hP hlt hslot fun _ _ _ _ => nofun⟩
    · exact ih (i + 1) hk' true w₁ (h.slot hP hlt hslot fun _ _ _ _ => nofun)
    · dsimp only
      rw [wp_bind]
      refine wp_mono (h.handler hP hlt hslot) ?_ fun _ _ _ => trivial
      exact fun _ w₂ hP₂ => ih (i + 1) hk' breakLoop w₂ hP₂

theorem once (h : LoopRule user em waits May P) (n : Nat) (w : World σ) (hP : P .waiting w)
    (hmay : May n w) :
    wp (eventMachineRunOnce user em (w.ems em).queueFd (w.ems em).events (w.ems em).maxEvents
      (w.ems em).breakLoopPipe.1 false (waits n)) (OnceDone P) (fun _ _ => True) w := by
  unfold eventMachineRunOnce
  rw [wp_bind]
  refine wp_mono (wp_self _ w) ?_ fun _ _ _ => trivial
  intro ret w₁ hwait
  have hstep : runStep em (waits n) .waiting w = .ok (if ret < 0 then
      .done EMResult.errorEventWait.code
      else .batch false ⟨(w.ems em).events, (w.ems em).breakLoopPipe.1, 0, ret.toNat⟩) w₁ := by
    have hbegin : runOnceBegin em (waits n) w =
        .ok (ret, (w.ems em).events, (w.ems em).breakLoopPipe.1) w₁ := by
      show EStateM.bind (runOnceWait _ _ _ _ _ _) _ w = _
      rw [EStateM.bind, hwait]
      rfl
    show EStateM.bind (runOnceBegin em (waits n)) _ w = _
    rw [EStateM.bind, hbegin]
    dsimp only
    split <;> rfl
  have hP₁ := h.waiting hP hmay hstep
  rw [wp_ite]
  constructor
  · intro hneg
    rw [if_pos hneg] at hP₁
    exact Or.inr ⟨by decide, hP₁⟩
  · intro hpos
    rw [if_neg hpos] at hP₁
    exact h.runOnceLoop _ 0 (Nat.zero_add _) false w₁ hP₁

theorem loop (h : LoopRule user em waits May P) (fuel n : Nat) (w : World σ) (hP : P .waiting w)
    (hmay : ∀ j w', runLoop user em waits j n w = .ok none w' → May (n + j) w') :
    wp (runLoop user em waits fuel n) (fun r w' => ∀ code, r = some code → P (.done code) w')
      (fun _ _ => True) w := by
  induction fuel generalizing n w with
  | zero => exact fun _ => nofun
  | succ fuel ih =>
    refine wp_runLoop_succ.2 ?_
    refine wp_mono (wp_and (h.once n w hP (hmay 0 w rfl)) (wp_self _ w)) ?_ fun _ _ _ => trivial
    rintro ⟨code, breakLoop⟩ w₁ ⟨hdone, honce⟩
    have hok : code = EMResult.success.code → P (.afterBatch breakLoop) w₁ := fun hcode =>
      (hdone.resolve_right fun hbad => hbad.1 hcode).2
    refine ⟨fun hcode => ?_, fun hcode hbl => ?_, fun hcode hbl => ?_⟩
    · rintro _ ⟨⟩
      exact (hdone.resolve_left fun h => hcode h.1).2
    · obtain rfl : breakLoop = true := hbl
      rintro _ ⟨⟩
      exact hok hcode
    · obtain rfl : breakLoop = false := hbl
      obtain rfl : code = EMResult.success.code := hcode
      apply ih (n + 1) w₁ (hok rfl)
      intro j w' hj
      have hnext : runLoop user em waits (j + 1) n w = .ok none w' := by
        rw [runLoop_succ j n honce, if_neg (by simp), if_neg (by simp)]
        exact hj
      have hmay' := hmay (j + 1) w' hnext
      rwa [show n + (j + 1) = n + 1 + j by omega] at hmay'

theorem loop_waiting (h : LoopRule user em waits May P) (fuel n : Nat) (w : World σ) (hP : P .waiting w)
    (hmay : ∀ j w', runLoop user em waits j n w = .ok none w' → May (n + j) w') :
    wp (runLoop user em waits fuel n) (fun r w' => r = none → P .waiting w') (fun _ _ => True) w := by
  induction fuel generalizing n w with
  | zero => exact fun _ => hP
  | succ fuel ih =>
    refine wp_runLoop_succ.2 ?_
    refine wp_mono (wp_and (h.once n w hP (hmay 0 w rfl)) (wp_self _ w)) ?_ fun _ _ _ => trivial
    rintro ⟨code, breakLoop⟩ w₁ ⟨hdone, honce⟩
    refine ⟨fun _ => by simp, fun _ _ => by simp, fun hcode hbl => ?_⟩
    obtain rfl : breakLoop = false := hbl
    obtain rfl : code = EMResult.success.code := hcode
    apply ih (n + 1) w₁ (hdone.resolve_right fun hbad => hbad.1 rfl).2
    intro j w' hj
    have hnext : runLoop user em waits (j + 1) n w = .ok none w' := by
      rw [runLoop_succ j n honce, if_neg (by simp), if_neg (by simp)]
      exact hj
    have hmay' := hmay (j + 1) w' hnext
    rwa [show n + (j + 1) = n + 1 + j by omega] at hmay'

end LoopRule

/-- What the main loop keeps, holds when `event_machine_run()` waits and when it has returned. -/
theorem LoopRule.run {user : UserCode σ} {em : EMPtr} {waits : Nat → WaitOutcome}
    {May : Nat → World σ → Prop} {P : RunPc → World σ → Prop} (h : LoopRule user em waits May P)
    (fuel : Nat) (w : World σ) (hP : ∀ w', Same w w' → KernelOnly w w' → P .waiting w')
    (hmay : ∀ j w', eventMachineRun user (some em) waits j w = .ok none w' → May j w') :
    wp (eventMachineRun user (some em) waits fuel)
      (fun r w' => ∃ pc, P pc w' ∧ (r = some EMResult.success.code →
        pc = .done EMResult.success.code ∧ 0 ≤ (w.ems em).queueFd))
      (fun _ _ => True) w := by
  obtain ⟨r, w₁, henter, hsame, honly, -, hqueue⟩ := wp_total (eventMachineRunEnter_spec (some em) w)
  have hrun := eventMachineRun_eq user waits henter
  have h₁ := hP w₁ hsame honly
  unfold wp
  rw [hrun fuel]
  by_cases hr : r = EMResult.success.code
  · rw [if_neg (not_not.2 hr)]
    have hmay₁ : ∀ j w', runLoop user em waits j 0 w₁ = .ok none w' → May (0 + j) w' := by
      intro j w' hj
      rw [Nat.zero_add]
      apply hmay
      rw [hrun j, if_neg (not_not.2 hr)]
      exact hj
    refine wp_mono (wp_and (h.loop fuel 0 w₁ h₁ hmay₁) (h.loop_waiting fuel 0 w₁ h₁ hmay₁)) ?_
      fun _ _ _ => trivial
    rintro c w₂ ⟨hdone, hwaiting⟩
    cases c with
    | none => exact ⟨.waiting, hwaiting rfl, nofun⟩
    | some c =>
      refine ⟨.done c, hdone c rfl, ?_⟩
      rintro ⟨⟩
      exact ⟨rfl, hqueue hr em rfl⟩
  · rw [if_pos hr]
    exact ⟨.waiting, h₁, fun hs => absurd (Option.some.inj hs) hr⟩

/-! ## Between two handlers -/

theorem runStep_waiting_spec (em : EMPtr) (o : WaitOutcome) (w : World σ) :
    wp (runStep em o .waiting)
      (fun pc w' => Calm w w' ∧ w'.kernel.bytes = w.kernel.bytes ∧
        ((∃ r, r ≠ EMResult.success.code ∧ pc = .done r) ∨
          ∃ q l buf, w.kernel.file (w.ems em).queueFd = some q ∧ o = .batch l ∧ w'.kernel = w.kernel ∧
            w'.buffers = Function.update w.buffers buf (l ++ (w.buffers buf).drop l.length) ∧
            pc = .batch false ⟨some buf, (w.ems em).breakLoopPipe.1, 0, l.length⟩))
      (fun _ _ => True) w := by
  unfold runStep
  rw [wp_bind]
  refine wp_mono (runOnceBegin_spec em o w) ?_ fun _ _ _ => trivial
  rintro ⟨n, events, fd⟩ w' ⟨hr, -, -, hcalm, -, -, hcase⟩
  obtain ⟨rfl, rfl⟩ := Prod.mk.inj hr
  dsimp only at hcase ⊢
  rcases hcase with ⟨rfl, hcore, -⟩ | ⟨q, l, buf, hq, ho, hevents, rfl, hk, hbuf⟩
  · have hbytes : w'.kernel.bytes = w.kernel.bytes := congrArg (·.bytes) hcore
    rw [if_pos (by decide)]
    exact ⟨hcalm, hbytes, Or.inl ⟨_, by decide, rfl⟩⟩
  · rw [if_neg (by omega)]
    refine ⟨hcalm, by rw [hk], Or.inr ⟨q, l, buf, hq, ho, hk, hbuf, ?_⟩⟩
    rw [hevents, Int.toNat_natCast]

theorem internalTimeoutHandler_idle {user : UserCode σ} (h : ∀ c t data, user.callback c t data = pure ())
    (fd : Int) (data : VoidPtr) (w : World σ) :
    wp (internalTimeoutHandler user fd data)
      (fun _ w' => Calm w w' ∧ w'.kernel.bytes = w.kernel.bytes ∧ w'.buffers = w.buffers)
      (fun _ _ => True) w := by
  have hloop : ∀ n v, wp (timeoutLoop user data n)
      (fun _ v' => Calm v v' ∧ v'.kernel.bytes = v.kernel.bytes ∧ v'.buffers = v.buffers)
      (fun _ _ => True) v := by
    intro n
    induction n with
    | zero => exact fun _ => ⟨rfl, rfl, rfl⟩
    | succ n ih =>
      intro v
      unfold timeoutLoop
      rw [wp_bind]
      refine wp_mono (internalTimeoutRound_spec data v) ?_ fun _ _ _ => trivial
      rintro _ _ ⟨t, c, -, -, rfl, rfl⟩
      simp only [h]
      exact ih _
  unfold internalTimeoutHandler
  rw [wp_bind]
  refine wp_mono (internalTimeoutRead_spec fd data w) ?_ fun _ _ _ => trivial
  rintro r w₁ ⟨hcalm, hbuf, -, -, hcase⟩
  have hbytes : w₁.kernel.bytes = w.kernel.bytes := by
    rcases hcase with ⟨-, hcore⟩ | ⟨_, -, -, -, -, hcore⟩
    · exact congrArg (·.bytes) hcore
    · exact congrArg (·.bytes) hcore
  cases r with
  | none => exact ⟨hcalm, hbytes, hbuf⟩
  | some n =>
    refine wp_mono (hloop n w₁) ?_ fun _ _ _ => trivial
    rintro _ w₂ ⟨hcalm₂, hbytes₂, hbuf₂⟩
    exact ⟨hcalm₂.trans hcalm, hbytes₂.trans hbytes, hbuf₂.trans hbuf⟩

end EventMachine
