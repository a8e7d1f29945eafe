import EventMachine.Dispatch.Unregistered

/-!
# The main loop, step by step

The main loop is modelled twice: as a function around given user code (`eventMachineRun`), and as the
steps of a program whose user code may do anything (`Step`). The second model covers the first: what the
function does, the program can do, step by step (`run_realised`). So what holds of all runs of programs
holds of the function. The user code is only asked to be such a program itself (`Realised`), which
calls of the API and actions of other code are, one after the other.
-/

namespace EventMachine

open Lib

variable {σ α β : Type}

/-- Some run of a program leads from `c` to `c'`. -/
def Goes (usePipe2 : Bool) (c c' : Config σ) : Prop := ∃ as, Steps (Step usePipe2) c as c'

/-- Some run of a program leads from `c` to a crash in the world `w`. -/
def Crashes (usePipe2 : Bool) (c : Config σ) (w : World σ) : Prop :=
  ∃ fs, Goes usePipe2 c ⟨w, fs, .crashed⟩

section goes
variable {usePipe2 : Bool} {c c' c'' : Config σ} {w : World σ}

theorem Goes.refl (c : Config σ) : Goes usePipe2 c c := ⟨[], .nil c⟩

theorem Goes.of_step {a : Act} (h : Step usePipe2 c a c') : Goes usePipe2 c c' := ⟨[a], .cons h (.nil c')⟩

theorem Goes.trans (h : Goes usePipe2 c c') (h' : Goes usePipe2 c' c'') : Goes usePipe2 c c'' := by
  obtain ⟨as, has⟩ := h
  obtain ⟨bs, hbs⟩ := h'
  exact ⟨as ++ bs, has.append hbs⟩

theorem Goes.crashes (h : Goes usePipe2 c c') (h' : Crashes usePipe2 c' w) : Crashes usePipe2 c w := by
  obtain ⟨fs, hfs⟩ := h'
  exact ⟨fs, h.trans hfs⟩

theorem Goes.of_go {fs : List Frame} (o : WaitOutcome)
    (hfs : ∀ em bl rest, fs ≠ .run em bl none :: rest) :
    Goes usePipe2 (⟨w, fs, .library⟩ : Config σ) (Config.go ⟨w, fs, .library⟩ o) :=
  .of_step (.go fun em bl rest _ _ hstack => absurd hstack (hfs em bl rest))

end goes

/-- Some run of a program leads from `c` through the rest of a batch of `n` events, or out of
`event_machine_run()` when the batch is broken off. -/
def GoesThrough (usePipe2 : Bool) (c : Config σ) (em : EMPtr) (events : Option BufPtr) (fd : Int)
    (n : Nat) (fs : List Frame) (r : UInt32 × Bool) (w : World σ) : Prop :=
  if r.1 = EMResult.success.code then
    Goes usePipe2 c ⟨w, .run em r.2 (some ⟨events, fd, n, n⟩) :: fs, .library⟩
  else Goes usePipe2 c ⟨w, fs, .user⟩

theorem GoesThrough.after {usePipe2 : Bool} {c c' : Config σ} {em : EMPtr} {events : Option BufPtr}
    {fd : Int} {n : Nat} {fs : List Frame} {r : UInt32 × Bool} {w : World σ} (h : Goes usePipe2 c c')
    (h' : GoesThrough usePipe2 c' em events fd n fs r w) :
    GoesThrough usePipe2 c em events fd n fs r w := by
  unfold GoesThrough at h' ⊢
  split at h'
  · next hok => exact (if_pos hok).mpr (h.trans h')
  · next hok => exact (if_neg hok).mpr (h.trans h')

/-- The user code `f` can be executed step by step when it is called in `w`, whoever has called it. -/
def Realised (usePipe2 : Bool) (f : Sys σ α) (w : World σ) : Prop :=
  ∀ fs, wp f (fun _ w' => Goes usePipe2 ⟨w, fs, .user⟩ ⟨w', fs, .user⟩)
    (fun _ w' => Crashes usePipe2 ⟨w, fs, .user⟩ w') w

namespace Realised
variable {usePipe2 : Bool} {w : World σ}

theorem pure (a : α) : Realised usePipe2 (Pure.pure a : Sys σ α) w := fun _ => .refl _

theorem bind {f : Sys σ β} {g : β → Sys σ α} (hf : Realised usePipe2 f w)
    (hg : ∀ b w', f w = .ok b w' → Realised usePipe2 (g b) w') : Realised usePipe2 (f >>= g) w := by
  intro fs
  rw [wp_bind]
  refine wp_mono (wp_and (hf fs) (wp_self f w)) ?_ fun _ _ h => h.1
  rintro b w' ⟨hgoes, hrun⟩
  exact wp_mono (hg b w' hrun fs) (fun _ _ h => hgoes.trans h) fun _ _ h => hgoes.crashes h

theorem call (f : Call) : Realised usePipe2 (f.exec usePipe2) w := by
  intro fs
  refine wp_mono (wp_self (f.exec usePipe2) w) (fun r w' h => ?_) fun e w' h => ?_
  · exact .of_step (.call fs h)
  · exact ⟨fs, .of_step (.crash fs h)⟩

theorem env (e : Env) : Realised usePipe2 (modifyGet fun w : World σ => ((), e.exec w)) w :=
  fun fs => .of_step (.env e w fs .user)

end Realised

/-- All user code can be executed step by step. -/
structure UserCode.Realised (usePipe2 : Bool) (user : UserCode σ) : Prop where
  handler : ∀ h em events fd data w, EventMachine.Realised usePipe2 (user.handler h em events fd data) w
  callback : ∀ k t data w, EventMachine.Realised usePipe2 (user.callback k t data) w

section loops
variable {usePipe2 : Bool} {user : UserCode σ} (hu : user.Realised usePipe2)
include hu

theorem timeoutLoop_goes (data : VoidPtr) (rest : List Frame) (n : Nat) (w : World σ) :
    wp (timeoutLoop user data n)
      (fun _ w' => Goes usePipe2 ⟨w, .timeout data n :: rest, .library⟩ ⟨w', rest, .library⟩)
      (fun _ w' => Crashes usePipe2 ⟨w, .timeout data n :: rest, .library⟩ w') w := by
  induction n generalizing w with
  | zero => exact .of_go (.batch []) nofun
  | succ n ih =>
    have hgo : Goes usePipe2 (⟨w, .timeout data (n + 1) :: rest, .library⟩ : Config σ) _ :=
      .of_go (.batch []) nofun
    unfold timeoutLoop
    rw [wp_bind]
    refine wp_mono (wp_self (internalTimeoutRound data) w) (fun r w₁ hround => ?_) fun e w₁ hround => ?_
    · simp only [Config.go, hround] at hgo
      rw [wp_bind]
      refine wp_mono (hu.callback r.1 r.2.1 r.2.2 w₁ (.timeout data n :: rest)) (fun _ w₂ hcalled => ?_)
        fun _ w₂ hcrash => hgo.crashes hcrash
      have hret : Goes usePipe2 (⟨w₂, .timeout data n :: rest, .user⟩ : Config σ)
          ⟨w₂, .timeout data n :: rest, .library⟩ := .of_step (.ret w₂ _ rest)
      have hround := (hgo.trans hcalled).trans hret
      exact wp_mono (ih w₂) (fun _ _ h => hround.trans h) fun _ _ h => hround.crashes h
    · simp only [Config.go, hround] at hgo
      exact ⟨_, hgo⟩

theorem callHandler_goes (h : Handler) (em : EMPtr) (events : UInt32) (fd : Int) (data : VoidPtr)
    (f : Frame) (rest stack : List Frame) (w : World σ) {c : Config σ}
    (hc : Goes usePipe2 c (match h with
      | .user _ => ⟨w, f :: rest, .user⟩
      | .internalTimeoutHandler => match internalTimeoutRead fd data w with
        | .error _ w => ⟨w, stack, .crashed⟩
        | .ok none w => ⟨w, f :: rest, .library⟩
        | .ok (some n) w => ⟨w, .timeout data n :: f :: rest, .library⟩)) :
    wp (callHandler user h em events fd data)
      (fun _ w' => Goes usePipe2 c ⟨w', f :: rest, .library⟩) (fun _ w' => Crashes usePipe2 c w') w := by
  cases h with
  | user h =>
    refine wp_mono (hu.handler h em events fd data w (f :: rest)) (fun _ w₁ hcalled => ?_)
      fun _ _ hcrash => hc.crashes hcrash
    exact (hc.trans hcalled).trans (.of_step (.ret w₁ f rest))
  | internalTimeoutHandler =>
    show wp (internalTimeoutHandler user fd data) _ _ w
    unfold internalTimeoutHandler
    rw [wp_bind]
    refine wp_mono (wp_self (internalTimeoutRead fd data) w) (fun r w₁ hread => ?_) fun _ w₁ hread => ?_
    · cases r with
      | none =>
        simp only [hread] at hc
        exact hc
      | some n =>
        simp only [hread] at hc
        exact wp_mono (timeoutLoop_goes hu data (f :: rest) n w₁) (fun _ _ hgoes => hc.trans hgoes)
          fun _ _ hcrash => hc.crashes hcrash
    · simp only [hread] at hc
      exact ⟨_, hc⟩

/-- The loop of `event_machine_run_once()`, from slot `i` of `n` on. -/
theorem runOnceLoop_goes (em : EMPtr) (events : Option BufPtr) (fd : Int) (n : Nat) (fs : List Frame)
    (left i : Nat) (hn : i + left = n) (bl : Bool) (w : World σ) :
    wp (runOnceLoop user em events fd left i bl)
      (GoesThrough usePipe2 ⟨w, .run em bl (some ⟨events, fd, i, n⟩) :: fs, .library⟩ em events fd n fs)
      (fun _ w' => Crashes usePipe2 ⟨w, .run em bl (some ⟨events, fd, i, n⟩) :: fs, .library⟩ w') w := by
  induction left generalizing i bl w with
  | zero =>
    obtain rfl : i = n := hn
    exact .refl _
  | succ left ih =>
    have hlt : i < n := by omega
    have hgo : Goes usePipe2
        (⟨w, .run em bl (some ⟨events, fd, i, n⟩) :: fs, .library⟩ : Config σ) _ :=
      .of_go (.batch []) nofun
    simp only [Config.go, if_pos hlt] at hgo
    unfold runOnceLoop
    rw [wp_bind]
    refine wp_mono (wp_self (runOnceSlot em events i fd) w) (fun r w₁ hslot => ?_) fun _ w₁ hslot => ?_
    · -- the rest of the loop, wherever this round has led
      have hrest : ∀ bl' w₂, Goes usePipe2
          (⟨w, .run em bl (some ⟨events, fd, i, n⟩) :: fs, .library⟩ : Config σ)
            ⟨w₂, .run em bl' (some ⟨events, fd, i + 1, n⟩) :: fs, .library⟩ →
          wp (runOnceLoop user em events fd left (i + 1) bl')
            (GoesThrough usePipe2 ⟨w, .run em bl (some ⟨events, fd, i, n⟩) :: fs, .library⟩ em events fd n
              fs)
            (fun _ w' => Crashes usePipe2 ⟨w, .run em bl (some ⟨events, fd, i, n⟩) :: fs, .library⟩ w')
            w₂ := by
        intro bl' w₂ hround
        exact wp_mono (ih (i + 1) (by omega) bl' w₂) (fun _ _ hr => hr.after hround)
          fun _ _ hcrash => hround.crashes hcrash
      cases r with
      | readFailed =>
        simp only [hslot] at hgo
        exact hgo
      | breakLoop =>
        simp only [hslot] at hgo
        exact hrest true w₁ hgo
      | handler h bits hfd data =>
        simp only
        rw [wp_bind]
        refine wp_mono (callHandler_goes hu h em bits hfd data
          (.run em bl (some ⟨events, fd, i + 1, n⟩)) fs
          (.run em bl (some ⟨events, fd, i, n⟩) :: fs) w₁ ?_) (fun _ w₂ => hrest bl w₂) fun _ _ hc => hc
        cases h with
        | user h =>
          simp only [hslot] at hgo
          exact hgo
        | internalTimeoutHandler =>
          simp only [hslot] at hgo
          exact hgo
    · simp only [hslot] at hgo
      exact ⟨_, hgo⟩

/-- Where `event_machine_run()` stands after `r` rounds or calls have led to `w`: it has returned or it
is about to wait. -/
def runConfig (em : EMPtr) (fs : List Frame) (r : Option UInt32) (w : World σ) : Config σ :=
  match r with
  | none => ⟨w, .run em false none :: fs, .library⟩
  | some _ => ⟨w, fs, .user⟩

theorem eventMachineRunOnce_goes (em : EMPtr) (o : WaitOutcome) (fs : List Frame) (w : World σ)
    (hmay : (⟨w, .run em false none :: fs, .library⟩ : Config σ).MayReport o) :
    wp (eventMachineRunOnce user em (w.ems em).queueFd (w.ems em).events (w.ems em).maxEvents
        (w.ems em).breakLoopPipe.1 false o)
      (fun r w' => Goes usePipe2 ⟨w, .run em false none :: fs, .library⟩ (runConfig em fs
        (if r.1 ≠ EMResult.success.code ∨ r.2 then some r.1 else none) w'))
      (fun _ w' => Crashes usePipe2 ⟨w, .run em false none :: fs, .library⟩ w') w := by
  have hstep : Step usePipe2 ⟨w, .run em false none :: fs, .library⟩ (.go o)
      (Config.go ⟨w, .run em false none :: fs, .library⟩ o) := Step.go hmay
  have hgo := Goes.of_step hstep
  unfold eventMachineRunOnce
  rw [wp_bind]
  refine wp_mono (wp_self _ w) (fun numEvents w₁ hwait => ?_) fun e w₁ hwait => ?_
  · have hbegin : runOnceBegin em o w =
        .ok (numEvents, (w.ems em).events, (w.ems em).breakLoopPipe.1) w₁ := by
      show EStateM.bind (runOnceWait _ _ _ _ _ _) _ w = _
      rw [EStateM.bind, hwait]
      rfl
    simp only [Config.go, hbegin] at hgo
    rw [wp_ite]
    constructor
    · intro hneg
      rw [if_pos hneg] at hgo
      exact hgo
    · intro hpos
      rw [if_neg hpos] at hgo
      refine wp_mono (runOnceLoop_goes hu em _ _ numEvents.toNat fs numEvents.toNat 0 (Nat.zero_add _)
        false w₁) (fun r w' hr => ?_) fun _ _ hcrash => hgo.crashes hcrash
      replace hr := hr.after hgo
      unfold GoesThrough at hr
      by_cases hok : r.1 = EMResult.success.code
      · -- the batch is through: one more step looks at `break_loop`
        rw [if_pos hok] at hr
        have hend : Goes usePipe2 (⟨w', .run em r.2 (some ⟨(w.ems em).events, (w.ems em).breakLoopPipe.1,
            numEvents.toNat, numEvents.toNat⟩) :: fs, .library⟩ : Config σ) _ := .of_go (.batch []) (by simp)
        simp only [Config.go, Nat.lt_irrefl, if_false] at hend
        replace hr := hr.trans hend
        cases hbl : r.2 with
        | true => simpa [runConfig, hbl, hok] using hr
        | false => simpa [runConfig, hbl, hok] using hr
      · rw [if_neg hok] at hr
        simpa [runConfig, hok] using hr
  · have hbegin : runOnceBegin em o w = .error e w₁ := by
      show EStateM.bind (runOnceWait _ _ _ _ _ _) _ w = _
      rw [EStateM.bind, hwait]
    simp only [Config.go, hbegin] at hgo
    exact ⟨_, hgo⟩

theorem runLoop_goes (em : EMPtr) (waits : Nat → WaitOutcome) (fs : List Frame) (fuel n : Nat)
    (w : World σ)
    (hmay : ∀ j w', runLoop user em waits j n w = .ok none w' →
      (⟨w', .run em false none :: fs, .library⟩ : Config σ).MayReport (waits (n + j))) :
    wp (runLoop user em waits fuel n)
      (fun r w' => Goes usePipe2 ⟨w, .run em false none :: fs, .library⟩ (runConfig em fs r w'))
      (fun _ w' => Crashes usePipe2 ⟨w, .run em false none :: fs, .library⟩ w') w := by
  induction fuel generalizing n w with
  | zero => exact .refl _
  | succ fuel ih =>
    refine wp_runLoop_succ.2 (wp_mono (wp_and (eventMachineRunOnce_goes hu em (waits n) fs w (hmay 0 w rfl))
      (wp_self _ w)) ?_ fun _ _ h => h.1)
    rintro ⟨code, breakLoop⟩ w₁ ⟨hround, honce⟩
    refine ⟨fun hcode => ?_, fun hcode hbl => ?_, fun hcode hbl => ?_⟩
    · rw [if_pos (Or.inl hcode)] at hround
      exact hround
    · rw [if_pos (Or.inr hbl)] at hround
      exact hround
    · rw [if_neg (not_or.2 ⟨not_not.2 hcode, by simpa using hbl⟩)] at hround
      refine wp_mono (ih (n + 1) w₁ fun j w' hj => ?_) (fun _ _ hgoes => hround.trans hgoes)
        fun _ _ hcrash => hround.crashes hcrash
      have hnext : runLoop user em waits (j + 1) n w = .ok none w' := by
        rw [runLoop_succ j n honce, if_neg (by simpa using hcode), if_neg (by simpa using hbl)]
        exact hj
      have hmay' := hmay (j + 1) w' hnext
      rwa [show n + (j + 1) = n + 1 + j by omega] at hmay'

theorem eventMachineRun_goes (em : EMPtr) (waits : Nat → WaitOutcome) (fuel : Nat) (fs : List Frame)
    (w : World σ)
    (hmay : ∀ j w', eventMachineRun user (some em) waits j w = .ok none w' →
      (⟨w', .run em false none :: fs, .library⟩ : Config σ).MayReport (waits j)) :
    wp (eventMachineRun user (some em) waits fuel)
      (fun r w' => Goes usePipe2 ⟨w, fs, .user⟩ (runConfig em fs r w'))
      (fun _ w' => Crashes usePipe2 ⟨w, fs, .user⟩ w') w := by
  obtain ⟨r, w₁, henter, -⟩ := wp_total (eventMachineRunEnter_spec (some em) w)
  have hrun := eventMachineRun_eq user waits henter
  unfold wp
  rw [hrun fuel]
  by_cases hr : r = EMResult.success.code
  · rw [if_neg (not_not.2 hr)]
    have hentered : Goes usePipe2 (⟨w, fs, .user⟩ : Config σ) _ := .of_step (.enter fs henter hr)
    refine wp_mono (runLoop_goes hu em waits fs fuel 0 w₁ fun j w' hj => ?_)
      (fun _ _ hgoes => hentered.trans hgoes) fun _ _ hcrash => hentered.crashes hcrash
    rw [Nat.zero_add]
    apply hmay
    rw [hrun j, if_neg (not_not.2 hr)]
    exact hj
  · rw [if_pos hr]
    exact .of_step (.refuse fs henter hr)

/-- What `event_machine_run()` does around given user code, the steps of a program can do, whoever has
called it: they lead to its return, to its next wait, or to its crash. The kernel is held to what it may
report whenever the function waits. -/
theorem run_realised (em : EMPtr) (waits : Nat → WaitOutcome) (fuel : Nat) (fs : List Frame)
    (w : World σ)
    (hmay : ∀ j w', eventMachineRun user (some em) waits j w = .ok none w' →
      (⟨w', .run em false none :: fs, .library⟩ : Config σ).MayReport (waits j)) :
    (∀ r w', eventMachineRun user (some em) waits fuel w = .ok r w' →
        Goes usePipe2 ⟨w, fs, .user⟩ (runConfig em fs r w')) ∧
      ∀ e w', eventMachineRun user (some em) waits fuel w = .error e w' →
        Crashes usePipe2 ⟨w, fs, .user⟩ w' := by
  have hgoes := eventMachineRun_goes hu em waits fuel fs w hmay
  constructor
  · intro r w' hr
    exact wp_ok hgoes hr
  · intro e w' he
    exact wp_error hgoes he

end loops

/-! ## A handler that unregisters the other descriptor -/

/-- Then it overwrites the memory of that descriptor. -/
def deleter : UserCode Unit where
  handler _ _ _ _ _ := do
    let _ ← (deleteNumber 4).exec true
    modifyGet fun w => ((), (Env.setDescriptor 1 ⟨0, -1, .null, none⟩).exec w)
  callback _ _ _ := pure ()

theorem deleter_realised : deleter.Realised true where
  handler _ _ _ _ _ _ := (Realised.call (deleteNumber 4)).bind fun _ _ _ => .env _
  callback _ _ _ _ := .pure ()

/-- Both descriptors become ready in the first round; `epoll_wait()` fails in the second one. -/
def readyOnce : Nat → WaitOutcome
  | 0 => bothReady
  | _ + 1 => .fail (.code 4)

theorem readyOnce_mayReport (j : Nat) (w' : World Unit)
    (hj : eventMachineRun deleter (some 0) readyOnce j twoRegistered = .ok none w') :
    (⟨w', [.run 0 false none], .library⟩ : Config Unit).MayReport (readyOnce j) := by
  have henter : eventMachineRun deleter (some 0) readyOnce 0 twoRegistered = .ok none bothWaiting.world :=
    rfl
  cases j with
  | zero =>
    rw [henter] at hj
    injection hj with _ hw
    rw [← hw]
    exact bothWaiting_mayReport
  | succ j => rintro em bl rest l q - ⟨⟩

theorem run_realised_twoRegistered :
    (∀ r w', eventMachineRun deleter (some 0) readyOnce 2 twoRegistered = .ok r w' →
        Goes true ⟨twoRegistered, [], .user⟩ (runConfig 0 [] r w')) ∧
      ∀ e w', eventMachineRun deleter (some 0) readyOnce 2 twoRegistered = .error e w' →
        Crashes true ⟨twoRegistered, [], .user⟩ w' :=
  run_realised deleter_realised 0 readyOnce 2 [] twoRegistered readyOnce_mayReport

end EventMachine
