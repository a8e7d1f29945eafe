import EventMachine.Proof.Init
import EventMachine.Proof.Destroy
import EventMachine.Proof.Loop

/-!
# From `event_machine_init()` to `event_machine_destroy()`

Whatever `event_machine_init()` has taken, `event_machine_destroy()` should give back (`TornDown`). It
does so for a machine whose initialisation stopped before there was a queue. As soon as there is one,
the stray `;` after the test of the first `close()` makes destroy return right after it
(`torn_down_iff`).
-/

namespace EventMachine

open Lib

variable {σ : Type}

/-- `event_machine_init()` fails before it has a queue: there is no pipe, or setting its flags fails, or
there is no queue. -/
def StopsEarly (usePipe2 : Bool) (k : Kernel) : Prop :=
  k.faults .pipe 0 ≠ none ∨ (usePipe2 = false ∧ FcntlFails k 2) ∨ k.faults .epollCreate 0 ≠ none

/-- What may be done between a successful initialisation and the destruction: registering, terminating,
running, and whatever handlers and other code do with that. -/
def Act.InBetween : Act → Prop
  | .event (.ret (.reg _ _) _) => True
  | .event (.ret (.terminate _) _) => True
  | .event (.env _) => True
  | .run _ => True
  | .ret => True
  | .go _ => True
  | _ => False

/-- From the return of `event_machine_init()` with code `r` to the call of `event_machine_destroy()`. -/
def Between (usePipe2 : Bool) (r : UInt32) (w w' : World σ) : Prop :=
  (r ≠ EMResult.success.code ∧ w' = w) ∨
    (r = EMResult.success.code ∧ ∃ as,
      Steps (fun c a c' => Step usePipe2 c a c' ∧ a.InBetween) ⟨w, [], .user⟩ as ⟨w', [], .user⟩)

/-- The objects the machine has closed, `none` for a number that was not open. -/
def closedBy (em : EMPtr) (l : List SysRecord) : List (Option ObjId) :=
  (l.filter fun x => x.who = .machine em ∧ x.call = .close).map fun x => x.file.map (·.id)

/-- The machine has given back everything: `event_machine_destroy()` has returned `r` and led to `w'`,
after an initialisation from `w₀` to `w₁`. What the initialisation has opened are the objects between
the two values of `next`, and what it has allocated is what it has added to `mallocs`. -/
structure TornDown (em : EMPtr) (w₀ w₁ : World σ) (r : UInt32) (w' : World σ) : Prop where
  code : r = EMResult.success.code
  closed : ∃ l, w'.log = w₁.log ++ l ∧ (closedBy em l).Perm
    ((List.range' w₀.kernel.next (w₁.kernel.next - w₀.kernel.next)).map some)
  freed : w'.frees = w₁.frees ++ (w₁.mallocs.drop w₀.mallocs.length).map (·.1)
  queueFd : (w'.ems em).queueFd = -1
  breakLoopPipe : (w'.ems em).breakLoopPipe = (-1, -1)
  again : eventMachineDestroy (some em) w' = .ok EMResult.success.code w'

/-! ## Between the two calls -/

theorem Step.ems_of_inBetween {usePipe2 : Bool} {c c' : Config σ} {a : Act}
    (h : Step usePipe2 c a c') (ha : a.InBetween) : c'.world.ems = c.world.ems := by
  cases h with
  | @call f w w' r fs h =>
    cases f with
    | reg em c =>
      have hems : wp ((Call.reg em c).exec usePipe2) (fun _ w' => w'.ems = w.ems) (fun _ _ => False)
          w := wp_reg.2 (c.exec_ems w em)
      exact wp_ok hems h
    | terminate em =>
      cases em with
      | none =>
        obtain ⟨-, rfl⟩ := EStateM.Result.ok.inj h
        rfl
      | some em => exact congrArg (·.ems) (wp_ok (terminate_spec w em) h).1
    | _ => exact ha.elim
  | crash => exact ha.elim
  | env e => cases e <;> rfl
  | enter fs h => exact congrArg (·.ems) (wp_ok (eventMachineRunEnter_spec _ _) h).2.1
  | refuse fs h => exact congrArg (·.ems) (wp_ok (eventMachineRunEnter_spec _ _) h).2.1
  | ret => rfl
  | go => exact (Config.go_cases _ _ _).calm.ems

theorem Between.ems {usePipe2 : Bool} {r : UInt32} {w w' : World σ} (h : Between usePipe2 r w w') :
    w'.ems = w.ems := by
  rcases h with ⟨-, rfl⟩ | ⟨-, as, hrun⟩
  · rfl
  · exact hrun.invariant (I := fun c => c.world.ems = w.ems)
      (fun _ _ _ hc hstep => (hstep.1.ems_of_inBetween hstep.2).trans hc) rfl

/-! ## The machine after `event_machine_init()` -/

theorem Buffered.static {w : World σ} {em : EMPtr} {m : EM σ} {ms : List (BufPtr × Int)}
    (hb : Buffered w em m ms) (hm : (w.ems em).Static) :
    m.queueFd = -1 ∧ m.breakLoopPipe = (-1, -1) ∧
      (if m.doFreeEvents then m.events.toList else []) = (ms.drop w.mallocs.length).map (·.1) := by
  obtain ⟨hq, hp⟩ := hm.descriptors
  cases hb with
  | user => exact ⟨hq, hp, by simp⟩
  | allocated => exact ⟨hq, hp, by simp⟩
  | noMemory => exact ⟨hq, hp, by simp⟩

theorem destroy_again {w : World σ} {em : EMPtr} (hq : (w.ems em).queueFd = -1)
    (hp : (w.ems em).breakLoopPipe = (-1, -1))
    (he : (w.ems em).doFreeEvents = true → (w.ems em).events = none) :
    eventMachineDestroy (some em) w = .ok EMResult.success.code w := by
  obtain ⟨r, w', hexec, hout⟩ := wp_total (destroy_spec w em)
  have hfree : w.freeEvents em = w := by
    unfold World.freeEvents
    split
    · next h =>
      rw [he h, Option.toList_none, List.append_nil]
      have hm : ({ w.ems em with events := none } : EM σ) = w.ems em := by rw [← he h]
      rw [hm]
      exact congrArg (fun e => { w with ems := e }) (Function.update_eq_self em w.ems)
    · rfl
  rw [hexec]
  cases hout with
  | queue hfd => omega
  | writeEnd _ hfd => rw [hp] at hfd; exact absurd hfd (by decide)
  | readEnd _ _ hfd => rw [hp] at hfd; exact absurd hfd (by decide)
  | done _ write read =>
    rw [hp] at write read
    obtain ⟨-, rfl⟩ := write.resolve_right fun h => absurd h.1 (by decide)
    obtain ⟨-, rfl⟩ := read.resolve_right fun h => absurd h.1 (by decide)
    rw [hfree]

theorem freeEvents_frees (w : World σ) (em : EMPtr) :
    (w.freeEvents em).frees = w.frees ++
      (if (w.ems em).doFreeEvents then (w.ems em).events.toList else []) := by
  unfold World.freeEvents
  split
  · rfl
  · rw [List.append_nil]

/-- A machine that has a queue when it is destroyed keeps everything else. -/
theorem DestroyOutcome.of_queue {w w' : World σ} {em : EMPtr} {r : UInt32}
    (h : DestroyOutcome w em r w') (hq : 0 ≤ (w.ems em).queueFd) : r = EMResult.errorClose.code := by
  cases h with
  | queue => rfl
  | writeEnd => rfl
  | readEnd => rfl
  | done hneg => omega

/-- Without a queue, and when the `close()` calls succeed, everything is given back: both ends of the
pipe `ends`, or nothing when there is none. -/
theorem DestroyOutcome.tornDown {w w' : World σ} {em : EMPtr} {r : UInt32}
    (h : DestroyOutcome w em r w') (hq : (w.ems em).queueFd = -1)
    (hclose : Records (fun x => x.call = .close → x.ret = 0) w w')
    (hends : (w.ems em).breakLoopPipe = (-1, -1) ∨
      (0 ≤ (w.ems em).breakLoopPipe.1 ∧ 0 ≤ (w.ems em).breakLoopPipe.2 ∧
        (w.ems em).breakLoopPipe.1 ≠ (w.ems em).breakLoopPipe.2)) :
    r = EMResult.success.code ∧ (w'.ems em).queueFd = -1 ∧ (w'.ems em).breakLoopPipe = (-1, -1) ∧
      w'.frees = (w.freeEvents em).frees ∧
      ((w'.ems em).doFreeEvents = true → (w'.ems em).events = none) ∧
      ∃ l, w'.log = w.log ++ l ∧ closedBy em l =
        if (w.ems em).breakLoopPipe = (-1, -1) then []
        else [(w.kernel.file (w.ems em).breakLoopPipe.2).map (·.id),
          (w.kernel.file (w.ems em).breakLoopPipe.1).map (·.id)] := by
  have hfields := freeEvents_em w em
  have hlog₀ := (freeEvents_kernel w em).2
  have hkernel := (freeEvents_kernel w em).1
  cases h with
  | queue hfd => omega
  | writeEnd _ _ hclosed hret =>
    have hlog := hclosed.log
    rw [hlog₀] at hlog
    exact absurd (hclose.mem hlog _ (List.mem_singleton_self _) rfl) hret
  | readEnd _ hwrite _ hclosed hret =>
    have hlog := hclosed.log
    rw [hwrite.effect.1, hlog₀, List.append_assoc] at hlog
    exact absurd (hclose.mem hlog _ (List.mem_append_right _ (List.mem_singleton_self _)) rfl) hret
  | @done w₁ _ _ hwrite hread =>
    obtain ⟨hlog₁, hem₁, hfrees₁, hfile₁⟩ := hwrite.effect
    obtain ⟨hlog₂, hem₂, hfrees₂, -⟩ := hread.effect
    rw [hem₁, hfields] at hem₂
    refine ⟨rfl, ?_, ?_, hfrees₂.trans hfrees₁, ?_, _, by rw [hlog₂, hlog₁, hlog₀, List.append_assoc],
      ?_⟩
    · rw [hem₂, ← hq]
      split_ifs <;> rfl
    · rw [hem₂]
      rcases hends with hnone | ⟨hr, hw, -⟩
      · rw [hnone]
        exact hnone
      · rw [if_neg (by omega), if_neg (by omega)]
        rfl
    · have hevents : (w'.ems em).doFreeEvents = (w.ems em).doFreeEvents ∧ (w'.ems em).events =
          if (w.ems em).doFreeEvents then none else (w.ems em).events := by
        rw [hem₂]
        constructor <;> split_ifs <;> rfl
      intro hfree
      rw [hevents.2, if_pos (hevents.1.symm.trans hfree)]
    · rcases hends with hnone | ⟨hr, hw, hne⟩
      · rw [if_pos hnone, hnone]
        rfl
      · have hsome : ¬ (w.ems em).breakLoopPipe = (-1, -1) := fun h => by
          rw [h] at hr
          exact absurd hr (by decide)
        rw [if_neg hsome, if_neg (by omega), if_neg (by omega), hfile₁, if_neg hne, hkernel]
        simp [closedBy]

theorem tornDown_pipe {em : EMPtr} {w₀ w₁ w' : World σ} {m m' : EM σ} {ms : List (BufPtr × Int)}
    {ends : Int × Int} {r : UInt32} (base : InitFrame w₀ em ms m' w₁)
    (hm' : m'.breakLoopPipe = ends ∧ m'.queueFd = m.queueFd ∧ m'.doFreeEvents = m.doFreeEvents ∧
      m'.events = m.events)
    (hmq : m.queueFd = -1)
    (hme : (if m.doFreeEvents then m.events.toList else []) =
      (ms.drop w₀.mallocs.length).map (·.1))
    (pipe : w₀.kernel.PipeMade (.machine em) ends w₁.kernel) (h : DestroyOutcome w₁ em r w')
    (hclose : Records (fun x => x.call = .close → x.ret = 0) w₁ w') : TornDown em w₀ w₁ r w' := by
  have hm := base.ems_self
  obtain ⟨hp', hq', hf', he'⟩ := hm'
  obtain ⟨⟨hread, hwrite, hne⟩, -, hnext, hfile⟩ := pipeMade_files pipe
  obtain ⟨hr, hq, hp, hfrees, hev, l, hlog, hclosed⟩ :=
    h.tornDown (by rw [hm, hq', hmq]) hclose (Or.inr (by rw [hm, hp']; exact ⟨hread, hwrite, hne⟩))
  have hids : ∀ n, (w₁.kernel.file n).map (·.id) = ((w₁.kernel.file n).map File.identity).map (·.1) :=
    fun n => by rw [Option.map_map]; rfl
  rw [hm, hp', if_neg fun heq => by rw [heq] at hread; exact absurd hread (by decide), hids, hids,
    hfile, if_pos rfl, hfile, if_neg hne, if_pos rfl] at hclosed
  refine ⟨hr, ⟨l, hlog, ?_⟩, ?_, hq, hp, destroy_again hq hp hev⟩
  · rw [hclosed, hnext, Nat.add_sub_cancel_left]
    exact List.Perm.swap _ _ _
  · rw [hfrees, freeEvents_frees, hm, hf', he', hme, base.mallocs]

/-- A machine that `event_machine_init()` has been called for is torn down by a following
`event_machine_destroy()` whose `close()` calls all succeed exactly if the initialisation failed before
it had a queue. -/
theorem torn_down_iff {usePipe2 : Bool} {em : EMPtr} {w₀ w₁ w₂ w₃ : World σ} {r r' : UInt32}
    (hem : (w₀.ems em).Static) (hinit : eventMachineInit usePipe2 (some em) w₀ = .ok r w₁)
    (hbetween : Between usePipe2 r w₁ w₂) (hdestroy : eventMachineDestroy (some em) w₂ = .ok r' w₃)
    (hclose : Records (fun x => x.call = .close → x.ret = 0) w₂ w₃) :
    TornDown em w₀ w₁ r' w₃ ↔ StopsEarly usePipe2 w₀.kernel := by
  obtain ⟨ms, m, hb, hout⟩ := wp_ok (init_spec usePipe2 w₀ em) hinit
  obtain ⟨hmq, hmp, hme⟩ := hb.static hem
  have hdestroyed := wp_ok (destroy_spec w₂ em) hdestroy
  -- a failed initialisation is followed by the destruction at once
  have hfailed : r ≠ EMResult.success.code → w₂ = w₁ := fun hr =>
    (hbetween.resolve_right fun h => hr h.1).2
  cases hout with
  | noPipe code base core fault =>
    obtain rfl := hfailed (by rw [code]; decide)
    refine iff_of_true ?_ (Or.inl fault)
    have hm := base.ems_self
    obtain ⟨hr, hq, hp, hfrees, hev, l, hlog, hclosed⟩ :=
      hdestroyed.tornDown (by rw [hm, hmq]) hclose (Or.inl (by rw [hm, hmp]))
    rw [hm, if_pos hmp] at hclosed
    have hnext : w₂.kernel.next = w₀.kernel.next := congrArg (·.next) core
    refine ⟨hr, ⟨l, hlog, ?_⟩, ?_, hq, hp, destroy_again hq hp hev⟩
    · rw [hclosed, hnext, Nat.sub_self]
      exact .refl _
    · rw [hfrees, freeEvents_frees, hm, hme, base.mallocs]
  | noFlags ends code base pipe fault =>
    obtain rfl := hfailed (by rw [code]; decide)
    exact iff_of_true (tornDown_pipe base ⟨rfl, rfl, rfl, rfl⟩ hmq hme pipe hdestroyed hclose)
      (Or.inr (Or.inl fault))
  | noQueue ends code base pipe fault =>
    obtain rfl := hfailed (by rw [code]; decide)
    exact iff_of_true (tornDown_pipe base ⟨rfl, rfl, rfl, rfl⟩ hmq hme pipe hdestroyed hclose)
      (Or.inr (Or.inr fault))
  | queue ends fd q k₁ k₂ base pipe queue event noFault =>
    obtain ⟨hpipe, hflags, hqueue⟩ := noFault
    refine iff_of_false (fun h => ?_) ?_
    · have hems : (w₂.ems em).queueFd = fd := by rw [hbetween.ems, base.ems_self]
      have hcode := hdestroyed.of_queue (by rw [hems]; exact queue.1.nonneg)
      exact absurd (hcode.symm.trans h.code) (by decide)
    · rintro (h | ⟨h, h'⟩ | h)
      · exact h hpipe
      · exact hflags.elim (fun ht => by rw [h] at ht; exact absurd ht nofun) fun hf => hf h'
      · exact h hqueue

/-- A program with a machine without a buffer, on a kernel where the calls `failing` fail. -/
def staticWorld (failing : Syscall → Bool) : World Unit :=
  World.start (emStaticWithMaxEvents Unit 16 none) () fun s _ =>
    if failing s then some (.code 24) else none

/-- The machine after `event_machine_init()`, and after a following `event_machine_destroy()`. -/
def initialised (failing : Syscall → Bool) : World Unit :=
  final (eventMachineInit true (some 0)) (staticWorld failing)

def destroyed (failing : Syscall → Bool) : World Unit :=
  final (eventMachineDestroy (some 0)) (initialised failing)

theorem staticWorld_static (failing : Syscall → Bool) : ((staticWorld failing).ems 0).Static :=
  ⟨16, none, ⟨none, none, 0, .null⟩, rfl⟩

theorem torn_down_iff_noQueue :
    TornDown 0 (staticWorld (· = .epollCreate)) (initialised (· = .epollCreate))
        EMResult.success.code (destroyed (· = .epollCreate)) ↔
      StopsEarly true (staticWorld (· = .epollCreate)).kernel := by
  have hinit : eventMachineInit true (some 0) (staticWorld (· = .epollCreate)) =
      .ok EMResult.errorEventCreateQueue.code (initialised (· = .epollCreate)) := rfl
  have hdestroy : eventMachineDestroy (some 0) (initialised (· = .epollCreate)) =
      .ok EMResult.success.code (destroyed (· = .epollCreate)) := rfl
  have hclose : Records (fun x => x.call = .close → x.ret = 0) (initialised (· = .epollCreate))
      (destroyed (· = .epollCreate)) := ⟨_, rfl, by decide⟩
  have hbetween : Between true EMResult.errorEventCreateQueue.code
      (initialised (· = .epollCreate)) (initialised (· = .epollCreate)) := Or.inl ⟨by decide, rfl⟩
  exact torn_down_iff (staticWorld_static _) hinit hbetween hdestroy hclose

/-- With a queue, `event_machine_destroy()` reports an error although its `close()` has succeeded, and
gives nothing else back. -/
theorem not_tornDown :
    eventMachineInit true (some 0) (staticWorld fun _ => false) =
        .ok EMResult.success.code (initialised fun _ => false) ∧
      eventMachineDestroy (some 0) (initialised fun _ => false) =
        .ok EMResult.errorClose.code (destroyed fun _ => false) ∧
      Records (fun x => x.call = .close → x.ret = 0) (initialised fun _ => false)
        (destroyed fun _ => false) ∧
      ¬ TornDown 0 (staticWorld fun _ => false) (initialised fun _ => false)
        EMResult.errorClose.code (destroyed fun _ => false) :=
  ⟨rfl, rfl, ⟨_, rfl, by decide⟩, fun h => absurd h.code (by decide)⟩

end EventMachine
