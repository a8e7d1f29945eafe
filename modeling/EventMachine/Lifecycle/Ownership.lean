import EventMachine.Proof.Owned
import EventMachine.Proof.Loop

/-!
# Whose descriptors a machine uses

A machine stores the numbers of its queue and of the two ends of its pipe. Each should refer to what
`event_machine_init()` has opened for it whenever the library uses it (`OwnDescriptor`).
`event_machine_destroy()` breaks this: it leaves the number of the queue in the machine after closing
it, and the number of an end of the pipe when that `close()` reports an error. Such a number is *stale*
(`stale`), and the next owner of the number is whoever opens a descriptor next (`foreign_close`). As
long as no stale number is used, every call is on a descriptor of the machine
(`machine_descriptors_own`).
-/

namespace EventMachine

open Lib

variable {σ : Type}

/-- The system calls that act on what a number refers to. -/
def Syscall.Acts : Syscall → Prop
  | .close | .epollCtl _ | .epollWait | .read | .write => True
  | _ => False

/-- If the call is one of the machine, then on a descriptor that the machine has opened and that is
still open. -/
def OwnDescriptor (em : EMPtr) (x : SysRecord) : Prop :=
  x.who = .machine em → x.call.Acts → ∃ f, x.file = some f ∧ f.owner = .machine em

theorem OwnDescriptor.of_call {em : EMPtr} {x : SysRecord} {c : Syscall} (h : x.call = c)
    (hc : ¬ c.Acts) : OwnDescriptor em x := by
  intro _ hacts
  rw [h] at hacts
  exact absurd hacts hc

/-- Whether the number of the queue is stale, and whether one of the pipe is. -/
structure Stale where
  queue : Prop
  pipe : Prop

/-- `event_machine_destroy()` leaves stale numbers behind, `event_machine_init()` overwrites those it
gets to. -/
def stale (em : EMPtr) (c : Config σ) (a : Act) (_ : Config σ) (s : Stale) : Stale :=
  match a with
  | .event (.ret (.init _) r) =>
    ⟨s.queue ∧ r ≠ EMResult.success.code ∧ r ≠ EMResult.errorEventCtl.code,
      s.pipe ∧ r = EMResult.errorPipe.code⟩
  | .event (.ret (.destroy _) r) =>
    ⟨s.queue ∨ 0 ≤ (c.world.ems em).queueFd,
      s.pipe ∨ ((c.world.ems em).queueFd < 0 ∧ r = EMResult.errorClose.code)⟩
  | _ => s

/-- The calls a program makes on the machine. -/
def Call.On (em : EMPtr) : Call → Prop
  | .init m | .destroy m | .terminate m | .reg m _ => m = some em
  | _ => False

/-- What a program with one machine does, and other code with descriptors of its own. -/
def Act.OnMachine (em : EMPtr) (w : World σ) : Act → Prop
  | .event (.ret c _) => c.On em
  | .event (.env e) => e.Foreign w
  | .crash c => c.On em
  | .run m => m = some em
  | .ret | .go _ => True

/-- The steps of a program with one machine. -/
def MachineStep (usePipe2 : Bool) (em : EMPtr) (x : Config σ × Stale) (a : Act)
    (y : Config σ × Stale) : Prop :=
  history (Step usePipe2) (stale em) x a y ∧ a.OnMachine em x.1.world

/-- The step does not use a stale number: the machine is not destroyed a second time, no running loop
goes on to wait for events, and the calls that ask `fcntl()` first are made at most while the number is
in nobody else's hands. -/
def AvoidsStale (em : EMPtr) (c : Config σ) (s : Stale) : Act → Prop
  | .event (.ret (.destroy _) _) => ¬ s.queue ∧ ¬ s.pipe
  | .event (.ret (.reg _ _) _) =>
    s.queue → ∀ f, c.world.kernel.file (c.world.ems em).queueFd = some f → f.owner = .machine em
  | .event (.ret (.terminate _) _) =>
    s.pipe → ∀ f, c.world.kernel.file (c.world.ems em).breakLoopPipe.2 = some f →
      f.owner = .machine em
  | .go _ => (∃ bl rest, c.stack = .run em bl none :: rest) → ¬ s.queue
  | _ => True

/-! ## The invariant -/

/-- Numbers that are not stale are the machine's own, and a machine with a queue has a pipe. -/
structure Custody (em : EMPtr) (w : World σ) (s : Stale) : Prop where
  queue : ¬ s.queue → 0 ≤ (w.ems em).queueFd → w.Owns (.machine em) (w.ems em).queueFd .epoll
  readEnd : ¬ s.pipe → 0 ≤ (w.ems em).breakLoopPipe.1 →
    ∃ o, w.Owns (.machine em) (w.ems em).breakLoopPipe.1 (.pipeRead o)
  writeEnd : ¬ s.pipe → 0 ≤ (w.ems em).breakLoopPipe.2 →
    ∃ o, w.Owns (.machine em) (w.ems em).breakLoopPipe.2 (.pipeWrite o)
  pipe : 0 ≤ (w.ems em).queueFd → ¬ s.pipe

/-- An activation of the library runs a machine that has a queue, and the number it reads break
requests from is that of a pipe of the machine. -/
def Frame.Own (em : EMPtr) (w : World σ) : Frame → Prop
  | .run m _ b => m = em ∧ 0 ≤ (w.ems em).queueFd ∧
    ∀ b', b = some b' → ∃ o, w.Owns (.machine em) b'.breakLoopReadFd (.pipeRead o)
  | .timeout _ _ => True

/-- What holds in every state of a run that began in `w₀`. -/
structure InCustody (em : EMPtr) (w₀ : World σ) (x : Config σ × Stale) : Prop where
  custody : Custody em x.1.world x.2
  frames : ∀ f ∈ x.1.stack, f.Own em x.1.world
  records : Records (OwnDescriptor em) w₀ x.1.world

theorem Custody.congr {em : EMPtr} {w w' : World σ} {s : Stale} (h : Custody em w s)
    (hems : w'.ems em = w.ems em)
    (howns : ∀ n k, w.Owns (.machine em) n k → w'.Owns (.machine em) n k) : Custody em w' s where
  queue hs hq := by
    rw [hems] at hq ⊢
    exact howns _ _ (h.queue hs hq)
  readEnd hs hr := by
    rw [hems] at hr ⊢
    obtain ⟨o, ho⟩ := h.readEnd hs hr
    exact ⟨o, howns _ _ ho⟩
  writeEnd hs hw := by
    rw [hems] at hw ⊢
    obtain ⟨o, ho⟩ := h.writeEnd hs hw
    exact ⟨o, howns _ _ ho⟩
  pipe := by
    rw [hems]
    exact h.pipe

theorem Frame.Own.congr {em : EMPtr} {w w' : World σ} {f : Frame} (h : f.Own em w)
    (hq : 0 ≤ (w.ems em).queueFd → 0 ≤ (w'.ems em).queueFd)
    (howns : ∀ n o, w.Owns (.machine em) n (.pipeRead o) → w'.Owns (.machine em) n (.pipeRead o)) :
    f.Own em w' := by
  cases f with
  | timeout => trivial
  | run m bl b =>
    obtain ⟨hm, hqueue, hread⟩ := h
    refine ⟨hm, hq hqueue, fun b' hb => ?_⟩
    obtain ⟨o, ho⟩ := hread b' hb
    exact ⟨o, howns _ _ ho⟩

/-! ## `event_machine_init()` -/

theorem Custody.init {em : EMPtr} {w w' : World σ} {s : Stale} {r : UInt32} (h : Custody em w s)
    (hinit : Initialised w em r w') :
    Custody em w' ⟨s.queue ∧ r ≠ EMResult.success.code ∧ r ≠ EMResult.errorEventCtl.code,
      s.pipe ∧ r = EMResult.errorPipe.code⟩ := by
  have howns : ∀ n k, w.Owns (.machine em) n k → w'.Owns (.machine em) n k := fun n k hn =>
    hn.kept hinit.kept
  refine ⟨fun hs hq => ?_, fun hs hr => ?_, fun hs hw => ?_, fun hq => ?_⟩
  · rcases hinit.queue with ⟨heq, hr⟩ | ⟨-, hown⟩
    · rw [heq] at hq ⊢
      exact howns _ _ (h.queue (fun hsq => hs ⟨hsq, hr⟩) hq)
    · exact hown
  · rcases hinit.pipe with ⟨hr', heq⟩ | ⟨-, o, hown, -⟩
    · rw [heq] at hr ⊢
      obtain ⟨o, ho⟩ := h.readEnd (fun hsp => hs ⟨hsp, hr'⟩) hr
      exact ⟨o, howns _ _ ho⟩
    · exact ⟨o, hown⟩
  · rcases hinit.pipe with ⟨hr', heq⟩ | ⟨-, o, -, hown⟩
    · rw [heq] at hw ⊢
      obtain ⟨o, ho⟩ := h.writeEnd (fun hsp => hs ⟨hsp, hr'⟩) hw
      exact ⟨o, howns _ _ ho⟩
    · exact ⟨o, hown⟩
  · -- the pipe is only kept together with the queue
    rintro ⟨hsp, rfl⟩
    rcases hinit.queue with ⟨heq, -⟩ | ⟨hr, -⟩
    · rw [heq] at hq
      exact h.pipe hq hsp
    · exact absurd hr (by decide)

theorem Initialised.queue_nonneg {em : EMPtr} {w w' : World σ} {r : UInt32}
    (h : Initialised w em r w') (hq : 0 ≤ (w.ems em).queueFd) : 0 ≤ (w'.ems em).queueFd := by
  rcases h.queue with ⟨heq, -⟩ | ⟨-, hown⟩
  · rwa [heq]
  · exact hown.nonneg

theorem InitRecord.own {em : EMPtr} {x : SysRecord} (h : InitRecord em x) : OwnDescriptor em x := by
  obtain ⟨-, hcall | hcall | ⟨-, hfile⟩⟩ := h
  · exact .of_call hcall id
  · exact .of_call hcall id
  · exact fun _ _ => hfile

/-! ## `event_machine_destroy()` -/

theorem own_of_closed {em : EMPtr} {w w' : World σ} {who : Owner} {fd ret : Int} {k : Kind}
    (h : Closed w who fd ret w') (hown : w.Owns (.machine em) fd k) :
    Records (OwnDescriptor em) w w' := by
  obtain ⟨f, hf, -, howner⟩ := hown.exists_file
  exact .of_one h.log fun _ _ => ⟨f, hf, howner⟩

theorem own_of_endClosed {em : EMPtr} {w w' : World σ} {fd : Int} {forget : EM σ → EM σ}
    (h : EndClosed em fd forget w w') (hown : 0 ≤ fd → ∃ k, w.Owns (.machine em) fd k) :
    Records (OwnDescriptor em) w w' := by
  rcases h with ⟨-, rfl⟩ | ⟨hfd, v, hclosed, rfl⟩
  · exact .refl _
  · obtain ⟨k, hk⟩ := hown hfd
    have hrec : Records (OwnDescriptor em) w v := own_of_closed hclosed hk
    exact hrec

theorem EndClosed.owns {em : EMPtr} {w w' : World σ} {fd n : Int} {forget : EM σ → EM σ} {who : Owner}
    {k : Kind} (h : EndClosed em fd forget w w') (hn : w.Owns who n k) (hne : 0 ≤ fd → n ≠ fd) :
    w'.Owns who n k := by
  rcases h with ⟨-, rfl⟩ | ⟨hfd, v, hclosed, rfl⟩
  · exact hn
  · have hv : v.Owns who n k := hn.closed hclosed (hne hfd)
    exact hv

theorem freeEvents_owns {w : World σ} {em : EMPtr} {who : Owner} {n : Int} {k : Kind} :
    (w.freeEvents em).Owns who n k ↔ w.Owns who n k := by
  rw [World.Owns, (freeEvents_kernel w em).1]
  exact Iff.rfl

theorem Records.of_freeEvents {P : SysRecord → Prop} {w w' : World σ} {em : EMPtr}
    (h : Records P (w.freeEvents em) w') : Records P w w' := by
  obtain ⟨l, hl, hP⟩ := h
  exact ⟨l, by rw [hl, (freeEvents_kernel w em).2], hP⟩

theorem DestroyOutcome.own {em : EMPtr} {w w' : World σ} {s : Stale} {r : UInt32}
    (h : DestroyOutcome w em r w') (hc : Custody em w s) (hq : ¬ s.queue) (hp : ¬ s.pipe) :
    Records (OwnDescriptor em) w w' := by
  have hwrite : 0 ≤ (w.ems em).breakLoopPipe.2 →
      ∃ k, (w.freeEvents em).Owns (.machine em) (w.ems em).breakLoopPipe.2 k := fun hfd => by
    obtain ⟨o, ho⟩ := hc.writeEnd hp hfd
    exact ⟨_, freeEvents_owns.2 ho⟩
  have hread : ∀ w₁, EndClosed em (w.ems em).breakLoopPipe.2 forgetWriteEnd (w.freeEvents em) w₁ →
      0 ≤ (w.ems em).breakLoopPipe.1 →
      ∃ k, w₁.Owns (.machine em) (w.ems em).breakLoopPipe.1 k := fun w₁ hend hfd => by
    obtain ⟨o, ho⟩ := hc.readEnd hp hfd
    refine ⟨_, hend.owns (freeEvents_owns.2 ho) fun hfd' => ?_⟩
    obtain ⟨o', ho'⟩ := hc.writeEnd hp hfd'
    exact ho.fd_ne ho' nofun
  cases h with
  | queue hfd closed => exact own_of_closed closed (hc.queue hq hfd)
  | writeEnd _ hfd closed =>
    obtain ⟨k, hk⟩ := hwrite hfd
    exact (own_of_closed closed hk).of_freeEvents
  | readEnd _ hend hfd closed =>
    obtain ⟨k, hk⟩ := hread _ hend hfd
    exact ((own_of_endClosed hend hwrite).trans (own_of_closed closed hk)).of_freeEvents
  | done _ hend hend' =>
    exact ((own_of_endClosed hend hwrite).trans
      (own_of_endClosed hend' (hread _ hend))).of_freeEvents

theorem DestroyOutcome.closesQueue {em : EMPtr} {w w' : World σ} {r : UInt32}
    (h : DestroyOutcome w em r w') (hq : 0 ≤ (w.ems em).queueFd) :
    ∃ ret, Closed w (.machine em) (w.ems em).queueFd ret w' := by
  cases h with
  | queue _ closed => exact ⟨_, closed⟩
  | writeEnd hneg => omega
  | readEnd hneg => omega
  | done hneg => omega

theorem EndClosed.queueFd {em : EMPtr} {w w' : World σ} {fd : Int} {forget : EM σ → EM σ}
    (h : EndClosed em fd forget w w') (hf : ∀ m, (forget m).queueFd = m.queueFd) :
    (w'.ems em).queueFd = (w.ems em).queueFd := by
  rw [h.effect.2.1]
  split
  · rfl
  · exact hf _

theorem DestroyOutcome.queueFd {em : EMPtr} {w w' : World σ} {r : UInt32}
    (h : DestroyOutcome w em r w') : (w'.ems em).queueFd = (w.ems em).queueFd := by
  have hfree : ((w.freeEvents em).ems em).queueFd = (w.ems em).queueFd := by
    rw [freeEvents_em]
  cases h with
  | queue _ closed => rw [closed.only.ems]
  | writeEnd _ _ closed => rw [closed.only.ems, hfree]
  | readEnd _ write _ closed => rw [closed.only.ems, write.queueFd fun _ => rfl, hfree]
  | done _ write read => rw [read.queueFd fun _ => rfl, write.queueFd fun _ => rfl, hfree]

/-- After a destruction that succeeded there is no pipe. -/
theorem pipe_of_done {em : EMPtr} {w w₁ w' : World σ}
    (write : EndClosed em (w.ems em).breakLoopPipe.2 forgetWriteEnd (w.freeEvents em) w₁)
    (read : EndClosed em (w.ems em).breakLoopPipe.1 forgetReadEnd w₁ w') :
    (w'.ems em).breakLoopPipe.1 < 0 ∧ (w'.ems em).breakLoopPipe.2 < 0 := by
  rw [read.effect.2.1, write.effect.2.1, freeEvents_em]
  constructor
  · by_cases hr : (w.ems em).breakLoopPipe.1 < 0 <;>
      by_cases hw : (w.ems em).breakLoopPipe.2 < 0 <;> simp [hr, hw, forgetReadEnd, forgetWriteEnd]
  · by_cases hr : (w.ems em).breakLoopPipe.1 < 0 <;>
      by_cases hw : (w.ems em).breakLoopPipe.2 < 0 <;> simp [hr, hw, forgetReadEnd, forgetWriteEnd]

theorem Custody.destroy {em : EMPtr} {w w' : World σ} {s : Stale} {r : UInt32} (h : Custody em w s)
    (hq : ¬ s.queue) (hp : ¬ s.pipe) (hout : DestroyOutcome w em r w') :
    Custody em w' ⟨s.queue ∨ 0 ≤ (w.ems em).queueFd,
      s.pipe ∨ ((w.ems em).queueFd < 0 ∧ r = EMResult.errorClose.code)⟩ := by
  have hfd := hout.queueFd
  refine ⟨fun hs hq' => ?_, fun hs hr => ?_, fun hs hw => ?_, fun hq' => ?_⟩
  · rw [hfd] at hq'
    exact absurd (Or.inr hq') hs
  · cases hout with
    | queue hq' closed =>
      rw [closed.only.ems] at hr ⊢
      obtain ⟨o, ho⟩ := h.readEnd hp hr
      exact ⟨o, ho.closed closed (ho.fd_ne (h.queue hq hq') nofun)⟩
    | writeEnd hneg => exact absurd (Or.inr ⟨hneg, rfl⟩) hs
    | readEnd hneg => exact absurd (Or.inr ⟨hneg, rfl⟩) hs
    | done _ write read => exact absurd (pipe_of_done write read).1 (by omega)
  · cases hout with
    | queue hq' closed =>
      rw [closed.only.ems] at hw ⊢
      obtain ⟨o, ho⟩ := h.writeEnd hp hw
      exact ⟨o, ho.closed closed (ho.fd_ne (h.queue hq hq') nofun)⟩
    | writeEnd hneg => exact absurd (Or.inr ⟨hneg, rfl⟩) hs
    | readEnd hneg => exact absurd (Or.inr ⟨hneg, rfl⟩) hs
    | done _ write read => exact absurd (pipe_of_done write read).2 (by omega)
  · rw [hfd] at hq'
    rintro (hsp | ⟨hneg, -⟩)
    · exact hp hsp
    · omega

theorem Frame.Own.destroy {em : EMPtr} {w w' : World σ} {s : Stale} {r : UInt32} {f : Frame}
    (h : f.Own em w) (hc : Custody em w s) (hq : ¬ s.queue) (hout : DestroyOutcome w em r w') :
    f.Own em w' := by
  cases f with
  | timeout => trivial
  | run m bl b =>
    obtain ⟨hm, hqueue, hread⟩ := h
    obtain ⟨ret, hclosed⟩ := hout.closesQueue hqueue
    refine ⟨hm, by rwa [hout.queueFd], fun b' hb => ?_⟩
    obtain ⟨o, ho⟩ := hread b' hb
    exact ⟨o, ho.closed hclosed (ho.fd_ne (hc.queue hq hqueue) nofun)⟩

/-! ## The other calls -/

theorem RegRecord.own {em : EMPtr} {w : World σ} {s : Stale} {op : CtlOp} {fd : Int} {x : SysRecord}
    (h : RegRecord w em op fd x) (hc : Custody em w s)
    (hs : s.queue → ∀ f, w.kernel.file (w.ems em).queueFd = some f → f.owner = .machine em) :
    OwnDescriptor em x := by
  obtain ⟨-, hcall | ⟨-, hfile, hopen, -⟩⟩ := h
  · exact .of_call hcall id
  · obtain ⟨f, hf⟩ := Option.isSome_iff_exists.1 hopen
    refine fun _ _ => ⟨f, hf, ?_⟩
    rw [hfile] at hf
    by_cases hq : s.queue
    · exact hs hq f hf
    · obtain ⟨f', hf', -, howner⟩ := (hc.queue hq (Kernel.nonneg_of_file hf)).exists_file
      obtain rfl := Option.some.inj (hf.symm.trans hf')
      exact howner

theorem TerminateRecord.own {em : EMPtr} {w : World σ} {s : Stale} {x : SysRecord}
    (h : TerminateRecord w em x) (hc : Custody em w s)
    (hs : s.pipe → ∀ f, w.kernel.file (w.ems em).breakLoopPipe.2 = some f → f.owner = .machine em) :
    OwnDescriptor em x := by
  obtain ⟨-, hfile, hcall | ⟨-, hopen⟩⟩ := h
  · exact .of_call hcall id
  · obtain ⟨f, hf⟩ := Option.isSome_iff_exists.1 hopen
    refine fun _ _ => ⟨f, hf, ?_⟩
    rw [hfile] at hf
    by_cases hp : s.pipe
    · exact hs hp f hf
    · obtain ⟨o, ho⟩ := hc.writeEnd hp (Kernel.nonneg_of_file hf)
      obtain ⟨f', hf', -, howner⟩ := ho.exists_file
      obtain rfl := Option.some.inj (hf.symm.trans hf')
      exact howner

/-! ## One step -/

theorem InCustody.kept {em : EMPtr} {w₀ w w' : World σ} {fs fs' : List Frame} {m m' : Mode} {s : Stale}
    (h : InCustody em w₀ (⟨w, fs, m⟩, s)) (hems : w'.ems em = w.ems em)
    (howns : ∀ n k, w.Owns (.machine em) n k → w'.Owns (.machine em) n k)
    (hrec : Records (OwnDescriptor em) w w') (hfs : ∀ f ∈ fs', f ∈ fs ∨ f.Own em w) :
    InCustody em w₀ (⟨w', fs', m'⟩, s) where
  custody := h.custody.congr hems howns
  frames f hf := by
    have hown : f.Own em w := (hfs f hf).elim (h.frames f) id
    exact hown.congr (by rw [hems]; exact id) fun n o => howns n _
  records := h.records.trans hrec

theorem Calm.owns {w w' : World σ} (h : Calm w w') {who : Owner} {n : Int} {k : Kind}
    (hn : w.Owns who n k) : w'.Owns who n k := hn.kept (.of_file h.file)

theorem Frame.Own.next {em m : EMPtr} {w : World σ} {bl : Bool} {b : Batch}
    (h : Frame.Own em w (.run m bl (some b))) (bl' : Bool) :
    Frame.Own em w (.run m bl' (some b.next)) := by
  refine ⟨h.1, h.2.1, ?_⟩
  rintro _ ⟨⟩
  exact h.2.2 b rfl

theorem Frame.Own.top {em : EMPtr} {w : World σ} {g : Frame} (h : g.Own em w) (f : Frame)
    (rest : List Frame) : ∀ f' ∈ g :: rest, f' ∈ f :: rest ∨ f'.Own em w := by
  intro f' hf
  rcases List.mem_cons.1 hf with rfl | hf
  · exact Or.inr h
  · exact Or.inl (List.mem_cons_of_mem _ hf)

theorem Frame.Own.rest {em : EMPtr} {w : World σ} (f : Frame) (rest : List Frame) :
    ∀ f' ∈ rest, f' ∈ f :: rest ∨ f'.Own em w := fun _ hf => Or.inl (List.mem_cons_of_mem _ hf)

theorem CallRecord.own {em : EMPtr} {w : World σ} {who : Owner} {call : Syscall} {fd : Int} {k : Kind}
    {x : SysRecord} (h : CallRecord w who call fd x) (hown : w.Owns (.machine em) fd k) :
    OwnDescriptor em x := by
  obtain ⟨-, -, -, hfile⟩ := h
  obtain ⟨f, hf, -, howner⟩ := hown.exists_file
  exact fun _ _ => ⟨f, hfile.trans hf, howner⟩

theorem SlotOutcome.own {em m : EMPtr} {w w' : World σ} {fd : Int} {e : EpollEvent} {p : EDPtr}
    {r : Slot} {k : Kind} (h : SlotOutcome w m fd e p r w') (hown : w.Owns (.machine em) fd k) :
    Records (OwnDescriptor em) w w' := by
  cases h with
  | readFailed _ log => exact (CallRecord.of_log log).mono fun x hx => hx.own hown
  | breakLoop _ _ _ log => exact (CallRecord.of_log log).mono fun x hx => hx.own hown
  | handler => exact .of_log_eq rfl

theorem InCustody.go {em : EMPtr} {w₀ w : World σ} {fs : List Frame} {s : Stale} {o : WaitOutcome}
    {c' : Config σ} (h : InCustody em w₀ (⟨w, fs, .library⟩, s)) (hout : GoOutcome w o fs c')
    (havoid : (∃ bl rest, fs = .run em bl none :: rest) → ¬ s.queue) : InCustody em w₀ (c', s) := by
  have howns : ∀ n k, w.Owns (.machine em) n k → c'.world.Owns (.machine em) n k := fun n k hn =>
    hout.calm.owns hn
  have hems : c'.world.ems em = w.ems em := congrFun hout.calm.ems em
  have hforeign : ∀ {w' : World σ} {data : VoidPtr} {fd : Int},
      Records (CallRecord w data.owner .read fd) w w' → Records (OwnDescriptor em) w w' :=
    fun hrec => hrec.mono fun x hx hwho => absurd (hx.1.symm.trans hwho) (VoidPtr.owner_ne _ _)
  cases hout with
  | idle => exact h.kept rfl howns (.refl w) fun f hf => Or.inl hf
  | crashed calm _ records =>
    exact h.kept hems howns (records.mono fun x hx hwho => absurd hwho (hx em)) fun f hf => Or.inl hf
  | @waitFailed m bl rest w' calm _ records queue =>
    obtain ⟨rfl, hq, -⟩ := h.frames _ (List.mem_cons_self ..)
    have hown := h.custody.queue (havoid ⟨bl, rest, rfl⟩) hq
    exact h.kept hems howns (records.mono fun x hx => hx.own hown) (Frame.Own.rest _ _)
  | @waited m bl rest w' q l buf calm records queue outcome kernel buffers readFd =>
    obtain ⟨rfl, hq, -⟩ := h.frames _ (List.mem_cons_self ..)
    have hown := h.custody.queue (havoid ⟨bl, rest, rfl⟩) hq
    have htop : Frame.Own m w
        (.run m bl (some ⟨some buf, (w.ems m).breakLoopPipe.1, 0, l.length⟩)) := by
      refine ⟨rfl, hq, ?_⟩
      rintro _ ⟨⟩
      exact h.custody.readEnd (h.custody.pipe hq) readFd
    exact h.kept hems howns (records.mono fun x hx => hx.own hown) (htop.top _ _)
  | readFailed slot out =>
    obtain ⟨-, -, hread⟩ := h.frames _ (List.mem_cons_self ..)
    obtain ⟨p, hp⟩ := hread _ rfl
    exact h.kept hems howns (out.own hp) (Frame.Own.rest _ _)
  | breakLoop slot out =>
    have hframe := h.frames _ (List.mem_cons_self ..)
    obtain ⟨p, hp⟩ := hframe.2.2 _ rfl
    exact h.kept hems howns (out.own hp) ((hframe.next true).top _ _)
  | @handler m bl b rest w' e p k slot out =>
    have hframe := h.frames _ (List.mem_cons_self ..)
    obtain ⟨p, hp⟩ := hframe.2.2 _ rfl
    exact h.kept hems howns (out.own hp) ((hframe.next bl).top _ _)
  | @spurious m bl b rest w' e p slot calm _ records =>
    have hframe := h.frames _ (List.mem_cons_self ..)
    exact h.kept hems howns (hforeign records) ((hframe.next bl).top _ _)
  | @served m bl b rest w' e p f slot calm _ records =>
    have hframe := h.frames _ (List.mem_cons_self ..)
    apply h.kept hems howns (hforeign records)
    intro f hf
    rcases List.mem_cons.1 hf with rfl | hf
    · exact Or.inr trivial
    · exact (hframe.next bl).top _ _ f hf
  | batchDone => exact h.kept rfl howns (.refl w) (Frame.Own.rest _ _)
  | @again m bl b rest =>
    have hframe := h.frames _ (List.mem_cons_self ..)
    have htop : Frame.Own em w (.run m bl none) := ⟨hframe.1, hframe.2.1, nofun⟩
    exact h.kept rfl howns (.refl w) (htop.top _ _)
  | timeoutDone => exact h.kept rfl howns (.refl w) (Frame.Own.rest _ _)
  | @round t n c rest =>
    have htop : Frame.Own em w (.timeout (.timer t) n) := trivial
    exact h.kept rfl howns (.of_log_eq rfl) (htop.top _ _)

theorem InCustody.call {usePipe2 : Bool} {em : EMPtr} {w₀ w w' : World σ} {fs : List Frame} {s : Stale}
    {c : Call} {r : UInt32} (h : InCustody em w₀ (⟨w, fs, .user⟩, s)) (hc : c.On em)
    (hexec : c.exec usePipe2 w = .ok r w')
    (havoid : AvoidsStale em ⟨w, fs, .user⟩ s (.event (.ret c r))) :
    InCustody em w₀ (⟨w', fs, .user⟩,
      stale em ⟨w, fs, .user⟩ (.event (.ret c r)) ⟨w', fs, .user⟩ s) := by
  cases c with
  | init m =>
    obtain rfl : m = some em := hc
    obtain ⟨ms, m, hb, hout⟩ := wp_ok (init_spec usePipe2 w em) hexec
    have hinit := hout.initialised hb
    exact ⟨h.custody.init hinit,
      fun f hf => (h.frames f hf).congr hinit.queue_nonneg fun n o hn => hn.kept hinit.kept,
      h.records.trans (hinit.records.mono fun x hx => hx.own)⟩
  | destroy m =>
    obtain rfl : m = some em := hc
    obtain ⟨hq, hp⟩ := havoid
    have hout := wp_ok (destroy_spec w em) hexec
    exact ⟨h.custody.destroy hq hp hout, fun f hf => (h.frames f hf).destroy h.custody hq hout,
      h.records.trans (hout.own h.custody hq hp)⟩
  | terminate m =>
    obtain rfl : m = some em := hc
    obtain ⟨honly, hstill, -, hrec⟩ := wp_ok (terminate_spec w em) hexec
    exact h.kept (congrFun honly.ems em) (fun n k hn => hn.kept (.of_file (Kernel.file_still hstill)))
      (hrec.mono fun x hx => hx.own h.custody havoid) fun f hf => Or.inl hf
  | reg m c =>
    obtain rfl : m = some em := hc
    have hboth : wp ((Call.reg (some em) c).exec usePipe2) (fun _ w' => w'.ems = w.ems ∧
        FilesKept w.kernel w'.kernel ∧ Records (OwnDescriptor em) w w') (fun _ _ => True) w :=
      wp_reg.2 (wp_mono (wp_and (c.spec w em) (c.records w em))
        (fun _ _ hout => ⟨hout.1.ems, .of_file hout.1.file,
          hout.2.mono fun x hx => hx.own h.custody havoid⟩)
        fun _ _ _ => trivial)
    obtain ⟨hems, hkept, hrec⟩ := wp_ok hboth hexec
    exact h.kept (congrFun hems em) (fun n k hn => hn.kept hkept) hrec fun f hf => Or.inl hf
  | _ => exact hc.elim

/-- The steps of a program that does not use stale numbers. -/
def CleanStep (usePipe2 : Bool) (em : EMPtr) (x : Config σ × Stale) (a : Act) (y : Config σ × Stale) :
    Prop :=
  MachineStep usePipe2 em x a y ∧ AvoidsStale em x.1 x.2 a

theorem Call.On.exec_ok {usePipe2 : Bool} {em : EMPtr} {c : Call} (hc : c.On em) (w : World σ) :
    ∃ r w', c.exec usePipe2 w = .ok r w' := by
  have htotal : wp (c.exec usePipe2) (fun _ _ => True) (fun _ _ => False) w := by
    cases c with
    | init m =>
      obtain rfl : m = some em := hc
      exact wp_mono (init_spec usePipe2 w em) (fun _ _ _ => trivial) fun _ _ h => h
    | destroy m =>
      obtain rfl : m = some em := hc
      exact wp_mono (destroy_spec w em) (fun _ _ _ => trivial) fun _ _ h => h
    | terminate m =>
      obtain rfl : m = some em := hc
      exact wp_mono (terminate_spec w em) (fun _ _ _ => trivial) fun _ _ h => h
    | reg m c =>
      obtain rfl : m = some em := hc
      exact wp_reg.2 (wp_mono (c.spec w em) (fun _ _ _ => trivial) fun _ _ h => h)
    | _ => exact hc.elim
  obtain ⟨r, w', h, -⟩ := wp_total htotal
  exact ⟨r, w', h⟩

theorem InCustody.step {usePipe2 : Bool} {em : EMPtr} {w₀ : World σ} {x y : Config σ × Stale} {a : Act}
    (h : InCustody em w₀ x) (hstep : CleanStep usePipe2 em x a y) : InCustody em w₀ y := by
  obtain ⟨c, s⟩ := x
  obtain ⟨c', s'⟩ := y
  obtain ⟨⟨⟨hs, rfl : s' = stale em c a c' s⟩, hon⟩, havoid⟩ := hstep
  dsimp only at hs hon havoid
  cases hs with
  | call fs hexec => exact h.call hon hexec havoid
  | crash fs hexec =>
    obtain ⟨r, w', hok⟩ := Call.On.exec_ok hon _
    exact absurd (hok.symm.trans hexec) nofun
  | env e w fs m =>
    have hems : (e.exec w).ems = w.ems := by cases e <;> rfl
    have hlog : (e.exec w).log = w.log := by cases e <;> rfl
    exact h.kept (congrFun hems em) (fun n k hn => hn.env nofun hon)
      (.of_log_eq hlog) fun f hf => Or.inl hf
  | @enter m w w' r fs hexec hr =>
    obtain rfl : m = em := Option.some.inj hon
    obtain ⟨hsame, honly, hrec, hq⟩ := wp_ok (eventMachineRunEnter_spec _ _) hexec
    refine h.kept (congrFun honly.ems m)
      (fun n k hn => hn.kept (.of_file (World.file_congr hsame.core)))
      ((hrec m rfl).mono fun x hx => .of_call hx.2.1 id) fun f hf => ?_
    apply (List.mem_cons.1 hf).symm.imp_right
    rintro rfl
    exact ⟨rfl, hq hr m rfl, nofun⟩
  | @refuse m w w' r fs hexec hr =>
    obtain rfl : m = some em := hon
    obtain ⟨hsame, honly, hrec, -⟩ := wp_ok (eventMachineRunEnter_spec _ _) hexec
    exact h.kept (congrFun honly.ems em)
      (fun n k hn => hn.kept (.of_file (World.file_congr hsame.core)))
      ((hrec em rfl).mono fun x hx => .of_call hx.2.1 id) fun f hf => Or.inl hf
  | ret w f fs => exact h.kept rfl (fun n k hn => hn) (.refl w) fun f hf => Or.inl hf
  | go hmay => exact h.go (Config.go_cases _ _ _) havoid

/-! ## Runs -/

/-- In every run of a program with one machine that does not use stale numbers, the library closes,
changes, waits for, reads and writes only what `event_machine_init()` has opened for that machine and
what is still open. -/
theorem machine_descriptors_own {usePipe2 : Bool} {em : EMPtr} {w₀ : World σ}
    (hem : (w₀.ems em).Static) {as : List Act} {c : Config σ} {s : Stale}
    (h : Steps (CleanStep usePipe2 em) (⟨w₀, [], .user⟩, ⟨False, False⟩) as (c, s)) :
    Records (OwnDescriptor em) w₀ c.world := by
  obtain ⟨hqueue, hpipe⟩ := hem.descriptors
  have hstart : InCustody em w₀ (⟨w₀, [], .user⟩, ⟨False, False⟩) := by
    refine ⟨⟨fun _ hq => ?_, fun _ hr => ?_, fun _ hw => ?_, fun hq => ?_⟩, nofun, .refl w₀⟩
    · exact absurd (hqueue ▸ hq) (by decide)
    · exact absurd (hpipe ▸ hr) (by decide)
    · exact absurd (hpipe ▸ hw) (by decide)
    · exact absurd (hqueue ▸ hq) (by decide)
  exact (h.invariant (fun _ _ _ hx hstep => hx.step hstep) hstart).records

/-! ## Destroying twice -/

/-- A program with a machine that has not been initialised, and no open descriptors. -/
def idle : World Unit := World.start (emStaticWithMaxEvents Unit 16 none) () fun _ _ => none

/-- It is initialised, destroyed, other code opens a descriptor, and it is destroyed again. -/
def machineUp : World Unit := final (eventMachineInit true (some 0)) idle

def machineDown : World Unit := final (eventMachineDestroy (some 0)) machineUp

def numberReused : World Unit := (Env.openFile 0 false).exec machineDown

def downAgain : World Unit := final (eventMachineDestroy (some 0)) numberReused

theorem idle_static : (idle.ems 0).Static := ⟨16, none, ⟨none, none, 0, .null⟩, rfl⟩

theorem init_idle : Step true ⟨idle, [], .user⟩ (.event (.ret (.init (some 0)) 0)) ⟨machineUp, [], .user⟩ :=
  .call [] rfl

theorem destroy_machineUp : Step true ⟨machineUp, [], .user⟩
    (.event (.ret (.destroy (some 0)) EMResult.errorClose.code)) ⟨machineDown, [], .user⟩ :=
  .call [] rfl

theorem machine_descriptors_own_machineDown :
    ∃ as s, Steps (CleanStep true 0) (⟨idle, [], .user⟩, ⟨False, False⟩) as
        (⟨machineDown, [], .user⟩, s) ∧ machineDown.log.length = 2 ∧
      Records (OwnDescriptor 0) idle machineDown := by
  have hrun : Steps (CleanStep true 0) (⟨idle, [], .user⟩, ⟨False, False⟩) _
      (⟨machineDown, [], .user⟩, _) :=
    .cons ⟨⟨history_of_step (stale 0) init_idle _, rfl⟩, trivial⟩ <|
      .cons ⟨⟨history_of_step (stale 0) destroy_machineUp _, rfl⟩, And.left, And.left⟩ (.nil _)
  exact ⟨_, _, hrun, rfl, machine_descriptors_own idle_static hrun⟩

/-- The second destruction closes what other code has opened. -/
theorem foreign_close :
    ∃ as s, Steps (MachineStep true 0) (⟨idle, [], .user⟩, ⟨False, False⟩) as
        (⟨downAgain, [], .user⟩, s) ∧
      ¬ Records (OwnDescriptor 0) idle downAgain := by
  have hopen : Step true ⟨machineDown, [], .user⟩ (.event (.env (.openFile 0 false)))
      ⟨numberReused, [], .user⟩ := .env _ _ _ _
  have hagain : Step true ⟨numberReused, [], .user⟩
      (.event (.ret (.destroy (some 0)) EMResult.errorClose.code)) ⟨downAgain, [], .user⟩ :=
    .call [] rfl
  have hrun : Steps (MachineStep true 0) (⟨idle, [], .user⟩, ⟨False, False⟩) _
      (⟨downAgain, [], .user⟩, _) :=
    .cons ⟨history_of_step (stale 0) init_idle _, rfl⟩ <|
      .cons ⟨history_of_step (stale 0) destroy_machineUp _, rfl⟩ <|
        .cons ⟨history_of_step (stale 0) hopen _, trivial⟩ <|
          .cons ⟨history_of_step (stale 0) hagain _, rfl⟩ (.nil _)
  have hlast : downAgain.log.getLast? =
      some ⟨.machine 0, .close, 2, some ⟨3, .other, .other, 0, false⟩, none, 0⟩ := rfl
  refine ⟨_, _, hrun, fun hrec => ?_⟩
  obtain ⟨f, hf, howner⟩ := hrec.mem rfl _ (List.mem_of_getLast? hlast) rfl trivial
  obtain rfl := Option.some.inj hf
  exact absurd howner nofun

end EventMachine
