import EventMachine.Proof.Owned
import EventMachine.Proof.Loop

/-!
# What leaves the timers alone

Everything except the calls of `event-timer.c`: no timerfd is opened or set, no timer is written
(`Untimed`). Timerfds may still be closed, and the main loop may read their expirations.
-/

namespace EventMachine

open Lib

variable {σ : Type}

/-! ## Timerfds in the kernel -/

namespace Kernel

/-- Open descriptors have different objects, all of them opened before the next one. -/
structure Numbered (k : Kernel) : Prop where
  lt : ∀ n x, (k.file n).map File.identity = some x → x.1 < k.next
  inj : ∀ n n' x x', (k.file n).map File.identity = some x →
    (k.file n').map File.identity = some x' → x.1 = x'.1 → n = n'

namespace Numbered
variable {k k' : Kernel}

theorem of_identity (h : k.Numbered)
    (hfile : ∀ n, (k'.file n).map File.identity = (k.file n).map File.identity)
    (hnext : k'.next = k.next) : k'.Numbered where
  lt n x hx := by
    rw [hfile] at hx
    rw [hnext]
    exact h.lt n x hx
  inj n n' x x' hx hx' := by
    rw [hfile] at hx hx'
    exact h.inj n n' x x' hx hx'

theorem opens (h : k.Numbered) {fd : Int} {f : File} (ho : k.Opens fd f k') : k'.Numbered := by
  have hold : ∀ n x, n ≠ fd → (k'.file n).map File.identity = some x → x.1 < k.next ∧
      (k.file n).map File.identity = some x := fun n x hn hx => by
    rw [ho.file, if_neg hn] at hx
    exact ⟨h.lt n x hx, hx⟩
  have hnew : ∀ x, (k'.file fd).map File.identity = some x → x.1 = k.next := fun x hx => by
    rw [ho.file, if_pos rfl, Option.map_some] at hx
    obtain rfl := Option.some.inj hx
    exact ho.id
  constructor
  · intro n x hx
    rw [ho.next]
    by_cases hn : n = fd
    · subst hn
      rw [hnew x hx]
      exact Nat.lt_succ_self _
    · exact Nat.lt_succ_of_lt (hold n x hn hx).1
  · intro n n' x x' hx hx' heq
    by_cases hn : n = fd
    · by_cases hn' : n' = fd
      · rw [hn, hn']
      · subst hn
        have hlt := (hold n' x' hn' hx').1
        rw [← heq, hnew x hx] at hlt
        exact absurd hlt (Nat.lt_irrefl _)
    · by_cases hn' : n' = fd
      · subst hn'
        have hlt := (hold n x hn hx).1
        rw [heq, hnew x' hx'] at hlt
        exact absurd hlt (Nat.lt_irrefl _)
      · exact h.inj n n' x x' (hold n x hn hx).2 (hold n' x' hn' hx').2 heq

theorem closes (h : k.Numbered) {fd : Int}
    (hfile : ∀ n, k'.file n = if n = fd then none else k.file n) (hnext : k'.next = k.next) :
    k'.Numbered := by
  have hold : ∀ n x, (k'.file n).map File.identity = some x →
      (k.file n).map File.identity = some x := fun n x hx => by
    rw [hfile] at hx
    split at hx
    · exact absurd hx nofun
    · exact hx
  refine ⟨fun n x hx => ?_, fun n n' x x' hx hx' => h.inj n n' x x' (hold n x hx) (hold n' x' hx')⟩
  rw [hnext]
  exact h.lt n x (hold n x hx)

end Numbered

/-- No timerfd is opened or set. -/
structure Untimed (k k' : Kernel) : Prop where
  numbered : k.Numbered → k'.Numbered
  files : ∀ n o c t, (k'.file n).map File.identity = some (o, c, .timer t) →
    (k.file n).map File.identity = some (o, c, .timer t)
  quiet : ∀ o, k.timerfds o = ⟨none, 0⟩ → k'.timerfds o = ⟨none, 0⟩

namespace Untimed
variable {k k' k'' : Kernel}

theorem trans (h : Untimed k k') (h' : Untimed k' k'') : Untimed k k'' :=
  ⟨fun hn => h'.numbered (h.numbered hn), fun n o c t hx => h.files n o c t (h'.files n o c t hx),
    fun o ho => h'.quiet o (h.quiet o ho)⟩

theorem of_file (hfile : ∀ n, k'.file n = k.file n) (hnext : k'.next = k.next)
    (hquiet : ∀ o, k.timerfds o = ⟨none, 0⟩ → k'.timerfds o = ⟨none, 0⟩) : Untimed k k' :=
  ⟨fun hn => hn.of_identity (fun n => by rw [hfile]) hnext,
    fun n o c t hx => by rwa [hfile] at hx, hquiet⟩

theorem of_core (h : k'.core = k.core) : Untimed k k' :=
  .of_file (file_congr h) (congrArg (·.next) h)
    fun o ho => by rwa [show k'.timerfds = k.timerfds from congrArg (·.timerfds) h]

theorem of_flags (h : FlagsOnly k k') : Untimed k k' :=
  ⟨fun hn => hn.of_identity h.1 (congrArg (·.next) h.2), fun n o c t hx => by rwa [h.1] at hx,
    fun o ho => by rwa [show k'.timerfds = k.timerfds from congrArg (·.timerfds) h.2]⟩

theorem of_opens {fd : Int} {f : File} (h : k.Opens fd f k') (hf : ∀ t, f.owner ≠ .timer t)
    (ht : k'.timerfds = k.timerfds) : Untimed k k' := by
  refine ⟨fun hn => hn.opens h, fun n o c t hx => ?_, fun o ho => by rwa [ht]⟩
  rw [h.file] at hx
  split at hx
  · exact absurd (File.of_identity hx).2.2 (hf t)
  · exact hx

theorem of_closed {fd : Int} (hfile : ∀ n, k'.file n = if n = fd then none else k.file n)
    (hnext : k'.next = k.next) (ht : k'.timerfds = k.timerfds) : Untimed k k' := by
  refine ⟨fun hn => hn.closes hfile hnext, fun n o c t hx => ?_, fun o ho => by rwa [ht]⟩
  rw [hfile] at hx
  split at hx
  · exact absurd hx nofun
  · exact hx

theorem of_pipe {em : EMPtr} {ends : Int × Int} (h : k.PipeMade (.machine em) ends k') :
    Untimed k k' := by
  obtain ⟨r, w, k₁, k₂, h₁, h₂, -, -, hr, hw, -, ht, -, -, hflags⟩ := h
  have hreal : Untimed k k₂ := by
    refine ⟨fun hn => (hn.opens h₁).opens h₂, fun n o c t hx => ?_, fun o ho => by rwa [ht]⟩
    rw [h₂.file, h₁.file] at hx
    split_ifs at hx
    · exact absurd (hw.symm.trans (File.of_identity hx).2.2) nofun
    · exact absurd (hr.symm.trans (File.of_identity hx).2.2) nofun
    · exact hx
  exact hreal.trans (.of_flags hflags)

end Untimed

end Kernel

theorem start_numbered (m : EM σ) (st : σ) (faults : Syscall → Nat → Option Errno) :
    (World.start m st faults).kernel.Numbered := by
  have hfile : ∀ n, (World.start m st faults).kernel.file n = none := by
    intro n
    simp [World.start, Kernel.file]
  refine ⟨fun n x hx => ?_, fun n n' x x' hx => ?_⟩ <;>
    · rw [hfile] at hx
      exact absurd hx (by simp)

/-! ## Calls that are none of a timer -/

/-- No timerfd is opened or set, and the event descriptors in memory are those from before. -/
structure Untimed (w w' : World σ) : Prop where
  kernel : w.kernel.Untimed w'.kernel
  descriptors : w'.descriptors = w.descriptors
  timers : ∀ t, (w'.timers t).eventDescriptor = (w.timers t).eventDescriptor
  loops : ∀ em, (w'.ems em).breakLoopEventDescriptor.handler =
      (w.ems em).breakLoopEventDescriptor.handler ∨
    (w'.ems em).breakLoopEventDescriptor.handler = none

namespace Untimed
variable {w w' w'' : World σ}

theorem of_kernel (hk : w.kernel.Untimed w'.kernel) (hd : w'.descriptors = w.descriptors)
    (ht : w'.timers = w.timers) (he : w'.ems = w.ems) : Untimed w w' :=
  ⟨hk, hd, fun t => by rw [ht], fun em => Or.inl (by rw [he])⟩

theorem trans (h : Untimed w w') (h' : Untimed w' w'') : Untimed w w'' := by
  refine ⟨h.kernel.trans h'.kernel, h'.descriptors.trans h.descriptors,
    fun t => (h'.timers t).trans (h.timers t), fun em => ?_⟩
  rcases h'.loops em with heq | hnone
  · rw [heq]
    exact h.loops em
  · exact Or.inr hnone

theorem of_core (h : w'.core = w.core) : Untimed w w' :=
  .of_kernel (.of_core (World.kernel_core h)) (congrArg (·.descriptors) h) (congrArg (·.timers) h)
    (congrArg (·.ems) h)

theorem refl (w : World σ) : Untimed w w := .of_core rfl

theorem of_kernelOnly (h : KernelOnly w w') (hk : w.kernel.Untimed w'.kernel) : Untimed w w' :=
  .of_kernel hk (congrArg (·.descriptors) h) (congrArg (·.timers) h) h.ems

theorem setEM (w : World σ) (em : EMPtr) {m : EM σ}
    (hm : m.breakLoopEventDescriptor = (w.ems em).breakLoopEventDescriptor) :
    Untimed w (w.setEM em m) := by
  refine ⟨.of_core rfl, rfl, fun _ => rfl, fun em' => Or.inl ?_⟩
  by_cases he : em' = em
  · subst he
    rw [World.setEM_self, hm]
  · rw [World.setEM_of_ne w m he]

end Untimed

theorem Outcome.untimed {w w' : World σ} {em : EMPtr} {c : Change σ} {oldEd : OutVar}
    {r : UInt32 × OutVar} (h : Outcome w em c oldEd r w') : Untimed w w' := by
  cases h with
  | refused _ _ same => exact .of_core same.core
  | done q _ _ core =>
    have hset : Untimed w ((w.setInterest q.id c.fd (Kernel.entryAfter c.op c.event)).setStorage
        (c.store w.storage).2) :=
      .of_kernel (.of_file (fun _ => rfl) rfl fun _ ho => ho) rfl rfl rfl
    exact hset.trans (.of_core core)

theorem Closed.untimed {w w' : World σ} {who : Owner} {fd ret : Int} (h : Closed w who fd ret w') :
    Untimed w w' :=
  .of_kernelOnly h.only (.of_closed h.file h.next h.timerfds)

theorem EndClosed.untimed {w w' : World σ} {em : EMPtr} {fd : Int} {forget : EM σ → EM σ}
    (h : EndClosed em fd forget w w')
    (hf : ∀ m, (forget m).breakLoopEventDescriptor = m.breakLoopEventDescriptor) : Untimed w w' := by
  rcases h with ⟨-, rfl⟩ | ⟨-, v, hclosed, rfl⟩
  · exact .refl _
  · exact hclosed.untimed.trans (.setEM v em (hf _))

theorem freeEvents_untimed (w : World σ) (em : EMPtr) : Untimed w (w.freeEvents em) := by
  unfold World.freeEvents
  split
  · have hset : Untimed w (w.setEM em { w.ems em with events := none }) := .setEM w em rfl
    exact ⟨hset.kernel, hset.descriptors, hset.timers, hset.loops⟩
  · exact .refl w

theorem DestroyOutcome.untimed {w w' : World σ} {em : EMPtr} {r : UInt32}
    (h : DestroyOutcome w em r w') : Untimed w w' := by
  have hfree := freeEvents_untimed w em
  cases h with
  | queue _ closed => exact closed.untimed
  | writeEnd _ _ closed => exact hfree.trans closed.untimed
  | readEnd _ write _ closed =>
    exact hfree.trans ((write.untimed fun _ => rfl).trans closed.untimed)
  | done _ write read =>
    exact hfree.trans ((write.untimed fun _ => rfl).trans (read.untimed fun _ => rfl))

theorem Buffered.breakLoop {w : World σ} {em : EMPtr} {m : EM σ} {ms : List (BufPtr × Int)}
    (h : Buffered w em m ms) :
    m.breakLoopEventDescriptor = (w.ems em).breakLoopEventDescriptor := by
  cases h with
  | user => rfl
  | allocated => rfl
  | noMemory => rfl

theorem InitFrame.untimed {w w' : World σ} {em : EMPtr} {ms : List (BufPtr × Int)} {m : EM σ}
    (h : InitFrame w em ms m w') (hk : w.kernel.Untimed w'.kernel)
    (hm : m.breakLoopEventDescriptor.handler = (w.ems em).breakLoopEventDescriptor.handler ∨
      m.breakLoopEventDescriptor.handler = none) : Untimed w w' := by
  have htimers : w'.timers = w.timers := congrArg (·.timers) h.frame
  refine ⟨hk, congrArg (·.descriptors) h.frame, fun t => by rw [htimers], fun em' => ?_⟩
  rw [h.ems]
  by_cases he : em' = em
  · subst he
    rwa [Function.update_self]
  · rw [Function.update_of_ne he]
    exact Or.inl rfl

theorem InitOutcome.untimed {usePipe2 : Bool} {w w' : World σ} {em : EMPtr}
    {ms : List (BufPtr × Int)} {m : EM σ} {r : UInt32} (hb : Buffered w em m ms)
    (h : InitOutcome usePipe2 w em ms m r w') : Untimed w w' := by
  have hloop := congrArg (·.handler) hb.breakLoop
  cases h with
  | noPipe _ base core => exact base.untimed (.of_core core) (Or.inl hloop)
  | noFlags _ _ base pipe => exact base.untimed (.of_pipe pipe) (Or.inl hloop)
  | noQueue _ _ base pipe => exact base.untimed (.of_pipe pipe) (Or.inr rfl)
  | queue ends fd q k₁ k₂ base pipe queue event =>
    obtain ⟨hopens, -, howner, -, -, htimers, -⟩ := queue
    have hqueue : k₁.Untimed k₂ := .of_opens hopens (fun t => by rw [howner]; exact nofun) htimers
    have hevent : k₂.Untimed w'.kernel := by
      rcases event with ⟨-, hcore⟩ | ⟨-, hcore⟩
      · have hset : k₂.Untimed (k₂.setInterest q.id ends.1 (some ⟨EPOLLIN, some (.breakLoop em)⟩)) :=
          .of_file (fun _ => rfl) rfl fun _ ho => ho
        exact hset.trans (.of_core hcore)
      · exact .of_core hcore
    exact base.untimed (((Kernel.Untimed.of_pipe pipe).trans hqueue).trans hevent) (Or.inr rfl)

theorem GoOutcome.untimed {w : World σ} {o : WaitOutcome} {fs : List Frame} {c' : Config σ}
    (h : GoOutcome w o fs c') (hmode : c'.mode ≠ .crashed) : Untimed w c'.world :=
  .of_kernel (.of_file h.calm.file h.calm.next fun _ ho => h.quiet hmode ho)
    (congrArg (·.descriptors) h.calm) h.calm.timers h.calm.ems

theorem expire_untimed (k : Kernel) (x : ObjId) : k.Untimed (k.expire x) := by
  refine .of_file (expire_file k x) ?_ fun o ho => ?_
  · unfold Kernel.expire
    split <;> rfl
  · unfold Kernel.expire
    split
    · exact ho
    · next s hs =>
      have hne : o ≠ x := by
        rintro rfl
        rw [ho] at hs
        exact absurd hs nofun
      exact (Function.update_of_ne hne _ _).trans ho

theorem close_untimed (k : Kernel) (fd : Int) : k.Untimed (k.close fd).2 := by
  rcases Kernel.close_cases k fd with ⟨-, -, hcore⟩ | ⟨f, hf, hcore, -⟩
  · exact .of_core hcore
  · have hclose : k.Untimed (k.closeFile fd f) :=
      .of_closed (fun n => Kernel.closeFile_file hf n) rfl rfl
    exact hclose.trans (.of_core hcore)

end EventMachine
