import EventMachine.Proof.Init
import EventMachine.Proof.Destroy
import EventMachine.Calls

/-!
# Whose descriptor a number is

`World.Owns` says that a number refers to an object of a certain kind that someone has opened. A
number stays owned until it is closed: opening descriptors never disturbs it (`FilesKept`), and
closing another number does not either.
-/

namespace EventMachine

open Lib

variable {σ : Type}

/-- What is open stays open, under its number. -/
def FilesKept (k k' : Kernel) : Prop :=
  ∀ n x, (k.file n).map File.identity = some x → (k'.file n).map File.identity = some x

namespace FilesKept
variable {k k' k'' : Kernel}

theorem of_file (h : ∀ n, k'.file n = k.file n) : FilesKept k k' := fun n x hx => by
  rw [h n]
  exact hx

theorem trans (h : FilesKept k k') (h' : FilesKept k' k'') : FilesKept k k'' :=
  fun n x hx => h' n x (h n x hx)

theorem of_opens {fd : Int} {f : File} (h : k.Opens fd f k') : FilesKept k k' := by
  intro n x hx
  rw [h.file]
  split
  · next hn =>
    rw [hn, h.free] at hx
    exact absurd hx nofun
  · exact hx

theorem of_pipe {who : Owner} {ends : Int × Int} (h : k.PipeMade who ends k') : FilesKept k k' := by
  obtain ⟨-, ⟨hfree₁, hfree₂⟩, -, hfile⟩ := pipeMade_files h
  intro n x hx
  rw [hfile]
  split_ifs with h₁ h₂
  · rw [h₁, hfree₂] at hx
    exact absurd hx nofun
  · rw [h₂, hfree₁] at hx
    exact absurd hx nofun
  · exact hx

end FilesKept

/-- The number refers to an object of kind `k` that `who` has opened. -/
def World.Owns (w : World σ) (who : Owner) (fd : Int) (k : Kind) : Prop :=
  ∃ o, (w.kernel.file fd).map File.identity = some (o, k, who)

namespace World.Owns
variable {w w' : World σ} {who who' : Owner} {fd n : Int} {k k' : Kind}

theorem exists_file (h : w.Owns who fd k) :
    ∃ f, w.kernel.file fd = some f ∧ f.kind = k ∧ f.owner = who := by
  obtain ⟨o, ho⟩ := h
  obtain ⟨f, hf, hid⟩ := Option.map_eq_some_iff.1 ho
  obtain ⟨-, hk, hw⟩ := File.of_identity (congrArg some hid)
  exact ⟨f, hf, hk, hw⟩

theorem of_file {f : File} (h : w.kernel.file fd = some f) : w.Owns f.owner fd f.kind :=
  ⟨f.id, by rw [h]; rfl⟩

theorem kept (h : w.Owns who fd k) (hk : FilesKept w.kernel w'.kernel) : w'.Owns who fd k := by
  obtain ⟨o, ho⟩ := h
  exact ⟨o, hk fd _ ho⟩

theorem nonneg (h : w.Owns who fd k) : 0 ≤ fd := by
  obtain ⟨f, hf, -, -⟩ := h.exists_file
  exact Kernel.nonneg_of_file hf

theorem fd_ne (h : w.Owns who fd k) (h' : w.Owns who' n k') (hne : k ≠ k') : fd ≠ n := by
  rintro rfl
  obtain ⟨f, hf, hk, -⟩ := h.exists_file
  obtain ⟨f', hf', hk', -⟩ := h'.exists_file
  obtain rfl := Option.some.inj (hf.symm.trans hf')
  exact hne (hk.symm.trans hk')

theorem closed (h : w.Owns who fd k) {ret : Int} (hc : Closed w who' n ret w') (hne : fd ≠ n) :
    w'.Owns who fd k := by
  obtain ⟨o, ho⟩ := h
  refine ⟨o, ?_⟩
  rw [hc.file, if_neg hne]
  exact ho

end World.Owns

/-- The number stored in the timer is that of its own timerfd. -/
def World.TimerOwns (w : World σ) (t : TimerPtr) : Prop :=
  w.Owns (.timer t) (w.timers t).eventDescriptor.fd .timerfd

/-- Other code closes its own descriptors only. -/
def Env.Foreign (w : World σ) : Env → Prop
  | .closeFile fd => ∀ f, w.kernel.file fd = some f → f.owner = .other
  | _ => True

theorem Env.exec_file_closeFile (w : World σ) (fd n : Int) :
    ((Env.closeFile fd).exec w).kernel.file n = if n = fd then none else w.kernel.file n := by
  rcases Kernel.close_cases w.kernel fd with ⟨hfile, -, hcore⟩ | ⟨f, hf, hcore, -⟩
  · rw [show ((Env.closeFile fd).exec w).kernel.file n = _ from Kernel.file_congr hcore n]
    split
    · next hn => rw [hn, hfile]
    · rfl
  · exact (Kernel.file_congr hcore n).trans (Kernel.closeFile_file hf n)

theorem expire_file (k : Kernel) (o : ObjId) (n : Int) : (k.expire o).file n = k.file n := by
  unfold Kernel.expire
  split <;> rfl

theorem World.Owns.env {w : World σ} {who : Owner} {fd : Int} {k : Kind} (h : w.Owns who fd k)
    (hwho : who ≠ .other) {e : Env} (he : e.Foreign w) : (e.exec w).Owns who fd k := by
  cases e with
  | openFile status cloexec => exact h.kept (.of_opens (Kernel.Opens.of_files rfl rfl rfl))
  | closeFile n =>
    obtain ⟨f, hf, -, howner⟩ := h.exists_file
    have hne : fd ≠ n := by
      rintro rfl
      exact hwho (howner.symm.trans (he f hf))
    obtain ⟨o, ho⟩ := h
    refine ⟨o, ?_⟩
    rw [Env.exec_file_closeFile, if_neg hne]
    exact ho
  | setDescriptor a d => exact h
  | setTimer t x => exact h
  | expire o => exact h.kept (.of_file fun n => expire_file _ _ _)

/-! ## The descriptors of a machine after `event_machine_init()` -/

/-- What `event_machine_init()` does to the descriptors of the machine. -/
structure Initialised (w : World σ) (em : EMPtr) (r : UInt32) (w' : World σ) : Prop where
  kept : FilesKept w.kernel w'.kernel
  records : Records (InitRecord em) w w'
  queue : ((w'.ems em).queueFd = (w.ems em).queueFd ∧
      r ≠ EMResult.success.code ∧ r ≠ EMResult.errorEventCtl.code) ∨
    ((r = EMResult.success.code ∨ r = EMResult.errorEventCtl.code) ∧
      w'.Owns (.machine em) (w'.ems em).queueFd .epoll)
  pipe : (r = EMResult.errorPipe.code ∧ (w'.ems em).breakLoopPipe = (w.ems em).breakLoopPipe) ∨
    (r ≠ EMResult.errorPipe.code ∧ ∃ o, w'.Owns (.machine em) (w'.ems em).breakLoopPipe.1 (.pipeRead o) ∧
      w'.Owns (.machine em) (w'.ems em).breakLoopPipe.2 (.pipeWrite o))

theorem Buffered.descriptors {w : World σ} {em : EMPtr} {m : EM σ} {ms : List (BufPtr × Int)}
    (h : Buffered w em m ms) :
    m.queueFd = (w.ems em).queueFd ∧ m.breakLoopPipe = (w.ems em).breakLoopPipe := by
  cases h with
  | user => exact ⟨rfl, rfl⟩
  | allocated => exact ⟨rfl, rfl⟩
  | noMemory => exact ⟨rfl, rfl⟩

theorem owns_of_pipe {k k' : Kernel} {w : World σ} {who : Owner} {ends : Int × Int}
    (h : k.PipeMade who ends k') (hk : FilesKept k' w.kernel) :
    ∃ o, w.Owns who ends.1 (.pipeRead o) ∧ w.Owns who ends.2 (.pipeWrite o) := by
  obtain ⟨⟨-, -, hne⟩, -, -, hfile⟩ := pipeMade_files h
  have hread := hfile ends.1
  have hwrite := hfile ends.2
  rw [if_neg hne, if_pos rfl] at hread
  rw [if_pos rfl] at hwrite
  exact ⟨k.next, ⟨_, hk _ _ hread⟩, ⟨_, hk _ _ hwrite⟩⟩

theorem InitOutcome.initialised {usePipe2 : Bool} {w w' : World σ} {em : EMPtr}
    {ms : List (BufPtr × Int)} {m : EM σ} {r : UInt32} (hb : Buffered w em m ms)
    (h : InitOutcome usePipe2 w em ms m r w') : Initialised w em r w' := by
  obtain ⟨hmq, hmp⟩ := hb.descriptors
  cases h with
  | noPipe code base core =>
    refine ⟨.of_file fun n => Kernel.file_congr core n, base.records, Or.inl ?_, Or.inl ⟨code, ?_⟩⟩
    · rw [base.ems_self, code]
      exact ⟨hmq, by decide, by decide⟩
    · rw [base.ems_self, hmp]
  | noFlags ends code base pipe =>
    refine ⟨.of_pipe pipe, base.records, Or.inl ?_, Or.inr ⟨by rw [code]; decide, ?_⟩⟩
    · rw [base.ems_self, code]
      exact ⟨hmq, by decide, by decide⟩
    · rw [base.ems_self]
      exact owns_of_pipe pipe (.of_file fun _ => rfl)
  | noQueue ends code base pipe =>
    refine ⟨.of_pipe pipe, base.records, Or.inl ?_, Or.inr ⟨by rw [code]; decide, ?_⟩⟩
    · rw [base.ems_self, code]
      exact ⟨hmq, by decide, by decide⟩
    · rw [base.ems_self]
      exact owns_of_pipe pipe (.of_file fun _ => rfl)
  | queue ends fd q k₁ k₂ base pipe queue event =>
    obtain ⟨hopens, hkind, howner, -⟩ := queue
    have hfile : ∀ n, w'.kernel.file n = k₂.file n := fun n => by
      rcases event with ⟨-, hcore⟩ | ⟨-, hcore⟩
      · exact Kernel.file_congr (k := k₂.setInterest q.id ends.1 _) hcore n
      · exact Kernel.file_congr hcore n
    have hkept : FilesKept k₁ w'.kernel := (FilesKept.of_opens hopens).trans (.of_file hfile)
    refine ⟨(FilesKept.of_pipe pipe).trans hkept, base.records, Or.inr ⟨event.imp And.left And.left, ?_⟩,
      Or.inr ⟨?_, ?_⟩⟩
    · rw [base.ems_self]
      have hq : w'.kernel.file fd = some q := by rw [hfile, hopens.file, if_pos rfl]
      have howns := World.Owns.of_file hq
      rwa [hkind, howner] at howns
    · rcases event with ⟨hr, -⟩ | ⟨hr, -⟩ <;> rw [hr] <;> decide
    · rw [base.ems_self]
      exact owns_of_pipe pipe hkept

end EventMachine
