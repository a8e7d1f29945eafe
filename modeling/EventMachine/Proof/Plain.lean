import EventMachine.Lib.Blind
import EventMachine.Proof.Registration

/-!
# What calls cannot see

`World.plain` hides from a world what no call of `event_machine_init()` after the flags of the pipe looks
at: the close-on-exec flags, what the oracle has in store for `fcntl()`, and the record of system calls.
Those calls are blind to it, so that two worlds which differ in nothing else stay alike.
-/

namespace EventMachine

open Lib

variable {σ : Type}

/-- A descriptor without its close-on-exec flag. -/
def File.plain (f : File) : File := { f with cloexec := false }

/-- The kernel without the descriptors, and without what the oracle has for `fcntl()`. -/
def Kernel.rest (k : Kernel) : Kernel :=
  { k with
    files := []
    faults := fun s => if s = .fcntlGetfl ∨ s = .fcntlSetfl then fun _ => none else k.faults s }

/-- A world without close-on-exec flags, and without what the oracle has for `fcntl()`. -/
def World.plain (w : World σ) : (Int → Option File) × World σ :=
  (fun n => (w.kernel.file n).map File.plain, { w with kernel := w.kernel.rest, log := [] })

theorem Kernel.file_natCast (k : Kernel) (n : Nat) : k.file n = k.files.get n := by
  unfold Kernel.file
  rw [if_neg (by omega), Int.toNat_natCast]

section plain
variable {v w : World σ}

theorem World.plain_rest (h : v.plain = w.plain) : v.kernel.rest = w.kernel.rest :=
  congrArg (·.2.kernel) h

theorem World.plain_file (h : v.plain = w.plain) (n : Int) :
    (v.kernel.file n).map File.plain = (w.kernel.file n).map File.plain :=
  congrFun (congrArg (·.1) h) n

theorem World.plain_lowest (h : v.plain = w.plain) : v.kernel.files.lowest = w.kernel.files.lowest := by
  apply Lib.Slots.lowest_congr
  intro n
  have hfile := congrArg Option.isSome (World.plain_file h n)
  rwa [Option.isSome_map, Option.isSome_map, Kernel.file_natCast, Kernel.file_natCast] at hfile

theorem World.plain_ed (h : v.plain = w.plain) (p : EDPtr) : v.ed p = w.ed p := by
  have hed := congrArg (·.2.ed p) h
  cases p <;> exact hed

theorem World.plain_faults (h : v.plain = w.plain) {s : Syscall} (hg : s ≠ .fcntlGetfl)
    (hs : s ≠ .fcntlSetfl) : v.kernel.faults s = w.kernel.faults s := by
  have hfaults := congrArg (·.faults s) (World.plain_rest h)
  simpa [Kernel.rest, hg, hs] using hfaults

theorem World.plain_kernel (h : v.plain = w.plain) {k k' : Kernel} {l l' : List SysRecord}
    (hfile : ∀ n, (k.file n).map File.plain = (k'.file n).map File.plain) (hrest : k.rest = k'.rest) :
    ({ v with kernel := k, log := l } : World σ).plain =
      ({ w with kernel := k', log := l' } : World σ).plain := by
  refine Prod.ext (funext hfile) ?_
  have hworld := congrArg (fun x => ({ x.2 with kernel := k.rest } : World σ)) h
  show ({ v with kernel := k.rest, log := [] } : World σ) = { w with kernel := k'.rest, log := [] }
  rw [← hrest]
  exact hworld

end plain

theorem Kernel.turn_rest (k : Kernel) (s : Syscall) : (k.turn s).2.rest = (k.rest.turn s).2.rest := by
  unfold Kernel.rest Kernel.turn
  simp only [Kernel.mk.injEq, true_and]
  funext s'
  by_cases hs' : s' = .fcntlGetfl ∨ s' = .fcntlSetfl
  · simp only [if_pos hs']
  · by_cases heq : s' = s
    · subst heq
      simp [hs']
    · simp [hs', heq]

/-! ## Calls -/

theorem modifyEM_blind (em : EMPtr) (f : EM σ → EM σ) : Blind World.plain (modifyEM em f) := by
  refine .of_modifyGet fun v w h => ⟨rfl, ?_⟩
  exact congrArg (fun x : (Int → Option File) × World σ => (x.1, x.2.setEM em (f (x.2.ems em)))) h

theorem getErrno_blind : Blind World.plain (getErrno : Sys σ Errno) :=
  .of_modifyGet fun _ _ h => ⟨congrArg (·.errno) (World.plain_rest h), h⟩

theorem Kernel.epollCreate_rest (k : Kernel) (owner : Owner) :
    (k.epollCreate owner).2.rest = (k.rest.epollCreate owner).2.rest := by
  have hfaults : k.rest.faults .epollCreate = k.faults .epollCreate := rfl
  have hturn := k.turn_rest .epollCreate
  unfold Kernel.epollCreate
  cases h : k.faults .epollCreate 0 with
  | some e =>
    simp only [Kernel.turn, hfaults, h] at hturn ⊢
    exact congrArg (fun k' : Kernel => { k' with errno := e }) hturn
  | none =>
    simp only [Kernel.turn, hfaults, h] at hturn ⊢
    exact congrArg (fun k' : Kernel => { k' with
      next := k'.next + 1
      interest := Function.update k'.interest k'.next fun _ => none }) hturn

theorem Kernel.epollCreate_exact (k : Kernel) (owner : Owner) :
    (k.faults .epollCreate 0 ≠ none ∧ (k.epollCreate owner).1 = -1 ∧
      ∀ n, (k.epollCreate owner).2.file n = k.file n) ∨
    (k.faults .epollCreate 0 = none ∧ (k.epollCreate owner).1 = k.files.lowest ∧
      ∀ n, (k.epollCreate owner).2.file n =
        if n = k.files.lowest then some ⟨k.next, .epoll, owner, 0, true⟩ else k.file n) := by
  unfold Kernel.epollCreate
  cases h : k.faults .epollCreate 0 with
  | some e =>
    refine Or.inl ⟨by simp, ?_, ?_⟩
    · simp [Kernel.turn, h, Kernel.fail]
    · simp [Kernel.turn, h, Kernel.fail, Kernel.file]
  | none =>
    simp only [Kernel.turn, h]
    exact Or.inr ⟨trivial, rfl, Kernel.file_of_files (k := k) rfl⟩

theorem epollCreate_blind (who : Owner) : Blind World.plain (epollCreate who : Sys σ Int) := by
  refine .of_modifyGet fun v w h => ?_
  have hlowest := World.plain_lowest h
  have hfault := World.plain_faults h (s := .epollCreate) (by decide) (by decide)
  have hnext : v.kernel.next = w.kernel.next := congrArg (·.next) (World.plain_rest h)
  have hrest : (v.kernel.epollCreate who).2.rest = (w.kernel.epollCreate who).2.rest := by
    rw [Kernel.epollCreate_rest, World.plain_rest h, ← Kernel.epollCreate_rest]
  rcases Kernel.epollCreate_exact v.kernel who with ⟨hv, hret, hfile⟩ | ⟨hv, hret, hfile⟩
  · rcases Kernel.epollCreate_exact w.kernel who with ⟨-, hret', hfile'⟩ | ⟨hw, -⟩
    · refine ⟨hret.trans hret'.symm, World.plain_kernel h (fun n => ?_) hrest⟩
      rw [hfile, hfile', World.plain_file h]
    · rw [hfault] at hv
      exact absurd hw hv
  · rcases Kernel.epollCreate_exact w.kernel who with ⟨hw, -⟩ | ⟨-, hret', hfile'⟩
    · rw [hfault] at hv
      exact absurd hv hw
    · refine ⟨?_, World.plain_kernel h (fun n => ?_) hrest⟩
      · rw [hret, hret', hlowest]
      · rw [hfile, hfile', hlowest]
        split
        · simp [File.plain, hnext]
        · exact World.plain_file h n

/-- What `epoll_ctl()` does depends on the objects of the descriptors, and on nothing that is hidden. -/
theorem Kernel.epollCtl_rest {k k' : Kernel}
    (hfile : ∀ n, (k.file n).map File.plain = (k'.file n).map File.plain) (hrest : k.rest = k'.rest)
    (epfd : Int) (op : CtlOp) (fd : Int) (event : EpollEvent) :
    (k.epollCtl epfd op fd event).1 = (k'.epollCtl epfd op fd event).1 ∧
      (k.epollCtl epfd op fd event).2.rest = (k'.epollCtl epfd op fd event).2.rest := by
  have hfault : (k.turn (.epollCtl op)).1 = (k'.turn (.epollCtl op)).1 :=
    congrFun (congrArg (·.faults (.epollCtl op)) hrest) 0
  have hturn : (k.turn (.epollCtl op)).2.rest = (k'.turn (.epollCtl op)).2.rest := by
    rw [Kernel.turn_rest, hrest, ← Kernel.turn_rest]
  have hfail : ∀ e, ((k.turn (.epollCtl op)).2.fail e).2.rest = ((k'.turn (.epollCtl op)).2.fail e).2.rest :=
    fun e => congrArg (fun r : Kernel => { r with errno := e }) hturn
  have hset : ∀ q e, ((k.turn (.epollCtl op)).2.setInterest q fd e).rest =
      ((k'.turn (.epollCtl op)).2.setInterest q fd e).rest :=
    fun q e => congrArg (·.setInterest q fd e) hturn
  have hinterest : k.interest = k'.interest := congrArg (·.interest) hrest
  have hepfd := hfile epfd
  have hfd := hfile fd
  unfold Kernel.epollCtl
  simp only [Kernel.file_turn, Kernel.interest_turn, hfault, hinterest]
  cases hq : k.file epfd with
  | none =>
    have hq' : k'.file epfd = none := by simpa [hq] using hepfd.symm
    rw [hq']
    exact ⟨rfl, hfail _⟩
  | some q =>
    obtain ⟨q', hq', hplain⟩ : ∃ q', k'.file epfd = some q' ∧ q'.plain = q.plain := by
      rw [hq] at hepfd
      exact Option.map_eq_some_iff.1 hepfd.symm
    have hid : q'.id = q.id := congrArg (·.id) hplain
    have hkind : q'.kind = q.kind := congrArg (·.kind) hplain
    rw [hq']
    cases hf : k.file fd with
    | none =>
      have hf' : k'.file fd = none := by simpa [hf] using hfd.symm
      rw [hf']
      exact ⟨rfl, hfail _⟩
    | some f =>
      obtain ⟨f', hf', -⟩ : ∃ f', k'.file fd = some f' ∧ f'.plain = f.plain := by
        rw [hf] at hfd
        exact Option.map_eq_some_iff.1 hfd.symm
      rw [hf']
      simp only [hid, hkind]
      split
      · exact ⟨rfl, hfail _⟩
      · split
        · exact ⟨rfl, hfail _⟩
        · split
          · exact ⟨rfl, hset _ _⟩
          · exact ⟨rfl, hfail _⟩
          · exact ⟨rfl, hset _ _⟩
          · exact ⟨rfl, hset _ _⟩
          · exact ⟨rfl, hfail _⟩

theorem epollCtl_blind (who : Owner) (epfd : Int) (op : CtlOp) (fd : Int) (event : EpollEvent) :
    Blind World.plain (epollCtl who epfd op fd event : Sys σ Int) := by
  refine .of_modifyGet fun v w h => ?_
  obtain ⟨hret, hrest⟩ := Kernel.epollCtl_rest (World.plain_file h) (World.plain_rest h) epfd op fd event
  refine ⟨hret, World.plain_kernel h (fun n => ?_) hrest⟩
  rw [epollCtl_file, epollCtl_file, World.plain_file h]

theorem eventCtl_blind (who : Owner) (queueFd : Int) (ed : EDRef) (fd : Int) (op : CtlOp) :
    Blind World.plain (eventCtl who queueFd ed fd op : Sys σ Int) := by
  unfold eventCtl
  refine .get_bind (fun v w h => ?_) fun w => ?_
  · cases ed with
    | none => rfl
    | some p => simp only [World.plain_ed h]
  · refine .bind (epollCtl_blind _ _ _ _ _) fun ret => ?_
    refine .ite (.of_pure _) (.bind getErrno_blind fun errno => ?_)
    refine .ite (.of_pure _) ?_
    cases ed with
    | none => exact .of_throw _
    | some p => exact epollCtl_blind _ _ _ _ _

end EventMachine
