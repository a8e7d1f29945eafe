import EventMachine.World

/-!
# What a system call changes

`Kernel.core` and `World.core` leave out what every system call may change: `errno`, the oracle of
failures and the log. An equation between cores therefore says that a call had no effect, or names
the effect it had, and at once that everything else is as before.
-/

namespace EventMachine

open Lib

/-- What a descriptor refers to, without its flags. -/
def File.identity (f : File) : ObjId × Kind × Owner := (f.id, f.kind, f.owner)

theorem File.of_identity {f : File} {o : ObjId} {c : Kind} {who : Owner}
    (h : some f.identity = some (o, c, who)) : f.id = o ∧ f.kind = c ∧ f.owner = who := by
  simpa [File.identity] using h

namespace Kernel

/-- The kernel without `errno` and the oracle of failures. -/
def core (k : Kernel) : Kernel := { k with errno := .EBADF, faults := fun _ _ => none }

/-- No call that the registration functions make fails without a reason. -/
def FaultFree (k : Kernel) : Prop :=
  (∀ n, k.faults .fcntlGetfl n = none) ∧ ∀ op n, k.faults (.epollCtl op) n = none

theorem file_turn (k : Kernel) (s : Syscall) (fd : Int) : (k.turn s).2.file fd = k.file fd := rfl

theorem interest_turn (k : Kernel) (s : Syscall) : (k.turn s).2.interest = k.interest := rfl

theorem FaultFree.turn {k : Kernel} (h : k.FaultFree) (s : Syscall) : (k.turn s).2.FaultFree := by
  refine ⟨fun n => ?_, fun op n => ?_⟩ <;> simp only [Kernel.turn, Function.update_apply] <;> split
  · next hs => exact hs ▸ h.1 (n + 1)
  · exact h.1 n
  · next hs => exact hs ▸ h.2 op (n + 1)
  · exact h.2 op n

theorem FaultFree.of_faults {k k' : Kernel} {s : Syscall} (h : k.FaultFree)
    (hk : k'.faults = (k.turn s).2.faults) : k'.FaultFree := by
  have ht := h.turn s
  exact ⟨fun n => by rw [hk]; exact ht.1 n, fun op n => by rw [hk]; exact ht.2 op n⟩

theorem file_core (k : Kernel) (fd : Int) : k.core.file fd = k.file fd := rfl

theorem file_congr {k k' : Kernel} (h : k'.core = k.core) (fd : Int) : k'.file fd = k.file fd := by
  rw [← file_core, h, file_core]

theorem interest_congr {k k' : Kernel} (h : k'.core = k.core) : k'.interest = k.interest :=
  congrArg (·.interest) h

theorem setInterest_core (k : Kernel) (q : ObjId) (fd : Int) (e : Option EpollEvent) :
    (k.setInterest q fd e).core = k.core.setInterest q fd e := rfl

theorem nonneg_of_file {k : Kernel} {fd : Int} {f : File} (h : k.file fd = some f) : 0 ≤ fd := by
  by_contra hneg
  simp only [file, show fd < 0 by omega, if_true, reduceCtorEq] at h

/-! ## `fcntl(fd, F_GETFL)` -/

theorem fcntlGetfl_core (k : Kernel) (fd : Int) : (k.fcntlGetfl fd).2.core = k.core := by
  unfold fcntlGetfl
  simp only [file_turn]
  split <;> rfl

theorem fcntlGetfl_neg (k : Kernel) (fd : Int) :
    (k.fcntlGetfl fd).1 < 0 ↔ k.file fd = none ∨ k.faults .fcntlGetfl 0 ≠ none := by
  unfold fcntlGetfl
  simp only [file_turn]
  split
  · next h => simp [fail, h]
  · next f e hf he => simp [fail, show k.faults .fcntlGetfl 0 = some e from he]
  · next f hf he => simp [hf, show k.faults .fcntlGetfl 0 = none from he]

theorem fcntlGetfl_faults (k : Kernel) (fd : Int) :
    (k.fcntlGetfl fd).2.faults = (k.turn .fcntlGetfl).2.faults := by
  unfold fcntlGetfl
  simp only [file_turn]
  split <;> rfl

theorem fcntlGetfl_faultFree {k : Kernel} (h : k.FaultFree) (fd : Int) :
    (k.fcntlGetfl fd).2.FaultFree := h.of_faults (fcntlGetfl_faults k fd)

/-! ## `epoll_ctl()` -/

/-- The entry an operation expects to find. -/
def Fits : CtlOp → Option EpollEvent → Prop
  | .add, e => e = none
  | .mod, e => e.isSome
  | .del, e => e.isSome

/-- The entry an operation leaves. -/
def entryAfter : CtlOp → EpollEvent → Option EpollEvent
  | .add, e => some e
  | .mod, e => some e
  | .del, _ => none

/-- An `epoll_ctl()` that nothing but the oracle can make fail, on the epoll instance `q`. -/
structure CanCtl (k : Kernel) (epfd : Int) (op : CtlOp) (fd : Int) (q : File) : Prop where
  queue : k.file epfd = some q
  epoll : q.kind = .epoll
  target : (k.file fd).isSome
  other : fd ≠ epfd
  fits : Fits op (k.interest q.id fd)

theorem CanCtl.congr {k k' : Kernel} {epfd fd : Int} {op : CtlOp} {q : File}
    (h : k'.core = k.core) (hc : k'.CanCtl epfd op fd q) : k.CanCtl epfd op fd q where
  queue := by rw [← file_congr h]; exact hc.queue
  epoll := hc.epoll
  target := by rw [← file_congr h]; exact hc.target
  other := hc.other
  fits := by rw [← interest_congr h]; exact hc.fits

/-- `epoll_ctl()` does what it is asked to, or fails without effect. -/
theorem epollCtl_cases (k : Kernel) (epfd : Int) (op : CtlOp) (fd : Int) (ev : EpollEvent) :
    ((k.epollCtl epfd op fd ev).1 = 0 ∧ ∃ q, k.CanCtl epfd op fd q ∧
      (k.epollCtl epfd op fd ev).2.core = k.core.setInterest q.id fd (entryAfter op ev)) ∨
    ((k.epollCtl epfd op fd ev).1 = -1 ∧ (k.epollCtl epfd op fd ev).2.core = k.core ∧
      (k.FaultFree → (∀ q, ¬ k.CanCtl epfd op fd q) ∧
        (op ≠ .add → (k.epollCtl epfd op fd ev).2.errno ≠ .EEXIST)) ∧
      (k.file fd = none → (k.epollCtl epfd op fd ev).2.errno = .EBADF)) := by
  have hcan : ∀ q q', k.file epfd = some q → k.CanCtl epfd op fd q' → q' = q := fun q q' hq h =>
    Option.some.inj (h.queue.symm.trans hq)
  unfold epollCtl
  simp only [file_turn]
  cases hq : k.file epfd with
  | none =>
    exact Or.inr ⟨rfl, rfl, fun _ => ⟨fun q h => by simp [h.queue] at hq, fun _ => by simp [fail]⟩,
      fun _ => rfl⟩
  | some q =>
    cases hf : k.file fd with
    | none =>
      refine Or.inr ⟨rfl, rfl, fun _ => ⟨fun q h => ?_, fun _ => by simp [fail]⟩, fun _ => rfl⟩
      have := h.target
      simp [hf] at this
    | some f =>
      cases hfault : k.faults (.epollCtl op) 0 with
      | some e =>
        refine Or.inr ⟨?_, ?_, fun h => absurd hfault (by simp [h.2]), nofun⟩ <;>
          simp [turn, hfault, fail, core]
      | none =>
        simp only [turn, hfault]
        split_ifs with hk
        · exact Or.inr ⟨rfl, rfl, fun _ =>
            ⟨fun q' h => hk.elim (· (hcan q q' hq h ▸ h.epoll)) h.other, fun _ => by simp [fail]⟩, nofun⟩
        · obtain ⟨hepoll, hother⟩ := not_or.1 hk
          rw [not_not] at hepoll
          by_cases hfits : Fits op (k.interest q.id fd)
          · refine Or.inl ⟨?_, q, ⟨hq, hepoll, by simp [hf], hother, hfits⟩, ?_⟩ <;>
              cases op <;> cases he : k.interest q.id fd <;> simp [Fits, he] at hfits <;> rfl
          · refine Or.inr ⟨?_, ?_, fun _ =>
              ⟨fun q' h => hfits (hcan q q' hq h ▸ h.fits), fun hop => ?_⟩, nofun⟩ <;>
              cases op <;> cases he : k.interest q.id fd <;> simp_all [Fits, fail, core]

theorem epollCtl_zero_iff (k : Kernel) (epfd : Int) (op : CtlOp) (fd : Int) (ev : EpollEvent) :
    (k.epollCtl epfd op fd ev).1 = 0 ↔
      (∃ q, k.CanCtl epfd op fd q) ∧ k.faults (.epollCtl op) 0 = none := by
  have hturn : (k.turn (.epollCtl op)).1 = k.faults (.epollCtl op) 0 := rfl
  constructor
  · intro h
    rcases epollCtl_cases k epfd op fd ev with ⟨-, q, hq, -⟩ | ⟨hr, -⟩
    · refine ⟨⟨q, hq⟩, ?_⟩
      obtain ⟨f, hf⟩ := Option.isSome_iff_exists.1 hq.target
      by_contra hne
      obtain ⟨e, he⟩ := Option.ne_none_iff_exists'.1 hne
      simp [epollCtl, file_turn, hturn, hq.queue, hf, he, fail] at h
    · rw [hr] at h
      exact absurd h (by decide)
  · rintro ⟨⟨q, hq⟩, hfault⟩
    obtain ⟨f, hf⟩ := Option.isSome_iff_exists.1 hq.target
    have hfits := hq.fits
    unfold epollCtl
    simp only [file_turn, interest_turn, hturn, hq.queue, hf, hfault, hq.epoll, hq.other, ne_eq,
      not_true_eq_false, or_self, if_false]
    cases op <;> cases he : k.interest q.id fd <;> simp [Fits, he] at hfits <;> rfl

theorem epollCtl_eexist {k : Kernel} {epfd fd : Int} {ev : EpollEvent} {q : File}
    (hq : k.CanCtl epfd .mod fd q) :
    ((k.epollCtl epfd .mod fd ev).1 ≠ 0 ∧ (k.epollCtl epfd .mod fd ev).2.errno = .EEXIST) ↔
      k.faults (.epollCtl .mod) 0 = some .EEXIST := by
  have hturn : (k.turn (.epollCtl .mod)).1 = k.faults (.epollCtl .mod) 0 := rfl
  obtain ⟨f, hf⟩ := Option.isSome_iff_exists.1 hq.target
  cases hfault : k.faults (.epollCtl .mod) 0 with
  | none =>
    have hzero := (epollCtl_zero_iff k epfd .mod fd ev).2 ⟨⟨q, hq⟩, hfault⟩
    exact ⟨fun h => absurd hzero h.1, fun h => absurd h (by simp)⟩
  | some e =>
    unfold epollCtl
    simp [file_turn, hturn, hq.queue, hf, hfault, fail]

theorem epollCtl_faults (k : Kernel) (epfd : Int) (op : CtlOp) (fd : Int) (ev : EpollEvent) :
    (k.epollCtl epfd op fd ev).2.faults = (k.turn (.epollCtl op)).2.faults := by
  unfold epollCtl
  simp only [file_turn, interest_turn]
  split
  · split
    · rfl
    · split
      · rfl
      · split <;> rfl
  · rfl

theorem epollCtl_faultFree {k : Kernel} (h : k.FaultFree) (epfd : Int) (op : CtlOp) (fd : Int)
    (ev : EpollEvent) : (k.epollCtl epfd op fd ev).2.FaultFree :=
  h.of_faults (epollCtl_faults k epfd op fd ev)

/-- Queue and descriptor are open, and none of the two checks of that fails by itself. -/
def Passes (k : Kernel) (queueFd fd : Int) : Prop :=
  (k.file queueFd).isSome ∧ (k.file fd).isSome ∧ k.faults .fcntlGetfl 0 = none ∧
    k.faults .fcntlGetfl 1 = none

/-- The oracle does not make an `event_ctl()` fail; one that modifies is tried again after `EEXIST`. -/
def Unhindered (k : Kernel) (op : CtlOp) : Prop :=
  k.faults (.epollCtl op) 0 = none ∨
    op = .mod ∧ k.faults (.epollCtl op) 0 = some .EEXIST ∧ k.faults (.epollCtl op) 1 = none

theorem Passes.nonneg {k : Kernel} {queueFd fd : Int} (h : k.Passes queueFd fd) : 0 ≤ fd := by
  obtain ⟨f, hf⟩ := Option.isSome_iff_exists.1 h.2.1
  exact nonneg_of_file hf

theorem FaultFree.passes {k : Kernel} (h : k.FaultFree) (queueFd fd : Int) :
    k.Passes queueFd fd ↔ (k.file queueFd).isSome ∧ (k.file fd).isSome :=
  ⟨fun hp => ⟨hp.1, hp.2.1⟩, fun hf => ⟨hf.1, hf.2, h.1 0, h.1 1⟩⟩

theorem FaultFree.unhindered {k : Kernel} (h : k.FaultFree) (op : CtlOp) : k.Unhindered op :=
  Or.inl (h.2 op 0)

/-! ## Opening and closing descriptors -/

theorem file_of_files {k k' : Kernel} {m : Nat} {x : Option File}
    (h : k'.files = k.files.put m x) (n : Int) :
    k'.file n = if n = m then x else k.file n := by
  unfold file
  rw [h]
  by_cases hn : n < 0
  · have hne : n ≠ m := by omega
    rw [if_pos hn, if_neg hne, if_pos hn]
  · have hiff : n.toNat = m ↔ n = m := by omega
    rw [if_neg hn, if_neg hn, Slots.get_put]
    simp only [hiff]

/-- `k'` is `k` with one more descriptor, and possibly other changes that leave it alone. -/
structure Opens (k : Kernel) (fd : Int) (f : File) (k' : Kernel) : Prop where
  nonneg : 0 ≤ fd
  free : k.file fd = none
  id : f.id = k.next
  next : k'.next = k.next + 1
  file : ∀ n, k'.file n = if n = fd then some f else k.file n

theorem Opens.of_files {k k' : Kernel} {f : File}
    (h : k'.files = k.files.put k.files.lowest (some f)) (hid : f.id = k.next)
    (hnext : k'.next = k.next + 1) : Opens k k.files.lowest f k' where
  nonneg := Int.natCast_nonneg _
  free := by
    unfold Kernel.file
    rw [if_neg (by omega), Int.toNat_natCast]
    exact k.files.get_lowest
  id := hid
  next := hnext
  file := file_of_files h

/-- The kernels differ at most in flags of descriptors and in what every system call may change. -/
def FlagsOnly (k k' : Kernel) : Prop :=
  (∀ n, (k'.file n).map File.identity = (k.file n).map File.identity) ∧
  { k'.core with files := [] } = { k.core with files := [] }

theorem FlagsOnly.of_core {k k' : Kernel} (h : k'.core = k.core) : FlagsOnly k k' :=
  ⟨fun n => by rw [file_congr h], by rw [h]⟩

theorem FlagsOnly.refl (k : Kernel) : FlagsOnly k k := .of_core rfl

theorem FlagsOnly.trans {k k' k'' : Kernel} (h : FlagsOnly k k') (h' : FlagsOnly k' k'') :
    FlagsOnly k k'' :=
  ⟨fun n => (h'.1 n).trans (h.1 n), h'.2.trans h.2⟩

theorem turn_faults_of_ne (k : Kernel) {s s' : Syscall} (h : s' ≠ s) :
    (k.turn s).2.faults s' = k.faults s' := by
  simp [turn, Function.update_of_ne h]

theorem bytes_of_core {k k' : Kernel} {b : ObjId → Nat} (h : k'.core = { k.core with bytes := b }) :
    k'.bytes = b := congrArg (·.bytes) h

/-- No call of kind `s` fails without a reason. -/
def Never (k : Kernel) (s : Syscall) : Prop := ∀ n, k.faults s n = none

theorem Never.turn {k : Kernel} {s : Syscall} (h : k.Never s) (s' : Syscall) :
    (k.turn s').2.Never s := by
  intro n
  by_cases hs : s = s'
  · subst hs
    simp [Kernel.turn, h (n + 1)]
  · rw [turn_faults_of_ne k hs, h n]

theorem Never.of_faults {k k' : Kernel} {s s' : Syscall} (h : k.Never s)
    (hk : k'.faults = (k.turn s').2.faults) : k'.Never s := by
  intro n
  rw [hk]
  exact h.turn s' n

@[simp] theorem turn_faults_self (k : Kernel) (s : Syscall) (n : Nat) :
    (k.turn s).2.faults s n = k.faults s (n + 1) := by
  simp [turn]

theorem fcntlSetfl_faults (k : Kernel) (fd : Int) (flags : UInt32) :
    (k.fcntlSetfl fd flags).2.faults = (k.turn .fcntlSetfl).2.faults := by
  unfold fcntlSetfl
  simp only [file_turn]
  split <;> rfl

theorem fcntlGetfl_flagsOnly (k : Kernel) (fd : Int) : FlagsOnly k (k.fcntlGetfl fd).2 :=
  .of_core (fcntlGetfl_core k fd)

theorem fcntlSetfl_flagsOnly (k : Kernel) (fd : Int) (flags : UInt32) :
    FlagsOnly k (k.fcntlSetfl fd flags).2 := by
  refine ⟨fun n => ?_, ?_⟩
  · unfold fcntlSetfl
    simp only [file_turn]
    split
    · rfl
    · rfl
    · next f hf _ =>
      have hfd : (fd.toNat : Int) = fd := Int.toNat_of_nonneg (nonneg_of_file hf)
      rw [file_of_files (k := k) rfl, hfd]
      split
      · next hn => rw [hn, hf]; rfl
      · rfl
  · unfold fcntlSetfl
    simp only [file_turn]
    split <;> rfl

theorem fcntlSetfl_neg (k : Kernel) (fd : Int) (flags : UInt32) :
    (k.fcntlSetfl fd flags).1 < 0 ↔ k.file fd = none ∨ k.faults .fcntlSetfl 0 ≠ none := by
  unfold fcntlSetfl
  simp only [file_turn]
  split
  · next h => simp [fail, h]
  · next f e hf he => simp [fail, show k.faults .fcntlSetfl 0 = some e from he]
  · next f hf he => simp [hf, show k.faults .fcntlSetfl 0 = none from he]

theorem pipe_faults (k : Kernel) (owner : Owner) (pipe2 : Bool) :
    (k.pipe owner pipe2).2.2.faults = (k.turn .pipe).2.faults := by
  unfold pipe
  cases h : k.faults .pipe 0 with
  | none => simp only [turn, h]; rfl
  | some e => simp only [turn, h]

theorem epollCreate_faults (k : Kernel) (owner : Owner) :
    (k.epollCreate owner).2.faults = (k.turn .epollCreate).2.faults := by
  unfold epollCreate
  cases h : k.faults .epollCreate 0 <;> simp only [turn, h] <;> rfl

theorem timerfdCreate_faults (k : Kernel) (owner : Owner) :
    (k.timerfdCreate owner).2.faults = (k.turn .timerfdCreate).2.faults := by
  unfold timerfdCreate
  cases h : k.faults .timerfdCreate 0 <;> simp only [turn, h] <;> rfl

theorem timerfdSettime_faults (k : Kernel) (fd : Int) (new : Itimerspec) :
    (k.timerfdSettime fd new).2.faults = (k.turn .timerfdSettime).2.faults := by
  unfold timerfdSettime
  simp only [file_turn]
  split
  · rfl
  · rfl
  · split <;> rfl

theorem readExpirations_faults (k : Kernel) (fd : Int) :
    (k.readExpirations fd).2.faults = (k.turn .read).2.faults := by
  unfold readExpirations
  simp only [file_turn]
  split
  · rfl
  · rfl
  · split
    · rfl
    · split <;> rfl

/-- A pipe between the two numbers, whose flags may have been set since. -/
def PipeMade (k : Kernel) (owner : Owner) (ends : Int × Int) (k' : Kernel) : Prop :=
  ∃ r w k₁ k₂, Opens k ends.1 r k₁ ∧ Opens k₁ ends.2 w k₂ ∧
    r.kind = .pipeRead k.next ∧ w.kind = .pipeWrite k.next ∧ r.owner = owner ∧ w.owner = owner ∧
    k₂.interest = k.interest ∧ k₂.timerfds = k.timerfds ∧ k₂.capacity = k.capacity ∧
    k₂.bytes = Function.update k.bytes k.next 0 ∧ FlagsOnly k₂ k'

/-- A new queue, still empty. -/
def QueueMade (k : Kernel) (owner : Owner) (fd : Int) (q : File) (k' : Kernel) : Prop :=
  Opens k fd q k' ∧ q.kind = .epoll ∧ q.owner = owner ∧
    k'.interest = Function.update k.interest q.id (fun _ => none) ∧ k'.bytes = k.bytes ∧
    k'.timerfds = k.timerfds ∧ k'.capacity = k.capacity

theorem pipe_cases (k : Kernel) (owner : Owner) (pipe2 : Bool) :
    ((k.pipe owner pipe2).1 = -1 ∧ k.faults .pipe 0 ≠ none ∧
      (k.pipe owner pipe2).2.2.core = k.core) ∨
    ((k.pipe owner pipe2).1 = 0 ∧ k.faults .pipe 0 = none ∧
      PipeMade k owner (k.pipe owner pipe2).2.1 (k.pipe owner pipe2).2.2) := by
  unfold pipe
  cases h : k.faults .pipe 0 with
  | some e =>
    apply Or.inl
    simp [turn, h, core]
  | none =>
    apply Or.inr
    simp only [turn, h, true_and]
    let flag := if pipe2 then O_NONBLOCK else 0
    let r : File := ⟨k.next, .pipeRead k.next, owner, k.pipeStatus.1 ||| flag, pipe2⟩
    let w : File := ⟨k.next + 1, .pipeWrite k.next, owner, k.pipeStatus.2 ||| flag, pipe2⟩
    refine ⟨r, w, (k.openFile owner (.pipeRead k.next) r.status pipe2).2, _, ?_, ?_, rfl, rfl, rfl,
      rfl, ?_, ?_, ?_, ?_, .refl _⟩
    · exact Opens.of_files rfl rfl rfl
    · exact Opens.of_files rfl rfl rfl
    · rfl
    · rfl
    · rfl
    · rfl

theorem epollCreate_cases (k : Kernel) (owner : Owner) :
    ((k.epollCreate owner).1 = -1 ∧ k.faults .epollCreate 0 ≠ none ∧
      (k.epollCreate owner).2.core = k.core) ∨
    (k.faults .epollCreate 0 = none ∧
      ∃ q, QueueMade k owner (k.epollCreate owner).1 q (k.epollCreate owner).2) := by
  unfold epollCreate
  cases h : k.faults .epollCreate 0 with
  | some e =>
    apply Or.inl
    simp [turn, h, core, fail]
  | none =>
    apply Or.inr
    simp only [turn, h, true_and]
    refine ⟨⟨k.next, .epoll, owner, 0, true⟩, ?_, rfl, rfl, rfl, rfl, rfl, rfl⟩
    exact Opens.of_files rfl rfl rfl

theorem closeFile_file {k : Kernel} {fd : Int} {f : File} (h : k.file fd = some f) (n : Int) :
    (k.closeFile fd f).file n = if n = fd then none else k.file n := by
  have hfd : (fd.toNat : Int) = fd := Int.toNat_of_nonneg (nonneg_of_file h)
  rw [file_of_files (k := k) rfl, hfd]

/-- The kernel without a number, whether it was open or not. -/
def released (k : Kernel) (fd : Int) : Kernel :=
  match k.file fd with
  | none => k
  | some f => k.closeFile fd f

/-- `close()` releases the number of an open descriptor, whatever it returns. -/
theorem close_cases (k : Kernel) (fd : Int) :
    (k.file fd = none ∧ (k.close fd).1 = -1 ∧ (k.close fd).2.core = k.core) ∨
    ∃ f, k.file fd = some f ∧ (k.close fd).2.core = (k.closeFile fd f).core ∧
      ((k.close fd).1 = 0 ∧ k.faults .close 0 = none ∨
        (k.close fd).1 = -1 ∧ k.faults .close 0 ≠ none) := by
  unfold close
  simp only [file_turn]
  cases hf : k.file fd with
  | none => exact Or.inl ⟨rfl, rfl, rfl⟩
  | some f =>
    refine Or.inr ⟨f, rfl, ?_⟩
    cases h : k.faults .close 0 with
    | none =>
      simp only [turn, h]
      exact ⟨rfl, Or.inl ⟨trivial, trivial⟩⟩
    | some e =>
      simp only [turn, h]
      exact ⟨rfl, Or.inr ⟨rfl, by simp⟩⟩

theorem close_core (k : Kernel) (fd : Int) : (k.close fd).2.core = (k.released fd).core := by
  unfold released
  rcases close_cases k fd with ⟨hf, -, hcore⟩ | ⟨f, hf, hcore, -⟩ <;> rw [hf] <;> exact hcore

theorem close_faults (k : Kernel) (fd : Int) :
    (k.close fd).2.faults = (k.turn .close).2.faults := by
  unfold close
  simp only [file_turn]
  split
  · rfl
  · split <;> rfl

theorem released_file (k : Kernel) (fd n : Int) :
    (k.released fd).file n = if n = fd then none else k.file n := by
  unfold released
  split
  · next hf =>
    split
    · next hn => rw [hn, hf]
    · rfl
  · next f hf => exact closeFile_file hf n

theorem released_next (k : Kernel) (fd : Int) : (k.released fd).next = k.next := by
  unfold released
  split <;> rfl

theorem released_timerfds (k : Kernel) (fd : Int) : (k.released fd).timerfds = k.timerfds := by
  unfold released
  split <;> rfl

/-! ## Reading, writing, timers -/

/-- The kernel without what reading, writing and timers change either. -/
def still (k : Kernel) : Kernel :=
  { k.core with bytes := fun _ => 0, timerfds := fun _ => ⟨none, 0⟩ }

theorem still_of_core {k k' : Kernel} (h : k'.core = k.core) : k'.still = k.still :=
  congrArg (fun k : Kernel => { k with bytes := fun _ => 0, timerfds := fun _ => ⟨none, 0⟩ }) h

theorem file_still {k k' : Kernel} (h : k'.still = k.still) (n : Int) : k'.file n = k.file n := by
  have hfiles : k'.files = k.files := congrArg (·.files) h
  simp only [file, hfiles]

theorem readByte_cases (k : Kernel) (fd : Int) :
    ((k.readByte fd).1 = -1 ∧ (k.readByte fd).2.core = k.core) ∨
    ∃ f p, k.file fd = some f ∧ f.kind = .pipeRead p ∧ 0 < k.bytes p ∧
      (k.readByte fd).1 = 1 ∧
      (k.readByte fd).2.core =
        { k.core with bytes := Function.update k.bytes p (k.bytes p - 1) } := by
  unfold readByte
  simp only [file_turn]
  split
  · exact Or.inl ⟨rfl, rfl⟩
  · exact Or.inl ⟨rfl, rfl⟩
  · next f hf _ =>
    split
    · next p hp =>
      split
      · exact Or.inl ⟨rfl, rfl⟩
      · next hb => exact Or.inr ⟨f, p, hf, hp, Nat.pos_of_ne_zero hb, rfl, rfl⟩
    · exact Or.inl ⟨rfl, rfl⟩

theorem readByte_faults (k : Kernel) (fd : Int) :
    (k.readByte fd).2.faults = (k.turn .read).2.faults := by
  unfold readByte
  simp only [file_turn]
  split
  · rfl
  · rfl
  · split
    · split <;> rfl
    · rfl

theorem writeByte_faults (k : Kernel) (fd : Int) :
    (k.writeByte fd).2.faults = (k.turn .write).2.faults := by
  unfold writeByte
  simp only [file_turn]
  split
  · rfl
  · rfl
  · split
    · split <;> rfl
    · rfl

/-- A write into a pipe that is open and does not fail by itself is only ever refused by a full
pipe. -/
theorem writeByte_refused {k : Kernel} {fd : Int} {f : File} {p : ObjId} (hf : k.file fd = some f)
    (hkind : f.kind = .pipeWrite p) (hfault : k.Never .write) (h : (k.writeByte fd).1 = -1) :
    (k.writeByte fd).2.errno = .EAGAIN ∧ k.capacity ≤ k.bytes p := by
  have hturn : (k.turn .write).1 = none := hfault 0
  unfold writeByte at h ⊢
  simp only [file_turn, hf, hturn, hkind] at h ⊢
  split at h
  · simp at h
  · next hfull =>
    rw [if_neg hfull]
    exact ⟨rfl, Nat.le_of_not_lt hfull⟩

theorem epollWait_faults (k : Kernel) (epfd maxEvents : Int) (buffer : Bool) (o : WaitOutcome) :
    (k.epollWait epfd maxEvents buffer o).2.faults = k.faults := by
  unfold epollWait
  split
  · rfl
  · split
    · rfl
    · split
      · rfl
      · split <;> rfl

theorem writeByte_cases (k : Kernel) (fd : Int) :
    ((k.writeByte fd).1 = -1 ∧ (k.writeByte fd).2.core = k.core) ∨
    ∃ f p, k.file fd = some f ∧ f.kind = .pipeWrite p ∧ k.bytes p < k.capacity ∧
      (k.writeByte fd).1 = 1 ∧
      (k.writeByte fd).2.core =
        { k.core with bytes := Function.update k.bytes p (k.bytes p + 1) } := by
  unfold writeByte
  simp only [file_turn]
  split
  · exact Or.inl ⟨rfl, rfl⟩
  · exact Or.inl ⟨rfl, rfl⟩
  · next f hf _ =>
    split
    · next p hp =>
      split
      · next hb => exact Or.inr ⟨f, p, hf, hp, hb, rfl, rfl⟩
      · exact Or.inl ⟨rfl, rfl⟩
    · exact Or.inl ⟨rfl, rfl⟩

theorem writeByte_still (k : Kernel) (fd : Int) :
    (k.writeByte fd).2.still = k.still ∧ (k.writeByte fd).2.timerfds = k.timerfds := by
  rcases writeByte_cases k fd with ⟨-, h⟩ | ⟨f, p, -, -, -, -, h⟩
  · exact ⟨still_of_core h, congrArg (·.timerfds) h⟩
  · exact ⟨congrArg (fun k : Kernel => { k with bytes := fun _ => 0, timerfds := fun _ => ⟨none, 0⟩ }) h,
      congrArg (·.timerfds) h⟩

/-- Eight bytes are read when the timer has expired, and its count starts again at zero. -/
theorem readExpirations_cases (k : Kernel) (fd : Int) :
    ((k.readExpirations fd).1.1 = -1 ∧ (k.readExpirations fd).2.core = k.core) ∨
    ∃ f, k.file fd = some f ∧ f.kind = .timerfd ∧ 0 < (k.timerfds f.id).pending ∧
      (k.readExpirations fd).1 = (8, (k.timerfds f.id).pending) ∧
      (k.readExpirations fd).2.core = { k.core with
        timerfds := Function.update k.timerfds f.id { k.timerfds f.id with pending := 0 } } := by
  unfold readExpirations
  simp only [file_turn]
  split
  · exact Or.inl ⟨rfl, rfl⟩
  · exact Or.inl ⟨rfl, rfl⟩
  · next f hf _ =>
    split
    · exact Or.inl ⟨rfl, rfl⟩
    · next hkind =>
      split
      · exact Or.inl ⟨rfl, rfl⟩
      · next hp => exact Or.inr ⟨f, hf, by simpa using hkind, Nat.pos_of_ne_zero hp, rfl, rfl⟩

theorem readExpirations_still (k : Kernel) (fd : Int) :
    (k.readExpirations fd).2.still = k.still := by
  rcases readExpirations_cases k fd with ⟨-, h⟩ | ⟨f, -, -, -, -, h⟩
  · exact still_of_core h
  · exact congrArg (fun k : Kernel => { k with bytes := fun _ => 0, timerfds := fun _ => ⟨none, 0⟩ }) h

/-- A new timerfd, disarmed. -/
structure TimerfdMade (k : Kernel) (owner : Owner) (fd : Int) (f : File) (k' : Kernel) : Prop where
  opens : Opens k fd f k'
  kind : f.kind = .timerfd
  owner : f.owner = owner
  interest : k'.interest = k.interest
  timerfds : k'.timerfds = Function.update k.timerfds f.id ⟨none, 0⟩

theorem timerfdCreate_cases (k : Kernel) (owner : Owner) :
    ((k.timerfdCreate owner).1 = -1 ∧ (k.timerfdCreate owner).2.core = k.core) ∨
    ∃ f, TimerfdMade k owner (k.timerfdCreate owner).1 f (k.timerfdCreate owner).2 := by
  unfold timerfdCreate
  cases h : k.faults .timerfdCreate 0 with
  | some e =>
    apply Or.inl
    simp [turn, h, core, fail]
  | none =>
    refine Or.inr ⟨⟨k.next, .timerfd, owner, O_NONBLOCK, true⟩, ?_⟩
    simp only [turn, h]
    exact ⟨Opens.of_files rfl rfl rfl, rfl, rfl, rfl, rfl⟩

/-- `timerfd_settime()` sets the timer and discards the expirations not yet read, or has no effect. -/
theorem timerfdSettime_cases (k : Kernel) (fd : Int) (new : Itimerspec) :
    ((k.timerfdSettime fd new).1 = -1 ∧ (k.timerfdSettime fd new).2.core = k.core) ∨
    ∃ f, k.file fd = some f ∧ f.kind = .timerfd ∧ (k.timerfdSettime fd new).1 = 0 ∧
      (k.timerfdSettime fd new).2.core = { k.core with
        timerfds := Function.update k.timerfds f.id
          ⟨if new.itValue = ⟨0, 0⟩ then none else some new, 0⟩ } := by
  unfold timerfdSettime
  simp only [file_turn]
  split
  · exact Or.inl ⟨rfl, rfl⟩
  · exact Or.inl ⟨rfl, rfl⟩
  · next f hf _ =>
    split
    · exact Or.inl ⟨rfl, rfl⟩
    · next h => exact Or.inr ⟨f, hf, by simpa using (not_or.1 h).1, rfl, rfl⟩

theorem timerfdSettime_nonneg (k : Kernel) (fd : Int) (new : Itimerspec) :
    0 ≤ (k.timerfdSettime fd new).1 ↔ (∃ f, k.file fd = some f ∧ f.kind = .timerfd) ∧
      k.faults .timerfdSettime 0 = none ∧ new.itValue.valid ∧ new.itInterval.valid := by
  unfold timerfdSettime
  simp only [file_turn]
  split
  · next h => simp [fail, h]
  · next h =>
    have hfault : k.faults .timerfdSettime 0 ≠ none := Option.ne_none_iff_exists'.2 ⟨_, h⟩
    simp [fail, hfault]
  · next f hf h =>
    split
    · next hbad =>
      refine iff_of_false (by simp [fail]) ?_
      rintro ⟨⟨f', hf', hkind⟩, -, hvalue, hinterval⟩
      obtain rfl : f = f' := Option.some.inj (hf.symm.trans hf')
      rcases hbad with hbad | hbad | hbad
      · exact hbad hkind
      · exact hbad hvalue
      · exact hbad hinterval
    · next hgood =>
      simp only [not_or, not_not] at hgood
      exact iff_of_true (Int.le_refl 0) ⟨⟨f, hf, hgood.1⟩, h, hgood.2⟩

/-- `epoll_wait()` reports a batch to whoever asks properly; it fails otherwise, or when the outcome
is a failure. -/
theorem epollWait_cases (k : Kernel) (epfd : Int) (maxEvents : Int) (buffer : Bool)
    (o : WaitOutcome) :
    ((k.epollWait epfd maxEvents buffer o).1 = -1 ∧
      (k.epollWait epfd maxEvents buffer o).2.core = k.core ∧
      ∀ q l, k.file epfd = some q → q.kind = .epoll → 0 < maxEvents → buffer = true →
        o ≠ .batch l) ∨
    ∃ q l, k.file epfd = some q ∧ q.kind = .epoll ∧ 0 < maxEvents ∧ buffer = true ∧ o = .batch l ∧
      k.epollWait epfd maxEvents buffer o = ((l.length : Int), k) := by
  unfold epollWait
  split
  · next hq => exact Or.inl ⟨rfl, rfl, fun q l hq' => absurd (hq.symm.trans hq') nofun⟩
  · next q hq =>
    by_cases hk : q.kind ≠ .epoll ∨ maxEvents ≤ 0
    · rw [if_pos hk]
      refine Or.inl ⟨rfl, rfl, fun q' l hq' hkind hmax => ?_⟩
      obtain rfl := Option.some.inj (hq.symm.trans hq')
      exact absurd hk (by simp [hkind, hmax])
    obtain ⟨hkind, hmax⟩ := not_or.1 hk
    rw [if_neg hk]
    cases buffer with
    | false => exact Or.inl ⟨rfl, rfl, fun _ _ _ _ _ => nofun⟩
    | true =>
      cases o with
      | fail e => exact Or.inl ⟨rfl, rfl, fun _ _ _ _ _ _ => nofun⟩
      | batch l => exact Or.inr ⟨q, l, hq, by simpa using hkind, by omega, rfl, rfl, rfl⟩

end Kernel

end EventMachine
