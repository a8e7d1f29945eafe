import EventMachine.Proof.Invariant
import EventMachine.Proof.Untimed

/-!
# Entries belong to open descriptors

In every state of the kernel a program can reach, different numbers refer to different objects, and an
interest set has entries for open numbers only, since closing a number takes it out of all of them. A
number that is handed out therefore has no entry anywhere, and neither does a queue that is new.
-/

namespace EventMachine

open Lib

variable {σ : Type}

namespace Kernel

/-- Numbers and entries of a kernel as they can come about. -/
structure Consistent (k : Kernel) : Prop where
  numbered : k.Numbered
  entries : ∀ q fd, k.interest q fd ≠ none → (k.file fd).isSome ∧ q < k.next

namespace Consistent
variable {k k' : Kernel}

theorem no_entry (h : k.Consistent) {fd : Int} (hfd : k.file fd = none) (q : ObjId) :
    k.interest q fd = none := by
  by_contra hne
  have hopen := (h.entries q fd hne).1
  simp [hfd] at hopen

theorem no_entries (h : k.Consistent) (fd : Int) : k.interest k.next fd = none := by
  by_contra hne
  exact absurd (h.entries k.next fd hne).2 (Nat.lt_irrefl _)

theorem lt_next (h : k.Consistent) {fd : Int} {f : File} (hf : k.file fd = some f) : f.id < k.next :=
  h.numbered.lt fd f.identity (by rw [hf, Option.map_some])

theorem of_identity (h : k.Consistent)
    (hfile : ∀ n, (k'.file n).map File.identity = (k.file n).map File.identity)
    (hinterest : k'.interest = k.interest) (hnext : k'.next = k.next) : k'.Consistent := by
  refine ⟨h.numbered.of_identity hfile hnext, fun q fd he => ?_⟩
  rw [hinterest] at he
  obtain ⟨hopen, hlt⟩ := h.entries q fd he
  refine ⟨?_, by rwa [hnext]⟩
  have hsome := congrArg Option.isSome (hfile fd)
  rwa [Option.isSome_map, Option.isSome_map, hopen] at hsome

theorem of_core (h : k.Consistent) (hc : k'.core = k.core) : k'.Consistent :=
  h.of_identity (fun n => by rw [file_congr hc]) (interest_congr hc) (congrArg (·.next) hc)

theorem of_still (h : k.Consistent) (hs : k'.still = k.still) : k'.Consistent :=
  h.of_identity (fun n => by rw [file_still hs]) (congrArg (·.interest) hs) (congrArg (·.next) hs)

theorem of_flags (h : k.Consistent) (hf : FlagsOnly k k') : k'.Consistent :=
  h.of_identity hf.1 (congrArg (·.interest) hf.2) (congrArg (·.next) hf.2)

theorem opens (h : k.Consistent) {fd : Int} {f : File} (ho : k.Opens fd f k')
    (hinterest : ∀ q n, k'.interest q n ≠ none → k.interest q n ≠ none) : k'.Consistent := by
  refine ⟨h.numbered.opens ho, fun q n he => ?_⟩
  obtain ⟨hopen, hlt⟩ := h.entries q n (hinterest q n he)
  rw [ho.file, ho.next]
  refine ⟨?_, Nat.lt_succ_of_lt hlt⟩
  split
  · rfl
  · exact hopen

theorem closeFile (h : k.Consistent) {fd : Int} {f : File} (hf : k.file fd = some f) :
    (k.closeFile fd f).Consistent := by
  refine ⟨h.numbered.closes (fun n => closeFile_file hf n) rfl, fun q n he => ?_⟩
  simp only [Kernel.closeFile] at he
  split at he
  · exact absurd rfl he
  · next hor =>
    rw [closeFile_file hf, if_neg fun hn => hor (Or.inr hn)]
    exact h.entries q n he

theorem setInterest (h : k.Consistent) {q : ObjId} {fd : Int} {e : Option EpollEvent}
    (hq : q < k.next) (hfd : (k.file fd).isSome) : (k.setInterest q fd e).Consistent := by
  refine ⟨h.numbered.of_identity (fun _ => rfl) rfl, fun q' n he => ?_⟩
  show (k.file n).isSome ∧ q' < k.next
  simp only [Kernel.setInterest, Function.update_apply] at he
  split at he
  · next hq' =>
    subst hq'
    rw [Function.update_apply] at he
    split at he
    · next hn => exact ⟨by rwa [hn], hq⟩
    · exact h.entries _ n he
  · exact h.entries q' n he

end Consistent

theorem consistent_invariant : KernelInvariant Consistent where
  errno k e h := h.of_core rfl
  malloc k h := h.of_core rfl
  close k fd h := by
    rcases close_cases k fd with ⟨-, -, hcore⟩ | ⟨f, hf, hcore, -⟩
    · exact h.of_core hcore
    · exact (h.closeFile hf).of_core hcore
  pipe k owner pipe2 h := by
    rcases pipe_cases k owner pipe2 with ⟨-, -, hcore⟩ | ⟨-, -, r, w, k₁, k₂, h₁, h₂, hrest⟩
    · exact h.of_core hcore
    · obtain ⟨-, -, -, -, hinterest, -, -, -, hflags⟩ := hrest
      have hk₂ : k₂.Consistent := by
        refine ⟨(h.numbered.opens h₁).opens h₂, fun q n he => ?_⟩
        rw [hinterest] at he
        obtain ⟨hopen, hlt⟩ := h.entries q n he
        rw [h₂.next, h₁.next, h₂.file, h₁.file]
        refine ⟨?_, Nat.lt_succ_of_lt (Nat.lt_succ_of_lt hlt)⟩
        split_ifs
        · rfl
        · rfl
        · exact hopen
      exact hk₂.of_flags hflags
  fcntlGetfl k fd h := h.of_core (fcntlGetfl_core k fd)
  fcntlSetfl k fd flags h := h.of_flags (fcntlSetfl_flagsOnly k fd flags)
  epollCreate k owner h := by
    rcases epollCreate_cases k owner with ⟨-, -, hcore⟩ | ⟨-, q, hopens, -, -, hinterest, -⟩
    · exact h.of_core hcore
    · apply h.opens hopens
      intro q' n he
      rw [hinterest, Function.update_apply] at he
      split at he
      · exact absurd rfl he
      · exact he
  epollCtl k epfd op fd ev h := by
    rcases epollCtl_cases k epfd op fd ev with ⟨-, q, hcan, hcore⟩ | ⟨-, hcore, -⟩
    · exact (h.setInterest (h.lt_next hcan.queue) hcan.target).of_core hcore
    · exact h.of_core hcore
  epollWait k epfd n buffer o h := by
    rcases epollWait_cases k epfd n buffer o with ⟨-, hcore, -⟩ | ⟨q, l, -, -, -, -, -, heq⟩
    · exact h.of_core hcore
    · rwa [heq]
  readByte k fd h := by
    rcases readByte_cases k fd with ⟨-, hcore⟩ | ⟨f, p, -, -, -, -, hcore⟩
    · exact h.of_core hcore
    · exact h.of_still (congrArg (fun k : Kernel =>
        { k with bytes := fun _ => 0, timerfds := fun _ => ⟨none, 0⟩ }) hcore)
  writeByte k fd h := h.of_still (writeByte_still k fd).1
  timerfdCreate k owner h := by
    rcases timerfdCreate_cases k owner with ⟨-, hcore⟩ | ⟨f, hmade⟩
    · exact h.of_core hcore
    · exact h.opens hmade.opens fun q n he => by rwa [hmade.interest] at he
  timerfdSettime k fd new h := by
    rcases timerfdSettime_cases k fd new with ⟨-, hcore⟩ | ⟨f, -, -, -, hcore⟩
    · exact h.of_core hcore
    · exact h.of_still (congrArg (fun k : Kernel =>
        { k with bytes := fun _ => 0, timerfds := fun _ => ⟨none, 0⟩ }) hcore)
  readExpirations k fd h := h.of_still (readExpirations_still k fd)
  openFile k owner kind status cloexec h := by
    have hopens : k.Opens k.files.lowest ⟨k.next, kind, owner, status, cloexec⟩
        (k.openFile owner kind status cloexec).2 := Opens.of_files rfl rfl rfl
    exact h.opens hopens fun _ _ he => he
  expire k o h := by
    refine h.of_identity (fun n => by rw [expire_file]) ?_ ?_ <;> unfold Kernel.expire <;>
      split <;> rfl

end Kernel

theorem start_consistent (m : EM σ) (st : σ) (faults : Syscall → Nat → Option Errno) :
    (World.start m st faults).kernel.Consistent :=
  ⟨start_numbered m st faults, fun _ _ he => absurd rfl he⟩

end EventMachine
