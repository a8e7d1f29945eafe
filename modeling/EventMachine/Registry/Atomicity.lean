import EventMachine.Proof.Registration

/-!
# Failed registration calls

A call that is refused changes nothing. A call whose `epoll_ctl()` succeeds asks the storage next, and
when that fails the code is returned as it is: nothing puts the entry of the interest set back, and in
`event_machine_modify()` nothing puts the removed entry of the storage back. `event_timer_create()`
relies on no more than that: it closes the descriptor after a failed add, which takes it out of the
interest set.
-/

namespace EventMachine

open Lib

variable {σ : Type}

/-- A storage whose failing callbacks change nothing. -/
structure EMDescriptorStorage.FailsClean (s : EMDescriptorStorage σ) : Prop where
  insert : ∀ f, s.insert = some f → ∀ fd p st, (f fd p st).1 ≠ EMResult.success.code →
    (f fd p st).2 = st
  remove : ∀ f, s.remove = some f → ∀ fd st, (f fd st).1 ≠ EMResult.success.code →
    (f fd st).2.2 = st

namespace EMDescriptorStorage.FailsClean
variable {s : EMDescriptorStorage σ} {fd : Int} {st : σ}

theorem insertEntry (h : s.FailsClean) {p : EDRef}
    (hr : (s.insertEntry fd p st).1 ≠ EMResult.success.code) : (s.insertEntry fd p st).2 = st :=
  InsertsClean.insertEntry h.insert hr

theorem removeEntry (h : s.FailsClean) (hr : (s.removeEntry fd st).1 ≠ EMResult.success.code) :
    (s.removeEntry fd st).2.2 = st := by
  rcases s.removeEntry_cases fd st with heq | ⟨f, hf, heq⟩
  · rw [heq]
  · rw [heq] at hr ⊢
    exact h.remove f hf fd st hr

end EMDescriptorStorage.FailsClean

/-- A failed call has changed neither registry. -/
def ErrorAtomic (w : World σ) (em : EMRef) (c : RegCall) : Prop :=
  ∀ r w', c.exec em w = .ok r w' → r.1 ≠ EMResult.success.code →
    w'.kernel.interest = w.kernel.interest ∧ w'.storage = w.storage

/-- The storage a failed storage step leaves: a removal is not undone when the insertion after it
fails. -/
def RegCall.left (s : EMDescriptorStorage σ) (st : σ) : RegCall → σ
  | .add _ => st
  | .delete _ _ => st
  | .modify fd _ _ => (s.removeEntry fd st).2.2

theorem RegCall.store_left {w : World σ} {em : EMPtr} (c : RegCall)
    (hs : (w.ems em).descriptorStorage.FailsClean) (st : σ)
    (hr : ((c.change w em).store st).1.1 ≠ EMResult.success.code) :
    ((c.change w em).store st).2 = c.left (w.ems em).descriptorStorage st := by
  cases c with
  | add ed => exact hs.insertEntry hr
  | delete fd oldEd => exact hs.removeEntry hr
  | modify fd ed oldEd =>
    simp only [change, modifyChange, left] at hr ⊢
    split at hr
    · next h =>
      rw [if_pos h]
      exact hs.insertEntry hr
    · next h => rw [if_neg h]

/-- What a failed registration call can leave behind. -/
theorem failed_registration (w : World σ) (em : EMRef) (c : RegCall)
    (hs : ∀ m, em = some m → (w.ems m).descriptorStorage.FailsClean) :
    ∃ r w', c.exec em w = .ok r w' ∧ (r.1 ≠ EMResult.success.code →
      (w'.kernel.interest = w.kernel.interest ∧ w'.storage = w.storage) ∨
      ∃ m q, em = some m ∧
        w.kernel.CanCtl (w.ems m).queueFd (c.change w m).op (c.change w m).fd q ∧
        r = ((c.change w m).store w.storage).1 ∧
        w'.kernel.interest = (w.kernel.setInterest q.id (c.change w m).fd
          (Kernel.entryAfter (c.change w m).op (c.change w m).event)).interest ∧
        w'.storage = c.left (w.ems m).descriptorStorage w.storage) := by
  cases em with
  | none => exact ⟨_, w, c.exec_null w, fun _ => Or.inl ⟨rfl, rfl⟩⟩
  | some m =>
    obtain ⟨r, w', hrun, hout⟩ := wp_total (c.spec w m)
    refine ⟨r, w', hrun, fun hr => ?_⟩
    cases hout with
    | refused _ _ same =>
      exact Or.inl ⟨World.interest_congr same.core, World.storage_congr same.core⟩
    | done q can code core =>
      refine Or.inr ⟨m, q, rfl, can, code, World.interest_congr core, ?_⟩
      rw [code] at hr
      exact (World.storage_congr core).trans (c.store_left (hs m rfl) w.storage hr)

/-- A storage that never finds anything. -/
def forgetfulStorage : EMDescriptorStorage Unit where
  insert := none
  remove := some fun _ st => (EMResult.errorStorageNoSuchEntry.code, none, st)
  dataSize := 0
  data := .null

theorem forgetfulStorage_failsClean : forgetfulStorage.FailsClean :=
  ⟨nofun, fun _ _ _ _ _ => rfl⟩

theorem failed_registration_forgetful :
    let w := registeredWorld forgetfulStorage ()
    let c := RegCall.delete 1 none
    ∃ r w', c.exec (some 0) w = .ok r w' ∧ (r.1 ≠ EMResult.success.code →
      (w'.kernel.interest = w.kernel.interest ∧ w'.storage = w.storage) ∨
      ∃ m q, some 0 = some m ∧
        w.kernel.CanCtl (w.ems m).queueFd (c.change w m).op (c.change w m).fd q ∧
        r = ((c.change w m).store w.storage).1 ∧
        w'.kernel.interest = (w.kernel.setInterest q.id (c.change w m).fd
          (Kernel.entryAfter (c.change w m).op (c.change w m).event)).interest ∧
        w'.storage = c.left (w.ems m).descriptorStorage w.storage) :=
  failed_registration _ (some 0) (.delete 1 none) fun _ _ => forgetfulStorage_failsClean

/-- A delete whose storage step fails leaves the descriptor out of the interest set. -/
theorem not_errorAtomic :
    ¬ ∀ (w : World Unit) (em : EMRef) (c : RegCall),
      (∀ m, em = some m → (w.ems m).descriptorStorage.FailsClean) → ErrorAtomic w em c := by
  intro h
  have hatomic := h (registeredWorld forgetfulStorage ()) (some 0) (.delete 1 none)
    fun _ _ => forgetfulStorage_failsClean
  obtain ⟨hinterest, -⟩ := hatomic _ _ rfl (by decide)
  exact absurd (congrFun (congrFun hinterest 0) 1) (by decide)

end EventMachine
