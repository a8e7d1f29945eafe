import EventMachine.Registry.Agreement

/-!
# What a registration call leaves alone

A registration call changes at most one entry of the interest set and one entry of the storage. For
`event_machine_add()` and `event_machine_delete()` these have the same number. `event_machine_modify()` is
given a number and a descriptor, which has a number as well: it gives the first one to the storage, and
the second one to `epoll_ctl()`. `event-machine.h` asks the caller to pass the same number twice, and
nothing checks it.
-/

namespace EventMachine

open Lib

variable {σ ν : Type}

/-- The number of the entry a call changes in the interest set. -/
def RegCall.kernelFd (w : World σ) : RegCall → Int
  | .add ed => ctlFd w ed (-1)
  | .delete fd _ => fd
  | .modify _ ed _ => ctlFd w ed (-1)

/-- The number of the entry a call changes in the storage. -/
def RegCall.storageFd (w : World σ) : RegCall → Int
  | .add ed => ctlFd w ed (-1)
  | .delete fd _ => fd
  | .modify fd _ _ => fd

theorem RegCall.change_fd (w : World σ) (em : EMPtr) (c : RegCall) :
    (c.change w em).fd = c.kernelFd w := by
  cases c <;> rfl

/-- A storage whose callbacks change the entry of the number they are given only; `view` says what its
entries are. -/
structure EMDescriptorStorage.EntryWise (s : EMDescriptorStorage σ) (view : σ → Int → ν) : Prop where
  insert : ∀ f, s.insert = some f → ∀ fd p st n, n ≠ fd → view (f fd p st).2 n = view st n
  remove : ∀ f, s.remove = some f → ∀ fd st n, n ≠ fd → view (f fd st).2.2 n = view st n

namespace EMDescriptorStorage.EntryWise
variable {s : EMDescriptorStorage σ} {view : σ → Int → ν} {fd n : Int}

theorem insertEntry (h : s.EntryWise view) (hn : n ≠ fd) (p : EDRef) (st : σ) :
    view (s.insertEntry fd p st).2 n = view st n := by
  rcases s.insertEntry_cases fd p st with heq | ⟨f, hf, heq⟩
  · rw [heq]
  · rw [heq]
    exact h.insert f hf fd p st n hn

theorem removeEntry (h : s.EntryWise view) (hn : n ≠ fd) (st : σ) :
    view (s.removeEntry fd st).2.2 n = view st n := by
  rcases s.removeEntry_cases fd st with heq | ⟨f, hf, heq⟩
  · rw [heq]
  · rw [heq]
    exact h.remove f hf fd st n hn

end EMDescriptorStorage.EntryWise

theorem RegCall.store_frame {w : World σ} {em : EMPtr} {view : σ → Int → ν}
    (h : (w.ems em).descriptorStorage.EntryWise view) (c : RegCall) (st : σ) {n : Int}
    (hn : n ≠ c.storageFd w) : view ((c.change w em).store st).2 n = view st n := by
  cases c with
  | add ed => exact h.insertEntry hn ed st
  | delete fd oldEd => exact h.removeEntry hn st
  | modify fd ed oldEd =>
    have hremove := h.removeEntry hn st
    simp only [change, modifyChange]
    split
    · exact (h.insertEntry hn ed _).trans hremove
    · exact hremove

/-- Two worlds that differ at most in the entry of `kernelFd` in the interest set of `em`, and in the
entry of `storageFd` in the storage. -/
structure OnlyEntries (em : EMRef) (kernelFd storageFd : Int) (view : σ → Int → ν) (w w' : World σ) :
    Prop where
  interest : ∀ q n, w'.kernel.interest q n ≠ w.kernel.interest q n → n = kernelFd ∧
    ∃ m f, em = some m ∧ w.kernel.file (w.ems m).queueFd = some f ∧ f.id = q
  storage : ∀ n, view w'.storage n ≠ view w.storage n → n = storageFd

theorem Outcome.onlyEntries {w w' : World σ} {em : EMPtr} {c : RegCall} {r : UInt32 × OutVar}
    {view : σ → Int → ν} (h : Outcome w em (c.change w em) c.oldEd r w')
    (hs : (w.ems em).descriptorStorage.EntryWise view) :
    OnlyEntries (some em) (c.kernelFd w) (c.storageFd w) view w w' where
  interest q n hne := by
    obtain ⟨hn, f, hf, hid⟩ := h.interest_change hne
    exact ⟨hn.trans (c.change_fd w em), em, f, rfl, hf, hid⟩
  storage n hne := by
    by_contra hn
    cases h with
    | refused _ _ same => exact hne (by rw [World.storage_congr same.core])
    | done _ _ _ core =>
      apply hne
      rw [World.storage_congr core]
      exact c.store_frame hs w.storage hn

/-- A modification that reports success has given `epoll_ctl()` the number of its descriptor. -/
theorem Outcome.modified {w w' : World σ} {em : EMPtr} {fd : Int} {ed : EDRef} {oldEd : OutVar}
    {r : UInt32 × OutVar} (h : Outcome w em (modifyChange w em fd ed oldEd) oldEd r w')
    (hr : r.1 = EMResult.success.code) :
    ∃ q p, w.kernel.file (w.ems em).queueFd = some q ∧ ed = some p ∧
      w'.kernel.interest q.id (w.ed p).fd = some ⟨(w.ed p).events, some p⟩ := by
  obtain ⟨q, hcan, -, hcore⟩ := h.of_success hr
  cases ed with
  | none => exact absurd hcan.target (by simp [modifyChange, ctlFd, Kernel.file])
  | some p =>
    refine ⟨q, p, hcan.queue, rfl, ?_⟩
    rw [World.interest_congr hcore]
    simp [modifyChange, ctlFd, ctlEvent, World.setStorage, World.setInterest, Kernel.setInterest,
      Kernel.entryAfter]

/-- A registration call changes at most the entries of its number; a modification, whose descriptor may
be for another number than it is called with, the entry of the first in the interest set and the entry of
the second in the storage. -/
theorem registration_frame (w : World σ) (em : EMRef) (c : RegCall) (view : σ → Int → ν)
    (hs : ∀ m, em = some m → (w.ems m).descriptorStorage.EntryWise view) :
    ∃ r w', c.exec em w = .ok r w' ∧
      OnlyEntries em (c.kernelFd w) (c.storageFd w) view w w' ∧
      ∀ fd ed oldEd, c = .modify fd ed oldEd → r.1 = EMResult.success.code →
        ∃ m q p, em = some m ∧ w.kernel.file (w.ems m).queueFd = some q ∧ ed = some p ∧
          w'.kernel.interest q.id (w.ed p).fd = some ⟨(w.ed p).events, some p⟩ := by
  cases em with
  | none =>
    refine ⟨_, w, c.exec_null w, ⟨fun _ _ hne => absurd rfl hne, fun _ hne => absurd rfl hne⟩, ?_⟩
    intro fd ed oldEd _ hr
    exact absurd (show EMResult.errorNull.code = EMResult.success.code from hr) (by decide)
  | some m =>
    obtain ⟨r, w', hexec, hout⟩ := wp_total (c.spec w m)
    refine ⟨r, w', hexec, hout.onlyEntries (hs m rfl), fun fd ed oldEd hc hr => ?_⟩
    subst hc
    obtain ⟨q, p, hq, hed, hentry⟩ := hout.modified hr
    exact ⟨m, q, p, rfl, hq, hed, hentry⟩

theorem EMDescriptorStorage.entryWise_of_store (S : DescriptorStore σ) {s : EMDescriptorStorage σ}
    (hinsert : s.insert = some S.insert) (hremove : s.remove = some S.remove) : s.EntryWise S.view where
  insert f hf fd p st n hn := by
    obtain rfl := Option.some.inj (hinsert.symm.trans hf)
    rw [S.view_insert, Function.update_of_ne hn]
  remove f hf fd st n hn := by
    obtain rfl := Option.some.inj (hremove.symm.trans hf)
    rw [S.view_remove, Function.update_of_ne hn]

/-- A machine with the numbers 1 and 2 registered. All descriptors but one are for number 2. -/
def pairRegistered : World (List (Int × EDRef)) :=
  let w := registeredWorld ⟨some listStore.insert, some listStore.remove, 0, .null⟩
    [(1, some (.obj 1)), (2, some (.obj 2))]
  { w with
    kernel := { w.kernel with
      files := w.kernel.files ++ [some ⟨2, .other, .other, 0, false⟩]
      interest := fun q fd =>
        if q = 0 ∧ (fd = 1 ∨ fd = 2) then some ⟨EPOLLIN, some (.obj fd.toNat)⟩ else none
      next := 3 }
    descriptors := fun a => ⟨EPOLLIN, if a = 1 then 1 else 2, .null, some (.user 0)⟩ }

theorem registration_frame_pairRegistered :
    let c := RegCall.modify 1 (some (.obj 3)) none
    ∃ r w', c.exec (some 0) pairRegistered = .ok r w' ∧
      OnlyEntries (some 0) (c.kernelFd pairRegistered) (c.storageFd pairRegistered) listStore.view
        pairRegistered w' ∧
      ∀ fd ed oldEd, c = .modify fd ed oldEd → r.1 = EMResult.success.code →
        ∃ m q p, some 0 = some m ∧ pairRegistered.kernel.file (pairRegistered.ems m).queueFd = some q ∧
          ed = some p ∧ w'.kernel.interest q.id (pairRegistered.ed p).fd =
            some ⟨(pairRegistered.ed p).events, some p⟩ :=
  registration_frame pairRegistered (some 0) _ listStore.view fun _ _ =>
    EMDescriptorStorage.entryWise_of_store listStore rfl rfl

/-- Number 1 is given a descriptor for number 2: the entry of 2 in the interest set changes, and the entry
of 1 in the storage. -/
theorem not_own_entries :
    ¬ ∀ (w : World (List (Int × EDRef))) (em : EMPtr) (c : RegCall),
      (w.ems em).descriptorStorage.EntryWise listStore.view → ∀ r w', c.exec (some em) w = .ok r w' →
        OnlyEntries (some em) (c.storageFd w) (c.storageFd w) listStore.view w w' := by
  intro h
  have hown := h pairRegistered 0 (.modify 1 (some (.obj 3)) none)
    (EMDescriptorStorage.entryWise_of_store listStore rfl rfl) _ _ rfl
  have hfd := (hown.interest 0 2 (by decide)).1
  exact absurd hfd (by decide)

end EventMachine
