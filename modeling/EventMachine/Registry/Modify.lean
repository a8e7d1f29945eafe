import EventMachine.Proof.Registration

/-!
# Modify is delete, then add

`event-machine.h` describes `event_machine_modify()` as a delete followed by an add that uses one
`epoll_ctl()` only. The two paths meet after both kernel steps, since the entry `EPOLL_CTL_DEL` leaves
and `EPOLL_CTL_ADD` fills again is the one `EPOLL_CTL_MOD` overwrites; and the storage callbacks are
asked in the same order with the same arguments on both.
-/

namespace EventMachine

open Lib

variable {σ : Type}

/-- The slow path, with the codes of both calls. -/
def deleteThenAdd (em : EMRef) (fd : Int) (ed : EDRef) (oldEd : OutVar) :
    Sys σ (UInt32 × UInt32 × OutVar) := do
  let (deleted, oldEd) ← eventMachineDelete em fd oldEd
  let added ← eventMachineAdd em ed
  return (deleted, added, oldEd)

theorem modifyChange_store (w : World σ) (em : EMPtr) (fd : Int) (ed : EDRef) (oldEd : OutVar)
    (st : σ) :
    let s := (w.ems em).descriptorStorage
    let (removed, tmpEd, st') := s.removeEntry fd st
    let (inserted, st'') := s.insertEntry fd ed st'
    (((modifyChange w em fd ed oldEd).store st).1.1 = EMResult.success.code ↔
      removed = EMResult.success.code ∧ inserted = EMResult.success.code) ∧
    (removed = EMResult.success.code →
      ((modifyChange w em fd ed oldEd).store st) = ((inserted, assignOld tmpEd oldEd), st'')) := by
  simp only [modifyChange, isEmSuccess_iff]
  split <;> simp [*]

theorem canCtl_mod_iff_del {k : Kernel} {queueFd fd : Int} {q : File} :
    k.CanCtl queueFd .mod fd q ↔ k.CanCtl queueFd .del fd q :=
  ⟨fun h => ⟨h.queue, h.epoll, h.target, h.other, h.fits⟩,
    fun h => ⟨h.queue, h.epoll, h.target, h.other, h.fits⟩⟩

theorem canCtl_add_of_del {w w' : World σ} {queueFd fd : Int} {q : File} {st : σ}
    (h : w.kernel.CanCtl queueFd .del fd q)
    (hw' : w'.core = ((w.setInterest q.id fd none).setStorage st).core) :
    w'.kernel.CanCtl queueFd .add fd q := by
  refine Kernel.CanCtl.congr (World.kernel_core hw').symm ⟨h.queue, h.epoll, h.target, h.other, ?_⟩
  simp [World.setStorage, World.setInterest, Kernel.setInterest, Kernel.Fits]

theorem setInterest_twice (w : World σ) (q : ObjId) (fd : Int) (e e' : Option EpollEvent)
    (st st' : σ) :
    (((w.setInterest q fd e).setStorage st).setInterest q fd e').setStorage st' =
      (w.setInterest q fd e').setStorage st' := by
  simp [World.setInterest, World.setStorage, Kernel.setInterest]

/-- The state between the two calls of the slow path. -/
structure Deleted (w : World σ) (em : EMPtr) (p : EDPtr) (q : File) (w' : World σ) : Prop where
  queue : w.kernel.file (w.ems em).queueFd = some q
  ems : w'.ems = w.ems
  ed : w'.ed p = w.ed p
  can : w'.kernel.CanCtl (w'.ems em).queueFd .add (w'.ed p).fd q
  core : w'.core = ((w.setInterest q.id (w.ed p).fd none).setStorage
    ((w.ems em).descriptorStorage.removeEntry (w.ed p).fd w.storage).2.2).core

theorem Deleted.of_delete {w w' : World σ} {em : EMPtr} {p : EDPtr} {oldEd : OutVar}
    {r : UInt32 × OutVar}
    (h : Outcome w em (deleteChange w em (w.ed p).fd oldEd) oldEd r w')
    (hr : r.1 = EMResult.success.code) :
    ∃ q, Deleted w em p q w' ∧ r.2 =
      assignOld ((w.ems em).descriptorStorage.removeEntry (w.ed p).fd w.storage).2.1 oldEd := by
  obtain ⟨q, hq, hcode, hcore⟩ := h.of_success hr
  have hems : w'.ems = w.ems := congrArg (·.ems) hcore
  have hed : w'.ed p = w.ed p := World.ed_congr (w := (w.setInterest _ _ _).setStorage _) hcore p
  refine ⟨q, ⟨hq.queue, hems, hed, ?_, hcore⟩, congrArg (·.2) hcode⟩
  rw [hems, hed]
  exact canCtl_add_of_del hq hcore

theorem Deleted.store {w w' : World σ} {em : EMPtr} {p : EDPtr} {q : File}
    (h : Deleted w em p q w') :
    let s := (w.ems em).descriptorStorage
    let (_, _, st) := s.removeEntry (w.ed p).fd w.storage
    let (inserted, st') := s.insertEntry (w.ed p).fd (some p) st
    (addChange w' em (some p)).store w'.storage = ((inserted, none), st') := by
  have hst : w'.storage = _ := congrArg (·.storage) h.core
  simp only [addChange, ctlFd, h.ems, h.ed, hst]
  rfl

/-- Both steps of the slow path together change what the fast path changes. -/
theorem Deleted.add_core {w w' w'' : World σ} {em : EMPtr} {p : EDPtr} {q : File} {r : UInt32}
    (h : Deleted w em p q w') (hadd : Outcome w' em (addChange w' em (some p)) none (r, none) w'')
    (hr : r = EMResult.success.code) :
    w''.core = ((w.setInterest q.id (w.ed p).fd (some ⟨(w.ed p).events, some p⟩)).setStorage
      ((addChange w' em (some p)).store w'.storage).2).core := by
  obtain ⟨q', hq', -, hcore⟩ := hadd.of_success hr
  obtain rfl : q' = q := Option.some.inj (hq'.queue.symm.trans h.can.queue)
  rw [hcore]
  show ((w'.setInterest q'.id (w'.ed p).fd (some ⟨(w'.ed p).events, some p⟩)).setStorage _).core = _
  rw [h.ed, World.setStorage_congr (World.setInterest_congr h.core _ _ _), setInterest_twice]

theorem modify_iff_delete_then_add (w : World σ) (em : EMRef) (fd : Int) (p : EDPtr) (old : EDRef)
    (hf : w.kernel.FaultFree) (hfd : (w.ed p).fd = fd) :
    ∃ r₁ o₁ w₁ deleted added o₂ w₂,
      eventMachineModify em fd (some p) (some old) w = .ok (r₁, o₁) w₁ ∧
      deleteThenAdd em fd (some p) (some old) w = .ok (deleted, added, o₂) w₂ ∧
      (r₁ = EMResult.success.code ↔
        deleted = EMResult.success.code ∧ added = EMResult.success.code) ∧
      (r₁ = EMResult.success.code →
        w₁.kernel.interest = w₂.kernel.interest ∧ w₁.storage = w₂.storage ∧ o₁ = o₂) := by
  subst hfd
  cases em with
  | none =>
    refine ⟨_, _, _, _, _, _, _, rfl, rfl, ?_, ?_⟩ <;> simp
  | some em =>
    obtain ⟨⟨r₁, o₁⟩, w₁, h₁, hmod⟩ := wp_total (modify_spec w em (w.ed p).fd (some p) (some old))
    obtain ⟨⟨r₂, o₂⟩, w₂, h₂, hdel⟩ := wp_total (delete_spec w em (w.ed p).fd (some old))
    obtain ⟨r₃, w₂', h₂', hadd⟩ := wp_total (add_spec w₂ em (some p))
    have hrun : deleteThenAdd (some em) (w.ed p).fd (some p) (some old) w =
        .ok (r₂, r₃, o₂) w₂' := by
      simp [deleteThenAdd, bind, EStateM.bind, h₂, h₂', pure, EStateM.pure]
    obtain ⟨hcode, hstore⟩ := modifyChange_store w em (w.ed p).fd (some p) (some old) w.storage
    have hiff : r₁ = EMResult.success.code ↔
        r₂ = EMResult.success.code ∧ r₃ = EMResult.success.code := by
      rw [hmod.success_iff hf rfl, hcode]
      constructor
      · rintro ⟨⟨q, hq⟩, hremoved, hinserted⟩
        have hr₂ := (hdel.success_iff hf rfl).2 ⟨⟨q, canCtl_mod_iff_del.1 hq⟩, hremoved⟩
        obtain ⟨q', hmid, -⟩ := Deleted.of_delete hdel hr₂
        refine ⟨hr₂, (hadd.success_iff (hdel.keeps_faultFree hf) rfl).2 ⟨⟨q', hmid.can⟩, ?_⟩⟩
        rw [hmid.store]
        exact hinserted
      · rintro ⟨hr₂, hr₃⟩
        obtain ⟨⟨q, hq⟩, hremoved⟩ := (hdel.success_iff hf rfl).1 hr₂
        obtain ⟨q', hmid, -⟩ := Deleted.of_delete hdel hr₂
        obtain ⟨-, hinserted⟩ := (hadd.success_iff (hdel.keeps_faultFree hf) rfl).1 hr₃
        rw [hmid.store] at hinserted
        exact ⟨⟨q, canCtl_mod_iff_del.2 hq⟩, hremoved, hinserted⟩
    refine ⟨r₁, o₁, w₁, r₂, r₃, o₂, w₂', h₁, hrun, hiff, fun hr₁ => ?_⟩
    obtain ⟨hr₂, hr₃⟩ := hiff.1 hr₁
    obtain ⟨q, hq, hro, hcore₁⟩ := hmod.of_success hr₁
    obtain ⟨q', hmid, ho₂⟩ := Deleted.of_delete hdel hr₂
    obtain rfl : q' = q := Option.some.inj (hmid.queue.symm.trans hq.queue)
    obtain ⟨hremoved, -⟩ := hcode.1 (by rw [← hro]; exact hr₁)
    have hcore₂ := hmid.add_core hadd hr₃
    rw [hmid.store] at hcore₂
    rw [hstore hremoved] at hro hcore₁
    have hcore : w₁.core = w₂'.core := hcore₁.trans hcore₂.symm
    exact ⟨World.interest_congr hcore, World.storage_congr hcore, (congrArg (·.2) hro).trans ho₂.symm⟩

theorem modify_iff_delete_then_add_registered :
    let w := registeredWorld ⟨none, none, 0, .null⟩ ()
    ∃ r₁ o₁ w₁ deleted added o₂ w₂,
      eventMachineModify (some 0) 1 (some (.obj 1)) (some none) w = .ok (r₁, o₁) w₁ ∧
      deleteThenAdd (some 0) 1 (some (.obj 1)) (some none) w = .ok (deleted, added, o₂) w₂ ∧
      (r₁ = EMResult.success.code ↔
        deleted = EMResult.success.code ∧ added = EMResult.success.code) ∧
      (r₁ = EMResult.success.code →
        w₁.kernel.interest = w₂.kernel.interest ∧ w₁.storage = w₂.storage ∧ o₁ = o₂) :=
  modify_iff_delete_then_add _ (some 0) 1 (.obj 1) none ⟨fun _ => rfl, fun _ _ => rfl⟩ rfl

end EventMachine
