import EventMachine.Registry.Frame

/-!
# The same registration calls in two worlds

A registration call looks at its queue, at the numbers it is about and at its entries. Two worlds that
agree there (`Change.Agrees`) refuse it both or make the same change both (`RegCall.parallel`), and the
storage of each answers it alike when the entries under its number are the same (`RegCall.store_alike`).
-/

namespace EventMachine

open Lib

variable {σ : Type}

/-! ## One change in two worlds -/

/-- The same change is asked for in two worlds, and either nothing happens or both make it. -/
inductive Parallel (v w : World σ) (em : EMPtr) (c : Change σ) (r r' : UInt32 × OutVar)
    (v' w' : World σ) : Prop
  | refused (code : r = r') (left : Same v v') (right : Same w w')
  | done (q : File) (can : v.kernel.CanCtl (v.ems em).queueFd c.op c.fd q)
      (code : r = (c.store v.storage).1) (code' : r' = (c.store w.storage).1)
      (left : v'.core = ((v.setInterest q.id c.fd (Kernel.entryAfter c.op c.event)).setStorage
        (c.store v.storage).2).core)
      (right : w'.core = ((w.setInterest q.id c.fd (Kernel.entryAfter c.op c.event)).setStorage
        (c.store w.storage).2).core)

/-- Two worlds in which the same stands in the way of a change. -/
structure Change.Agrees (c : Change σ) (v w : World σ) (em : EMPtr) : Prop where
  passes : w.kernel.Passes (w.ems em).queueFd c.checked ↔ v.kernel.Passes (v.ems em).queueFd c.checked
  unhindered : w.kernel.Unhindered c.op ↔ v.kernel.Unhindered c.op
  can : ∀ q, w.kernel.CanCtl (w.ems em).queueFd c.op c.fd q ↔ v.kernel.CanCtl (v.ems em).queueFd c.op c.fd q

namespace Change.Agrees
variable {c : Change σ} {v w : World σ} {em : EMPtr}

theorem reaches (h : c.Agrees v w em) : Reaches w em c ↔ Reaches v em c := by
  constructor
  · rintro ⟨hpasses, hunhindered, q, hq⟩
    exact ⟨h.passes.1 hpasses, h.unhindered.1 hunhindered, q, (h.can q).1 hq⟩
  · rintro ⟨hpasses, hunhindered, q, hq⟩
    exact ⟨h.passes.2 hpasses, h.unhindered.2 hunhindered, q, (h.can q).2 hq⟩

theorem refusal (h : c.Agrees v w em) (hdata : c.op = .add → c.event.data ≠ none) {r r' : UInt32}
    (hr : Refusal v em c r) (hr' : Refusal w em c r') : r = r' := by
  rcases hr.cause hdata with ⟨rfl, hfails⟩ | ⟨rfl, hpass⟩
  · rcases hr'.cause hdata with ⟨rfl, -⟩ | ⟨-, hpass'⟩
    · rfl
    · exact absurd (h.passes.1 hpass') hfails
  · rcases hr'.cause hdata with ⟨-, hfails'⟩ | ⟨rfl, -⟩
    · exact absurd (h.passes.2 hpass) hfails'
    · rfl

theorem parallel (h : c.Agrees v w em) (hdata : c.op = .add → c.event.data ≠ none) {oldEd : OutVar}
    {r r' : UInt32 × OutVar} {v' w' : World σ} (hleft : Outcome v em c oldEd r v')
    (hright : Outcome w em c oldEd r' w') : Parallel v w em c r r' v' w' := by
  cases hleft with
  | refused why old same =>
    cases hright with
    | refused why' old' same' =>
      exact .refused (Prod.ext (h.refusal hdata why why') (old.trans old'.symm)) same same'
    | done _ _ _ _ _ reached' => exact absurd (h.reaches.1 reached') why.not_reaches
  | done q can code core _ reached =>
    cases hright with
    | refused why' => exact absurd (h.reaches.2 reached) why'.not_reaches
    | done q' can' code' core' =>
      obtain rfl : q' = q := Option.some.inj (((h.can q').1 can').queue.symm.trans can.queue)
      exact .done q' can code code' core core'

end Change.Agrees

theorem RegCall.parallel {c : RegCall} {v w w' : World σ} {em : EMPtr} {r' : UInt32 × OutVar}
    (hchange : c.change w em = c.change v em) (h : (c.change v em).Agrees v w em)
    (hexec : c.exec (some em) w = .ok r' w') :
    ∃ r v', c.exec (some em) v = .ok r v' ∧ Parallel v w em (c.change v em) r r' v' w' := by
  by_cases hnull : c = .add none
  · subst hnull
    obtain ⟨rfl, rfl⟩ := EStateM.Result.ok.inj hexec
    exact ⟨_, v, rfl, .refused rfl (.refl v) (.refl w)⟩
  have hdata : (c.change v em).op = .add → (c.change v em).event.data ≠ none := by
    intro hop
    cases c with
    | add ed =>
      intro hed
      have hnone : ed = none := hed
      exact hnull (by rw [hnone])
    | delete fd oldEd => cases hop
    | modify fd ed oldEd => cases hop
  have hright := wp_ok (c.spec w em) hexec
  rw [hchange] at hright
  obtain ⟨r, v', hexec', hleft⟩ := wp_total (c.spec v em)
  exact ⟨r, v', hexec', h.parallel hdata hleft hright⟩

/-- Two worlds in which the queue and the numbers a change is about are the same. -/
structure Change.Alike (c : Change σ) (v w : World σ) (em : EMPtr) : Prop where
  queueFd : (w.ems em).queueFd = (v.ems em).queueFd
  queue : w.kernel.file (v.ems em).queueFd = v.kernel.file (v.ems em).queueFd
  checked : w.kernel.file c.checked = v.kernel.file c.checked
  target : w.kernel.file c.fd = v.kernel.file c.fd
  entry : ∀ q, w.kernel.interest q c.fd = v.kernel.interest q c.fd

namespace Change.Alike
variable {c : Change σ} {v w : World σ} {em : EMPtr}

theorem symm (h : c.Alike v w em) : c.Alike w v em where
  queueFd := h.queueFd.symm
  queue := by rw [h.queueFd, h.queue]
  checked := h.checked.symm
  target := h.target.symm
  entry q := (h.entry q).symm

theorem can (h : c.Alike v w em) {q : File} (hq : w.kernel.CanCtl (w.ems em).queueFd c.op c.fd q) :
    v.kernel.CanCtl (v.ems em).queueFd c.op c.fd q where
  queue := by rw [← h.queue, ← h.queueFd]; exact hq.queue
  epoll := hq.epoll
  target := by rw [← h.target]; exact hq.target
  other := by rw [← h.queueFd]; exact hq.other
  fits := by rw [← h.entry]; exact hq.fits

theorem agrees (h : c.Alike v w em) (hv : v.kernel.FaultFree) (hw : w.kernel.FaultFree) :
    c.Agrees v w em where
  passes := by rw [hv.passes, hw.passes, h.queueFd, h.queue, h.checked]
  unhindered := iff_of_true (hw.unhindered _) (hv.unhindered _)
  can _ := ⟨h.can, h.symm.can⟩

end Change.Alike

/-! ## The storage -/

/-- The storage answers a call alike in two states that differ under other numbers only, and they go on
to differ there only. -/
theorem RegCall.store_alike {S : DescriptorStore σ} (hS : S.Local) {w : World σ} {em : EMPtr}
    (hinsert : (w.ems em).descriptorStorage.insert = some S.insert)
    (hremove : (w.ems em).descriptorStorage.remove = some S.remove) {N : Set Int} {st st' : σ}
    (hst : S.AgreeOff N st' st) {c : RegCall} (hc : c.storageFd w ∉ N) :
    ((c.change w em).store st).1 = ((c.change w em).store st').1 ∧
      S.AgreeOff N ((c.change w em).store st').2 ((c.change w em).store st).2 := by
  have hinsert := EMDescriptorStorage.insertEntry_of_some hinsert
  have hremove := EMDescriptorStorage.removeEntry_of_some hremove
  cases c with
  | add ed =>
    have hcode := hS.insert st' st (ctlFd w ed (-1)) ed (hst _ hc)
    simp only [RegCall.change, addChange, hinsert, hcode]
    exact ⟨trivial, hst.insert hc ed⟩
  | delete fd oldEd =>
    obtain ⟨hcode, hold⟩ := hS.remove st' st fd (hst fd hc)
    simp only [RegCall.change, deleteChange, hremove, hcode, hold]
    exact ⟨trivial, hst.remove fd⟩
  | modify fd ed oldEd =>
    obtain ⟨hcode, hold⟩ := hS.remove st' st fd (hst fd hc)
    simp only [RegCall.change, modifyChange, hremove, hinsert, hcode, hold]
    have hst₁ := hst.remove fd
    split
    · have hcode₁ := hS.insert _ _ fd ed (hst₁ fd hc)
      simp only [hcode₁]
      exact ⟨trivial, hst₁.insert hc ed⟩
    · exact ⟨rfl, hst₁⟩

end EventMachine
