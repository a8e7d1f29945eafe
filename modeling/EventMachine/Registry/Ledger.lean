import EventMachine.Lib.Contents
import EventMachine.Registry.Agreement

/-!
# Descriptors are handed back once

The caller owns the event descriptors, and frees one when `event_machine_delete()` or
`event_machine_modify()` writes its address through `old_ed`. The calls keep the books of this: what
has been handed back and what the storage holds are together what successful calls have been given
(`Ledger`). When no descriptor is given twice, one that is handed back is therefore not in the storage
any more, nor in the interest set, with which the storage agrees.
-/

namespace EventMachine

open Lib

variable {σ : Type}

/-- A registration call with its result and the caller's variable after it, or an action of the
environment. -/
inductive LedgerAct
  | call (c : RegCall) (r : UInt32 × OutVar)
  | env (e : Env)

/-- The descriptor a successful call has been given. -/
def LedgerAct.passed : LedgerAct → List EDRef
  | .call (.add ed) r | .call (.modify _ ed _) r => if r.1 = EMResult.success.code then [ed] else []
  | _ => []

/-- The descriptor a call has written to the caller's variable. -/
def LedgerAct.returned : LedgerAct → List EDRef
  | .call _ (_, some (some p)) => [some p]
  | _ => []

/-- The caller's variable is there, and `NULL` beforehand. -/
def RegCall.Preset : RegCall → Prop
  | .add _ => True
  | .delete _ oldEd | .modify _ _ oldEd => oldEd = some none

/-- A run in which machine `em` is used to register descriptors, with a variable for the old one. -/
def LedgerStep (em : EMPtr) (w : World σ) (a : LedgerAct) (w' : World σ) : Prop :=
  match a with
  | .call c r => c.Proper w em ∧ c.Preset ∧ c.exec (some em) w = .ok r w'
  | .env e => Registering em w (.env e) ∧ w' = e.exec w

/-- What has been handed back and what is stored is together what has been given. -/
structure Ledger (S : DescriptorStore σ) (w : World σ) (em : EMPtr) (returned passed : List EDRef) :
    Prop where
  stored : ∃ fds, Lists (S.view w.storage) fds ∧
    (returned ++ fds.filterMap (S.view w.storage)).Perm passed
  own : some (.breakLoop em) ∉ returned

section steps
variable {S : DescriptorStore σ} {w w' : World σ} {em : EMPtr} {q : File}
  {returned passed : List EDRef}

theorem Ledger.same (h : Ledger S w em returned passed) (hs : w'.storage = w.storage) :
    Ledger S w' em returned passed := by
  obtain ⟨hstored, hown⟩ := h
  refine ⟨?_, hown⟩
  rwa [hs]

theorem Agreement.stored_ne (h : Agreement S w em q) {fd : Int} {ptr : EDRef}
    (hv : S.view w.storage fd = some ptr) : ptr ≠ some (.breakLoop em) := by
  rintro rfl
  obtain ⟨p, hp, hfd⟩ := h.key fd _ hv
  obtain rfl := Option.some.inj hp
  have hbreak : w.breakFd em = fd := hfd
  rw [← hbreak, h.notStored] at hv
  exact absurd hv (by simp)

theorem Ledger.add (h : Ledger S w em returned passed) {fd : Int} {ed : EDRef}
    (hfree : S.view w.storage fd = none)
    (hview : S.view w'.storage = Function.update (S.view w.storage) fd (some ed)) :
    Ledger S w' em returned (passed ++ [ed]) := by
  obtain ⟨⟨fds, hfds, hperm⟩, hown⟩ := h
  obtain ⟨hlists, hcontents⟩ := hfds.insert hfree ed
  refine ⟨⟨fd :: fds, by rwa [hview], ?_⟩, hown⟩
  rw [hview, hcontents]
  exact (List.perm_middle.trans (hperm.cons ed)).trans (List.perm_append_singleton ed passed).symm

theorem Ledger.remove (h : Ledger S w em returned passed) {fd : Int} {ptr : EDRef}
    (hptr : S.view w.storage fd = some ptr) (hne : ptr ≠ some (.breakLoop em))
    (hview : S.view w'.storage = Function.update (S.view w.storage) fd none) :
    Ledger S w' em (returned ++ [ptr]) passed := by
  obtain ⟨⟨fds, hfds, hperm⟩, hown⟩ := h
  obtain ⟨hlists, hcontents⟩ := hfds.remove hptr
  refine ⟨⟨fds.erase fd, by rwa [hview], ?_⟩, ?_⟩
  · rw [hview, List.append_assoc]
    exact (hcontents.symm.append_left returned).trans hperm
  · simp [hown, hne.symm]

theorem Ledger.replace (h : Ledger S w em returned passed) {fd : Int} {ptr ed : EDRef}
    (hptr : S.view w.storage fd = some ptr) (hne : ptr ≠ some (.breakLoop em))
    (hview : S.view w'.storage = Function.update (S.view w.storage) fd (some ed)) :
    Ledger S w' em (returned ++ [ptr]) (passed ++ [ed]) := by
  obtain ⟨⟨fds, hfds, hperm⟩, hown⟩ := h
  obtain ⟨fds', hlists, hcontents⟩ := hfds.replace hptr ed
  refine ⟨⟨fds', by rwa [hview], ?_⟩, ?_⟩
  · rw [hview, List.append_assoc]
    exact ((hcontents.append_left returned).trans List.perm_middle).trans
      ((hperm.cons ed).trans (List.perm_append_singleton ed passed).symm)
  · simp [hown, hne.symm]

theorem RegCall.Preset.not_returned {c : RegCall} (h : c.Preset) (r : UInt32) :
    (LedgerAct.call c (r, c.oldEd)).returned = [] := by
  cases c with
  | add ed => rfl
  | delete fd oldEd =>
    obtain rfl : oldEd = some none := h
    rfl
  | modify fd ed oldEd =>
    obtain rfl : oldEd = some none := h
    rfl

theorem Ledger.call (h : Ledger S w em returned passed) (ha : Agreement S w em q) {c : RegCall}
    (hc : c.Proper w em) (hset : c.Preset) {r : UInt32 × OutVar}
    (hout : Outcome w em (c.change w em) c.oldEd r w') :
    Ledger S w' em (returned ++ (LedgerAct.call c r).returned)
      (passed ++ (LedgerAct.call c r).passed) := by
  obtain ⟨code, old⟩ := r
  cases hout with
  | refused why hold same =>
    obtain rfl : old = c.oldEd := hold
    have hpassed : (LedgerAct.call c (code, c.oldEd)).passed = [] := by
      cases c <;> simp [LedgerAct.passed, why.ne_success]
    rw [hpassed, hset.not_returned, List.append_nil, List.append_nil]
    exact h.same (World.storage_congr same.core)
  | done q' can result core =>
    obtain rfl : q' = q := Option.some.inj (can.queue.symm.trans ha.queue)
    have hfits := can.fits
    have hview := ha.store_view hc can
    rw [← show w'.storage = ((c.change w em).store w.storage).2 from World.storage_congr core] at hview
    cases c with
    | add ed =>
      simp only [RegCall.change, addChange, Kernel.entryAfter, Option.map_some] at hfits hview result
      have hfree : S.view w.storage (ctlFd w ed (-1)) = none := by
        rw [← ha.same _ hc]
        exact Option.map_eq_none_iff.2 hfits
      have hcode := (S.insert_free _ _ ed hfree).1
      rw [ha.insertEntry] at result
      obtain ⟨rfl, rfl⟩ := Prod.mk.inj result
      simp only [LedgerAct.passed, LedgerAct.returned, hcode, if_true, List.append_nil]
      exact h.add hfree hview
    | delete fd oldEd =>
      obtain rfl : oldEd = some none := hset
      simp only [RegCall.change, deleteChange, Kernel.entryAfter, Option.map_none] at hfits hview result
      obtain ⟨ptr, hptr⟩ := Option.ne_none_iff_exists'.1 ((ha.view_ne_none hc).2 hfits)
      obtain ⟨p, rfl, -⟩ := ha.key fd ptr hptr
      rw [ha.removeEntry, (S.remove_taken _ _ _ hptr).2.1] at result
      obtain ⟨rfl, rfl⟩ := Prod.mk.inj result
      simp only [LedgerAct.passed, List.append_nil]
      exact h.remove hptr (ha.stored_ne hptr) hview
    | modify fd ed oldEd =>
      obtain rfl : oldEd = some none := hset
      obtain ⟨hed, hfd⟩ := hc
      simp only [RegCall.change, modifyChange, hed] at hfits hview result
      rw [Kernel.entryAfter, Option.map_some] at hview
      obtain ⟨ptr, hptr⟩ := Option.ne_none_iff_exists'.1 ((ha.view_ne_none hfd).2 hfits)
      obtain ⟨p, rfl, -⟩ := ha.key fd ptr hptr
      obtain ⟨hok, hok', -⟩ := S.replace ed (by rw [hptr]; exact Option.some_ne_none _)
      rw [ha.removeEntry, if_pos ((isEmSuccess_iff _).2 hok), ha.insertEntry,
        (S.remove_taken _ _ _ hptr).2.1, hok'] at result
      obtain ⟨rfl, rfl⟩ := Prod.mk.inj result
      simp only [LedgerAct.passed, if_true]
      exact h.replace hptr (ha.stored_ne hptr) hview

theorem LedgerStep.reg {a : LedgerAct} (h : LedgerStep em w a w') (usePipe2 : Bool) :
    ∃ e, RegStep usePipe2 em w e w' := by
  cases a with
  | env e => exact ⟨.env e, h⟩
  | call c r =>
    obtain ⟨hc, -, hexec⟩ := h
    refine ⟨.ret (.reg (some em) c) r.1, ⟨rfl, hc⟩, ?_⟩
    simp [Event.step, Call.exec, bind, EStateM.bind, hexec, pure, EStateM.pure]

theorem Ledger.step (h : Ledger S w em returned passed) (ha : Agreement S w em q) {a : LedgerAct}
    (hs : LedgerStep em w a w') :
    Ledger S w' em (returned ++ a.returned) (passed ++ a.passed) := by
  cases a with
  | env e =>
    obtain ⟨-, rfl⟩ := hs
    simp only [LedgerAct.returned, LedgerAct.passed, List.append_nil]
    exact h.same (by cases e <;> rfl)
  | call c r =>
    obtain ⟨hc, hset, hexec⟩ := hs
    exact h.call ha hc hset (wp_ok (c.spec w em) hexec)

theorem Ledger.run {tr : List LedgerAct} (hrun : Steps (LedgerStep em) w tr w')
    (h : Ledger S w em returned passed) (ha : Agreement S w em q) :
    Agreement S w' em q ∧ Ledger S w' em (returned ++ tr.flatMap LedgerAct.returned)
      (passed ++ tr.flatMap LedgerAct.passed) := by
  induction hrun generalizing returned passed with
  | nil w =>
    simp only [List.flatMap_nil, List.append_nil]
    exact ⟨ha, h⟩
  | cons hs _ ih =>
    obtain ⟨e, hreg⟩ := hs.reg true
    obtain ⟨ha', h'⟩ := ih (h.step ha hs) (ha.step hreg)
    simp only [List.flatMap_cons, ← List.append_assoc]
    exact ⟨ha', h'⟩

/-- A descriptor that has been handed back is referred to by nobody, if it has been given once. -/
theorem Ledger.unreferenced (h : Ledger S w em returned passed) (ha : Agreement S w em q)
    (honce : passed.Nodup) {p : EDRef} (hp : p ∈ returned) :
    (∀ fd, S.view w.storage fd ≠ some p) ∧
      ∀ fd ev, w.kernel.interest q.id fd = some ev → ev.data ≠ p := by
  obtain ⟨⟨fds, hfds, hperm⟩, hown⟩ := h
  have hnodup := hperm.nodup_iff.2 honce
  have hview : ∀ fd, S.view w.storage fd ≠ some p := fun fd hv => by
    have hstored : p ∈ fds.filterMap (S.view w.storage) :=
      List.mem_filterMap.2 ⟨fd, (hfds.mem fd).2 (by simp [hv]), hv⟩
    exact (List.nodup_append.1 hnodup).2.2 p hp p hstored rfl
  refine ⟨hview, fun fd ev he hd => ?_⟩
  by_cases hfd : fd = w.breakFd em
  · rw [hfd, ha.breakLoop] at he
    obtain rfl := Option.some.inj he
    obtain rfl : some (.breakLoop em) = p := hd
    exact hown hp
  · apply hview fd
    rw [← ha.same fd hfd, he, Option.map_some, hd]

end steps

/-- On a freshly initialised machine, what has been handed back is together with what is stored exactly
what successful calls have been given; and when no descriptor has been given twice, neither registry
refers to one that has been handed back. -/
theorem descriptors_handed_back (S : DescriptorStore σ) (usePipe2 : Bool) (em : EMPtr)
    {w₀ w₁ w : World σ} {tr : List LedgerAct}
    (hinsert : (w₀.ems em).descriptorStorage.insert = some S.insert)
    (hremove : (w₀.ems em).descriptorStorage.remove = some S.remove)
    (hempty : ∀ fd, S.view w₀.storage fd = none)
    (hinit : eventMachineInit usePipe2 (some em) w₀ = .ok EMResult.success.code w₁)
    (hrun : Steps (LedgerStep em) w₁ tr w) :
    (∃ fds : List Int, fds.Nodup ∧ (∀ fd, fd ∈ fds ↔ S.view w.storage fd ≠ none) ∧
      (tr.flatMap LedgerAct.returned ++ fds.filterMap (S.view w.storage)).Perm
        (tr.flatMap LedgerAct.passed)) ∧
    ((tr.flatMap LedgerAct.passed).Nodup → ∃ q, w.kernel.file (w.ems em).queueFd = some q ∧
      ∀ p ∈ tr.flatMap LedgerAct.returned, (∀ fd, S.view w.storage fd ≠ some p) ∧
        ∀ fd ev, w.kernel.interest q.id fd = some ev → ev.data ≠ p) := by
  obtain ⟨ms, m, hb, hout⟩ := wp_ok (init_spec usePipe2 w₀ em) hinit
  obtain ⟨q, hstart⟩ := Agreement.of_init hb hinsert hremove hempty hout
  obtain ⟨m', hframe⟩ := hout.base
  have hstorage : w₁.storage = w₀.storage := congrArg (·.storage) hframe.frame
  have hbooks : Ledger S w₁ em [] [] :=
    ⟨⟨[], .empty fun fd => by rw [hstorage]; exact hempty fd, by simp⟩, by simp⟩
  obtain ⟨ha, h⟩ := hbooks.run hrun hstart
  simp only [List.nil_append] at h
  obtain ⟨fds, hfds, hperm⟩ := h.stored
  exact ⟨⟨fds, hfds.nodup, hfds.mem, hperm⟩, fun honce =>
    ⟨q, ha.queue, fun p hp => h.unreferenced ha honce hp⟩⟩

/-- A descriptor is added and deleted again. -/
def listOpened : World (List (Int × EDRef)) := (Env.openFile 0 false).exec listMachine

def listAdded : World (List (Int × EDRef)) :=
  final ((RegCall.add (some (.obj 0))).exec (some 0)) listOpened

def listDeleted : World (List (Int × EDRef)) :=
  final ((RegCall.delete 3 (some none)).exec (some 0)) listAdded

theorem descriptors_handed_back_listDeleted :
    ∃ q, listDeleted.kernel.file (listDeleted.ems 0).queueFd = some q ∧
      (∀ fd, listStore.view listDeleted.storage fd ≠ some (some (.obj 0))) ∧
        ∀ fd ev, listDeleted.kernel.interest q.id fd = some ev → ev.data ≠ some (.obj 0) := by
  have hopen : LedgerStep 0 listMachine (.env (.openFile 0 false)) listOpened := ⟨trivial, rfl⟩
  have hadd : LedgerStep 0 listOpened (.call (.add (some (.obj 0))) (0, none)) listAdded :=
    ⟨show (3 : Int) ≠ 0 by decide, trivial, rfl⟩
  have hdelete : LedgerStep 0 listAdded (.call (.delete 3 (some none)) (0, some (some (.obj 0))))
      listDeleted := ⟨show (3 : Int) ≠ 0 by decide, rfl, rfl⟩
  have hinit : eventMachineInit true (some 0) listWorld = .ok EMResult.success.code listMachine := rfl
  obtain ⟨q, hq, hfree⟩ := (descriptors_handed_back listStore true 0 rfl rfl (fun _ => rfl) hinit
    (.cons hopen (.cons hadd (.cons hdelete (.nil _))))).2 (by decide)
  exact ⟨q, hq, hfree (some (.obj 0)) (by decide)⟩

end EventMachine
