import EventMachine.Registry.Parallel
import EventMachine.Timers.Creation

/-!
# A timer leaves no trace

While a timer is alive, the machine differs from one without the timer under the number of the timerfd
only: in the open descriptors, in the interest set and in the storage. A registration call for another
number finds nothing of that (`Beside.step`), and destroying the timer takes the differences away. So a
program that creates a timer and destroys it later gets the same answers as one that never had it
(`timer_leaves_no_trace`).
-/

namespace EventMachine

open Lib

variable {σ : Type}

/-- A registration call on the machine `em`, with its result: the code, and the caller's variable after
the call. -/
def CallStep (em : EMPtr) (w : World σ) (x : RegCall × UInt32 × OutVar) (w' : World σ) : Prop :=
  x.1.exec (some em) w = .ok x.2 w'

namespace CallStep
variable {em : EMPtr} {w w' : World σ} {x : RegCall × UInt32 × OutVar}

theorem outcome (h : CallStep em w x w') : Outcome w em (x.1.change w em) x.1.oldEd x.2 w' :=
  wp_ok (x.1.spec w em) h

theorem consistent (h : CallStep em w x w') (hk : w.kernel.Consistent) : w'.kernel.Consistent :=
  (regCall_preserves Kernel.consistent_invariant (some em) x.1).ok h hk

end CallStep

/-- A call that has nothing to do with the timer `t` and the numbers of `N`. A modification may be given
a descriptor for another number than it is called with. -/
def RegCall.Aside (w : World σ) (t : TimerPtr) (N : Set Int) : RegCall → Prop
  | .add ed => ed ≠ some (.timer t) ∧ ctlFd w ed (-1) ∉ N
  | .delete fd _ => fd ∉ N
  | .modify fd ed _ => ed ≠ some (.timer t) ∧ ctlFd w ed (-1) ∉ N ∧ fd ∉ N

/-! ## A machine with a timer and one without -/

/-- The machine `em` in the world `w`, in which the timer `t` has been created, and in the world `v`
without it: they agree outside the numbers of `N`, of which the machine in `v` knows nothing. -/
structure Beside (S : DescriptorStore σ) (em : EMPtr) (t : TimerPtr) (N : Set Int) (v w : World σ) :
    Prop where
  insert : (v.ems em).descriptorStorage.insert = some S.insert
  remove : (v.ems em).descriptorStorage.remove = some S.remove
  ems : w.ems = v.ems
  ed : ∀ p, p ≠ .timer t → w.ed p = v.ed p
  queue : (v.ems em).queueFd ∉ N
  file : ∀ n, n ∉ N → w.kernel.file n = v.kernel.file n
  interest : ∀ q n, n ∉ N → w.kernel.interest q n = v.kernel.interest q n
  stored : S.AgreeOff N w.storage v.storage
  consistent : v.kernel.Consistent
  unused : ∀ n, n ∈ N → v.kernel.file n = none
  vacant : S.Vacant N v.storage
  object : ∀ n f, n ∈ N → w.kernel.file n = some f → v.kernel.next ≤ f.id

namespace Beside
variable {S : DescriptorStore σ} {em : EMPtr} {t : TimerPtr} {N : Set Int} {v w v' w' : World σ}

theorem of_core (h : Beside S em t N v w) (hv : v'.core = v.core) (hw : w'.core = w.core) :
    Beside S em t N v' w' where
  insert := by rw [World.ems_congr hv]; exact h.insert
  remove := by rw [World.ems_congr hv]; exact h.remove
  ems := by rw [World.ems_congr hv, World.ems_congr hw]; exact h.ems
  ed p hp := by rw [World.ed_congr hv, World.ed_congr hw]; exact h.ed p hp
  queue := by rw [World.ems_congr hv]; exact h.queue
  file n hn := by rw [World.file_congr hv, World.file_congr hw]; exact h.file n hn
  interest q n hn := by rw [World.interest_congr hv, World.interest_congr hw]; exact h.interest q n hn
  stored := by rw [World.storage_congr hv, World.storage_congr hw]; exact h.stored
  consistent := h.consistent.of_core (World.kernel_core hv)
  unused n hn := by rw [World.file_congr hv]; exact h.unused n hn
  vacant := by rw [World.storage_congr hv]; exact h.vacant
  object n f hn hf := by
    rw [World.file_congr hw] at hf
    rw [show v'.kernel.next = v.kernel.next from congrArg (·.kernel.next) hv]
    exact h.object n f hn hf

theorem update (h : Beside S em t N v w) {q : ObjId} {fd : Int} {e : Option EpollEvent} {st st' : σ}
    (hq : q < v.kernel.next) (hopen : (v.kernel.file fd).isSome) (hst : S.AgreeOff N st' st)
    (hvacant : S.Vacant N st) :
    Beside S em t N ((v.setInterest q fd e).setStorage st) ((w.setInterest q fd e).setStorage st') where
  insert := h.insert
  remove := h.remove
  ems := h.ems
  ed p hp := by rw [World.ed_entries, World.ed_entries, h.ed p hp]
  queue := h.queue
  file := h.file
  interest q' n hn := by
    show (w.kernel.setInterest q fd e).interest q' n = (v.kernel.setInterest q fd e).interest q' n
    simp only [Kernel.setInterest, Function.update_apply]
    split
    · rw [Function.update_apply, Function.update_apply, h.interest q n hn]
    · exact h.interest q' n hn
  stored := hst
  consistent := h.consistent.setInterest hq hopen
  unused := h.unused
  vacant := hvacant
  object := h.object

theorem number (h : Beside S em t N v w) {ed : EDRef} (hed : ed ≠ some (.timer t)) (fd : Int) :
    ctlFd w ed fd = ctlFd v ed fd :=
  ctlFd_congr (fun p hp => h.ed p fun heq => hed (heq ▸ hp)) fd

theorem event (h : Beside S em t N v w) {ed : EDRef} (hed : ed ≠ some (.timer t)) :
    ctlEvent w ed = ctlEvent v ed :=
  ctlEvent_congr fun p hp => h.ed p fun heq => hed (heq ▸ hp)

theorem change (h : Beside S em t N v w) {c : RegCall} (hc : c.Aside v t N) :
    c.change w em = c.change v em := by
  have hems : w.ems em = v.ems em := congrFun h.ems em
  cases c with
  | add ed => simp only [RegCall.change, addChange, h.number hc.1, h.event hc.1, hems]
  | delete fd oldEd => simp only [RegCall.change, deleteChange, hems]
  | modify fd ed oldEd => simp only [RegCall.change, modifyChange, h.number hc.1, h.event hc.1, hems]

theorem alike (h : Beside S em t N v w) {c : RegCall} (hc : c.Aside v t N) :
    (c.change v em).Alike v w em := by
  have hnumbers : (c.change v em).checked ∉ N ∧ (c.change v em).fd ∉ N := by
    cases c with
    | add ed => exact ⟨hc.2, hc.2⟩
    | delete fd oldEd => exact ⟨hc, hc⟩
    | modify fd ed oldEd => exact ⟨hc.2.2, hc.2.1⟩
  exact ⟨by rw [h.ems], h.file _ h.queue, h.file _ hnumbers.1, h.file _ hnumbers.2,
    fun q => h.interest q _ hnumbers.2⟩

theorem store (h : Beside S em t N v w) (hS : S.Local) {c : RegCall} (hc : c.Aside v t N) :
    ((c.change v em).store v.storage).1 = ((c.change v em).store w.storage).1 ∧
      S.AgreeOff N ((c.change v em).store w.storage).2 ((c.change v em).store v.storage).2 ∧
      S.Vacant N ((c.change v em).store v.storage).2 := by
  have hfd : c.storageFd v ∉ N := by
    cases c with
    | add ed => exact hc.2
    | delete fd oldEd => exact hc
    | modify fd ed oldEd => exact hc.2.2
  obtain ⟨hcode, hst⟩ := RegCall.store_alike hS h.insert h.remove h.stored hfd
  refine ⟨hcode, hst, fun n hn => (c.store_frame ?_ v.storage ?_).trans (h.vacant n hn)⟩
  · exact EMDescriptorStorage.entryWise_of_store S h.insert h.remove
  · intro heq
    exact hfd (heq ▸ hn)

theorem step (h : Beside S em t N v w) (hS : S.Local) (hv : v.kernel.FaultFree) (hw : w.kernel.FaultFree)
    {c : RegCall} {r : UInt32 × OutVar} (hc : c.Aside v t N) (hcall : CallStep em w (c, r) w') :
    ∃ v', CallStep em v (c, r) v' ∧ Beside S em t N v' w' := by
  obtain ⟨hcode, hst, hvacant⟩ := h.store hS hc
  obtain ⟨r', v', hexec, hparallel⟩ := RegCall.parallel (h.change hc) ((h.alike hc).agrees hv hw) hcall
  cases hparallel with
  | refused code left right =>
    subst code
    exact ⟨v', hexec, h.of_core left.core right.core⟩
  | done q can code code' left right =>
    obtain rfl : r' = r := code.trans (hcode.trans code'.symm)
    refine ⟨v', hexec, Beside.of_core (h.update ?_ can.target hst hvacant) left right⟩
    exact h.consistent.lt_next can.queue

end Beside

/-! ## Runs -/

theorem RegCall.Aside.congr {v v' : World σ} {t : TimerPtr} {N : Set Int} {c : RegCall}
    (h : c.Aside v t N) (hed : ∀ p, v'.ed p = v.ed p) : c.Aside v' t N := by
  have hfd : ∀ ed fd, ctlFd v' ed fd = ctlFd v ed fd := fun ed fd => ctlFd_congr (fun p _ => hed p) fd
  cases c with
  | add ed => exact ⟨h.1, by rw [hfd]; exact h.2⟩
  | delete fd oldEd => exact h
  | modify fd ed oldEd => exact ⟨h.1, by rw [hfd]; exact h.2.1, h.2.2⟩

theorem RegCall.Aside.mono {v : World σ} {t : TimerPtr} {N N' : Set Int} {c : RegCall} (h : c.Aside v t N)
    (hN : N' ⊆ N) : c.Aside v t N' := by
  cases c with
  | add ed => exact ⟨h.1, fun hfd => h.2 (hN hfd)⟩
  | delete fd oldEd => exact fun hfd => h (hN hfd)
  | modify fd ed oldEd => exact ⟨h.1, fun hfd => h.2.1 (hN hfd), fun hfd => h.2.2 (hN hfd)⟩

theorem calls_keep {em : EMPtr} {w w' : World σ} {l : List (RegCall × UInt32 × OutVar)}
    (h : Steps (CallStep em) w l w') :
    w'.ems = w.ems ∧ w'.timers = w.timers ∧ (∀ p, w'.ed p = w.ed p) ∧
      (w.kernel.Consistent → w'.kernel.Consistent) ∧ (w.kernel.FaultFree → w'.kernel.FaultFree) := by
  induction h with
  | nil w => exact ⟨rfl, rfl, fun _ => rfl, id, id⟩
  | cons hcall _ ih =>
    have hout := hcall.outcome
    obtain ⟨hems, htimers, hed, hk, hf⟩ := ih
    exact ⟨hems.trans hout.ems, htimers.trans hout.timers, fun p => (hed p).trans (hout.ed p),
      fun h => hk (hcall.consistent h), fun h => hf (hout.keeps_faultFree h)⟩

/-- Calls aside give the same answers in both worlds. -/
theorem Beside.run {S : DescriptorStore σ} (hS : S.Local) {em : EMPtr} {t : TimerPtr} {N : Set Int}
    {v w w' : World σ} {l : List (RegCall × UInt32 × OutVar)} (hrun : Steps (CallStep em) w l w')
    (h : Beside S em t N v w) (hv : v.kernel.FaultFree) (hw : w.kernel.FaultFree)
    (haside : ∀ x, x ∈ l → x.1.Aside v t N) :
    ∃ v', Steps (CallStep em) v l v' ∧ Beside S em t N v' w' ∧ v'.kernel.FaultFree ∧
      w'.kernel.FaultFree ∧ ∀ p, v'.ed p = v.ed p := by
  induction hrun generalizing v with
  | nil w => exact ⟨v, .nil v, h, hv, hw, fun _ => rfl⟩
  | @cons w w₁ w₂ x l hcall _ ih =>
    obtain ⟨v₁, hcall', hbeside⟩ := h.step hS hv hw (haside x (List.mem_cons_self ..)) hcall
    have hed := hcall'.outcome.ed
    obtain ⟨v₂, hrest, hend⟩ := ih hbeside (hcall'.outcome.keeps_faultFree hv)
      (hcall.outcome.keeps_faultFree hw)
      fun y hy => (haside y (List.mem_cons_of_mem x hy)).congr hed
    obtain ⟨hbeside', hv', hw', hed'⟩ := hend
    exact ⟨v₂, .cons hcall' hrest, hbeside', hv', hw', fun p => (hed' p).trans (hed p)⟩

/-! ## Creating and destroying the timer -/

section timer
variable {S : DescriptorStore σ} {em : EMPtr} {t : TimerPtr} {N : Set Int} {v w w' : World σ}

theorem Beside.of_opens {fd : Int} {f : File} (hinsert : (v.ems em).descriptorStorage.insert = some S.insert)
    (hremove : (v.ems em).descriptorStorage.remove = some S.remove) (hk : v.kernel.Consistent)
    (hmade : v.kernel.TimerfdMade (.timer t) fd f w.kernel)
    (hframe : { w with kernel := v.kernel } = v) (hqueue : (v.ems em).queueFd ≠ fd)
    (hvacant : S.Vacant {fd} v.storage) : Beside S em t {fd} v w where
  insert := hinsert
  remove := hremove
  ems := congrArg (·.ems) hframe
  ed p _ := by
    have hed := congrArg (·.ed p) hframe
    cases p <;> exact hed
  queue := hqueue
  file n hn := (hmade.opens.file n).trans (if_neg hn)
  interest q n _ := by rw [hmade.interest]
  stored := by
    rw [show w.storage = v.storage from congrArg (·.storage) hframe]
    exact .refl S {fd} v.storage
  consistent := hk
  unused n hn := by
    rw [show n = fd from hn]
    exact hmade.opens.free
  vacant := hvacant
  object n f' hn hf' := by
    have hfd : n = fd := hn
    rw [hmade.opens.file, if_pos hfd] at hf'
    obtain rfl := Option.some.inj hf'
    exact hmade.opens.id.ge

theorem Beside.setTimer (h : Beside S em t N v w) (x : EventTimer) : Beside S em t N v (w.setTimer t x) :=
  { h with ed := fun p hp => (w.setTimer_ed x hp).trans (h.ed p hp) }

theorem Beside.own (h : Beside S em t N v w) {c : Change σ} {oldEd : OutVar} {r : UInt32 × OutVar}
    (hout : Outcome w em c oldEd r w') (hfd : c.fd ∈ N)
    (hst : S.AgreeOff N (c.store w.storage).2 v.storage) : Beside S em t N v w' :=
  { h with
    ems := hout.ems.trans h.ems
    ed := fun p hp => (hout.ed p).trans (h.ed p hp)
    file := fun n hn => (hout.file n).trans (h.file n hn)
    interest := fun q n hn => by
      have hne : n ≠ c.fd := fun heq => hn (heq ▸ hfd)
      exact (hout.interest_of_ne q hne).trans (h.interest q n hn)
    stored := by
      cases hout with
      | refused _ _ same =>
        rw [World.storage_congr same.core]
        exact h.stored
      | done _ _ _ core =>
        rw [World.storage_congr core]
        exact hst
    object := fun n f hn hf => h.object n f hn ((hout.file n).symm.trans hf) }

theorem Beside.closed {fd ret : Int} {f : File} (h : Beside S em t {fd} v w) (hf : w.kernel.file fd = some f)
    (hclosed : Closed w (.timer t) fd ret w') (hst : S.AgreeOff ∅ w.storage v.storage) :
    Beside S em t ∅ v w' where
  insert := h.insert
  remove := h.remove
  ems := hclosed.only.ems.trans h.ems
  ed p hp := (hclosed.only.ed p).trans (h.ed p hp)
  queue := id
  file n _ := by
    rw [hclosed.file]
    split
    · next hn => rw [hn, h.unused fd rfl]
    · next hn => exact h.file n hn
  interest q n _ := by
    rw [Kernel.interest_congr hclosed.core, Kernel.released_interest hf]
    split
    · next hor =>
      by_contra hne
      obtain ⟨hopen, hlt⟩ := h.consistent.entries q n (Ne.symm hne)
      rcases hor with rfl | rfl
      · exact absurd (h.object fd f rfl hf) (Nat.not_le.2 hlt)
      · rw [h.unused n rfl] at hopen
        cases hopen
    · next hor => exact h.interest q n fun hn => hor (Or.inr hn)
  stored := by
    rw [show w'.storage = w.storage from congrArg (·.storage) hclosed.only]
    exact hst
  consistent := h.consistent
  unused _ hn := hn.elim
  vacant _ hn := hn.elim
  object _ _ hn := hn.elim

end timer

theorem Beside.of_create {S : DescriptorStore σ} {em : EMPtr} {t : TimerPtr} {callback : Option Nat}
    {data : VoidPtr} {w w' : World σ} (hinsert : (w.ems em).descriptorStorage.insert = some S.insert)
    (hremove : (w.ems em).descriptorStorage.remove = some S.remove) (hk : w.kernel.Consistent)
    (h : eventTimerCreate (some em) (some t) callback data w = .ok EMResult.success.code w') :
    Beside S em t {(w'.timers t).eventDescriptor.fd} w w' ∧ (w'.timers t).eventMachine = some em ∧
      (w.kernel.FaultFree → w'.kernel.FaultFree) := by
  obtain ⟨_, k, f, ⟨⟩, rfl, hmade, hadd⟩ := create_success h
  have hout := wp_ok (add_spec _ _ _) hadd
  have htimer := hout.timers
  have hfaults := Kernel.timerfdCreate_faults w.kernel (.timer t)
  have hnumber := congrArg (·.eventDescriptor.fd) hmade.timer
  generalize hfd : (w.kernel.timerfdCreate (.timer t)).1 = fd at hmade hnumber
  rw [htimer, hmade.timer]
  refine ⟨?_, rfl, fun hf => hout.keeps_faultFree (hf.of_faults hfaults)⟩
  obtain ⟨q, hcan, hcode, -⟩ := hout.of_success rfl
  have hinsertEntry : ∀ p st, ((w.timerOpened em t k data).ems em).descriptorStorage.insertEntry fd p st =
      S.insert fd p st := fun p st => EMDescriptorStorage.insertEntry_of_some hinsert fd p st
  have hctl : ctlFd (w.timerOpened em t k data) (some (.timer t)) (-1) = fd := hnumber
  simp only [addChange, hctl, hinsertEntry] at hcode
  have hvacant : S.Vacant {fd} w.storage := by
    intro n hn
    obtain rfl : n = fd := hn
    by_contra hne
    exact (S.insert_taken w.storage n (some (.timer t)) hne).1 (congrArg (·.1) hcode).symm
  have hqueue : (w.ems em).queueFd ≠ fd := by
    intro heq
    -- the queue is an epoll instance, and the descriptor of that number a timerfd
    have hq : some f = some q := by
      rw [← hcan.queue, hmade.made.opens.file]
      exact (if_pos heq).symm
    have hkind := hmade.made.kind
    rw [Option.some.inj hq, hcan.epoll] at hkind
    cases hkind
  let u : World σ := { w with kernel := (w.timerOpened em t k data).kernel }
  have hu : Beside S em t {fd} w u := .of_opens hinsert hremove hk hmade.made rfl hqueue hvacant
  have hopened : Beside S em t {fd} w (w.timerOpened em t k data) := hu.setTimer (createdTimer em t _ k data)
  apply hopened.own hout hctl
  simp only [addChange, hctl, hinsertEntry]
  exact .insert_left S fd (some (.timer t)) w.storage

theorem Beside.of_destroy {S : DescriptorStore σ} {em : EMPtr} {t : TimerPtr} {v w w' : World σ}
    (h : Beside S em t {(w.timers t).eventDescriptor.fd} v w)
    (hmachine : (w.timers t).eventMachine = some em)
    (hexec : eventTimerDestroy (some t) w = .ok EMResult.success.code w') :
    Beside S em t ∅ v w' ∧ (w.kernel.FaultFree → w'.kernel.FaultFree) := by
  have hdone := wp_ok (timerDestroy_spec t w) hexec
  generalize hr : EMResult.success.code = r at hdone
  cases hdone with
  | notDeleted e code => exact absurd hr.symm code
  | notClosed => exact absurd hr (by decide)
  | done deleted closed =>
    obtain ⟨em', old, hem, hout, -⟩ := deleted
    obtain rfl : em = em' := Option.some.inj (hmachine.symm.trans hem)
    generalize (w.timers t).eventDescriptor.fd = fd at h hout closed
    obtain ⟨q, hcan, -, hcore⟩ := hout.of_success rfl
    obtain ⟨f, hf⟩ := Option.isSome_iff_exists.1 hcan.target
    have hremove := fun st => EMDescriptorStorage.removeEntry_of_some h.remove fd st
    rw [← h.ems] at hremove
    have hst := h.stored.remove_left h.vacant
    have hdeleted := h.own hout rfl (by
      simp only [deleteChange, hremove]
      exact hst.mono (Set.empty_subset _))
    refine ⟨(hdeleted.closed ((hout.file fd).trans hf) closed ?_).setTimer shredded, fun hfree => ?_⟩
    · rw [World.storage_congr hcore]
      show S.AgreeOff ∅ ((deleteChange w em fd none).store w.storage).2 v.storage
      simp only [deleteChange, hremove]
      exact hst
    · exact (hout.keeps_faultFree hfree).of_faults closed.faults

/-- The calls of a run give the same answers, and leave the same interest set and the same storage, when
a timer has been created and destroyed among them and when it has not. -/
theorem timer_leaves_no_trace {S : DescriptorStore σ} (hS : S.Local) {em : EMPtr} {t : TimerPtr}
    {callback : Option Nat} {data : VoidPtr} {w w₁ w₂ w₃ w₄ w₅ : World σ}
    {l₁ l₂ l₃ : List (RegCall × UInt32 × OutVar)}
    (hinsert : (w.ems em).descriptorStorage.insert = some S.insert)
    (hremove : (w.ems em).descriptorStorage.remove = some S.remove)
    (hk : w.kernel.Consistent) (hf : w.kernel.FaultFree)
    (hbefore : Steps (CallStep em) w l₁ w₁)
    (hcreate : eventTimerCreate (some em) (some t) callback data w₁ = .ok EMResult.success.code w₂)
    (hduring : Steps (CallStep em) w₂ l₂ w₃)
    (hdestroy : eventTimerDestroy (some t) w₃ = .ok EMResult.success.code w₄)
    (hafter : Steps (CallStep em) w₄ l₃ w₅)
    (haside : ∀ x, x ∈ l₂ ++ l₃ → x.1.Aside w t {(w₂.timers t).eventDescriptor.fd}) :
    ∃ v, Steps (CallStep em) w (l₁ ++ l₂ ++ l₃) v ∧ v.kernel.interest = w₅.kernel.interest ∧
      S.view v.storage = S.view w₅.storage := by
  obtain ⟨hems, -, hed, hk₁, hf₁⟩ := calls_keep hbefore
  obtain ⟨-, htimers, -⟩ := calls_keep hduring
  rw [← hems] at hinsert hremove
  -- the run with the timer and the run without it, from the creation on
  obtain ⟨hmade, hmachine, hf₂⟩ := Beside.of_create hinsert hremove (hk₁ hk) hcreate
  obtain ⟨v, hv, hbeside, hfv, hf₃, hedv⟩ := Beside.run hS hduring hmade (hf₁ hf) (hf₂ (hf₁ hf))
    fun x hx => (haside x (List.mem_append_left l₃ hx)).congr hed
  rw [← htimers] at hbeside hmachine
  obtain ⟨hgone, hf₄⟩ := hbeside.of_destroy hmachine hdestroy
  obtain ⟨v', hv', hend, -⟩ := Beside.run hS hafter hgone hfv (hf₄ hf₃) fun x hx =>
    ((haside x (List.mem_append_right l₂ hx)).congr fun p => (hedv p).trans (hed p)).mono
      (Set.empty_subset _)
  refine ⟨v', (hbefore.append hv).append hv', ?_, ?_⟩
  · funext q n
    exact (hend.interest q n id).symm
  · funext n
    exact (hend.stored n id).symm

/-- The program of `listWorld` with number 3 open. -/
def listReady : World (List (Int × EDRef)) := (Env.openFile 0 false).exec listMachine

/-- It creates a timer, registers number 3, destroys the timer and deletes number 3 again. -/
def listWithTimer : World (List (Int × EDRef)) :=
  final (eventTimerCreate (some 0) (some 0) (some 0) .null) listReady

def listAside : World (List (Int × EDRef)) :=
  final (RegCall.exec (some 0) (.add (some (.obj 0)))) listWithTimer

def listWithout : World (List (Int × EDRef)) := final (eventTimerDestroy (some 0)) listAside

def listEmptied : World (List (Int × EDRef)) :=
  final (RegCall.exec (some 0) (.delete 3 (some none))) listWithout

theorem timer_leaves_no_trace_listReady : ∃ v,
    Steps (CallStep 0) listReady ([] ++ [(.add (some (.obj 0)), EMResult.success.code, none)] ++
      [(.delete 3 (some none), EMResult.success.code, some (some (.obj 0)))]) v ∧
    v.kernel.interest = listEmptied.kernel.interest ∧
    listStore.view v.storage = listStore.view listEmptied.storage := by
  have hinit : eventMachineInit true (some 0) listWorld = .ok EMResult.success.code listMachine := rfl
  have hstart : listWorld.kernel.Consistent := start_consistent (listWorld.ems 0) [] fun _ _ => none
  have hk : listMachine.kernel.Consistent :=
    (eventMachineInit_preserves Kernel.consistent_invariant true (some 0)).ok hinit hstart
  have hnever : ∀ s, listMachine.kernel.Never s := fun s =>
    (eventMachineInit_preserves (Kernel.never_invariant s) true (some 0)).ok hinit fun _ => rfl
  have hcreate : eventTimerCreate (some 0) (some 0) (some 0) .null listReady =
      .ok EMResult.success.code listWithTimer := rfl
  have hadd : CallStep 0 listWithTimer (.add (some (.obj 0)), EMResult.success.code, none) listAside := rfl
  have hdestroy : eventTimerDestroy (some 0) listAside = .ok EMResult.success.code listWithout := rfl
  have hdelete : CallStep 0 listWithout
      (.delete 3 (some none), EMResult.success.code, some (some (.obj 0))) listEmptied := rfl
  have hnumber : (listWithTimer.timers 0).eventDescriptor.fd = 4 := rfl
  have hne : (3 : Int) ∉ ({4} : Set Int) := by decide
  refine timer_leaves_no_trace (Store.assoc_local _ _) rfl rfl
    (Kernel.consistent_invariant.openFile _ .other .other 0 false hk)
    ⟨hnever .fcntlGetfl, fun op => hnever (.epollCtl op)⟩ (.nil _) hcreate (.cons hadd (.nil _)) hdestroy
    (.cons hdelete (.nil _)) fun x hx => ?_
  rw [hnumber]
  simp only [List.cons_append, List.nil_append, List.mem_cons, List.not_mem_nil, or_false] at hx
  rcases hx with rfl | rfl
  · exact ⟨by decide, hne⟩
  · exact hne

end EventMachine
