import EventMachine.Lib.Transition
import EventMachine.Registry.Parallel

/-!
# Two machines with one pair of storage callbacks

`EM_descriptor_storage` has a field for the private data of a storage, but `STORAGE_INSERT_ENTRY()` and
`STORAGE_REMOVE_ENTRY()` pass a number and a descriptor only. So the callbacks cannot tell two machines
apart, and machines with the same callbacks share their entries whatever `data` is. The calls on one
machine have the results they have without the other one exactly as long as no call on the other one
changes an entry that the first one looks at (`machines_apart_iff`).
-/

namespace EventMachine

open Lib

variable {σ : Type}

/-! ## Runs -/

/-- The same program, with other failures of the kernel ahead. -/
def World.withFaults (w : World σ) (faults : Syscall → Nat → Option Errno) : World σ :=
  { w with kernel := { w.kernel with faults := faults } }

/-- A registration call on one of the machines, with its result: the code, and the caller's variable after
the call. `faults` says which of its system calls fail by themselves. -/
structure MachineCall where
  em : EMPtr
  call : RegCall
  faults : Syscall → Nat → Option Errno
  result : UInt32 × OutVar

def MachineCall.Step (w : World σ) (x : MachineCall) (w' : World σ) : Prop :=
  x.call.exec (some x.em) (w.withFaults x.faults) = .ok x.result w'

/-- All along the sequence `l`, the calls on the machine `a` have the results they have without the others,
and the entries of the numbers in `N` are the same as without the others. -/
def SameAlone (S : DescriptorStore σ) (a : EMPtr) (N : Set Int) (w : World σ) (l : List MachineCall) :
    Prop :=
  ∀ l₁ l₂ u, l = l₁ ++ l₂ → Steps MachineCall.Step w l₁ u →
    ∃ v, Steps MachineCall.Step w (l₁.filter (·.em = a)) v ∧
      ∀ n ∈ N, S.view v.storage n = S.view u.storage n

/-- Two machines with queues of their own and the callbacks of the same store. -/
structure SameCallbacks (S : DescriptorStore σ) (a b : EMPtr) (w : World σ) : Prop where
  insert : ∀ em, em = a ∨ em = b → (w.ems em).descriptorStorage.insert = some S.insert
  remove : ∀ em, em = a ∨ em = b → (w.ems em).descriptorStorage.remove = some S.remove
  queues : ∀ qa qb, w.kernel.file (w.ems a).queueFd = some qa → w.kernel.file (w.ems b).queueFd = some qb →
    qa.id ≠ qb.id

/-- The call gets to the storage, and puts, takes or replaces the entry of the number `n` there. -/
def RegCall.Writes (S : DescriptorStore σ) (w : World σ) (em : EMPtr) (n : Int) (c : RegCall) : Prop :=
  Reaches w em (c.change w em) ∧ n = c.storageFd w ∧
    match c with
    | .add _ => S.view w.storage n = none
    | .delete _ _ => S.view w.storage n ≠ none
    | .modify _ ed _ => S.view w.storage n ≠ none ∧ S.view w.storage n ≠ some ed

/-- `Writes` says what the storage step does to the entries. -/
theorem RegCall.writes_iff {S : DescriptorStore σ} {w w' : World σ} {em : EMPtr} {c : RegCall}
    {r : UInt32 × OutVar} (hinsert : (w.ems em).descriptorStorage.insert = some S.insert)
    (hremove : (w.ems em).descriptorStorage.remove = some S.remove) (hexec : c.exec (some em) w = .ok r w')
    (n : Int) : c.Writes S w em n ↔ S.view w'.storage n ≠ S.view w.storage n := by
  have hframe := c.store_frame (EMDescriptorStorage.entryWise_of_store S hinsert hremove) w.storage (n := n)
  have hinsert := EMDescriptorStorage.insertEntry_of_some hinsert
  have hremove := EMDescriptorStorage.removeEntry_of_some hremove
  have hout := wp_ok (c.spec w em) hexec
  unfold RegCall.Writes
  cases hout with
  | refused why _ same =>
    rw [World.storage_congr same.core]
    exact iff_of_false (fun h => why.not_reaches h.1) fun hne => hne rfl
  | done q can code core _ reached =>
    rw [World.storage_congr core]
    show _ ↔ S.view ((c.change w em).store w.storage).2 n ≠ S.view w.storage n
    by_cases hn : n = c.storageFd w
    · subst hn
      simp only [reached, true_and]
      cases c with
      | add ed =>
        simp only [change, addChange, hinsert, storageFd, S.view_insert, Function.update_self]
        cases S.view w.storage (ctlFd w ed (-1)) <;> simp
      | delete fd oldEd =>
        simp only [change, deleteChange, hremove, storageFd, S.view_remove, Function.update_self]
        exact ne_comm
      | modify fd ed oldEd =>
        simp only [change, modifyChange, hremove, hinsert, storageFd]
        cases hold : S.view w.storage fd with
        | none =>
          obtain ⟨hcode, hview⟩ := S.remove_free w.storage fd hold
          rw [if_neg (by rwa [isEmSuccess_iff])]
          simp [hview, hold]
        | some old =>
          obtain ⟨hcode, -, hview⟩ := S.replace ed (s := w.storage) (k := fd) (by simp [hold])
          rw [if_pos ((isEmSuccess_iff _).2 hcode), hview]
          simp [eq_comm]
    · exact iff_of_false (fun h => hn h.2.1) fun hne => hne (hframe hn)

/-! ## With and without the other machine -/

/-- The world `u` of two machines, and the world `v` in which the calls on `b` have not been made: a call on
`a` finds them the same, the storage apart. Calls do not write to the descriptors, which are those of `w`. -/
structure Alongside (S : DescriptorStore σ) (a b : EMPtr) (w v u : World σ) : Prop where
  machines : SameCallbacks S a b v
  ems : u.ems = v.ems
  edLeft : ∀ p, v.ed p = w.ed p
  edRight : ∀ p, u.ed p = w.ed p
  file : ∀ n, u.kernel.file n = v.kernel.file n
  interest : ∀ q, v.kernel.file (v.ems a).queueFd = some q →
    u.kernel.interest q.id = v.kernel.interest q.id

theorem SameCallbacks.alongside {S : DescriptorStore σ} {a b : EMPtr} {w : World σ}
    (h : SameCallbacks S a b w) : Alongside S a b w w w where
  machines := h
  ems := rfl
  edLeft _ := rfl
  edRight _ := rfl
  file _ := rfl
  interest _ _ := rfl

namespace Alongside
variable {S : DescriptorStore σ} {a b : EMPtr} {w v u v' u' : World σ} {x : MachineCall}

theorem of_core (h : Alongside S a b w v u) (hv : v'.core = v.core) (hu : u'.core = u.core) :
    Alongside S a b w v' u' where
  machines := by
    obtain ⟨hinsert, hremove, hqueues⟩ := h.machines
    constructor
    · rwa [World.ems_congr hv]
    · rwa [World.ems_congr hv]
    · simpa only [World.ems_congr hv, World.file_congr hv] using hqueues
  ems := by rw [World.ems_congr hv, World.ems_congr hu, h.ems]
  edLeft p := by rw [World.ed_congr hv, h.edLeft]
  edRight p := by rw [World.ed_congr hu, h.edRight]
  file n := by rw [World.file_congr hv, World.file_congr hu, h.file]
  interest q hq := by
    rw [World.ems_congr hv, World.file_congr hv] at hq
    rw [World.interest_congr hv, World.interest_congr hu, h.interest q hq]

theorem withFaults (h : Alongside S a b w v u) (faults : Syscall → Nat → Option Errno) :
    Alongside S a b w (v.withFaults faults) (u.withFaults faults) :=
  h.of_core rfl rfl

theorem update (h : Alongside S a b w v u) (q : ObjId) (fd : Int) (e : Option EpollEvent) (st st' : σ) :
    Alongside S a b w ((v.setInterest q fd e).setStorage st) ((u.setInterest q fd e).setStorage st') where
  machines := ⟨h.machines.insert, h.machines.remove, h.machines.queues⟩
  ems := h.ems
  edLeft p := by rw [World.ed_entries, h.edLeft]
  edRight p := by rw [World.ed_entries, h.edRight]
  file := h.file
  interest q' hq' := by
    have hinterest := h.interest q' hq'
    show (u.kernel.setInterest q fd e).interest q'.id = (v.kernel.setInterest q fd e).interest q'.id
    simp only [Kernel.setInterest, Function.update_apply, hinterest]
    split
    · next heq => rw [← heq, hinterest]
    · rfl

theorem can {c : Change σ} {q : File} (h : Alongside S a b w v u) :
    u.kernel.CanCtl (u.ems a).queueFd c.op c.fd q ↔ v.kernel.CanCtl (v.ems a).queueFd c.op c.fd q := by
  constructor
  · rintro ⟨hq, hepoll, htarget, hother, hfits⟩
    rw [h.ems, h.file] at hq
    rw [h.file] at htarget
    rw [h.ems] at hother
    rw [h.interest q hq] at hfits
    exact ⟨hq, hepoll, htarget, hother, hfits⟩
  · rintro ⟨hq, hepoll, htarget, hother, hfits⟩
    rw [← h.interest q hq] at hfits
    rw [← h.file] at htarget hq
    rw [← h.ems] at hq hother
    exact ⟨hq, hepoll, htarget, hother, hfits⟩

theorem agrees (h : Alongside S a b w v u) (hfaults : u.kernel.faults = v.kernel.faults) (c : Change σ) :
    c.Agrees v u a where
  passes := by simp only [Kernel.Passes, h.ems, h.file, hfaults]
  unhindered := by simp only [Kernel.Unhindered, hfaults]
  can _ := h.can

theorem change (h : Alongside S a b w v u) (c : RegCall) : c.change u a = c.change v a := by
  have hed : ∀ p, u.ed p = v.ed p := fun p => (h.edRight p).trans (h.edLeft p).symm
  have hfd : ∀ ed fd, ctlFd u ed fd = ctlFd v ed fd := fun ed fd => ctlFd_congr (fun p _ => hed p) fd
  have hevent : ∀ ed, ctlEvent u ed = ctlEvent v ed := fun ed => ctlEvent_congr fun p _ => hed p
  cases c with
  | add ed => simp only [RegCall.change, addChange, hfd, hevent, h.ems]
  | delete fd oldEd => simp only [RegCall.change, deleteChange, h.ems]
  | modify fd ed oldEd => simp only [RegCall.change, modifyChange, hfd, hevent, h.ems]

theorem call (h : Alongside S a b w v u) (hx : x.em = a) (hstep : x.Step u u') :
    ∃ r v', x.call.exec (some a) (v.withFaults x.faults) = .ok r v' ∧
      Parallel (v.withFaults x.faults) (u.withFaults x.faults) a (x.call.change v a) r x.result v' u' := by
  have hworlds := h.withFaults x.faults
  unfold MachineCall.Step at hstep
  rw [hx] at hstep
  exact RegCall.parallel (hworlds.change x.call) (hworlds.agrees rfl _) hstep

theorem of_parallel {c : Change σ} {r r' : UInt32 × OutVar} (h : Alongside S a b w v u)
    (hparallel : Parallel v u a c r r' v' u') : Alongside S a b w v' u' := by
  cases hparallel with
  | refused code left right => exact h.of_core left.core right.core
  | done q can code code' left right => exact (h.update _ _ _ _ _).of_core left right

theorem own (h : Alongside S a b w v u) (hx : x.em = a) (hleft : x.Step v v') (hright : x.Step u u') :
    Alongside S a b w v' u' := by
  obtain ⟨r, v₁, hexec, hparallel⟩ := h.call hx hright
  unfold MachineCall.Step at hleft
  rw [hx] at hleft
  obtain ⟨-, rfl⟩ := EStateM.Result.ok.inj (hleft.symm.trans hexec)
  exact (h.withFaults x.faults).of_parallel hparallel

theorem other (h : Alongside S a b w v u) (hx : x.em = b) (hstep : x.Step u u') :
    Alongside S a b w v u' := by
  have hout := wp_ok (x.call.spec (u.withFaults x.faults) x.em) hstep
  rw [hx] at hout
  constructor
  · exact h.machines
  · exact hout.ems.trans h.ems
  · exact h.edLeft
  · exact fun p => (hout.ed p).trans ((World.ed_congr rfl p).trans (h.edRight p))
  · exact fun n => (hout.file n).trans (h.file n)
  · intro q hq
    rw [← h.interest q hq]
    funext n
    by_contra hne
    -- only the queue of `b` could have changed
    obtain ⟨-, f, hf, hid⟩ := hout.interest_change hne
    have hf' : v.kernel.file (v.ems b).queueFd = some f := by
      rw [← h.file, ← h.ems]
      exact hf
    exact h.machines.queues q f hq hf' hid.symm

/-- A call on `a` has the same result in both worlds when they have the same entry for its number. -/
theorem same_result (hS : S.Local) {N : Set Int} (h : Alongside S a b w v u) (hx : x.em = a)
    (hfd : x.call.storageFd w ∈ N) (hview : ∀ n ∈ N, S.view v.storage n = S.view u.storage n)
    (hstep : x.Step u u') :
    ∃ v', x.Step v v' ∧ ∀ n ∈ N, S.view v'.storage n = S.view u'.storage n := by
  obtain ⟨r, v', hexec, hparallel⟩ := h.call hx hstep
  have hnumber : x.call.storageFd v = x.call.storageFd w := by
    have hctl : ∀ ed, ctlFd v ed (-1) = ctlFd w ed (-1) := fun ed =>
      ctlFd_congr (fun p _ => h.edLeft p) (-1)
    cases x.call with
    | add ed => exact hctl ed
    | delete fd oldEd => rfl
    | modify fd ed oldEd => rfl
  have hagree : S.AgreeOff Nᶜ u.storage v.storage := fun n hn => (hview n (not_not.1 hn)).symm
  obtain ⟨hcode, hst⟩ := RegCall.store_alike hS (h.machines.insert a (Or.inl rfl))
    (h.machines.remove a (Or.inl rfl)) hagree (c := x.call) (by rw [hnumber]; exact not_not.2 hfd)
  rw [← hx] at hexec
  cases hparallel with
  | refused code left right =>
    subst code
    refine ⟨v', hexec, fun n hn => ?_⟩
    rw [World.storage_congr left.core, World.storage_congr right.core]
    exact hview n hn
  | done q can code code' left right =>
    obtain rfl : r = x.result := code.trans (hcode.trans code'.symm)
    refine ⟨v', hexec, fun n hn => ?_⟩
    rw [World.storage_congr left, World.storage_congr right]
    exact (hst n (not_not.2 hn)).symm

end Alongside

/-- The calls on `a` have the results they have without the calls on `b`, and leave the same entries for
the numbers of `N`, exactly as long as no call on `b` writes one of these entries. -/
theorem machines_apart_iff {S : DescriptorStore σ} (hS : S.Local) {a b : EMPtr} (hab : a ≠ b)
    {w u : World σ} (hw : SameCallbacks S a b w) {l : List MachineCall}
    (hmachines : ∀ x ∈ l, x.em = a ∨ x.em = b) (hrun : Steps MachineCall.Step w l u) {N : Set Int}
    (hN : ∀ x ∈ l, x.em = a → x.call.storageFd w ∈ N) :
    SameAlone S a N w l ↔ ∀ l₁ x l₂ v, l = l₁ ++ x :: l₂ → Steps MachineCall.Step w l₁ v → x.em = b →
      ∀ n ∈ N, ¬ x.call.Writes S (v.withFaults x.faults) b n := by
  have hunique : ∀ (w : World σ) x v v', MachineCall.Step w x v → MachineCall.Step w x v' → v = v' :=
    fun w x v v' h h' => (EStateM.Result.ok.inj (Eq.trans (Eq.symm h) h')).2
  have hother : ∀ x ∈ l, decide (x.em = a) = false → x.em = b := by
    intro x hx hne
    exact (hmachines x hx).resolve_left (of_decide_eq_false hne)
  refine (hrun.alone_iff (fun x => decide (x.em = a)) hunique (K := Alongside S a b w)
    (V := fun v u => ∀ n ∈ N, S.view v.storage n = S.view u.storage n)
    (C := fun v x => ∀ n ∈ N, ¬ x.call.Writes S (v.withFaults x.faults) b n) hw.alongside (fun _ _ => rfl)
    ?_ ?_ ?_ ?_).trans ?_
  · intro v u x v' u' _ hx h hleft hright
    exact h.own (of_decide_eq_true hx) hleft hright
  · intro v u x u' hmem hx h hstep
    exact h.other (hother x hmem hx) hstep
  · intro v u x u' hmem hx h hview hstep
    have hem := of_decide_eq_true hx
    exact h.same_result hS hem (hN x hmem hem) hview hstep
  · intro v u x u' hmem hx h hview hstep
    have hem := hother x hmem hx
    unfold MachineCall.Step at hstep
    rw [hem] at hstep
    have hwrites := RegCall.writes_iff (S := S) (by
      show (u.ems b).descriptorStorage.insert = _
      rw [h.ems]; exact h.machines.insert b (Or.inr rfl)) (by
      show (u.ems b).descriptorStorage.remove = _
      rw [h.ems]; exact h.machines.remove b (Or.inr rfl)) hstep
    refine forall₂_congr fun n hn => ?_
    rw [hwrites, not_not, hview n hn]
    exact eq_comm
  · refine forall₄_congr fun l₁ x l₂ v => ?_
    constructor
    · intro h hl hv hx
      refine h hl hv (decide_eq_false fun heq => hab (heq.symm.trans hx))
    · intro h hl hv hx
      exact h hl hv (hother x (by simp [hl]) hx)

/-- A program with two static machines that have the callbacks of `listStore` and data of their own. Its
event descriptors are for the numbers from 6 on. -/
def twoStatic : World (List (Int × EDRef)) :=
  { World.start (emStaticWithMaxEvents (List (Int × EDRef)) 16 none) [] fun _ _ => none with
    ems := fun em => { emStaticWithMaxEvents (List (Int × EDRef)) 16 none with
      descriptorStorage := ⟨some listStore.insert, some listStore.remove, 1, .user em⟩ }
    descriptors := fun a => ⟨EPOLLIN, 6 + a, .null, some (.user 0)⟩ }

/-- The machines 0 and 1 have been initialised. -/
def twoInitialised : World (List (Int × EDRef)) :=
  final (eventMachineInit true (some 1)) (final (eventMachineInit true (some 0)) twoStatic)

/-- The numbers 6 and 7 have been opened. -/
def twoMachines : World (List (Int × EDRef)) :=
  (Env.openFile 0 false).exec ((Env.openFile 0 false).exec twoInitialised)

theorem twoMachines_sameCallbacks : SameCallbacks listStore 0 1 twoMachines where
  insert em hem := by rcases hem with rfl | rfl <;> rfl
  remove em hem := by rcases hem with rfl | rfl <;> rfl
  queues qa qb ha hb := by
    have ha' : (twoMachines.kernel.file (twoMachines.ems 0).queueFd).map File.id = some 2 := rfl
    have hb' : (twoMachines.kernel.file (twoMachines.ems 1).queueFd).map File.id = some 5 := rfl
    rw [ha] at ha'
    rw [hb] at hb'
    intro heq
    have hids := ha'.symm.trans ((congrArg some heq).trans hb')
    exact absurd hids (by decide)

/-- A call during which no system call fails by itself. -/
def plainCall (em : EMPtr) (call : RegCall) (result : UInt32 × OutVar) : MachineCall :=
  ⟨em, call, fun _ _ => none, result⟩

/-- Number 6 is registered with machine 1, and afterwards number `6 + a` with machine 0. -/
def otherRegistered : World (List (Int × EDRef)) :=
  final (RegCall.exec (some 1) (.add (some (.obj 0)))) (twoMachines.withFaults fun _ _ => none)

def ownRegistered (a : Nat) : World (List (Int × EDRef)) :=
  final (RegCall.exec (some 0) (.add (some (.obj a)))) (otherRegistered.withFaults fun _ _ => none)

theorem otherRegistered_step : (plainCall 1 (.add (some (.obj 0))) (EMResult.success.code, none)).Step
    twoMachines otherRegistered := rfl

theorem machines_apart_iff_twoMachines :
    let l := [plainCall 1 (.add (some (.obj 0))) (EMResult.success.code, none),
      plainCall 0 (.add (some (.obj 1))) (EMResult.success.code, none)]
    SameAlone listStore 0 {7} twoMachines l ↔ ∀ l₁ x l₂ v, l = l₁ ++ x :: l₂ →
      Steps MachineCall.Step twoMachines l₁ v → x.em = 1 →
      ∀ n ∈ ({7} : Set Int), ¬ x.call.Writes listStore (v.withFaults x.faults) 1 n := by
  intro l
  have hown : (plainCall 0 (.add (some (.obj 1))) (EMResult.success.code, none)).Step otherRegistered
      (ownRegistered 1) := rfl
  refine machines_apart_iff (Store.assoc_local _ _) (by decide) twoMachines_sameCallbacks (fun x hx => ?_)
    (.cons otherRegistered_step (.cons hown (.nil _))) fun x hx hem => ?_
  · simp only [List.mem_cons, List.not_mem_nil, or_false] at hx
    rcases hx with rfl | rfl
    · exact Or.inr rfl
    · exact Or.inl rfl
  · simp only [List.mem_cons, List.not_mem_nil, or_false] at hx
    rcases hx with rfl | rfl
    · cases hem
    · rfl

/-- Number 6 is registered with both machines, which have data of their own. The second registration is
refused, and would not be if the first had not been made. -/
theorem not_machines_apart :
    ¬ ∀ (a b : EMPtr) (w u : World (List (Int × EDRef))) (l : List MachineCall), a ≠ b →
      SameCallbacks listStore a b w →
      (w.ems a).descriptorStorage.data ≠ (w.ems b).descriptorStorage.data →
      (∀ x ∈ l, x.em = a ∨ x.em = b) → Steps MachineCall.Step w l u →
      SameAlone listStore a {n | ∃ x ∈ l, x.em = a ∧ n = x.call.storageFd w} w l := by
  intro h
  have hown : (plainCall 0 (.add (some (.obj 0))) (EMResult.errorStorageDuplicateEntry.code, none)).Step
      otherRegistered (ownRegistered 0) := rfl
  have hdata : (twoMachines.ems 0).descriptorStorage.data ≠ (twoMachines.ems 1).descriptorStorage.data := by
    show VoidPtr.user 0 ≠ VoidPtr.user 1
    decide
  have hsame := h 0 1 twoMachines _ _ (by decide) twoMachines_sameCallbacks hdata (fun x hx => by
    simp only [List.mem_cons, List.not_mem_nil, or_false] at hx
    rcases hx with rfl | rfl
    · exact Or.inr rfl
    · exact Or.inl rfl) (.cons otherRegistered_step (.cons hown (.nil _)))
  obtain ⟨v, hv, -⟩ := hsame _ [] _ (List.append_nil _).symm
    (.cons otherRegistered_step (.cons hown (.nil _)))
  -- alone, the call reports success
  have halone : RegCall.exec (some 0) (.add (some (.obj 0))) (twoMachines.withFaults fun _ _ => none) =
      .ok (EMResult.success.code, none) (final (RegCall.exec (some 0) (.add (some (.obj 0))))
        (twoMachines.withFaults fun _ _ => none)) := rfl
  rw [List.filter_cons_of_neg (by decide), List.filter_cons_of_pos (by decide), List.filter_nil] at hv
  cases hv with
  | cons hstep _ =>
    have hcode := congrArg (·.1) (EStateM.Result.ok.inj (hstep.symm.trans halone)).1
    exact absurd hcode (by decide)

end EventMachine
