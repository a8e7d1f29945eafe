import EventMachine.Registry.Agreement

/-!
# A storage that forgets nothing

A storage may come without a `remove` callback. If its `insert` then refuses a number it has an entry
for, the machine takes every number once: deleting a descriptor leaves its entry behind, so no later
`event_machine_add()` succeeds at that number (`registered_once`). `event_machine_modify()` never
succeeds at all, and what it has changed by the time it fails, stays changed: the queue reports the new
descriptor, and the storage still has the old one (`modify_fails_halfway`).
-/

namespace EventMachine

open Lib

variable {σ : Type}

/-- What may happen in a run: registration calls on `em` as documented, and other code that does not
close the queue. -/
def Filing (em : EMPtr) (w : World σ) : Event → Prop
  | .ret (.reg m c) _ => m = some em ∧ c.Proper w em
  | .ret _ _ => False
  | .env (.closeFile fd) => ∀ q f, w.kernel.file (w.ems em).queueFd = some q →
      w.kernel.file fd = some f → f.id ≠ q.id
  | .env _ => True

def FilingStep (usePipe2 : Bool) (em : EMPtr) (w : World σ) (e : Event) (w' : World σ) : Prop :=
  Filing em w e ∧ e.step usePipe2 w w'

/-- What has been registered so far by calls that succeeded, as a history variable. -/
def filed (w : World σ) (e : Event) (_ : World σ) (l : List (Int × EDRef)) : List (Int × EDRef) :=
  match e with
  | .ret (.reg _ (.add ed)) r => if r = EMResult.success.code then l ++ [(ctlFd w ed (-1), ed)] else l
  | .ret (.reg _ (.modify fd ed _)) r => if r = EMResult.success.code then l ++ [(fd, ed)] else l
  | _ => l

/-- The storage of machine `em` has what `l` lists, and what is registered with the queue `q` it has
under some descriptor. The queue does not watch itself. -/
structure OnFile (S : DescriptorStore σ) (w : World σ) (em : EMPtr) (q : File)
    (l : List (Int × EDRef)) : Prop where
  insert : (w.ems em).descriptorStorage.insert = some S.insert
  remove : (w.ems em).descriptorStorage.remove = none
  queue : w.kernel.file (w.ems em).queueFd = some q
  epoll : q.kind = .epoll
  once : (l.map Prod.fst).Nodup
  stored : ∀ fd ptr, S.view w.storage fd = some ptr ↔ (fd, ptr) ∈ l
  registered : ∀ fd, fd ≠ w.breakFd em → (w.kernel.interest q.id fd).isSome →
    S.view w.storage fd ≠ none
  own : w.kernel.interest q.id (w.ems em).queueFd = none

namespace OnFile
variable {S : DescriptorStore σ} {w w' : World σ} {em : EMPtr} {q : File} {l : List (Int × EDRef)}

theorem insertEntry (h : OnFile S w em q l) (fd : Int) (p : EDRef) (st : σ) :
    (w.ems em).descriptorStorage.insertEntry fd p st = S.insert fd p st :=
  EMDescriptorStorage.insertEntry_of_some h.insert fd p st

theorem removeEntry (h : OnFile S w em q l) (fd : Int) (st : σ) :
    (w.ems em).descriptorStorage.removeEntry fd st = (EMResult.success.code, none, st) := by
  simp only [EMDescriptorStorage.removeEntry, h.remove]

theorem congr (h : OnFile S w em q l) (hem : w'.ems em = w.ems em)
    (hq : w'.kernel.file (w.ems em).queueFd = some q) (hs : S.view w'.storage = S.view w.storage)
    (hi : ∀ fd, (w'.kernel.interest q.id fd).isSome → (w.kernel.interest q.id fd).isSome ∨
      fd ≠ (w.ems em).queueFd ∧ S.view w.storage fd ≠ none) : OnFile S w' em q l where
  insert := by rw [hem]; exact h.insert
  remove := by rw [hem]; exact h.remove
  queue := by rw [hem]; exact hq
  epoll := h.epoll
  once := h.once
  stored fd ptr := by
    rw [hs]
    exact h.stored fd ptr
  registered fd hfd hsome := by
    unfold World.breakFd at hfd
    rw [hem] at hfd
    rw [hs]
    exact (hi fd hsome).elim (h.registered fd hfd) (·.2)
  own := by
    rw [hem]
    by_contra hne
    rcases hi _ (Option.isSome_iff_ne_none.2 hne) with hsome | ⟨hother, -⟩
    · simp [h.own] at hsome
    · exact hother rfl

theorem of_core (h : OnFile S w em q l) (hc : w'.core = w.core) : OnFile S w' em q l := by
  apply h.congr (congrFun (World.ems_congr hc) em) ((World.file_congr hc _).trans h.queue)
  · rw [World.storage_congr hc]
  · intro fd hfd
    rw [World.interest_congr hc] at hfd
    exact Or.inl hfd

theorem setInterest (h : OnFile S w em q l) {fd : Int} {e : Option EpollEvent} {st : σ}
    (hs : S.view st = S.view w.storage) (hfd : fd ≠ (w.ems em).queueFd)
    (he : e.isSome → S.view w.storage fd ≠ none)
    (hc : w'.core = ((w.setInterest q.id fd e).setStorage st).core) : OnFile S w' em q l := by
  apply h.congr (congrFun (World.ems_congr hc) em) ((World.file_congr hc _).trans h.queue)
  · rw [World.storage_congr hc]
    exact hs
  · intro n hn
    rw [World.interest_congr hc] at hn
    change (Function.update w.kernel.interest q.id _ q.id n).isSome at hn
    rw [Function.update_self] at hn
    by_cases hd : n = fd
    · rw [hd, Function.update_self] at hn
      rw [hd]
      exact Or.inr ⟨hfd, he hn⟩
    · rw [Function.update_of_ne hd] at hn
      exact Or.inl hn

theorem add (h : OnFile S w em q l) {fd : Int} {ed : EDRef} {e : Option EpollEvent} {st : σ}
    (hfree : S.view w.storage fd = none) (hfd : fd ≠ (w.ems em).queueFd)
    (hs : S.view st = Function.update (S.view w.storage) fd (some ed))
    (hc : w'.core = ((w.setInterest q.id fd e).setStorage st).core) :
    OnFile S w' em q (l ++ [(fd, ed)]) := by
  have hem : w'.ems em = w.ems em := congrFun (World.ems_congr hc) em
  have hnew : fd ∉ l.map Prod.fst := by
    intro hmem
    obtain ⟨⟨n, ptr⟩, hentry, rfl⟩ := List.mem_map.1 hmem
    have hstored := (h.stored n ptr).2 hentry
    rw [hfree] at hstored
    cases hstored
  constructor
  · rw [hem]
    exact h.insert
  · rw [hem]
    exact h.remove
  · rw [hem]
    exact (World.file_congr hc _).trans h.queue
  · exact h.epoll
  · rw [List.map_append, List.nodup_append]
    refine ⟨h.once, by simp, ?_⟩
    intro n hn m hm hnm
    simp only [List.map_cons, List.map_nil, List.mem_singleton] at hm
    exact hnew (hm ▸ hnm ▸ hn)
  · intro n ptr
    rw [World.storage_congr hc]
    change S.view st n = some ptr ↔ _
    rw [hs]
    by_cases hd : n = fd
    · subst hd
      have hold : (n, ptr) ∉ l := fun hmem => hnew (List.mem_map.2 ⟨_, hmem, rfl⟩)
      simp [hold, eq_comm]
    · rw [Function.update_of_ne hd, h.stored n ptr]
      simp [hd]
  · intro n hn hsome
    unfold World.breakFd at hn
    rw [hem] at hn
    rw [World.interest_congr hc] at hsome
    rw [World.storage_congr hc]
    change S.view st n ≠ none
    change (Function.update w.kernel.interest q.id _ q.id n).isSome at hsome
    rw [Function.update_self] at hsome
    rw [hs]
    by_cases hd : n = fd
    · rw [hd, Function.update_self]
      simp
    · rw [Function.update_of_ne hd] at hsome ⊢
      exact h.registered n hn hsome
  · rw [hem, World.interest_congr hc]
    change Function.update w.kernel.interest q.id _ q.id (w.ems em).queueFd = none
    rw [Function.update_self, Function.update_of_ne hfd.symm, h.own]

theorem modify_store (h : OnFile S w em q l) {fd : Int} {ed : EDRef} {oldEd : OutVar}
    (hc : (RegCall.modify fd ed oldEd).Proper w em) (hi : (w.kernel.interest q.id fd).isSome) :
    ((modifyChange w em fd ed oldEd).store w.storage).1.1 ≠ EMResult.success.code ∧
      S.view ((modifyChange w em fd ed oldEd).store w.storage).2 = S.view w.storage := by
  simp only [modifyChange, h.removeEntry, h.insertEntry]
  rw [if_pos ((isEmSuccess_iff _).2 rfl)]
  exact S.insert_taken _ _ ed (h.registered fd hc.2 hi)

theorem call (h : OnFile S w em q l) {c : RegCall} (hc : c.Proper w em) {r : UInt32 × OutVar}
    (hout : Outcome w em (c.change w em) c.oldEd r w') :
    OnFile S w' em q (filed w (.ret (.reg (some em) c) r.1) w' l) := by
  cases hout with
  | refused why _ same =>
    have hl : filed w (.ret (.reg (some em) c) r.1) w' l = l := by
      cases c with
      | add ed => exact if_neg why.ne_success
      | delete fd oldEd => rfl
      | modify fd ed oldEd => exact if_neg why.ne_success
    rw [hl]
    exact h.of_core same.core
  | done q' can code core =>
    obtain rfl : q' = q := Option.some.inj (can.queue.symm.trans h.queue)
    have hfits := can.fits
    cases c with
    | add ed =>
      simp only [RegCall.change, addChange, h.insertEntry] at code core
      by_cases hfree : S.view w.storage (ctlFd w ed (-1)) = none
      · obtain ⟨hok, hview⟩ := S.insert_free _ _ ed hfree
        rw [filed, code, if_pos hok]
        exact h.add hfree can.other hview core
      · obtain ⟨hfail, hview⟩ := S.insert_taken _ _ ed hfree
        rw [filed, code, if_neg hfail]
        exact h.setInterest hview can.other (fun _ => hfree) core
    | delete fd oldEd =>
      simp only [RegCall.change, deleteChange, h.removeEntry] at core
      apply h.setInterest rfl can.other _ core
      intro he
      cases he
    | modify fd ed oldEd =>
      simp only [RegCall.change, modifyChange, hc.1] at hfits
      obtain ⟨hfail, hview⟩ := h.modify_store hc hfits
      have hr : r.1 ≠ EMResult.success.code := by
        rw [code]
        exact hfail
      rw [filed, if_neg hr]
      apply h.setInterest hview can.other _ core
      intro _
      show S.view w.storage (ctlFd w ed (-1)) ≠ none
      rw [hc.1]
      exact h.registered fd hc.2 hfits

theorem env (h : OnFile S w em q l) {e : Env} (he : Filing em w (.env e)) :
    OnFile S (e.exec w) em q l := by
  cases e with
  | openFile status cloexec =>
    have hopens : w.kernel.Opens _ _ (w.kernel.openFile .other .other status cloexec).2 :=
      .of_files rfl rfl rfl
    refine h.congr rfl ?_ rfl fun _ => Or.inl
    show (w.kernel.openFile .other .other status cloexec).2.file _ = _
    rw [hopens.file, if_neg]
    · exact h.queue
    · intro hq
      have hfree := hopens.free
      rw [← hq, h.queue] at hfree
      cases hfree
  | closeFile fd =>
    rcases Kernel.close_cases w.kernel fd with ⟨-, -, hcore⟩ | ⟨f, hf, hcore, -⟩
    · apply h.of_core
      simp only [Env.exec, World.core, hcore]
    · have hid := he q f h.queue hf
      refine h.congr rfl ?_ rfl ?_
      · show (w.kernel.close fd).2.file _ = _
        rw [Kernel.file_congr hcore, Kernel.closeFile_file hf, if_neg]
        · exact h.queue
        · intro hq
          rw [← hq, h.queue] at hf
          exact hid (congrArg File.id (Option.some.inj hf)).symm
      · intro n hn
        change ((w.kernel.close fd).2.interest q.id n).isSome at hn
        rw [Kernel.interest_congr hcore, Kernel.closeFile] at hn
        dsimp only at hn
        split at hn
        · cases hn
        · exact Or.inl hn
  | setDescriptor a d => exact h.congr rfl h.queue rfl fun _ => Or.inl
  | setTimer t x => exact h.congr rfl h.queue rfl fun _ => Or.inl
  | expire o =>
    have hkernel : (w.kernel.expire o).files = w.kernel.files ∧
        (w.kernel.expire o).interest = w.kernel.interest := by
      unfold Kernel.expire
      split <;> exact ⟨rfl, rfl⟩
    refine h.congr rfl ?_ rfl ?_
    · have hfile : ∀ n, (w.kernel.expire o).file n = w.kernel.file n := fun n => by
        simp only [Kernel.file, hkernel.1]
      exact (hfile _).trans h.queue
    · intro n hn
      change ((w.kernel.expire o).interest q.id n).isSome at hn
      rw [hkernel.2] at hn
      exact Or.inl hn

theorem step {usePipe2 : Bool} {e : Event} (h : OnFile S w em q l)
    (hs : FilingStep usePipe2 em w e w') : OnFile S w' em q (filed w e w' l) := by
  obtain ⟨hfiling, hstep⟩ := hs
  cases e with
  | env e =>
    subst hstep
    exact h.env hfiling
  | ret c r =>
    cases c with
    | reg m c =>
      obtain ⟨rfl, hc⟩ := hfiling
      obtain ⟨ro, hexec, rfl⟩ := Call.reg_ok hstep
      exact h.call hc (wp_ok (c.spec w em) hexec)
    | _ => exact hfiling.elim

theorem of_init {usePipe2 : Bool} {w₀ : World σ} {m : EM σ} {ms : List (BufPtr × Int)}
    (hb : Buffered w₀ em m ms)
    (hinsert : (w₀.ems em).descriptorStorage.insert = some S.insert)
    (hremove : (w₀.ems em).descriptorStorage.remove = none)
    (hempty : ∀ fd, S.view w₀.storage fd = none)
    (hout : InitOutcome usePipe2 w₀ em ms m EMResult.success.code w) : ∃ q, OnFile S w em q [] := by
  have hstorage : m.descriptorStorage = (w₀.ems em).descriptorStorage := by
    cases hb <;> rfl
  obtain ⟨m', base⟩ := hout.base
  have hst : w.storage = w₀.storage := congrArg (·.storage) base.frame
  obtain ⟨ends, fd, q, hem, hq, hkind, hinterest, hne⟩ := hout.registered
  have hbreak : w.breakFd em = ends.1 := by
    simp [World.breakFd, hem, breakLoopDescriptor]
  refine ⟨q, ?_, ?_, ?_, hkind, List.nodup_nil, fun n ptr => ?_, fun n hn hsome => ?_, ?_⟩
  · rw [hem]
    exact hstorage ▸ hinsert
  · rw [hem]
    exact hstorage ▸ hremove
  · rw [hem]
    exact hq
  · rw [hst, hempty]
    simp
  · rw [hbreak] at hn
    rw [hinterest, Function.update_of_ne hn] at hsome
    cases hsome
  · rw [hem, hinterest]
    exact Function.update_of_ne hne _ _

end OnFile

section runs
variable {w₀ w₁ w w' : World σ} {acts : List Event} {l : List (Int × EDRef)}

theorem filed_run {S : DescriptorStore σ} {usePipe2 : Bool} {em : EMPtr}
    (hinsert : (w₀.ems em).descriptorStorage.insert = some S.insert)
    (hremove : (w₀.ems em).descriptorStorage.remove = none)
    (hempty : ∀ fd, S.view w₀.storage fd = none)
    (hinit : eventMachineInit usePipe2 (some em) w₀ = .ok EMResult.success.code w₁)
    (hrun : Steps (history (FilingStep usePipe2 em) filed) (w₁, []) acts (w, l)) :
    ∃ q, OnFile S w em q l := by
  obtain ⟨ms, m, hb, hout⟩ := wp_ok (init_spec usePipe2 w₀ em) hinit
  obtain ⟨q, hstart⟩ := OnFile.of_init hb hinsert hremove hempty hout
  have hinv := hrun.invariant (I := fun x => OnFile S x.1 em q x.2) ?_ hstart
  · exact ⟨q, hinv⟩
  · rintro ⟨v, k⟩ e ⟨v', k'⟩ hv ⟨hs, hk⟩
    obtain rfl : k' = filed v e v' k := hk
    exact hv.step hs

/-- With a storage that refuses numbers it has an entry for and that nothing is ever removed from, calls
succeed in registering a number once at most, whatever is deleted in between. The storage keeps the
descriptor of that call, and no number is registered with the queue without such a call. -/
theorem registered_once (S : DescriptorStore σ) (usePipe2 : Bool) (em : EMPtr)
    (hinsert : (w₀.ems em).descriptorStorage.insert = some S.insert)
    (hremove : (w₀.ems em).descriptorStorage.remove = none)
    (hempty : ∀ fd, S.view w₀.storage fd = none)
    (hinit : eventMachineInit usePipe2 (some em) w₀ = .ok EMResult.success.code w₁)
    (hrun : Steps (history (FilingStep usePipe2 em) filed) (w₁, []) acts (w, l)) :
    (l.map Prod.fst).Nodup ∧ (∀ fd ptr, S.view w.storage fd = some ptr ↔ (fd, ptr) ∈ l) ∧
      ∃ q, w.kernel.file (w.ems em).queueFd = some q ∧
        ∀ fd, fd ≠ w.breakFd em → (w.kernel.interest q.id fd).isSome → fd ∈ l.map Prod.fst := by
  obtain ⟨q, h⟩ := filed_run hinsert hremove hempty hinit hrun
  refine ⟨h.once, h.stored, q, h.queue, fun fd hfd hsome => ?_⟩
  obtain ⟨ptr, hptr⟩ := Option.ne_none_iff_exists'.1 (h.registered fd hfd hsome)
  exact List.mem_map.2 ⟨_, (h.stored fd ptr).1 hptr, rfl⟩

/-- With such a storage no modification succeeds. One that gets past `epoll_ctl()` leaves the queue with
the new descriptor and the storage with the old one. -/
theorem modify_fails_halfway (S : DescriptorStore σ) (usePipe2 : Bool) (em : EMPtr)
    (hinsert : (w₀.ems em).descriptorStorage.insert = some S.insert)
    (hremove : (w₀.ems em).descriptorStorage.remove = none)
    (hempty : ∀ fd, S.view w₀.storage fd = none)
    (hinit : eventMachineInit usePipe2 (some em) w₀ = .ok EMResult.success.code w₁)
    (hrun : Steps (history (FilingStep usePipe2 em) filed) (w₁, []) acts (w, l)) {fd : Int} {ed : EDRef}
    {oldEd : OutVar} {r : UInt32 × OutVar} (hc : (RegCall.modify fd ed oldEd).Proper w em)
    (hcall : eventMachineModify (some em) fd ed oldEd w = .ok r w') :
    r.1 ≠ EMResult.success.code ∧ S.view w'.storage = S.view w.storage ∧
      ∃ q, w.kernel.file (w.ems em).queueFd = some q ∧
        (w'.kernel.interest q.id = w.kernel.interest q.id ∨
          (w.kernel.interest q.id fd).isSome ∧ w'.kernel.interest q.id =
            Function.update (w.kernel.interest q.id) fd (some (ctlEvent w ed))) ∧
        (w.kernel.FaultFree → (w.kernel.file fd).isSome → (w.kernel.interest q.id fd).isSome →
          w'.kernel.interest q.id fd = some (ctlEvent w ed)) := by
  obtain ⟨q, h⟩ := filed_run hinsert hremove hempty hinit hrun
  have hout := wp_ok (RegCall.spec w em (.modify fd ed oldEd)) hcall
  have hinterest : ∀ v : World σ, v.core = ((w.setInterest q.id (ctlFd w ed (-1))
      (some (ctlEvent w ed))).setStorage ((modifyChange w em fd ed oldEd).store w.storage).2).core →
      v.kernel.interest q.id = Function.update (w.kernel.interest q.id) fd (some (ctlEvent w ed)) := by
    intro v hcore
    rw [World.interest_congr hcore, ← hc.1]
    exact Function.update_self ..
  have hfree : w.kernel.FaultFree → (w.kernel.file fd).isSome → (w.kernel.interest q.id fd).isSome →
      w'.kernel.interest q.id fd = some (ctlEvent w ed) := by
    intro hf hopen hsome
    have hother : fd ≠ (w.ems em).queueFd := by
      rintro rfl
      simp [h.own] at hsome
    have hcan : w.kernel.CanCtl (w.ems em).queueFd .mod (ctlFd w ed (-1)) q :=
      ⟨h.queue, h.epoll, hc.1.symm ▸ hopen, hc.1.symm ▸ hother, hc.1.symm ▸ hsome⟩
    obtain ⟨-, hcore⟩ := hout.of_can hf hopen hcan
    rw [hinterest w' hcore, Function.update_self]
  cases hout with
  | refused why _ same =>
    refine ⟨why.ne_success, ?_, q, h.queue, Or.inl ?_, hfree⟩
    · rw [World.storage_congr same.core]
    · rw [World.interest_congr same.core]
  | done q' can code core =>
    obtain rfl : q' = q := Option.some.inj (can.queue.symm.trans h.queue)
    have hsome : (w.kernel.interest q'.id fd).isSome := by
      have hfits := can.fits
      simp only [RegCall.change, modifyChange, hc.1] at hfits
      exact hfits
    obtain ⟨hfail, hview⟩ := h.modify_store hc hsome
    refine ⟨?_, ?_, q', h.queue, Or.inr ⟨hsome, hinterest w' core⟩, hfree⟩
    · rw [code]
      exact hfail
    · rw [World.storage_congr core]
      exact hview

end runs

/-! ## A number that is deleted and added again -/

/-- A program whose machines use `listStore` without its `remove`. -/
def keepWorld : World (List (Int × EDRef)) :=
  { World.start { emStaticWithMaxEvents (List (Int × EDRef)) 16 none with
      descriptorStorage := ⟨some listStore.insert, none, 0, .null⟩ } [] fun _ _ => none
    with descriptors := fun _ => ⟨EPOLLIN, 3, .null, some (.user 0)⟩ }

def keepMachine : World (List (Int × EDRef)) := final (eventMachineInit true (some 0)) keepWorld

theorem keepMachine_init :
    eventMachineInit true (some 0) keepWorld = .ok EMResult.success.code keepMachine := rfl

def keepOpened : World (List (Int × EDRef)) := (Env.openFile 0 false).exec keepMachine

def keepAdded : World (List (Int × EDRef)) := final (addThree.exec true) keepOpened

def keepDeleted : World (List (Int × EDRef)) := final (deleteThree.exec true) keepAdded

def keepAgain : World (List (Int × EDRef)) := final (addThree.exec true) keepDeleted

/-- The second `event_machine_add()` is refused, by the storage. -/
def keepActs : List Event :=
  [.env (.openFile 0 false), .ret addThree EMResult.success.code, .ret deleteThree EMResult.success.code,
    .ret addThree EMResult.errorStorageDuplicateEntry.code]

theorem keepActs_run : Steps (history (FilingStep true 0) filed) (keepMachine, []) keepActs
    (keepAgain, [(3, some (.obj 0))]) := by
  have hproper : (3 : Int) ≠ 0 := by decide
  have hopen : FilingStep true 0 keepMachine (.env (.openFile 0 false)) keepOpened := ⟨trivial, rfl⟩
  have hadd : FilingStep true 0 keepOpened (.ret addThree EMResult.success.code) keepAdded :=
    ⟨⟨rfl, hproper⟩, rfl⟩
  have hdelete : FilingStep true 0 keepAdded (.ret deleteThree EMResult.success.code) keepDeleted :=
    ⟨⟨rfl, hproper⟩, rfl⟩
  have hagain : FilingStep true 0 keepDeleted
      (.ret addThree EMResult.errorStorageDuplicateEntry.code) keepAgain := ⟨⟨rfl, hproper⟩, rfl⟩
  exact .cons (t := (keepOpened, [])) ⟨hopen, rfl⟩ <|
    .cons (t := (keepAdded, [(3, some (.obj 0))])) ⟨hadd, rfl⟩ <|
      .cons (t := (keepDeleted, [(3, some (.obj 0))])) ⟨hdelete, rfl⟩ <|
        .cons (t := (keepAgain, [(3, some (.obj 0))])) ⟨hagain, rfl⟩ (.nil _)

theorem registered_once_keepActs :
    listStore.view keepAgain.storage 3 = some (some (.obj 0)) :=
  ((registered_once listStore true 0 rfl rfl (fun _ => rfl) keepMachine_init keepActs_run).2.1 3 _).2
    List.mem_cons_self

def modifyThree : Sys (List (Int × EDRef)) (UInt32 × OutVar) :=
  eventMachineModify (some 0) 3 (some (.obj 1)) none

theorem modify_fails_halfway_keepActs :
    ∃ q, keepAgain.kernel.file (keepAgain.ems 0).queueFd = some q ∧
      (final modifyThree keepAgain).kernel.interest q.id 3 = some ⟨EPOLLIN, some (.obj 1)⟩ := by
  have hcall : modifyThree keepAgain =
      .ok (EMResult.errorStorageDuplicateEntry.code, none) (final modifyThree keepAgain) := rfl
  have hproper : (RegCall.modify 3 (some (.obj 1)) none).Proper keepAgain 0 :=
    show (3 : Int) = 3 ∧ (3 : Int) ≠ 0 by decide
  obtain ⟨-, -, q, hq, -, h⟩ := modify_fails_halfway listStore true 0 rfl rfl (fun _ => rfl)
    keepMachine_init keepActs_run hproper hcall
  obtain rfl : (⟨2, .epoll, .machine 0, 0, true⟩ : File) = q := Option.some.inj hq
  exact ⟨_, hq, h ⟨fun _ => rfl, fun op _ => by cases op <;> rfl⟩ rfl rfl⟩

end EventMachine
