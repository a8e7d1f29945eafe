import EventMachine.Calls
import EventMachine.Lib.Store
import EventMachine.Lib.Transition
import EventMachine.Proof.Init

/-!
# The two registries agree

A descriptor is registered twice: in the interest set of the queue, and in the storage of the user.
With a storage that keeps what it is given, both say the same at all times (`Agreement`), for the
break-loop descriptor of the machine itself is the only one that the storage never hears of. Every
registration call changes both or neither (`Agreement.call`), because the storage step of a call can
only fail where its `epoll_ctl()` has failed before.
-/

namespace EventMachine

open Lib

variable {σ : Type}

/-- A storage of the user that keeps what it is given. -/
abbrev DescriptorStore (σ : Type) := Store Int EDRef UInt32 σ EMResult.success.code

/-- The number of the break-loop descriptor of a machine. -/
def World.breakFd (w : World σ) (em : EMPtr) : Int := (w.ems em).breakLoopEventDescriptor.fd

/-- The interest set of the queue `q` and the storage of machine `em` hold the same descriptors. -/
structure Agreement (S : DescriptorStore σ) (w : World σ) (em : EMPtr) (q : File) : Prop where
  insert : (w.ems em).descriptorStorage.insert = some S.insert
  remove : (w.ems em).descriptorStorage.remove = some S.remove
  queue : w.kernel.file (w.ems em).queueFd = some q
  breakLoop : w.kernel.interest q.id (w.breakFd em) = some ⟨EPOLLIN, some (.breakLoop em)⟩
  notStored : S.view w.storage (w.breakFd em) = none
  same : ∀ fd, fd ≠ w.breakFd em →
    (w.kernel.interest q.id fd).map (·.data) = S.view w.storage fd
  key : ∀ fd ptr, S.view w.storage fd = some ptr → ∃ p, ptr = some p ∧ (w.ed p).fd = fd

namespace Agreement
variable {S : DescriptorStore σ} {w w' : World σ} {em : EMPtr} {q : File}

theorem congr (h : Agreement S w em q) (hem : w'.ems em = w.ems em)
    (hq : w'.kernel.file (w.ems em).queueFd = some q)
    (hi : w'.kernel.interest q.id = w.kernel.interest q.id) (hs : w'.storage = w.storage)
    (hed : ∀ fd p, S.view w.storage fd = some (some p) → (w'.ed p).fd = (w.ed p).fd) :
    Agreement S w' em q where
  insert := by rw [hem]; exact h.insert
  remove := by rw [hem]; exact h.remove
  queue := by rw [hem]; exact hq
  breakLoop := by
    unfold World.breakFd
    rw [hi, hem]
    exact h.breakLoop
  notStored := by
    unfold World.breakFd
    rw [hs, hem]
    exact h.notStored
  same fd hfd := by
    unfold World.breakFd at hfd
    rw [hem] at hfd
    rw [hi, hs]
    exact h.same fd hfd
  key fd ptr hptr := by
    rw [hs] at hptr
    obtain ⟨p, rfl, hp⟩ := h.key fd ptr hptr
    exact ⟨p, rfl, (hed fd p hptr).trans hp⟩

theorem of_core (h : Agreement S w em q) (hc : w'.core = w.core) : Agreement S w' em q :=
  h.congr (congrFun (World.ems_congr hc) em) ((World.file_congr hc _).trans h.queue)
    (congrFun (World.interest_congr hc) q.id) (World.storage_congr hc)
    fun _ p _ => congrArg (·.fd) (World.ed_congr hc p)

theorem update (h : Agreement S w em q) {fd : Int} {e : Option EpollEvent} {st : σ}
    (hfd : fd ≠ w.breakFd em)
    (hview : S.view st = Function.update (S.view w.storage) fd (e.map (·.data)))
    (hkey : ∀ ev, e = some ev → ∃ p, ev.data = some p ∧ (w.ed p).fd = fd) :
    Agreement S ((w.setInterest q.id fd e).setStorage st) em q where
  insert := h.insert
  remove := h.remove
  queue := h.queue
  breakLoop := by
    show Function.update w.kernel.interest q.id _ q.id (w.breakFd em) = _
    rw [Function.update_self, Function.update_of_ne hfd.symm]
    exact h.breakLoop
  notStored := by
    show S.view st (w.breakFd em) = none
    rw [hview, Function.update_of_ne hfd.symm]
    exact h.notStored
  same fd' hfd' := by
    show (Function.update w.kernel.interest q.id _ q.id fd').map _ = S.view st fd'
    rw [Function.update_self, hview]
    by_cases hd : fd' = fd
    · rw [hd, Function.update_self, Function.update_self]
    · rw [Function.update_of_ne hd, Function.update_of_ne hd]
      exact h.same fd' hfd'
  key fd' ptr hptr := by
    change S.view st fd' = some ptr at hptr
    rw [hview] at hptr
    by_cases hd : fd' = fd
    · rw [hd, Function.update_self] at hptr
      obtain ⟨ev, hev, rfl⟩ := Option.map_eq_some_iff.1 hptr
      obtain ⟨p, hp, hpfd⟩ := hkey ev hev
      exact ⟨p, hp, hpfd.trans hd.symm⟩
    · rw [Function.update_of_ne hd] at hptr
      exact h.key fd' ptr hptr

/-! ## Calls -/

theorem insertEntry (h : Agreement S w em q) (fd : Int) (p : EDRef) (st : σ) :
    (w.ems em).descriptorStorage.insertEntry fd p st = S.insert fd p st :=
  EMDescriptorStorage.insertEntry_of_some h.insert fd p st

theorem removeEntry (h : Agreement S w em q) (fd : Int) (st : σ) :
    (w.ems em).descriptorStorage.removeEntry fd st = S.remove fd st :=
  EMDescriptorStorage.removeEntry_of_some h.remove fd st

end Agreement

/-- A registration call as its documentation asks for: it does not name the break-loop descriptor,
and the descriptor a modification is given is one for the number it is called with. -/
def RegCall.Proper (w : World σ) (em : EMPtr) : RegCall → Prop
  | .add ed => ctlFd w ed (-1) ≠ w.breakFd em
  | .delete fd _ => fd ≠ w.breakFd em
  | .modify fd ed _ => ctlFd w ed (-1) = fd ∧ fd ≠ w.breakFd em

theorem exists_of_ctlFd {w : World σ} {ed : EDRef} {f : File}
    (h : w.kernel.file (ctlFd w ed (-1)) = some f) : ∃ p, ed = some p ∧ (w.ed p).fd = ctlFd w ed (-1) := by
  cases ed with
  | none => exact absurd (Kernel.nonneg_of_file h) (by simp [ctlFd])
  | some p => exact ⟨p, rfl, rfl⟩

namespace Agreement
variable {S : DescriptorStore σ} {w w' : World σ} {em : EMPtr} {q : File}

theorem view_ne_none (h : Agreement S w em q) {fd : Int} (hfd : fd ≠ w.breakFd em) :
    S.view w.storage fd ≠ none ↔ (w.kernel.interest q.id fd).isSome := by
  rw [← h.same fd hfd, Option.isSome_iff_ne_none, ne_eq, Option.map_eq_none_iff]

theorem store_view (h : Agreement S w em q) {c : RegCall} (hc : c.Proper w em)
    (hcan : w.kernel.CanCtl (w.ems em).queueFd (c.change w em).op (c.change w em).fd q) :
    S.view ((c.change w em).store w.storage).2 =
      Function.update (S.view w.storage) (c.change w em).fd
        ((Kernel.entryAfter (c.change w em).op (c.change w em).event).map (·.data)) := by
  have hfits := hcan.fits
  cases c with
  | add ed =>
    simp only [RegCall.change, addChange] at hfits ⊢
    rw [h.insertEntry]
    have hfree : S.view w.storage (ctlFd w ed (-1)) = none := by
      rw [← h.same _ hc]
      exact Option.map_eq_none_iff.2 hfits
    exact (S.insert_free _ _ ed hfree).2
  | delete fd oldEd =>
    simp only [RegCall.change, deleteChange] at hfits ⊢
    rw [h.removeEntry]
    obtain ⟨ptr, hptr⟩ := Option.ne_none_iff_exists'.1 ((h.view_ne_none hc).2 hfits)
    exact (S.remove_taken _ _ ptr hptr).2.2
  | modify fd ed oldEd =>
    obtain ⟨hed, hfd⟩ := hc
    simp only [RegCall.change, modifyChange, hed] at hfits ⊢
    obtain ⟨hok, -, hview⟩ := S.replace ed ((h.view_ne_none hfd).2 hfits)
    rw [h.removeEntry, if_pos ((isEmSuccess_iff _).2 hok), h.insertEntry]
    exact hview

theorem change_fd_ne {c : RegCall} (hc : c.Proper w em) : (c.change w em).fd ≠ w.breakFd em := by
  cases c with
  | add ed => exact hc
  | delete fd oldEd => exact hc
  | modify fd ed oldEd => exact fun h => hc.2 (hc.1.symm.trans h)

theorem change_key {c : RegCall} (hopen : (w.kernel.file (c.change w em).fd).isSome)
    {ev : EpollEvent}
    (hev : Kernel.entryAfter (c.change w em).op (c.change w em).event = some ev) :
    ∃ p, ev.data = some p ∧ (w.ed p).fd = (c.change w em).fd := by
  obtain ⟨f, hf⟩ := Option.isSome_iff_exists.1 hopen
  cases c with
  | add ed =>
    obtain rfl : ctlEvent w ed = ev := Option.some.inj hev
    exact exists_of_ctlFd hf
  | delete fd oldEd => simp [RegCall.change, deleteChange, Kernel.entryAfter] at hev
  | modify fd ed oldEd =>
    obtain rfl : ctlEvent w ed = ev := Option.some.inj hev
    exact exists_of_ctlFd hf

/-- A registration call, successful or not, changes both registries alike. -/
theorem call (h : Agreement S w em q) {c : RegCall} (hc : c.Proper w em) {r : UInt32 × OutVar}
    (hout : Outcome w em (c.change w em) c.oldEd r w') : Agreement S w' em q := by
  cases hout with
  | refused _ _ same => exact h.of_core same.core
  | done q' can _ core =>
    obtain rfl : q' = q := Option.some.inj (can.queue.symm.trans h.queue)
    exact (h.update (change_fd_ne hc) (h.store_view hc can)
      fun ev hev => change_key can.target hev).of_core core

end Agreement

/-! ## Runs -/

/-- What may happen between and in the calls of a run: registration calls on `em` as documented, and
other code that leaves the queue, the registered numbers and the registered descriptors alone. -/
def Registering (em : EMPtr) (w : World σ) : Event → Prop
  | .ret (.reg m c) _ => m = some em ∧ c.Proper w em
  | .ret _ _ => False
  | .env (.closeFile fd) => ∀ q f, w.kernel.file (w.ems em).queueFd = some q →
      w.kernel.file fd = some f → f.id ≠ q.id ∧ w.kernel.interest q.id fd = none
  | .env (.setDescriptor a _) => ∀ q fd ev, w.kernel.file (w.ems em).queueFd = some q →
      w.kernel.interest q.id fd = some ev → ev.data ≠ some (.obj a)
  | .env (.setTimer t _) => ∀ q fd ev, w.kernel.file (w.ems em).queueFd = some q →
      w.kernel.interest q.id fd = some ev → ev.data ≠ some (.timer t)
  | .env _ => True

/-- A run in which machine `em` is used to register descriptors. -/
def RegStep (usePipe2 : Bool) (em : EMPtr) (w : World σ) (e : Event) (w' : World σ) : Prop :=
  Registering em w e ∧ e.step usePipe2 w w'

namespace Agreement
variable {S : DescriptorStore σ} {w w' : World σ} {em : EMPtr} {q : File}

theorem registered (h : Agreement S w em q) {fd : Int} {p : EDPtr}
    (hp : S.view w.storage fd = some (some p)) :
    ∃ ev, w.kernel.interest q.id fd = some ev ∧ ev.data = some p := by
  have hfd : fd ≠ w.breakFd em := fun hb => by
    rw [hb, h.notStored] at hp
    cases hp
  rw [← h.same fd hfd] at hp
  exact Option.map_eq_some_iff.1 hp

theorem env (h : Agreement S w em q) {e : Env} (he : Registering em w (.env e)) :
    Agreement S (e.exec w) em q := by
  cases e with
  | openFile status cloexec =>
    have hopens : w.kernel.Opens _ _ (w.kernel.openFile .other .other status cloexec).2 :=
      .of_files rfl rfl rfl
    refine h.congr rfl ?_ rfl rfl fun _ _ _ => rfl
    show (w.kernel.openFile .other .other status cloexec).2.file _ = _
    rw [hopens.file, if_neg fun hq => ?_]
    · exact h.queue
    · have := hopens.free
      rw [← hq, h.queue] at this
      cases this
  | closeFile fd =>
    rcases Kernel.close_cases w.kernel fd with ⟨-, -, hcore⟩ | ⟨f, hf, hcore, -⟩
    · apply h.of_core
      simp only [Env.exec, World.core, hcore]
    · obtain ⟨hid, hnone⟩ := he q f h.queue hf
      refine h.congr rfl ?_ ?_ rfl fun _ _ _ => rfl
      · show (w.kernel.close fd).2.file _ = _
        rw [Kernel.file_congr hcore, Kernel.closeFile_file hf, if_neg fun hq => hid ?_]
        · exact h.queue
        · rw [← hq, h.queue] at hf
          exact congrArg File.id (Option.some.inj hf).symm
      · show (w.kernel.close fd).2.interest q.id = _
        rw [Kernel.interest_congr hcore]
        funext n
        simp only [Kernel.closeFile]
        split
        · next hor =>
          rcases hor with hq | rfl
          · exact absurd hq.symm hid
          · exact hnone.symm
        · rfl
  | setDescriptor a d =>
    refine h.congr rfl h.queue rfl rfl fun fd p hp => ?_
    obtain ⟨ev, hev, hdata⟩ := h.registered hp
    have hne : p ≠ .obj a := fun hpa => he q fd ev h.queue hev (hpa ▸ hdata)
    cases p with
    | obj b =>
      show (Function.update w.descriptors a d b).fd = _
      rw [Function.update_of_ne fun hb => hne (congrArg EDPtr.obj hb)]
      rfl
    | breakLoop m => rfl
    | timer t => rfl
  | setTimer t x =>
    refine h.congr rfl h.queue rfl rfl fun fd p hp => ?_
    obtain ⟨ev, hev, hdata⟩ := h.registered hp
    have hne : p ≠ .timer t := fun hpt => he q fd ev h.queue hev (hpt ▸ hdata)
    cases p with
    | obj b => rfl
    | breakLoop m => rfl
    | timer t' =>
      show (Function.update w.timers t x t').eventDescriptor.fd = _
      rw [Function.update_of_ne fun ht => hne (congrArg EDPtr.timer ht)]
      rfl
  | expire o =>
    have hkernel : (w.kernel.expire o).files = w.kernel.files ∧
        (w.kernel.expire o).interest = w.kernel.interest := by
      unfold Kernel.expire
      split <;> exact ⟨rfl, rfl⟩
    refine h.congr rfl ?_ ?_ rfl fun _ _ _ => rfl
    · have hfile : ∀ n, (w.kernel.expire o).file n = w.kernel.file n := fun n => by
        simp only [Kernel.file, hkernel.1]
      exact (hfile _).trans h.queue
    · exact congrFun hkernel.2 q.id

theorem step {usePipe2 : Bool} {e : Event} (h : Agreement S w em q)
    (hs : RegStep usePipe2 em w e w') : Agreement S w' em q := by
  obtain ⟨hreg, hstep⟩ := hs
  cases e with
  | env e =>
    subst hstep
    exact h.env hreg
  | ret c r =>
    cases c with
    | reg m c =>
      obtain ⟨rfl, hc⟩ := hreg
      obtain ⟨ro, w₁, hrun, hout⟩ := wp_total (c.spec w em)
      have hexec : (Call.reg (some em) c).exec usePipe2 w = .ok ro.1 w₁ := by
        simp [Call.exec, bind, EStateM.bind, hrun, pure, EStateM.pure]
      obtain ⟨-, rfl⟩ := EStateM.Result.ok.inj (hexec.symm.trans hstep)
      exact h.call hc hout
    | _ => exact hreg.elim

theorem of_init {usePipe2 : Bool} {w₀ : World σ} {m : EM σ} {ms : List (BufPtr × Int)}
    (hb : Buffered w₀ em m ms)
    (hinsert : (w₀.ems em).descriptorStorage.insert = some S.insert)
    (hremove : (w₀.ems em).descriptorStorage.remove = some S.remove)
    (hempty : ∀ fd, S.view w₀.storage fd = none)
    (hout : InitOutcome usePipe2 w₀ em ms m EMResult.success.code w) : ∃ q, Agreement S w em q := by
  have hstorage : m.descriptorStorage = (w₀.ems em).descriptorStorage := by
    cases hb <;> rfl
  obtain ⟨m', base⟩ := hout.base
  have hst : w.storage = w₀.storage := congrArg (·.storage) base.frame
  obtain ⟨ends, fd, q, hem, hq, -, hinterest, -⟩ := hout.registered
  have hbreak : w.breakFd em = ends.1 := by
    simp [World.breakFd, hem, breakLoopDescriptor]
  refine ⟨q, ?_, ?_, ?_, ?_, ?_, fun n hn => ?_, fun n ptr hptr => ?_⟩
  · rw [hem]
    exact hstorage ▸ hinsert
  · rw [hem]
    exact hstorage ▸ hremove
  · rw [hem]
    exact hq
  · rw [hbreak, hinterest, Function.update_self]
  · rw [hst]
    exact hempty _
  · rw [hbreak] at hn
    rw [hinterest, hst, Function.update_of_ne hn, hempty]
    rfl
  · rw [hst, hempty] at hptr
    cases hptr

end Agreement

/-- In every state between the calls of a run on a freshly initialised machine the two registries
hold the same descriptors, each under its own number. -/
theorem registries_agree (S : DescriptorStore σ) (usePipe2 : Bool) (em : EMPtr)
    {w₀ w₁ w : World σ} {tr : List Event}
    (hinsert : (w₀.ems em).descriptorStorage.insert = some S.insert)
    (hremove : (w₀.ems em).descriptorStorage.remove = some S.remove)
    (hempty : ∀ fd, S.view w₀.storage fd = none)
    (hinit : eventMachineInit usePipe2 (some em) w₀ = .ok EMResult.success.code w₁)
    (hrun : Steps (RegStep usePipe2 em) w₁ tr w) :
    ∃ q, w.kernel.file (w.ems em).queueFd = some q ∧
      w.kernel.interest q.id (w.breakFd em) = some ⟨EPOLLIN, some (.breakLoop em)⟩ ∧
      S.view w.storage (w.breakFd em) = none ∧
      (∀ fd, fd ≠ w.breakFd em →
        (w.kernel.interest q.id fd).map (·.data) = S.view w.storage fd) ∧
      ∀ fd ptr, S.view w.storage fd = some ptr → ∃ p, ptr = some p ∧ (w.ed p).fd = fd := by
  obtain ⟨ms, m, hb, hout⟩ := wp_ok (init_spec usePipe2 w₀ em) hinit
  obtain ⟨q, hstart⟩ := Agreement.of_init hb hinsert hremove hempty hout
  have h := hrun.invariant (I := fun w => Agreement S w em q) (fun _ _ _ h hs => h.step hs) hstart
  exact ⟨q, h.queue, h.breakLoop, h.notStored, h.same, h.key⟩

/-- Association lists as storage. -/
def listStore : DescriptorStore (List (Int × EDRef)) :=
  .assoc (show EMResult.errorStorageDuplicateEntry.code ≠ EMResult.success.code by decide)
    (show EMResult.errorStorageNoSuchEntry.code ≠ EMResult.success.code by decide)

/-- A program whose machines use `listStore` and whose event descriptors are for number 3. -/
def listWorld : World (List (Int × EDRef)) :=
  { World.start { emStaticWithMaxEvents (List (Int × EDRef)) 16 none with
      descriptorStorage := ⟨some listStore.insert, some listStore.remove, 0, .null⟩ } [] fun _ _ => none
    with descriptors := fun _ => ⟨EPOLLIN, 3, .null, some (.user 0)⟩ }

/-- Machine 0 has been initialised. -/
def listMachine : World (List (Int × EDRef)) := final (eventMachineInit true (some 0)) listWorld

def addThree : Call := .reg (some 0) (.add (some (.obj 0)))

def deleteThree : Call := .reg (some 0) (.delete 3 none)

def replaceThree : Call := .reg (some 0) (.modify 3 (some (.obj 1)) none)

/-- The number 3 is opened, registered, deleted, registered again and modified. -/
def threeOpened : World (List (Int × EDRef)) := (Env.openFile 0 false).exec listMachine

def threeAdded : World (List (Int × EDRef)) := final (addThree.exec true) threeOpened

def threeDeleted : World (List (Int × EDRef)) := final (deleteThree.exec true) threeAdded

def threeAgain : World (List (Int × EDRef)) := final (addThree.exec true) threeDeleted

def listReplaced : World (List (Int × EDRef)) := final (replaceThree.exec true) threeAgain

theorem listReplaced_run : ∃ tr, Steps (RegStep true 0) listMachine tr listReplaced := by
  have hproper : (3 : Int) ≠ 0 := by decide
  have hopen : RegStep true 0 listMachine (.env (.openFile 0 false)) threeOpened := ⟨trivial, rfl⟩
  have hadd : RegStep true 0 threeOpened (.ret addThree 0) threeAdded :=
    ⟨⟨rfl, hproper⟩, rfl⟩
  have hdelete : RegStep true 0 threeAdded (.ret deleteThree 0) threeDeleted :=
    ⟨⟨rfl, hproper⟩, rfl⟩
  have hagain : RegStep true 0 threeDeleted (.ret addThree 0) threeAgain :=
    ⟨⟨rfl, hproper⟩, rfl⟩
  have hmodify : RegStep true 0 threeAgain (.ret replaceThree 0) listReplaced :=
    ⟨⟨rfl, rfl, hproper⟩, rfl⟩
  exact ⟨_, .cons hopen <| .cons hadd <| .cons hdelete <| .cons hagain <| .cons hmodify (.nil _)⟩

theorem registries_agree_listReplaced :
    (∃ q, listReplaced.kernel.file (listReplaced.ems 0).queueFd = some q ∧
      listReplaced.kernel.interest q.id (listReplaced.breakFd 0) =
        some ⟨EPOLLIN, some (.breakLoop 0)⟩ ∧
      listStore.view listReplaced.storage (listReplaced.breakFd 0) = none ∧
      (∀ fd, fd ≠ listReplaced.breakFd 0 →
        (listReplaced.kernel.interest q.id fd).map (·.data) = listStore.view listReplaced.storage fd) ∧
      ∀ fd ptr, listStore.view listReplaced.storage fd = some ptr →
        ∃ p, ptr = some p ∧ (listReplaced.ed p).fd = fd) ∧
    listStore.view listReplaced.storage 3 = some (some (.obj 1)) := by
  have hinit : eventMachineInit true (some 0) listWorld = .ok EMResult.success.code listMachine := rfl
  obtain ⟨tr, hrun⟩ := listReplaced_run
  exact ⟨registries_agree listStore true 0 rfl rfl (fun _ => rfl) hinit hrun, rfl⟩

end EventMachine
