import EventMachine.Lib.MapServer
import EventMachine.Registry.Ledger

/-!
# The registries serve a map

To the program that uses it, a machine is a partial map from numbers to event descriptors: with a
storage that keeps what it is given, `event_machine_add()` inserts, `event_machine_delete()` removes and
`event_machine_modify()` replaces (`LedgerAct.request`), and whatever fails in the kernel, every call is
either served like that in both registries or refused without effect (`registration_refines_map`). When
nothing fails, what a call returns can be told from the answers of the calls before it
(`registration_answers`).
-/

namespace EventMachine

open Lib

variable {σ : Type}

/-- What a call asks the map for. -/
def RegCall.request (w : World σ) : RegCall → MapRequest Int EDRef
  | .add ed => .insert (ctlFd w ed (-1)) ed
  | .delete fd _ => .remove fd
  | .modify fd ed _ => .replace fd ed

/-- A call with its result, as the map sees it: what was there before is in the caller's variable. -/
def LedgerAct.request (w : World σ) : LedgerAct → Option (Answered Int EDRef)
  | .call c r => some (c.request w, if r.1 = EMResult.success.code then some r.2 else none)
  | .env _ => none

/-- The requests a program has made so far, as a history variable. -/
def requested (w : World σ) (a : LedgerAct) (_ : World σ) (ls : List (Answered Int EDRef)) :
    List (Answered Int EDRef) :=
  ls ++ (a.request w).toList

section steps
variable {S : DescriptorStore σ} {w w' : World σ} {em : EMPtr} {q : File}

theorem Agreement.answer (h : Agreement S w em q) {c : RegCall} (hc : c.Proper w em) (hset : c.Preset)
    (hcan : w.kernel.CanCtl (w.ems em).queueFd (c.change w em).op (c.change w em).fd q) :
    (c.request w).Fits (S.view w.storage) ∧
      ((c.change w em).store w.storage).1 =
        (EMResult.success.code, S.view w.storage (c.request w).key) ∧
      S.view ((c.change w em).store w.storage).2 =
        Function.update (S.view w.storage) (c.request w).key (c.request w).value := by
  have hfits := hcan.fits
  have hview := h.store_view hc hcan
  cases c with
  | add ed =>
    simp only [RegCall.change, addChange, Kernel.entryAfter, Option.map_some] at hfits hview ⊢
    have hfree : S.view w.storage (ctlFd w ed (-1)) = none := by
      rw [← h.same _ hc]
      exact Option.map_eq_none_iff.2 hfits
    refine ⟨hfree, ?_, hview⟩
    rw [h.insertEntry, (S.insert_free _ _ ed hfree).1]
    exact congrArg (Prod.mk _) hfree.symm
  | delete fd oldEd =>
    obtain rfl : oldEd = some none := hset
    simp only [RegCall.change, deleteChange, Kernel.entryAfter, Option.map_none] at hfits hview ⊢
    obtain ⟨ptr, hptr⟩ := Option.ne_none_iff_exists'.1 ((h.view_ne_none hc).2 hfits)
    obtain ⟨p, rfl, -⟩ := h.key fd ptr hptr
    obtain ⟨hok, hold, -⟩ := S.remove_taken _ _ _ hptr
    refine ⟨show S.view w.storage fd ≠ none by simp [hptr], ?_, hview⟩
    rw [h.removeEntry, hok, hold]
    exact congrArg (Prod.mk _) hptr.symm
  | modify fd ed oldEd =>
    obtain rfl : oldEd = some none := hset
    obtain ⟨hed, hfd⟩ := hc
    simp only [RegCall.change, modifyChange, hed] at hfits hview ⊢
    obtain ⟨ptr, hptr⟩ := Option.ne_none_iff_exists'.1 ((h.view_ne_none hfd).2 hfits)
    obtain ⟨p, rfl, -⟩ := h.key fd ptr hptr
    have htaken : S.view w.storage fd ≠ none := by simp [hptr]
    obtain ⟨hok, hok', -⟩ := S.replace ed htaken
    refine ⟨htaken, ?_, hview⟩
    rw [h.removeEntry, if_pos ((isEmSuccess_iff _).2 hok), h.insertEntry,
      (S.remove_taken _ _ _ hptr).2.1, hok']
    exact congrArg (Prod.mk _) hptr.symm

/-- A call is served by the map, or refused. -/
theorem Agreement.served (h : Agreement S w em q) {c : RegCall} (hc : c.Proper w em) (hset : c.Preset)
    {r : UInt32 × OutVar} (hout : Outcome w em (c.change w em) c.oldEd r w') :
    MapStep (S.view w.storage)
      (c.request w, if r.1 = EMResult.success.code then some r.2 else none) (S.view w'.storage) := by
  cases hout with
  | refused why hold same =>
    rw [if_neg why.ne_success, World.storage_congr same.core]
    exact .refused _ _
  | done q' can result core =>
    obtain rfl : q' = q := Option.some.inj (can.queue.symm.trans h.queue)
    obtain ⟨hfits, hcode, hview⟩ := h.answer hc hset can
    rw [World.storage_congr core]
    rw [result, hcode, if_pos rfl]
    have hserved := MapStep.served (c.request w) hfits
    rwa [← hview] at hserved

theorem Agreement.step_served (h : Agreement S w em q) {a : LedgerAct} (hs : LedgerStep em w a w') :
    Steps MapStep (S.view w.storage) (a.request w).toList (S.view w'.storage) := by
  cases a with
  | env e =>
    obtain ⟨-, rfl⟩ := hs
    rw [show (e.exec w).storage = w.storage by cases e <;> rfl]
    exact .nil _
  | call c r =>
    obtain ⟨hc, hset, hexec⟩ := hs
    exact .cons (h.served hc hset (wp_ok (c.spec w em) hexec)) (.nil _)

theorem Agreement.refines {acts : List LedgerAct} {ls ls' : List (Answered Int EDRef)}
    {m₀ : Int → Option EDRef} (hrun : Steps (history (LedgerStep em) requested) (w, ls) acts (w', ls'))
    (h : Agreement S w em q) (hm : Steps MapStep m₀ ls (S.view w.storage)) :
    Agreement S w' em q ∧ Steps MapStep m₀ ls' (S.view w'.storage) := by
  have hinv := hrun.invariant
    (I := fun x => Agreement S x.1 em q ∧ Steps MapStep m₀ x.2 (S.view x.1.storage)) ?_ ⟨h, hm⟩
  · exact hinv
  · rintro ⟨v, l⟩ a ⟨v', l'⟩ ⟨hv, hl⟩ ⟨hs, hl'⟩
    obtain ⟨e, hreg⟩ := hs.reg true
    obtain rfl : l' = l ++ (a.request v).toList := hl'
    exact ⟨hv.step hreg, hl.append (hv.step_served hs)⟩

end steps

/-! ## What a call returns -/

/-- The result of a call when the map is `m` and nothing fails. The number of the queue itself is never
registered. -/
def RegCall.expected (w : World σ) (em : EMPtr) (m : Int → Option EDRef) : RegCall → UInt32 × OutVar
  | .add none => (EMResult.errorDescriptorNull.code, none)
  | .add (some p) =>
    if w.kernel.file (w.ed p).fd = none then (EMResult.errorBadfd.code, none)
    else if (w.ed p).fd = (w.ems em).queueFd ∨ m (w.ed p).fd ≠ none then
      (EMResult.errorEventCtl.code, none)
    else (EMResult.success.code, none)
  | .delete fd oldEd | .modify fd _ oldEd =>
    if w.kernel.file fd = none then (EMResult.errorBadfd.code, oldEd)
    else if fd = (w.ems em).queueFd ∨ m fd = none then (EMResult.errorEventCtl.code, oldEd)
    else (EMResult.success.code, m fd)

section answers
variable {S : DescriptorStore σ} {w w' : World σ} {em : EMPtr} {q : File}

theorem RegCall.checked_eq (w : World σ) (em : EMPtr) (c : RegCall) :
    (c.change w em).checked = (c.request w).key := by
  cases c <;> rfl

/-- The request fits, and it is not about the number of the queue itself. -/
def RegCall.Servable (w : World σ) (em : EMPtr) (m : Int → Option EDRef) (c : RegCall) : Prop :=
  (c.request w).key ≠ (w.ems em).queueFd ∧ (c.request w).Fits m

theorem RegCall.Proper.fd_eq {c : RegCall} (hc : c.Proper w em) :
    (c.change w em).fd = (c.request w).key := by
  cases c with
  | add ed => rfl
  | delete fd oldEd => rfl
  | modify fd ed oldEd => exact hc.1

theorem Agreement.fits_iff (h : Agreement S w em q) {c : RegCall} (hc : c.Proper w em) :
    (c.request w).Fits (S.view w.storage) ↔
      Kernel.Fits (c.change w em).op (w.kernel.interest q.id (c.change w em).fd) := by
  cases c with
  | add ed =>
    show S.view w.storage (ctlFd w ed (-1)) = none ↔ w.kernel.interest q.id (ctlFd w ed (-1)) = none
    rw [← h.same _ hc, Option.map_eq_none_iff]
  | delete fd oldEd => exact h.view_ne_none hc
  | modify fd ed oldEd =>
    obtain ⟨hed, hfd⟩ := hc
    show S.view w.storage fd ≠ none ↔ (w.kernel.interest q.id (ctlFd w ed (-1))).isSome
    rw [hed]
    exact h.view_ne_none hfd

theorem Agreement.result (h : Agreement S w em q) (hq : q.kind = .epoll) (hf : w.kernel.FaultFree)
    {c : RegCall} (hc : c.Proper w em) (hset : c.Preset) (hdata : c ≠ .add none) {r : UInt32 × OutVar}
    (hout : Outcome w em (c.change w em) c.oldEd r w') :
    (w.kernel.file (c.request w).key = none → r = (EMResult.errorBadfd.code, c.oldEd)) ∧
    (w.kernel.file (c.request w).key ≠ none →
      (¬ c.Servable w em (S.view w.storage) → r = (EMResult.errorEventCtl.code, c.oldEd)) ∧
      (c.Servable w em (S.view w.storage) →
        r = (EMResult.success.code, S.view w.storage (c.request w).key))) := by
  obtain ⟨code, old⟩ := r
  rw [RegCall.Servable, h.fits_iff hc, ← c.checked_eq w em]
  have hpasses : w.kernel.Passes (w.ems em).queueFd (c.change w em).checked ↔
      w.kernel.file (c.change w em).checked ≠ none := by
    rw [hf.passes, h.queue, ← Option.isSome_iff_ne_none]
    simp
  cases hout with
  | refused why hold same =>
    obtain rfl : old = c.oldEd := hold
    have hnone : (c.change w em).op = .add → (c.change w em).event.data ≠ none := by
      cases c with
      | add ed => exact fun _ hed => hdata (congrArg RegCall.add hed)
      | delete fd oldEd => exact nofun
      | modify fd ed oldEd => exact nofun
    rcases why.cause hnone with ⟨rfl, hfails⟩ | ⟨rfl, hp⟩
    · rw [hpasses, not_not] at hfails
      exact ⟨fun _ => rfl, fun hopen => absurd hfails hopen⟩
    · refine ⟨fun hclosed => absurd hclosed (hpasses.1 hp), fun _ => ⟨fun _ => rfl, ?_⟩⟩
      rintro ⟨hother, hfits⟩
      rw [c.checked_eq, ← hc.fd_eq] at hother
      have htarget : (w.kernel.file (c.change w em).fd).isSome := by
        rw [hc.fd_eq, ← c.checked_eq w em]
        exact hp.2.1
      exact absurd ⟨hp, hf.unhindered _, q, h.queue, hq, htarget, hother, hfits⟩ why.not_reaches
  | done q' can result core _ reached =>
    obtain rfl : q' = q := Option.some.inj (can.queue.symm.trans h.queue)
    obtain ⟨-, hcode, -⟩ := h.answer hc hset can
    refine ⟨fun hclosed => absurd hclosed (hpasses.1 reached.passes), fun _ => ⟨?_, fun _ => ?_⟩⟩
    · have hother := can.other
      rw [hc.fd_eq, ← c.checked_eq w em] at hother
      exact fun hnot => absurd ⟨hother, can.fits⟩ hnot
    · rw [result, hcode, c.checked_eq]

theorem Agreement.returns (h : Agreement S w em q) (hq : q.kind = .epoll) (hf : w.kernel.FaultFree)
    {c : RegCall} (hc : c.Proper w em) (hset : c.Preset) {r : UInt32 × OutVar}
    (hexec : c.exec (some em) w = .ok r w') : r = c.expected w em (S.view w.storage) := by
  have hout := wp_ok (c.spec w em) hexec
  by_cases hdata : c = .add none
  · subst hdata
    obtain ⟨hr, -⟩ := EStateM.Result.ok.inj hexec
    exact hr.symm
  obtain ⟨hclosed, hopen⟩ := h.result hq hf hc hset hdata hout
  cases c with
  | add ed =>
    cases ed with
    | none => exact absurd rfl hdata
    | some p =>
      simp only [RegCall.expected]
      split
      · next hfile => exact hclosed hfile
      · next hfile =>
        split
        · next hnot => exact (hopen hfile).1 fun hs => hnot.elim hs.1 (· hs.2)
        · next hfits =>
          obtain ⟨hother, hfree⟩ := not_or.1 hfits
          rw [(hopen hfile).2 ⟨hother, not_not.1 hfree⟩]
          exact congrArg (Prod.mk _) (not_not.1 hfree)
  | delete fd oldEd =>
    simp only [RegCall.expected]
    split
    · next hfile => exact hclosed hfile
    · next hfile =>
      split
      · next hnot => exact (hopen hfile).1 fun hs => hnot.elim hs.1 hs.2
      · next hfits => exact (hopen hfile).2 (not_or.1 hfits)
  | modify fd ed oldEd =>
    simp only [RegCall.expected]
    split
    · next hfile => exact hclosed hfile
    · next hfile =>
      split
      · next hnot => exact (hopen hfile).1 fun hs => hnot.elim hs.1 hs.2
      · next hfits => exact (hopen hfile).2 (not_or.1 hfits)

end answers

/-! ## Runs -/

section runs
variable {w₀ w₁ w : World σ} {em : EMPtr} {acts : List LedgerAct} {ls : List (Answered Int EDRef)}

theorem Agreement.started (S : DescriptorStore σ) (usePipe2 : Bool) (em : EMPtr)
    (hinsert : (w₀.ems em).descriptorStorage.insert = some S.insert)
    (hremove : (w₀.ems em).descriptorStorage.remove = some S.remove)
    (hempty : ∀ fd, S.view w₀.storage fd = none)
    (hinit : eventMachineInit usePipe2 (some em) w₀ = .ok EMResult.success.code w₁)
    (hrun : Steps (history (LedgerStep em) requested) (w₁, []) acts (w, ls)) :
    ∃ q, q.kind = .epoll ∧ Agreement S w em q ∧ Steps MapStep (fun _ => none) ls (S.view w.storage) := by
  obtain ⟨ms, m, hb, hout⟩ := wp_ok (init_spec usePipe2 w₀ em) hinit
  obtain ⟨q, hstart⟩ := Agreement.of_init hb hinsert hremove hempty hout
  obtain ⟨ends, fd, q', hem, hq', hkind, -⟩ := hout.registered
  have hqueue : w₁.kernel.file fd = some q := by
    have hself := hstart.queue
    rwa [hem] at hself
  obtain rfl : q' = q := Option.some.inj (hq'.symm.trans hqueue)
  obtain ⟨m', hframe⟩ := hout.base
  have hview : S.view w₁.storage = fun _ => none := by
    rw [show w₁.storage = w₀.storage from congrArg (·.storage) hframe.frame]
    exact funext hempty
  have hmap : Steps MapStep (fun _ => none) [] (S.view w₁.storage) := hview ▸ .nil _
  exact ⟨q', hkind, hstart.refines hrun hmap⟩

/-- On a freshly initialised machine, whatever fails in the kernel, the calls of a program are served by
a partial map which is empty at the beginning, or refused; and the map is what both registries hold. -/
theorem registration_refines_map (S : DescriptorStore σ) (usePipe2 : Bool) (em : EMPtr)
    (hinsert : (w₀.ems em).descriptorStorage.insert = some S.insert)
    (hremove : (w₀.ems em).descriptorStorage.remove = some S.remove)
    (hempty : ∀ fd, S.view w₀.storage fd = none)
    (hinit : eventMachineInit usePipe2 (some em) w₀ = .ok EMResult.success.code w₁)
    (hrun : Steps (history (LedgerStep em) requested) (w₁, []) acts (w, ls)) :
    Steps MapStep (fun _ => none) ls (S.view w.storage) ∧
      ∃ q, w.kernel.file (w.ems em).queueFd = some q ∧ ∀ fd, fd ≠ w.breakFd em →
        (w.kernel.interest q.id fd).map (·.data) = S.view w.storage fd := by
  obtain ⟨q, -, h, hmap⟩ := Agreement.started S usePipe2 em hinsert hremove hempty hinit hrun
  exact ⟨hmap, q, h.queue, h.same⟩

/-- What either registry holds for a number was put there by the last call for this number that has
succeeded, and the calls for this number have been answered as if there had been no others. -/
theorem registration_per_number (S : DescriptorStore σ) (usePipe2 : Bool) (em : EMPtr)
    (hinsert : (w₀.ems em).descriptorStorage.insert = some S.insert)
    (hremove : (w₀.ems em).descriptorStorage.remove = some S.remove)
    (hempty : ∀ fd, S.view w₀.storage fd = none)
    (hinit : eventMachineInit usePipe2 (some em) w₀ = .ok EMResult.success.code w₁)
    (hrun : Steps (history (LedgerStep em) requested) (w₁, []) acts (w, ls)) {fd : Int}
    (hfd : fd ≠ w.breakFd em) :
    (∃ q, w.kernel.file (w.ems em).queueFd = some q ∧
      (w.kernel.interest q.id fd).map (·.data) =
        (ls.filter (Answered.servedAt fd)).getLast?.bind (·.1.value)) ∧
      ∃ m, Steps MapStep (fun _ => none) (ls.filter (·.1.key = fd)) m ∧ m fd = S.view w.storage fd := by
  obtain ⟨q, -, h, hmap⟩ := Agreement.started S usePipe2 em hinsert hremove hempty hinit hrun
  refine ⟨⟨q, h.queue, ?_⟩, hmap.at_key fd rfl⟩
  rw [h.same fd hfd, hmap.last_served fd]
  cases (ls.filter (Answered.servedAt fd)).getLast? <;> rfl

/-- While `fcntl()` and `epoll_ctl()` do not fail by themselves, what a call returns, and what it leaves
in the caller's variable, can be told from the calls before it that have succeeded. -/
theorem registration_answers (S : DescriptorStore σ) (usePipe2 : Bool) (em : EMPtr)
    (hinsert : (w₀.ems em).descriptorStorage.insert = some S.insert)
    (hremove : (w₀.ems em).descriptorStorage.remove = some S.remove)
    (hempty : ∀ fd, S.view w₀.storage fd = none)
    (hinit : eventMachineInit usePipe2 (some em) w₀ = .ok EMResult.success.code w₁)
    (hrun : Steps (history (LedgerStep em) requested) (w₁, []) acts (w, ls)) (hf : w.kernel.FaultFree)
    {c : RegCall} (hc : c.Proper w em) (hset : c.Preset) :
    ∃ w', c.exec (some em) w = .ok (c.expected w em fun fd =>
      (ls.filter (Answered.servedAt fd)).getLast?.bind (·.1.value)) w' := by
  obtain ⟨q, hq, h, hmap⟩ := Agreement.started S usePipe2 em hinsert hremove hempty hinit hrun
  obtain ⟨r, w', hexec, -⟩ := wp_total (c.spec w em)
  refine ⟨w', ?_⟩
  have hm : (fun fd => (ls.filter (Answered.servedAt fd)).getLast?.bind (·.1.value)) =
      S.view w.storage := by
    funext fd
    rw [hmap.last_served fd]
    cases (ls.filter (Answered.servedAt fd)).getLast? <;> rfl
  rw [hm, ← h.returns hq hf hc hset hexec, hexec]

end runs

/-! ## A run -/

/-- A descriptor is added, and adding it again is refused. -/
def listActs : List LedgerAct :=
  [.env (.openFile 0 false), .call (.add (some (.obj 0))) (0, none),
    .call (.add (some (.obj 0))) (EMResult.errorEventCtl.code, none)]

def listRefused : World (List (Int × EDRef)) :=
  final ((RegCall.add (some (.obj 0))).exec (some 0)) listAdded

def listRequests : List (Answered Int EDRef) :=
  [(.insert 3 (some (.obj 0)), some none), (.insert 3 (some (.obj 0)), none)]

theorem listActs_run : Steps (history (LedgerStep 0) requested) (listMachine, []) listActs
    (listRefused, listRequests) := by
  have hopen : LedgerStep 0 listMachine (.env (.openFile 0 false)) listOpened := ⟨trivial, rfl⟩
  have hproper : (3 : Int) ≠ 0 := by decide
  have hadd : LedgerStep 0 listOpened (.call (.add (some (.obj 0))) (0, none)) listAdded :=
    ⟨hproper, trivial, rfl⟩
  have hagain : LedgerStep 0 listAdded
      (.call (.add (some (.obj 0))) (EMResult.errorEventCtl.code, none)) listRefused :=
    ⟨hproper, trivial, rfl⟩
  exact .cons (t := (listOpened, [])) ⟨hopen, rfl⟩ <|
    .cons (t := (listAdded, [(.insert 3 (some (.obj 0)), some none)])) ⟨hadd, rfl⟩ <|
      .cons ⟨hagain, rfl⟩ (.nil _)

theorem listMachine_init :
    eventMachineInit true (some 0) listWorld = .ok EMResult.success.code listMachine := rfl

theorem registration_refines_map_listActs :
    Steps MapStep (fun _ => none) listRequests (listStore.view listRefused.storage) :=
  (registration_refines_map listStore true 0 rfl rfl (fun _ => rfl) listMachine_init listActs_run).1

theorem registration_per_number_listActs :
    ∃ q, listRefused.kernel.file (listRefused.ems 0).queueFd = some q ∧
      (listRefused.kernel.interest q.id 3).map (·.data) = some (some (.obj 0)) :=
  (registration_per_number listStore true 0 rfl rfl (fun _ => rfl) listMachine_init listActs_run
    (show (3 : Int) ≠ 0 by decide)).1

theorem registration_answers_listActs :
    ∃ w', (RegCall.delete 3 (some none)).exec (some 0) listRefused =
      .ok (EMResult.success.code, some (some (.obj 0))) w' :=
  registration_answers listStore true 0 rfl rfl (fun _ => rfl) listMachine_init listActs_run
    ⟨fun _ => rfl, fun op _ => by cases op <;> rfl⟩ (show (3 : Int) ≠ 0 by decide) rfl

end EventMachine
