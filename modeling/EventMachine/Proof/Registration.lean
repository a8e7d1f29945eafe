import EventMachine.Proof.World
import EventMachine.Registration

/-!
# What the registration calls can do

A call of `event_machine_add()`, `event_machine_delete()` or `event_machine_modify()` asks for a
`Change`: one operation on one entry of the queue, and a step of the storage. `RegCall.spec` says
everything such a call can do (`Outcome`): it is refused and neither registry changes, with the
reasons for which that happens, or the interest set changes as asked and the storage step has run.
Every later result about these calls goes through it, and none looks at the code again.
-/

namespace EventMachine

open Lib

variable {σ : Type}

/-! ## System calls -/

theorem fcntlGetfl_faults_ok {who : Owner} {fd r : Int} {w w' : World σ}
    (h : fcntlGetfl who fd w = .ok r w') : w'.kernel.faults = (w.kernel.turn .fcntlGetfl).2.faults := by
  obtain ⟨-, rfl⟩ := EStateM.Result.ok.inj h
  exact Kernel.fcntlGetfl_faults w.kernel fd

theorem fcntlGetfl_spec (who : Owner) (fd : Int) (w : World σ) :
    ∃ r w', fcntlGetfl who fd w = .ok r w' ∧ Same w w' ∧
      (r < 0 ↔ w.kernel.file fd = none ∨ w.kernel.faults .fcntlGetfl 0 ≠ none) := by
  refine ⟨_, _, rfl, ⟨?_, fun h => Kernel.fcntlGetfl_faultFree h fd⟩, Kernel.fcntlGetfl_neg _ fd⟩
  simp only [World.core, Kernel.fcntlGetfl_core]

theorem epollCtl_spec (who : Owner) (epfd : Int) (op : CtlOp) (fd : Int) (ev : EpollEvent)
    (w : World σ) :
    ∃ r w', epollCtl who epfd op fd ev w = .ok r w' ∧
      (w.kernel.FaultFree → w'.kernel.FaultFree) ∧
      ((r = 0 ∧ ∃ q, w.kernel.CanCtl epfd op fd q ∧
          w'.core = (w.setInterest q.id fd (Kernel.entryAfter op ev)).core) ∨
        (r ≠ 0 ∧ Same w w' ∧ (w.kernel.FaultFree → (∀ q, ¬ w.kernel.CanCtl epfd op fd q) ∧
          (op ≠ .add → w'.kernel.errno ≠ .EEXIST)) ∧
          (w.kernel.file fd = none → w'.kernel.errno = .EBADF))) := by
  have hfree := fun h : w.kernel.FaultFree => Kernel.epollCtl_faultFree h epfd op fd ev
  refine ⟨_, _, rfl, hfree, ?_⟩
  rcases Kernel.epollCtl_cases w.kernel epfd op fd ev with ⟨hr, q, hq, hk⟩ | ⟨hr, hk, hwhy⟩
  · refine Or.inl ⟨hr, q, hq, ?_⟩
    simp only [World.core, World.setInterest, Kernel.setInterest_core, hk]
  · refine Or.inr ⟨by rw [hr]; decide, ⟨?_, hfree⟩, hwhy⟩
    simp only [World.core, hk]

/-- The descriptor number `event_ctl()` works on. -/
def ctlFd (w : World σ) (ed : EDRef) (fd : Int) : Int :=
  match ed with
  | none => fd
  | some p => (w.ed p).fd

/-- The event `event_ctl()` passes to the kernel. -/
def ctlEvent (w : World σ) (ed : EDRef) : EpollEvent :=
  ⟨match ed with | none => 0 | some p => (w.ed p).events, ed⟩

theorem ctlFd_congr {w w' : World σ} {ed : EDRef} (h : ∀ p, ed = some p → w'.ed p = w.ed p) (fd : Int) :
    ctlFd w' ed fd = ctlFd w ed fd := by
  cases ed with
  | none => rfl
  | some p => exact congrArg (·.fd) (h p rfl)

theorem ctlEvent_congr {w w' : World σ} {ed : EDRef} (h : ∀ p, ed = some p → w'.ed p = w.ed p) :
    ctlEvent w' ed = ctlEvent w ed := by
  cases ed with
  | none => rfl
  | some p => exact congrArg (fun d => (⟨d.events, some p⟩ : EpollEvent)) (h p rfl)

/-- Why an `event_ctl()` may fail. -/
def CtlRefused (w : World σ) (queueFd : Int) (op : CtlOp) (fd : Int) : Prop :=
  w.kernel.FaultFree → ∀ q, ¬ w.kernel.CanCtl queueFd op fd q

/-- `event_ctl()` changes the entry it is asked to change, or nothing. Only the retry of a failed
`EVENT_MODIFY` reads through a pointer that may be `NULL`. -/
theorem eventCtl_spec (who : Owner) (queueFd : Int) (ed : EDRef) (fd : Int) (op : CtlOp)
    (w : World σ) :
    wp (eventCtl who queueFd ed fd op)
      (fun r w' => (w.kernel.FaultFree → w'.kernel.FaultFree) ∧
        ((r = 0 ∧ ∃ q, w.kernel.CanCtl queueFd op (ctlFd w ed fd) q ∧
            w'.core =
              (w.setInterest q.id (ctlFd w ed fd) (Kernel.entryAfter op (ctlEvent w ed))).core) ∨
          (r ≠ 0 ∧ Same w w' ∧ CtlRefused w queueFd op (ctlFd w ed fd))))
      (fun _ _ => ed = none ∧ op = .mod ∧ (w.kernel.file fd).isSome) w := by
  have hfd := epollCtl_spec who queueFd op (ctlFd w ed fd) (ctlEvent w ed) w
  obtain ⟨r, w₁, hr, hfree, hcase⟩ := hfd
  unfold eventCtl
  rw [wp_bind, wp_get]
  change wp (epollCtl who queueFd op (ctlFd w ed fd) (ctlEvent w ed) >>= _) _ _ _
  rw [wp_bind, wp_eq_ok hr, wp_ite]
  refine ⟨fun h => ⟨hfree, ?_⟩, fun h => ?_⟩
  · rcases hcase with hok | ⟨hne, _⟩
    · exact Or.inl hok
    · exact absurd h hne
  obtain ⟨-, hsame, hwhy, hbadf⟩ : r ≠ 0 ∧ Same w w₁ ∧ _ ∧ _ := hcase.resolve_left fun hok => h hok.1
  have hrefused : CtlRefused w queueFd op (ctlFd w ed fd) := fun hf => (hwhy hf).1
  rw [wp_bind, wp_getErrno, wp_ite]
  refine ⟨fun _ => ⟨hfree, Or.inr ⟨h, hsame, hrefused⟩⟩, fun hretry => ?_⟩
  obtain ⟨rfl, herrno⟩ : op = .mod ∧ w₁.kernel.errno = .EEXIST := by
    simpa only [ne_eq, not_or, not_not] using hretry
  have hfault : ¬ w.kernel.FaultFree := fun hf => (hwhy hf).2 (by decide) herrno
  cases ed with
  | none =>
    refine ⟨rfl, rfl, Option.isSome_iff_ne_none.2 fun hnone => ?_⟩
    simp [hbadf hnone] at herrno
  | some p =>
    -- the retry, on the same entry and with the same event
    obtain ⟨r', w₂, hr', -, hcase'⟩ :=
      epollCtl_spec who queueFd .mod (w.ed p).fd (ctlEvent w (some p)) w₁
    refine (wp_eq_ok hr').2 ⟨fun hf => absurd hf hfault, ?_⟩
    rcases hcase' with ⟨h0, q, hq, hcore⟩ | ⟨hne, hsame', -⟩
    · refine Or.inl ⟨h0, q, hq.congr (World.kernel_core hsame.core), hcore.trans ?_⟩
      exact World.setInterest_congr hsame.core _ _ _
    · exact Or.inr ⟨hne, hsame.trans hsame', hrefused⟩

theorem eventCtl_zero_iff (who : Owner) (queueFd : Int) (ed : EDRef) (fd : Int) (op : CtlOp)
    (w : World σ) :
    wp (eventCtl who queueFd ed fd op)
      (fun r _ => r = 0 ↔ (∃ q, w.kernel.CanCtl queueFd op (ctlFd w ed fd) q) ∧ w.kernel.Unhindered op)
      (fun _ _ => True) w := by
  have hzero := Kernel.epollCtl_zero_iff w.kernel queueFd op (ctlFd w ed fd) (ctlEvent w ed)
  unfold eventCtl
  rw [wp_bind, wp_get]
  change wp (epollCtl who queueFd op (ctlFd w ed fd) (ctlEvent w ed) >>= _) _ _ _
  rw [wp_bind]
  apply (wp_modifyGet _).2
  rw [wp_ite]
  refine ⟨fun h => ⟨fun _ => ?_, fun _ => h⟩, fun hne => ?_⟩
  · obtain ⟨hq, hfault⟩ := hzero.1 h
    exact ⟨hq, Or.inl hfault⟩
  rw [wp_bind, wp_getErrno, wp_ite]
  refine ⟨fun hret => iff_of_false hne fun ⟨⟨q, hq⟩, hun⟩ => ?_, fun hretry => ?_⟩
  · rcases hun with hfault | ⟨rfl, hfault, -⟩
    · exact hne (hzero.2 ⟨⟨q, hq⟩, hfault⟩)
    · exact hret.elim (fun h => h rfl) fun h => h ((Kernel.epollCtl_eexist hq).2 hfault).2
  obtain ⟨rfl, herrno⟩ : op = .mod ∧ _ := by
    simpa only [ne_eq, not_or, not_not] using hretry
  cases ed with
  | none => trivial
  | some p =>
    -- the retry is made on the kernel the first attempt has left, which has the same entries
    have hzero' := Kernel.epollCtl_zero_iff
      (w.kernel.epollCtl queueFd .mod (w.ed p).fd (ctlEvent w (some p))).2 queueFd .mod (w.ed p).fd
      (ctlEvent w (some p))
    rw [Kernel.epollCtl_faults, Kernel.turn_faults_self] at hzero'
    have hcore : (w.kernel.epollCtl queueFd .mod (w.ed p).fd (ctlEvent w (some p))).2.core =
        w.kernel.core := by
      rcases Kernel.epollCtl_cases w.kernel queueFd .mod (w.ed p).fd (ctlEvent w (some p)) with
        ⟨h0, -⟩ | ⟨-, hcore, -⟩
      · exact absurd h0 hne
      · exact hcore
    refine hzero'.trans ⟨fun ⟨⟨q, hq⟩, hfault⟩ => ?_, fun ⟨⟨q, hq⟩, hun⟩ => ?_⟩
    · have hq' := hq.congr hcore
      exact ⟨⟨q, hq'⟩, Or.inr ⟨rfl, (Kernel.epollCtl_eexist hq').1 ⟨hne, herrno⟩, hfault⟩⟩
    · rcases hun with hfault | ⟨-, -, hfault⟩
      · exact absurd (hzero.2 ⟨⟨q, hq⟩, hfault⟩) hne
      · exact ⟨⟨q, hq.congr hcore.symm⟩, hfault⟩

/-- An `epoll_ctl()` on the queue, as it is recorded. -/
def CtlRecord (w : World σ) (who : Owner) (queueFd : Int) (op : CtlOp) (fd : Int) (x : SysRecord) :
    Prop :=
  x.who = who ∧ x.call = .epollCtl op ∧ x.fd = queueFd ∧ x.file = w.kernel.file queueFd ∧
    x.target = some (fd, w.kernel.file fd)

theorem epollCtl_file (k : Kernel) (epfd : Int) (op : CtlOp) (fd : Int) (ev : EpollEvent) (n : Int) :
    (k.epollCtl epfd op fd ev).2.file n = k.file n := by
  rcases Kernel.epollCtl_cases k epfd op fd ev with ⟨-, q, -, h⟩ | ⟨-, h, -⟩
  · exact Kernel.file_congr (k := k.setInterest q.id fd (Kernel.entryAfter op ev)) h n
  · exact Kernel.file_congr h n

theorem eventCtl_records (who : Owner) (queueFd : Int) (ed : EDRef) (fd : Int) (op : CtlOp)
    (w : World σ) :
    wp (eventCtl who queueFd ed fd op)
      (fun _ w' => Records (CtlRecord w who queueFd op (ctlFd w ed fd)) w w')
      (fun _ w' => Records (CtlRecord w who queueFd op (ctlFd w ed fd)) w w') w := by
  unfold eventCtl
  rw [wp_bind, wp_get]
  change wp (epollCtl who queueFd op (ctlFd w ed fd) (ctlEvent w ed) >>= _) _ _ _
  rw [wp_bind]
  apply (wp_modifyGet _).2
  generalize hw₁ : ({ w with kernel := _, log := _ } : World σ) = w₁
  have hfile : ∀ n, w₁.kernel.file n = w.kernel.file n := fun n => by
    rw [← hw₁]
    exact epollCtl_file _ _ _ _ _ _
  have hrec : Records (CtlRecord w who queueFd op (ctlFd w ed fd)) w w₁ := by
    rw [← hw₁]
    exact .of_one rfl ⟨rfl, rfl, rfl, rfl, rfl⟩
  rw [wp_ite]
  refine ⟨fun _ => hrec, fun _ => ?_⟩
  rw [wp_bind, wp_getErrno, wp_ite]
  refine ⟨fun _ => hrec, fun hretry => ?_⟩
  cases ed with
  | none => exact hrec
  | some p =>
    have hop : op = .mod := by simp only [ne_eq, not_or, not_not] at hretry; exact hretry.1
    subst hop
    refine (wp_modifyGet _).2 (hrec.trans (.of_one rfl ⟨rfl, rfl, rfl, hfile _, ?_⟩))
    show some ((w.ed p).fd, w₁.kernel.file (w.ed p).fd) = _
    rw [hfile]
    rfl

/-! ## Storage callbacks -/

namespace EMDescriptorStorage

/-- The effect of the storage step of an insertion; without callback nothing happens. -/
def insertEntry (s : EMDescriptorStorage σ) (fd : Int) (ptr : EDRef) (st : σ) : UInt32 × σ :=
  match s.insert with
  | some insert => insert fd ptr st
  | none => (EMResult.success.code, st)

/-- The effect of the storage step of a removal; without callback nothing happens. -/
def removeEntry (s : EMDescriptorStorage σ) (fd : Int) (st : σ) : UInt32 × EDRef × σ :=
  match s.remove with
  | some remove => remove fd st
  | none => (EMResult.success.code, none, st)

theorem insertEntry_of_some {s : EMDescriptorStorage σ} {insert : Int → EDRef → σ → UInt32 × σ}
    (h : s.insert = some insert) (fd : Int) (ptr : EDRef) (st : σ) :
    s.insertEntry fd ptr st = insert fd ptr st := by
  simp only [insertEntry, h]

theorem removeEntry_of_some {s : EMDescriptorStorage σ} {remove : Int → σ → UInt32 × EDRef × σ}
    (h : s.remove = some remove) (fd : Int) (st : σ) : s.removeEntry fd st = remove fd st := by
  simp only [removeEntry, h]

theorem insertEntry_cases (s : EMDescriptorStorage σ) (fd : Int) (ptr : EDRef) (st : σ) :
    s.insertEntry fd ptr st = (EMResult.success.code, st) ∨
      ∃ insert, s.insert = some insert ∧ s.insertEntry fd ptr st = insert fd ptr st := by
  cases h : s.insert with
  | none => exact Or.inl (by simp only [insertEntry, h])
  | some insert => exact Or.inr ⟨insert, rfl, insertEntry_of_some h fd ptr st⟩

theorem removeEntry_cases (s : EMDescriptorStorage σ) (fd : Int) (st : σ) :
    s.removeEntry fd st = (EMResult.success.code, none, st) ∨
      ∃ remove, s.remove = some remove ∧ s.removeEntry fd st = remove fd st := by
  cases h : s.remove with
  | none => exact Or.inl (by simp only [removeEntry, h])
  | some remove => exact Or.inr ⟨remove, rfl, removeEntry_of_some h fd st⟩

/-- A storage whose failing insertions change nothing. -/
def InsertsClean (s : EMDescriptorStorage σ) : Prop :=
  ∀ f, s.insert = some f → ∀ fd p st, (f fd p st).1 ≠ EMResult.success.code → (f fd p st).2 = st

theorem InsertsClean.insertEntry {s : EMDescriptorStorage σ} (h : s.InsertsClean) {fd : Int} {p : EDRef}
    {st : σ} (hr : (s.insertEntry fd p st).1 ≠ EMResult.success.code) :
    (s.insertEntry fd p st).2 = st := by
  rcases s.insertEntry_cases fd p st with heq | ⟨f, hf, heq⟩
  · rw [heq]
  · rw [heq] at hr ⊢
    exact h f hf fd p st hr

end EMDescriptorStorage

/-- The caller's variable after `remove` left `tmpEd` behind. -/
def assignOld (tmpEd : EDRef) (oldEd : OutVar) : OutVar :=
  match tmpEd, oldEd with
  | some p, some _ => some (some p)
  | _, _ => oldEd

theorem removeEventDescriptor_eq (em : EMPtr) {fd : Int} (hfd : 0 ≤ fd) (oldEd : OutVar)
    (w : World σ) :
    removeEventDescriptor em fd oldEd w =
      .ok (((w.ems em).descriptorStorage.removeEntry fd w.storage).1,
          assignOld ((w.ems em).descriptorStorage.removeEntry fd w.storage).2.1 oldEd)
        (w.setStorage ((w.ems em).descriptorStorage.removeEntry fd w.storage).2.2) := by
  have h : wp (removeEventDescriptor em fd oldEd)
      (fun r w' => r = (((w.ems em).descriptorStorage.removeEntry fd w.storage).1,
          assignOld ((w.ems em).descriptorStorage.removeEntry fd w.storage).2.1 oldEd) ∧
        w' = w.setStorage ((w.ems em).descriptorStorage.removeEntry fd w.storage).2.2)
      (fun _ _ => False) w := by
    unfold removeEventDescriptor EMDescriptorStorage.removeEntry
    rw [wp_bind, wp_cAssert]
    refine ⟨fun _ => ?_, fun h => absurd hfd h⟩
    rw [wp_bind, wp_getEM]
    cases (w.ems em).descriptorStorage.remove with
    | none => cases oldEd <;> exact ⟨rfl, rfl⟩
    | some remove =>
      simp only
      rw [wp_bind]
      apply (wp_modifyGet _).2
      dsimp only
      cases (remove fd w.storage).2.1 <;> cases oldEd <;> exact ⟨rfl, rfl⟩
  obtain ⟨r, w', hexec, rfl, rfl⟩ := wp_total h
  exact hexec

/-! ## The registration calls -/

/-- What a registration call is about: the operation on the queue with its number and its event, the
number the call looks at beforehand, and the storage step, with the caller's variable after it. -/
structure Change (σ : Type) where
  op : CtlOp
  fd : Int
  event : EpollEvent
  checked : Int
  store : σ → (UInt32 × OutVar) × σ

/-- `event_machine_add(em, ed)`. -/
def addChange (w : World σ) (em : EMPtr) (ed : EDRef) : Change σ where
  op := .add
  fd := ctlFd w ed (-1)
  event := ctlEvent w ed
  checked := ctlFd w ed (-1)
  store st :=
    let (r, st) := (w.ems em).descriptorStorage.insertEntry (ctlFd w ed (-1)) ed st
    ((r, none), st)

/-- `event_machine_delete(em, fd, old_ed)`. -/
def deleteChange (w : World σ) (em : EMPtr) (fd : Int) (oldEd : OutVar) : Change σ where
  op := .del
  fd := fd
  event := ⟨0, none⟩
  checked := fd
  store st :=
    let (r, tmpEd, st) := (w.ems em).descriptorStorage.removeEntry fd st
    ((r, assignOld tmpEd oldEd), st)

/-- `event_machine_modify(em, fd, ed, old_ed)`. -/
def modifyChange (w : World σ) (em : EMPtr) (fd : Int) (ed : EDRef) (oldEd : OutVar) :
    Change σ where
  op := .mod
  fd := ctlFd w ed (-1)
  event := ctlEvent w ed
  checked := fd
  store st :=
    let (r, tmpEd, st) := (w.ems em).descriptorStorage.removeEntry fd st
    if isEmSuccess r then
      let (r, st) := (w.ems em).descriptorStorage.insertEntry fd ed st
      ((r, assignOld tmpEd oldEd), st)
    else ((r, assignOld tmpEd oldEd), st)

def RegCall.change (w : World σ) (em : EMPtr) : RegCall → Change σ
  | .add ed => addChange w em ed
  | .delete fd oldEd => deleteChange w em fd oldEd
  | .modify fd ed oldEd => modifyChange w em fd ed oldEd

/-- Nothing but the storage can make the call fail. -/
structure Reaches (w : World σ) (em : EMPtr) (c : Change σ) : Prop where
  passes : w.kernel.Passes (w.ems em).queueFd c.checked
  unhindered : w.kernel.Unhindered c.op
  can : ∃ q, w.kernel.CanCtl (w.ems em).queueFd c.op c.fd q

/-- Why a call is refused by its own checks or by `event_ctl()`, and the code it returns then. -/
inductive Refusal (w : World σ) (em : EMPtr) (c : Change σ) : UInt32 → Prop
  | noDescriptor (op : c.op = .add) (data : c.event.data = none)
      (checked : w.kernel.file c.checked = none) : Refusal w em c EMResult.errorDescriptorNull.code
  | badfd (fails : ¬ w.kernel.Passes (w.ems em).queueFd c.checked) :
      Refusal w em c EMResult.errorBadfd.code
  | eventCtl (passes : w.kernel.Passes (w.ems em).queueFd c.checked) (fails : ¬ Reaches w em c) :
      Refusal w em c EMResult.errorEventCtl.code

/-- What a registration call can do, with the caller's variable `oldEd` before it and the result
`r`. -/
inductive Outcome (w : World σ) (em : EMPtr) (c : Change σ) (oldEd : OutVar)
    (r : UInt32 × OutVar) (w' : World σ) : Prop
  | refused (why : Refusal w em c r.1) (old : r.2 = oldEd) (same : Same w w')
  | done (q : File) (can : w.kernel.CanCtl (w.ems em).queueFd c.op c.fd q)
      (code : r = (c.store w.storage).1)
      (core : w'.core = ((w.setInterest q.id c.fd (Kernel.entryAfter c.op c.event)).setStorage
        (c.store w.storage).2).core)
      (faultFree : w.kernel.FaultFree → w'.kernel.FaultFree) (reached : Reaches w em c)

theorem checks_spec {α : Type} (who : Owner) (queueFd fd : Int) (bad : α) (rest : Sys σ α)
    (Q : α → World σ → Prop) (E : Crash → World σ → Prop) (w : World σ)
    (hbad : ∀ w', Same w w' → ¬ w.kernel.Passes queueFd fd → Q bad w')
    (hrest : ∀ w', Same w w' → (∀ op, w'.kernel.Unhindered op ↔ w.kernel.Unhindered op) →
      w.kernel.Passes queueFd fd → wp rest Q E w') :
    wp (do
      if queueFd < 0 ∨ fd < 0 then
        setErrno .EBADF
        return bad
      let flags ← fcntlGetfl who queueFd
      if flags < 0 then return bad
      let flags ← fcntlGetfl who fd
      if flags < 0 then return bad
      rest) Q E w := by
  have hneg : ∀ n, n < 0 → w.kernel.file n = none := fun n hn => by simp [Kernel.file, hn]
  rw [wp_ite]
  refine ⟨fun h => ?_, fun h => ?_⟩
  · rw [wp_bind, wp_setErrno]
    refine hbad _ ⟨rfl, id⟩ fun hp => ?_
    rcases h with h | h
    · simpa [hneg _ h] using hp.1
    · simpa [hneg _ h] using hp.2.1
  obtain ⟨r₁, w₁, h₁, hs₁, hneg₁⟩ := fcntlGetfl_spec who queueFd w
  have hf₁ := fcntlGetfl_faults_ok h₁
  rw [wp_bind, wp_eq_ok h₁, wp_ite]
  refine ⟨fun h => hbad w₁ hs₁ fun hp => ?_, fun hr₁ => ?_⟩
  · rcases hneg₁.1 h with hnone | hfault
    · simpa [hnone] using hp.1
    · exact hfault hp.2.2.1
  obtain ⟨r₂, w₂, h₂, hs₂, hneg₂⟩ := fcntlGetfl_spec who fd w₁
  have hf₂ := fcntlGetfl_faults_ok h₂
  rw [World.file_congr hs₁.core, hf₁, Kernel.turn_faults_self] at hneg₂
  rw [wp_bind, wp_eq_ok h₂, wp_ite]
  refine ⟨fun h => hbad w₂ (hs₁.trans hs₂) fun hp => ?_, fun hr₂ => ?_⟩
  · rcases hneg₂.1 h with hnone | hfault
    · simpa [hnone] using hp.2.1
    · exact hfault hp.2.2.2
  refine hrest w₂ (hs₁.trans hs₂) (fun op => ?_) ?_
  · have hfaults : w₂.kernel.faults (.epollCtl op) = w.kernel.faults (.epollCtl op) := by
      rw [hf₂, Kernel.turn_faults_of_ne _ (by simp), hf₁, Kernel.turn_faults_of_ne _ (by simp)]
    unfold Kernel.Unhindered
    rw [hfaults]
  · rw [hneg₁, not_or, not_not] at hr₁
    rw [hneg₂, not_or, not_not] at hr₂
    exact ⟨Option.isSome_iff_ne_none.2 hr₁.1, Option.isSome_iff_ne_none.2 hr₂.1, hr₁.2, hr₂.2⟩

theorem ctl_spec {α : Type} {w w₁ : World σ} (hs : Same w w₁) (em : EMPtr) (c : Change σ)
    (hun : ∀ op, w₁.kernel.Unhindered op ↔ w.kernel.Unhindered op)
    (hpasses : w.kernel.Passes (w.ems em).queueFd c.checked)
    (ed : EDRef) (fd : Int) (hfd : c.fd = ctlFd w ed fd) (hev : c.event = ctlEvent w ed)
    (hop : ed = none → c.op = .mod → w.kernel.file fd = none)
    (bad : α) (rest : Sys σ α) (Q : α → World σ → Prop)
    (hbad : ∀ w', Same w w' → ¬ Reaches w em c → Q bad w')
    (hrest : ∀ w' q, w.kernel.CanCtl (w.ems em).queueFd c.op c.fd q →
      w'.core = (w.setInterest q.id c.fd (Kernel.entryAfter c.op c.event)).core →
      (w.kernel.FaultFree → w'.kernel.FaultFree) → Reaches w em c →
      wp rest Q (fun _ _ => False) w') :
    wp (do
      let ret ← eventCtl (.machine em) (w.ems em).queueFd ed fd c.op
      if ret ≠ 0 then return bad
      rest) Q (fun _ _ => False) w₁ := by
  have hsame : ∀ p, ed = some p → w₁.ed p = w.ed p := fun p _ => World.ed_congr hs.core p
  have hed : ctlFd w₁ ed fd = c.fd := by rw [hfd, ctlFd_congr hsame]
  have hevent : ctlEvent w₁ ed = c.event := by rw [hev, ctlEvent_congr hsame]
  have hcan : ∀ q, w₁.kernel.CanCtl (w.ems em).queueFd c.op c.fd q ↔
      w.kernel.CanCtl (w.ems em).queueFd c.op c.fd q := fun q =>
    ⟨fun h => h.congr (World.kernel_core hs.core), fun h => h.congr (World.kernel_core hs.core).symm⟩
  have hexact := eventCtl_zero_iff (.machine em) (w.ems em).queueFd ed fd c.op w₁
  simp only [hed, hcan, hun] at hexact
  rw [wp_bind]
  refine wp_mono (wp_and (eventCtl_spec (.machine em) (w.ems em).queueFd ed fd c.op w₁) hexact) ?_ ?_
  · rintro r w₂ ⟨⟨hfree, hcase⟩, hzero⟩
    rw [hed, hevent] at hcase
    rcases hcase with ⟨rfl, q, hq, hcore⟩ | ⟨hr, hs', -⟩
    · obtain ⟨hex, hunhindered⟩ := hzero.1 rfl
      rw [if_neg (by simp)]
      exact hrest w₂ q ((hcan q).1 hq) (hcore.trans (World.setInterest_congr hs.core _ _ _))
        (fun hf => hfree (hs.faultFree hf)) ⟨hpasses, hunhindered, hex⟩
    · rw [if_pos hr]
      exact hbad w₂ (hs.trans hs') fun h => hr (hzero.2 ⟨h.can, h.unhindered⟩)
  · rintro _ _ ⟨⟨rfl, hmod, hopen⟩, -⟩
    rw [World.file_congr hs.core, hop rfl hmod] at hopen
    simp at hopen

theorem add_spec (w : World σ) (em : EMPtr) (ed : EDRef) :
    wp (eventMachineAdd (some em) ed)
      (fun r w' => Outcome w em (addChange w em ed) none (r, none) w') (fun _ _ => False) w := by
  cases ed with
  | none =>
    exact .refused (.noDescriptor rfl rfl rfl) rfl (.refl w)
  | some p =>
  unfold eventMachineAdd
  simp only [wp_bind, wp_getEM, wp_getED]
  refine checks_spec _ _ _ _ _ _ _ _ (fun w₁ hs hfails => .refused (.badfd hfails) rfl hs)
    fun w₁ hs hun hp => ?_
  refine ctl_spec hs em (addChange w em (some p)) hun hp (some p) (-1) rfl rfl nofun _ _ _
    (fun w₂ hs' hfails => .refused (.eventCtl hp hfails) rfl hs') fun w₂ q hcan hcore hfree hreach => ?_
  cases hi : (w.ems em).descriptorStorage.insert with
  | none =>
    refine .done q hcan ?_ ?_ hfree hreach
    · simp [addChange, EMDescriptorStorage.insertEntry, hi]
    · simp only [addChange, EMDescriptorStorage.insertEntry, hi]
      exact hcore
  | some insert =>
    have hst : w₂.storage = w.storage := congrArg (·.storage) hcore
    refine (wp_modifyGet _).2 (.done q hcan ?_ ?_ hfree hreach)
    · simp [addChange, EMDescriptorStorage.insertEntry, hi, hst, ctlFd]
    · simp only [addChange, EMDescriptorStorage.insertEntry, hi, hst]
      exact World.setStorage_congr hcore _

theorem delete_spec (w : World σ) (em : EMPtr) (fd : Int) (oldEd : OutVar) :
    wp (eventMachineDelete (some em) fd oldEd)
      (fun r w' => Outcome w em (deleteChange w em fd oldEd) oldEd r w') (fun _ _ => False) w := by
  unfold eventMachineDelete
  simp only [wp_bind, wp_getEM]
  refine checks_spec _ _ _ _ _ _ _ _ (fun w₁ hs hfails => .refused (.badfd hfails) rfl hs)
    fun w₁ hs hun hp => ?_
  have hfd : 0 ≤ fd := hp.nonneg
  refine ctl_spec hs em (deleteChange w em fd oldEd) hun hp none fd rfl rfl nofun _ _ _
    (fun w₂ hs' hfails => .refused (.eventCtl hp hfails) rfl hs') fun w₂ q hcan hcore hfree hreach => ?_
  have hst : w₂.storage = w.storage := congrArg (·.storage) hcore
  have hems : w₂.ems = w.ems := congrArg (·.ems) hcore
  refine (wp_eq_ok (removeEventDescriptor_eq em hfd oldEd w₂)).2 (.done q hcan ?_ ?_ hfree hreach)
  · simp [deleteChange, hst, hems]
  · simp only [deleteChange, hst, hems]
    exact World.setStorage_congr hcore _

theorem modify_spec (w : World σ) (em : EMPtr) (fd : Int) (ed : EDRef) (oldEd : OutVar) :
    wp (eventMachineModify (some em) fd ed oldEd)
      (fun r w' => Outcome w em (modifyChange w em fd ed oldEd) oldEd r w')
      (fun _ _ => False) w := by
  unfold eventMachineModify
  simp only [wp_bind, wp_getEM]
  refine checks_spec _ _ _ _ _ _ _ _ (fun w₁ hs hfails => .refused (.badfd hfails) rfl hs)
    fun w₁ hs hun hp => ?_
  have hfd : 0 ≤ fd := hp.nonneg
  refine ctl_spec hs em (modifyChange w em fd ed oldEd) hun hp ed (-1) rfl rfl (fun _ _ => rfl) _ _ _
    (fun w₂ hs' hfails => .refused (.eventCtl hp hfails) rfl hs') fun w₂ q hcan hcore hfree hreach => ?_
  have hst : w₂.storage = w.storage := congrArg (·.storage) hcore
  have hems : w₂.ems = w.ems := congrArg (·.ems) hcore
  rw [wp_bind, wp_eq_ok (removeEventDescriptor_eq em hfd oldEd w₂), hst, hems]
  dsimp only
  have hcore₂ := fun st => World.setStorage_congr hcore st
  by_cases hr : isEmSuccess ((w.ems em).descriptorStorage.removeEntry fd w.storage).1
  · rw [if_neg (by simpa using hr)]
    cases hi : (w.ems em).descriptorStorage.insert with
    | none =>
      refine .done q hcan ?_ ?_ hfree hreach
      · simp only [modifyChange, if_pos hr, EMDescriptorStorage.insertEntry, hi]
        rw [(isEmSuccess_iff _).1 hr]
      · simp only [modifyChange, if_pos hr, EMDescriptorStorage.insertEntry, hi]
        exact hcore₂ _
    | some insert =>
      refine .done q hcan ?_ ?_ hfree hreach
      · simp only [modifyChange, if_pos hr, EMDescriptorStorage.insertEntry, hi]
        rfl
      · simp only [modifyChange, if_pos hr, EMDescriptorStorage.insertEntry, hi]
        exact hcore₂ _
  · rw [if_pos (by simpa using hr)]
    refine .done q hcan ?_ ?_ hfree hreach
    · simp only [modifyChange, if_neg hr]
    · simp only [modifyChange, if_neg hr]
      exact hcore₂ _

/-- What a registration call can do. -/
theorem RegCall.spec (w : World σ) (em : EMPtr) (c : RegCall) :
    wp (c.exec (some em)) (fun r w' => Outcome w em (c.change w em) c.oldEd r w')
      (fun _ _ => False) w := by
  cases c with
  | add ed => exact (wp_bind _ _).2 (add_spec w em ed)
  | delete fd oldEd => exact delete_spec w em fd oldEd
  | modify fd ed oldEd => exact modify_spec w em fd ed oldEd

theorem RegCall.exec_null (w : World σ) (c : RegCall) :
    c.exec none w = .ok (EMResult.errorNull.code, c.oldEd) w := by
  cases c <;> rfl

theorem Refusal.not_reaches {w : World σ} {em : EMPtr} {c : Change σ} {r : UInt32}
    (h : Refusal w em c r) : ¬ Reaches w em c := by
  intro hreach
  cases h with
  | noDescriptor _ _ checked => simpa [checked] using hreach.passes.2.1
  | badfd fails => exact fails hreach.passes
  | eventCtl _ fails => exact fails hreach

theorem Refusal.ne_success {w : World σ} {em : EMPtr} {c : Change σ} {r : UInt32}
    (h : Refusal w em c r) : r ≠ EMResult.success.code := by
  cases h <;> decide

theorem Refusal.cause {w : World σ} {em : EMPtr} {c : Change σ} {r : UInt32} (h : Refusal w em c r)
    (hdata : c.op = .add → c.event.data ≠ none) :
    (r = EMResult.errorBadfd.code ∧ ¬ w.kernel.Passes (w.ems em).queueFd c.checked) ∨
      (r = EMResult.errorEventCtl.code ∧ w.kernel.Passes (w.ems em).queueFd c.checked) := by
  cases h with
  | noDescriptor op data => exact absurd data (hdata op)
  | badfd fails => exact Or.inl ⟨rfl, fails⟩
  | eventCtl passes => exact Or.inr ⟨rfl, passes⟩

/-- A machine whose queue is number 0, with descriptor number 1 registered. -/
def registeredWorld (s : EMDescriptorStorage σ) (st : σ) : World σ :=
  let w := World.start { emStaticWithMaxEvents σ 1 none with queueFd := 0, descriptorStorage := s }
    st fun _ _ => none
  { w with
    kernel := { w.kernel with
      files := [some ⟨0, .epoll, .machine 0, 0, true⟩, some ⟨1, .other, .other, 0, false⟩]
      interest := fun q fd => if q = 0 ∧ fd = 1 then some ⟨EPOLLIN, some (.obj 0)⟩ else none
      next := 2 }
    descriptors := fun _ => ⟨EPOLLIN, 1, .null, some (.user 0)⟩ }

namespace Outcome
variable {w w' : World σ} {em : EMPtr} {c : Change σ} {oldEd : OutVar} {r : UInt32 × OutVar}

theorem of_success (h : Outcome w em c oldEd r w') (hr : r.1 = EMResult.success.code) :
    ∃ q, w.kernel.CanCtl (w.ems em).queueFd c.op c.fd q ∧ r = (c.store w.storage).1 ∧
      w'.core = ((w.setInterest q.id c.fd (Kernel.entryAfter c.op c.event)).setStorage
        (c.store w.storage).2).core := by
  cases h with
  | refused why => exact absurd hr why.ne_success
  | done q can code core => exact ⟨q, can, code, core⟩

theorem of_can (h : Outcome w em c oldEd r w') (hf : w.kernel.FaultFree)
    (hopen : (w.kernel.file c.checked).isSome) {q : File}
    (hq : w.kernel.CanCtl (w.ems em).queueFd c.op c.fd q) :
    r = (c.store w.storage).1 ∧
      w'.core = ((w.setInterest q.id c.fd (Kernel.entryAfter c.op c.event)).setStorage
        (c.store w.storage).2).core := by
  cases h with
  | refused why =>
    have hreach : Reaches w em c :=
      ⟨(hf.passes _ _).2 ⟨by simp [hq.queue], hopen⟩, hf.unhindered _, q, hq⟩
    exact absurd hreach why.not_reaches
  | done q' can code core =>
    obtain rfl : q' = q := Option.some.inj (can.queue.symm.trans hq.queue)
    exact ⟨code, core⟩

theorem success_iff (h : Outcome w em c oldEd r w') (hf : w.kernel.FaultFree)
    (hc : c.checked = c.fd) :
    r.1 = EMResult.success.code ↔ (∃ q, w.kernel.CanCtl (w.ems em).queueFd c.op c.fd q) ∧
      (c.store w.storage).1.1 = EMResult.success.code := by
  constructor
  · intro hr
    obtain ⟨q, hq, rfl, -⟩ := h.of_success hr
    exact ⟨⟨q, hq⟩, hr⟩
  · rintro ⟨⟨q, hq⟩, hst⟩
    obtain ⟨rfl, -⟩ := h.of_can hf (hc ▸ hq.target) hq
    exact hst

theorem ems (h : Outcome w em c oldEd r w') : w'.ems = w.ems := by
  cases h with
  | refused _ _ same => exact World.ems_congr same.core
  | done _ _ _ core => exact World.ems_congr (w := (w.setInterest _ _ _).setStorage _) core

theorem timers (h : Outcome w em c oldEd r w') : w'.timers = w.timers := by
  cases h with
  | refused _ _ same => exact congrArg (·.timers) same.core
  | done _ _ _ core => exact congrArg (·.timers) core

theorem timerfds (h : Outcome w em c oldEd r w') : w'.kernel.timerfds = w.kernel.timerfds := by
  cases h with
  | refused _ _ same => exact congrArg (·.kernel.timerfds) same.core
  | done _ _ _ core => exact congrArg (·.kernel.timerfds) core

theorem file (h : Outcome w em c oldEd r w') (n : Int) : w'.kernel.file n = w.kernel.file n := by
  cases h with
  | refused _ _ same => exact World.file_congr same.core n
  | done _ _ _ core => exact World.file_congr (w := (w.setInterest _ _ _).setStorage _) core n

theorem ed (h : Outcome w em c oldEd r w') (p : EDPtr) : w'.ed p = w.ed p := by
  cases h with
  | refused _ _ same => exact World.ed_congr same.core p
  | done _ _ _ core => exact World.ed_congr (w := (w.setInterest _ _ _).setStorage _) core p

/-- The only entry of the interest sets a call changes is the one of its number in the queue of the
machine. -/
theorem interest_change (h : Outcome w em c oldEd r w') {q : ObjId} {n : Int}
    (hne : w'.kernel.interest q n ≠ w.kernel.interest q n) :
    n = c.fd ∧ ∃ f, w.kernel.file (w.ems em).queueFd = some f ∧ f.id = q := by
  cases h with
  | refused _ _ same => exact absurd (congrFun (congrFun (World.interest_congr same.core) q) n) hne
  | done q' can _ core =>
    have hset : w'.kernel.interest = (w.kernel.setInterest q'.id c.fd
        (Kernel.entryAfter c.op c.event)).interest := World.interest_congr core
    rw [hset] at hne
    simp only [Kernel.setInterest, Function.update_apply] at hne
    split at hne
    · next hq =>
      refine ⟨?_, q', can.queue, hq.symm⟩
      by_contra hn
      rw [Function.update_of_ne hn, hq] at hne
      exact hne rfl
    · exact absurd rfl hne

theorem interest_of_ne (h : Outcome w em c oldEd r w') (q : ObjId) {n : Int} (hn : n ≠ c.fd) :
    w'.kernel.interest q n = w.kernel.interest q n := by
  by_contra hne
  exact hn (h.interest_change hne).1

theorem keeps_faultFree (h : Outcome w em c oldEd r w') (hf : w.kernel.FaultFree) :
    w'.kernel.FaultFree := by
  cases h with
  | refused _ _ same => exact same.faultFree hf
  | done _ _ _ _ free => exact free hf

end Outcome

theorem RegCall.exec_ems (w : World σ) (em : EMRef) (c : RegCall) :
    wp (c.exec em) (fun _ w' => w'.ems = w.ems) (fun _ _ => False) w := by
  cases em with
  | none => exact (wp_eq_ok (RegCall.exec_null w c)).2 rfl
  | some em => exact wp_mono (c.spec w em) (fun _ _ h => h.ems) fun _ _ h => h

/-! ## The system calls of a registration call -/

/-- The system calls of the registration functions: an `epoll_ctl()` with operation `op` for the number
`fd` is only made on a queue that is open. -/
def RegRecord (w : World σ) (em : EMPtr) (op : CtlOp) (fd : Int) (x : SysRecord) : Prop :=
  x.who = .machine em ∧ (x.call = .fcntlGetfl ∨ (x.call = .epollCtl op ∧
    x.file = w.kernel.file (w.ems em).queueFd ∧ x.file.isSome ∧
    x.target = some (fd, w.kernel.file fd)))

/-- What the validity checks leave behind. -/
structure Checked (w : World σ) (em : EMPtr) (op : CtlOp) (n : Int) (w' : World σ) : Prop where
  same : Same w w'
  records : Records (RegRecord w em op n) w w'

theorem fcntlGetfl_checked {w w₁ : World σ} {em : EMPtr} {op : CtlOp} {n : Int}
    (hc : Checked w em op n w₁) (fd : Int) :
    wp (fcntlGetfl (.machine em) fd)
      (fun r w' => Checked w em op n w' ∧ (¬ r < 0 → w.kernel.file fd ≠ none)) (fun _ _ => False)
      w₁ := by
  obtain ⟨r, w₂, h, hs, hneg⟩ := fcntlGetfl_spec (.machine em) fd w₁
  rw [wp_eq_ok h]
  refine ⟨⟨hc.same.trans hs, hc.records.trans ?_⟩, fun hr hnone => hr (hneg.2 (Or.inl ?_))⟩
  · obtain ⟨-, rfl⟩ := EStateM.Result.ok.inj h
    exact .of_one rfl ⟨rfl, Or.inl rfl⟩
  · rw [World.file_congr hc.same.core]
    exact hnone

theorem checks_records {α : Type} (em : EMPtr) (op : CtlOp) (n fd : Int) (bad : α) (rest : Sys σ α)
    (w : World σ)
    (hrest : ∀ w', Checked w em op n w' → w.kernel.file (w.ems em).queueFd ≠ none →
      wp rest (fun _ w'' => Records (RegRecord w em op n) w w'') (fun _ _ => True) w') :
    wp (do
      if (w.ems em).queueFd < 0 ∨ fd < 0 then
        setErrno .EBADF
        return bad
      let flags ← fcntlGetfl (.machine em) (w.ems em).queueFd
      if flags < 0 then return bad
      let flags ← fcntlGetfl (.machine em) fd
      if flags < 0 then return bad
      rest) (fun _ w' => Records (RegRecord w em op n) w w') (fun _ _ => True) w := by
  rw [wp_ite]
  refine ⟨fun _ => ?_, fun _ => ?_⟩
  · rw [wp_bind, wp_setErrno]
    exact .of_log_eq rfl
  rw [wp_bind]
  have hc₀ : Checked w em op n w := ⟨.refl w, .refl w⟩
  refine wp_mono (fcntlGetfl_checked hc₀ _) ?_ fun _ _ h => h.elim
  rintro r₁ w₁ ⟨hc₁, hopen⟩
  rw [wp_ite]
  refine ⟨fun _ => hc₁.records, fun hr => ?_⟩
  rw [wp_bind]
  refine wp_mono (fcntlGetfl_checked hc₁ _) ?_ fun _ _ h => h.elim
  rintro r₂ w₂ ⟨hc₂, -⟩
  rw [wp_ite]
  exact ⟨fun _ => hc₂.records, fun _ => hrest w₂ hc₂ (hopen hr)⟩

/-- No system call has been made. -/
def Silent (w w' : World σ) : Prop := w'.log = w.log

theorem Silent.refl (w : World σ) : Silent w w := rfl

theorem Silent.trans (w w' w'' : World σ) (h : Silent w w') (h' : Silent w' w'') : Silent w w'' :=
  Eq.trans h' h

theorem ctl_records {α : Type} {w w₁ : World σ} {em : EMPtr} (ed : EDRef) (fd : Int) (op : CtlOp)
    (hc : Checked w em op (ctlFd w ed fd) w₁) (hopen : w.kernel.file (w.ems em).queueFd ≠ none) (bad : α)
    (rest : Sys σ α) (hrest : Keeps Silent rest) :
    wp (do
      let ret ← eventCtl (.machine em) (w.ems em).queueFd ed fd op
      if ret ≠ 0 then return bad
      rest) (fun _ w' => Records (RegRecord w em op (ctlFd w ed fd)) w w') (fun _ _ => True) w₁ := by
  have hfd : ctlFd w₁ ed fd = ctlFd w ed fd := ctlFd_congr (fun p _ => World.ed_congr hc.same.core p) fd
  rw [wp_bind]
  refine wp_mono (eventCtl_records (.machine em) (w.ems em).queueFd ed fd op w₁) ?_ fun _ _ _ => trivial
  intro ret w₂ hrec
  have hrec₂ : Records (RegRecord w em op (ctlFd w ed fd)) w w₂ :=
    hc.records.trans <| hrec.mono fun x hx => by
      obtain ⟨hwho, hcall, -, hfile, htarget⟩ := hx
      rw [World.file_congr hc.same.core] at hfile
      rw [hfd, World.file_congr hc.same.core] at htarget
      exact ⟨hwho, Or.inr ⟨hcall, hfile, by rw [hfile]; exact Option.isSome_iff_ne_none.2 hopen,
        htarget⟩⟩
  rw [wp_ite]
  refine ⟨fun _ => hrec₂, fun _ => wp_mono (hrest w₂) (fun _ w₃ hlog => ?_) fun _ _ _ => trivial⟩
  exact hrec₂.trans (.of_log_eq hlog)

theorem storageInsertEntry_silent (insert : Int → EDRef → σ → UInt32 × σ) (fd : Int) (ptr : EDRef) :
    Keeps Silent (storageInsertEntry insert fd ptr) := .of_modifyGet fun _ => rfl

theorem removeEventDescriptor_silent (em : EMPtr) (fd : Int) (oldEd : OutVar) :
    Keeps Silent (removeEventDescriptor em fd oldEd : Sys σ (UInt32 × OutVar)) := by
  have hassert : Keeps Silent (cAssert (0 ≤ fd) : Sys σ Unit) :=
    .ite (.of_pure Silent.refl _) (.of_throw Silent.refl _)
  unfold removeEventDescriptor
  refine .bind Silent.trans hassert fun _ => ?_
  refine .bind Silent.trans (.of_modifyGet fun _ => rfl) fun m => ?_
  split
  · refine .bind Silent.trans (.of_modifyGet fun _ => rfl) fun r => ?_
    dsimp only
    split <;> exact .of_pure Silent.refl _
  · exact .of_pure Silent.refl _

theorem add_records (w : World σ) (em : EMPtr) (ed : EDRef) :
    wp (eventMachineAdd (some em) ed) (fun _ w' => Records (RegRecord w em .add (ctlFd w ed (-1))) w w')
      (fun _ _ => True) w := by
  cases ed with
  | none => exact .refl w
  | some p =>
    unfold eventMachineAdd
    simp only [wp_bind, wp_getEM, wp_getED]
    refine checks_records em _ _ _ _ _ w fun w₁ hc hopen =>
      ctl_records (some p) (-1) .add hc hopen _ _ ?_
    split
    · exact storageInsertEntry_silent _ _ _
    · exact .of_pure Silent.refl _

theorem delete_records (w : World σ) (em : EMPtr) (fd : Int) (oldEd : OutVar) :
    wp (eventMachineDelete (some em) fd oldEd) (fun _ w' => Records (RegRecord w em .del fd) w w')
      (fun _ _ => True) w := by
  unfold eventMachineDelete
  simp only [wp_bind, wp_getEM]
  exact checks_records em _ _ _ _ _ w fun w₁ hc hopen =>
    ctl_records none fd .del hc hopen _ _ (removeEventDescriptor_silent em fd oldEd)

theorem RegCall.records (w : World σ) (em : EMPtr) (c : RegCall) :
    wp (c.exec (some em))
      (fun _ w' => Records (RegRecord w em (c.change w em).op (c.change w em).fd) w w')
      (fun _ _ => True) w := by
  cases c with
  | add ed => exact (wp_bind _ _).2 (add_records w em ed)
  | delete fd oldEd => exact delete_records w em fd oldEd
  | modify fd ed oldEd =>
    show wp (eventMachineModify (some em) fd ed oldEd) _ _ w
    unfold eventMachineModify
    simp only [wp_bind, wp_getEM]
    refine checks_records em _ _ _ _ _ w fun w₁ hc hopen => ctl_records ed (-1) .mod hc hopen _ _ ?_
    refine .bind Silent.trans (removeEventDescriptor_silent em fd oldEd) fun r => ?_
    refine .ite (.of_pure Silent.refl _) ?_
    split
    · exact .bind Silent.trans (storageInsertEntry_silent _ _ _) fun _ => .of_pure Silent.refl _
    · exact .of_pure Silent.refl _

end EventMachine
