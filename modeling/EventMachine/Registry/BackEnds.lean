import EventMachine.Kqueue
import EventMachine.Lib.Transition
import EventMachine.Proof.Registration

/-!
# The two back ends

The epoll build and the kqueue build monitor the same (`BackEndsAgree`) as long as no request deletes an
entry and every modification is for the kind of events the entry is registered for. The kqueue build
fails both other requests in the same way: `event_ctl()` sets the flags of the change to `EV_ADD`
whatever the operation is, and a knote is only ever replaced by one with its own filter.
-/

namespace EventMachine

open Lib

variable {σ : Type}

/-- A number is monitored by neither build, or by both for the same single kind of events and with the
same pointer. -/
def AgreeAt (entry : Option EpollEvent) (knotes : Int16 → Option EDRef) : Prop :=
  (entry = none ∧ ∀ filter, knotes filter = none) ∨
    ∃ kind : EventKind, ∃ ptr, entry = some ⟨kind.epoll, ptr⟩ ∧
      ∀ filter, knotes filter = if filter = kind.kqueue then some ptr else none

def BackEndsAgree (interest : Int → Option EpollEvent) (kq : Kqueue) : Prop :=
  ∀ fd, AgreeAt (interest fd) (kq fd)

/-- Both builds make a request, and the epoll build succeeds. -/
def Requested (who : Owner) (queueFd : Int) (x : World σ × Kqueue) (r : CtlRequest)
    (y : World σ × Kqueue) : Prop :=
  r.epoll who queueFd x.1 = .ok 0 y.1 ∧ y.2 = (r.kqueue x.2).2

/-- A request that leaves entries where they are and the kind of events each is for as it is. -/
def CtlRequest.KeepsKinds (interest : Int → Option EpollEvent) : CtlRequest → Prop
  | .add _ _ _ => True
  | .modify _ fd kind => (interest fd).map (·.events) = some kind.epoll
  | .delete _ => False

theorem Requested.unique {who : Owner} {queueFd : Int} {x y z : World σ × Kqueue} {r : CtlRequest}
    (h : Requested who queueFd x r y) (h' : Requested who queueFd x r z) : y = z := by
  have hworld : y.1 = z.1 := (EStateM.Result.ok.inj (h.1.symm.trans h'.1)).2
  exact Prod.ext hworld (h.2.trans h'.2.symm)

/-! ## One request -/

namespace CtlRequest

def op : CtlRequest → CtlOp
  | .add _ _ _ => .add
  | .modify _ _ _ => .mod
  | .delete _ => .del

def fd : CtlRequest → Int
  | .add _ fd _ => fd
  | .modify _ fd _ => fd
  | .delete fd => fd

/-- The event passed to the epoll build. -/
def event : CtlRequest → EpollEvent
  | .add p _ kind => ⟨kind.epoll, some p⟩
  | .modify p _ kind => ⟨kind.epoll, some p⟩
  | .delete _ => ⟨0, none⟩

/-- The filter passed to the kqueue build. -/
def filter : CtlRequest → Int16
  | .add _ _ kind => kind.kqueue
  | .modify _ _ kind => kind.kqueue
  | .delete _ => 0

end CtlRequest

theorem World.describe_kernel (w : World σ) (events : UInt32) (fd : Int) (p : EDPtr) :
    (w.describe events fd p).kernel = w.kernel := by
  cases p <;> rfl

theorem World.describe_ed (w : World σ) (events : UInt32) (fd : Int) (p : EDPtr) :
    ((w.describe events fd p).ed p).events = events ∧ ((w.describe events fd p).ed p).fd = fd := by
  cases p <;> simp [World.describe, World.ed, World.setEM, World.setTimer]

theorem eventCtl_ok {who : Owner} {queueFd fd : Int} {ed : EDRef} {op : CtlOp} {w w' : World σ}
    (h : eventCtl who queueFd ed fd op w = .ok 0 w') :
    ∃ q, w.kernel.CanCtl queueFd op (ctlFd w ed fd) q ∧
      w'.kernel.core = (w.kernel.setInterest q.id (ctlFd w ed fd)
        (Kernel.entryAfter op (ctlEvent w ed))).core := by
  obtain ⟨-, ⟨-, q, hq, hcore⟩ | ⟨hne, -⟩⟩ := wp_ok (eventCtl_spec who queueFd ed fd op w) h
  · exact ⟨q, hq, World.kernel_core hcore⟩
  · exact absurd rfl hne

theorem eventCtl_describe_ok {who : Owner} {queueFd fd : Int} {p : EDPtr} {events : UInt32} {op : CtlOp}
    {w w' : World σ}
    (h : eventCtl who queueFd (some p) (-1) op (w.describe events fd p) = .ok 0 w') :
    ∃ q, w.kernel.CanCtl queueFd op fd q ∧
      w'.kernel.core = (w.kernel.setInterest q.id fd (Kernel.entryAfter op ⟨events, some p⟩)).core := by
  obtain ⟨q, hq, hcore⟩ := eventCtl_ok h
  obtain ⟨hevents, hfd⟩ := w.describe_ed events fd p
  simp only [ctlFd, ctlEvent, hevents, hfd, World.describe_kernel] at hq hcore
  exact ⟨q, hq, hcore⟩

theorem CtlRequest.epoll_ok {who : Owner} {queueFd : Int} {r : CtlRequest} {w w' : World σ}
    (h : r.epoll who queueFd w = .ok 0 w') :
    ∃ q, w.kernel.CanCtl queueFd r.op r.fd q ∧
      w'.kernel.core = (w.kernel.setInterest q.id r.fd (Kernel.entryAfter r.op r.event)).core := by
  cases r with
  | add p fd kind =>
    have hctl : eventCtl who queueFd (some p) (-1) .add (w.describe kind.epoll fd p) = .ok 0 w' := h
    exact eventCtl_describe_ok hctl
  | modify p fd kind =>
    have hctl : eventCtl who queueFd (some p) (-1) .mod (w.describe kind.epoll fd p) = .ok 0 w' := h
    exact eventCtl_describe_ok hctl
  | delete fd =>
    have hctl : eventCtl who queueFd none fd .del w = .ok 0 w' := h
    exact eventCtl_ok hctl

/-- The kqueue build adds a knote whatever it is asked to do. -/
theorem CtlRequest.kqueue_eq (r : CtlRequest) (kq : Kqueue) :
    r.kqueue kq = (0, kq.set r.fd r.filter (some r.event.data)) := by
  cases r <;> simp [CtlRequest.kqueue, kqueueEventCtl, Kqueue.kevent, EV_ADD, CtlRequest.fd,
    CtlRequest.filter, CtlRequest.event]

theorem Requested.interest {who : Owner} {queueFd : Int} {x y : World σ × Kqueue} {r : CtlRequest}
    {q : File} (h : Requested who queueFd x r y) (hq : x.1.kernel.file queueFd = some q) :
    y.1.kernel.file queueFd = some q ∧ Kernel.Fits r.op (x.1.kernel.interest q.id r.fd) ∧
      y.1.kernel.interest q.id = Function.update (x.1.kernel.interest q.id) r.fd
        (Kernel.entryAfter r.op r.event) := by
  obtain ⟨q', hcan, hcore⟩ := CtlRequest.epoll_ok h.1
  obtain rfl : q' = q := Option.some.inj (hcan.queue.symm.trans hq)
  refine ⟨(Kernel.file_congr hcore queueFd).trans hq, hcan.fits, ?_⟩
  rw [Kernel.interest_congr hcore]
  exact Function.update_self ..

theorem Requested.knotes {who : Owner} {queueFd : Int} {x y : World σ × Kqueue} {r : CtlRequest}
    (h : Requested who queueFd x r y) : y.2 = x.2.set r.fd r.filter (some r.event.data) := by
  rw [h.2, CtlRequest.kqueue_eq]

/-! ## Agreement -/

theorem EventKind.epoll_injective {a b : EventKind} (h : a.epoll = b.epoll) : a = b := by
  revert h
  cases a <;> cases b <;> decide

theorem EventKind.kqueue_injective {a b : EventKind} (h : a.kqueue = b.kqueue) : a = b := by
  revert h
  cases a <;> cases b <;> decide

theorem Requested.agree_iff_agreeAt {who : Owner} {queueFd : Int} {x y : World σ × Kqueue}
    {r : CtlRequest} {q : File} (h : Requested who queueFd x r y)
    (hq : x.1.kernel.file queueFd = some q) (hx : BackEndsAgree (x.1.kernel.interest q.id) x.2) :
    BackEndsAgree (y.1.kernel.interest q.id) y.2 ↔
      AgreeAt (Kernel.entryAfter r.op r.event)
        (Function.update (x.2 r.fd) r.filter (some r.event.data)) := by
  obtain ⟨-, -, hinterest⟩ := h.interest hq
  rw [hinterest, h.knotes]
  constructor
  · intro hy
    have hfd := hy r.fd
    rw [Function.update_self] at hfd
    simp only [Kqueue.set, Function.update_self] at hfd
    exact hfd
  · intro hfd n
    by_cases hn : n = r.fd
    · subst hn
      rw [Function.update_self]
      simp only [Kqueue.set, Function.update_self]
      exact hfd
    · rw [Function.update_of_ne hn]
      simp only [Kqueue.set, Function.update_of_ne hn]
      exact hx n

/-- The builds keep agreeing exactly when a request keeps kinds. -/
theorem Requested.agree_iff {who : Owner} {queueFd : Int} {x y : World σ × Kqueue}
    {r : CtlRequest} {q : File} (h : Requested who queueFd x r y)
    (hq : x.1.kernel.file queueFd = some q) (hx : BackEndsAgree (x.1.kernel.interest q.id) x.2) :
    BackEndsAgree (y.1.kernel.interest q.id) y.2 ↔ r.KeepsKinds (x.1.kernel.interest q.id) := by
  rw [h.agree_iff_agreeAt hq hx]
  have hfits := (h.interest hq).2.1
  cases r with
  | add p fd kind =>
    obtain ⟨-, hnone⟩ : _ ∧ ∀ filter, x.2 fd filter = none :=
      (hx fd).resolve_right fun ⟨_, _, hsome, _⟩ => absurd (hfits.symm.trans hsome) (by simp)
    refine iff_of_true (Or.inr ⟨kind, some p, rfl, fun filter => ?_⟩) trivial
    simp only [CtlRequest.fd, CtlRequest.filter, CtlRequest.event, Function.update_apply, hnone]
  | modify p fd kind =>
    obtain ⟨old, ptr, hold, hknotes⟩ := (hx fd).resolve_left fun ⟨hnone, _⟩ => by
      have hsome : (x.1.kernel.interest q.id fd).isSome := hfits
      simp [hnone] at hsome
    have hkeeps : (CtlRequest.modify p fd kind).KeepsKinds (x.1.kernel.interest q.id) ↔ old = kind := by
      simp only [CtlRequest.KeepsKinds, hold, Option.map_some, Option.some.injEq]
      exact ⟨EventKind.epoll_injective, congrArg EventKind.epoll⟩
    rw [hkeeps]
    simp only [CtlRequest.fd, CtlRequest.filter, CtlRequest.event, CtlRequest.op, Kernel.entryAfter]
    constructor
    · rintro (⟨hnone, -⟩ | ⟨new, ptr', hnew, hall⟩)
      · exact absurd hnone (by simp)
      · -- the knote of the old kind is still there
        have hevent := congrArg EpollEvent.events (Option.some.inj hnew)
        obtain rfl : kind = new := EventKind.epoll_injective hevent
        have hfilter := hall old.kqueue
        by_contra hne
        have hkq : old.kqueue ≠ kind.kqueue := fun heq => hne (EventKind.kqueue_injective heq)
        rw [Function.update_of_ne hkq, hknotes, if_pos rfl, if_neg hkq] at hfilter
        exact absurd hfilter (by simp)
    · rintro rfl
      refine Or.inr ⟨old, some p, rfl, fun filter => ?_⟩
      simp only [Function.update_apply, hknotes]
      split <;> rfl
  | delete fd =>
    refine iff_of_false ?_ id
    rintro (⟨-, hnone⟩ | ⟨_, _, hsome, _⟩)
    · exact absurd (hnone 0) (by simp [CtlRequest.filter])
    · exact absurd hsome (by simp [CtlRequest.op, Kernel.entryAfter])

/-- After every prefix of a sequence of requests the two builds monitor the same, exactly when no
request deletes an entry and every modification is for the kind of events the entry is registered
for. -/
theorem back_ends_agree_iff {who : Owner} {queueFd : Int} {q : File} {x y : World σ × Kqueue}
    {rs : List CtlRequest} (hq : x.1.kernel.file queueFd = some q)
    (hx : BackEndsAgree (x.1.kernel.interest q.id) x.2) (hrun : Steps (Requested who queueFd) x rs y) :
    (∀ rs₁ rs₂ z, rs = rs₁ ++ rs₂ → Steps (Requested who queueFd) x rs₁ z →
      BackEndsAgree (z.1.kernel.interest q.id) z.2) ↔
    ∀ rs₁ r rs₂ z, rs = rs₁ ++ r :: rs₂ → Steps (Requested who queueFd) x rs₁ z →
      r.KeepsKinds (z.1.kernel.interest q.id) := by
  have hqueue : ∀ {rs z}, Steps (Requested who queueFd) x rs z →
      z.1.kernel.file queueFd = some q := fun h =>
    h.invariant (I := fun z => z.1.kernel.file queueFd = some q)
      (fun _ _ _ hz hstep => (hstep.interest hz).1) hq
  refine hrun.prefixes_iff (fun _ _ _ _ h h' => h.unique h') hx fun rs₁ r rs₂ z z' _ hz hstep hback => ?_
  exact hstep.agree_iff (hqueue hz) hback

/-- The queue is number 0, number 1 is open, and neither build monitors anything. -/
def idleBackEnds : World Unit × Kqueue :=
  let w := registeredWorld ⟨none, none, 0, .null⟩ ()
  ({ w with kernel := { w.kernel with interest := fun _ _ => none } }, fun _ _ => none)

/-- The next state of both builds. -/
def CtlRequest.next (r : CtlRequest) (x : World Unit × Kqueue) : World Unit × Kqueue :=
  (final (r.epoll (.machine 0) 0) x.1, (r.kqueue x.2).2)

theorem idleBackEnds_agree : BackEndsAgree (idleBackEnds.1.kernel.interest 0) idleBackEnds.2 :=
  fun _ => Or.inl ⟨rfl, fun _ => rfl⟩

theorem back_ends_agree_iff_idleBackEnds :
    let add := CtlRequest.add (.obj 0) 1 .read
    let modify := CtlRequest.modify (.obj 1) 1 .write
    (∀ rs₁ rs₂ z, [add, modify] = rs₁ ++ rs₂ →
      Steps (Requested (.machine 0) 0) idleBackEnds rs₁ z →
      BackEndsAgree (z.1.kernel.interest 0) z.2) ↔
    ∀ rs₁ r rs₂ z, [add, modify] = rs₁ ++ r :: rs₂ →
      Steps (Requested (.machine 0) 0) idleBackEnds rs₁ z →
      r.KeepsKinds (z.1.kernel.interest 0) := by
  intro add modify
  have hadd : Requested (.machine 0) 0 idleBackEnds add (add.next idleBackEnds) := ⟨rfl, rfl⟩
  have hmodify : Requested (.machine 0) 0 (add.next idleBackEnds) modify
      (modify.next (add.next idleBackEnds)) := ⟨rfl, rfl⟩
  exact back_ends_agree_iff rfl idleBackEnds_agree (.cons hadd (.cons hmodify (.nil _)))

/-- A number that is added and deleted again is still monitored by the kqueue build. -/
theorem not_back_ends_agree :
    let add := CtlRequest.add (.obj 0) 1 .read
    let delete := CtlRequest.delete 1
    BackEndsAgree (idleBackEnds.1.kernel.interest 0) idleBackEnds.2 ∧
      ∃ y, Steps (Requested (.machine 0) 0) idleBackEnds [add, delete] y ∧
        y.1.kernel.interest 0 1 = none ∧ y.2 1 EVFILT_READ = some (some (.obj 0)) ∧
        ¬ BackEndsAgree (y.1.kernel.interest 0) y.2 := by
  intro add delete
  have hadd : Requested (.machine 0) 0 idleBackEnds add (add.next idleBackEnds) := ⟨rfl, rfl⟩
  have hdelete : Requested (.machine 0) 0 (add.next idleBackEnds) delete
      (delete.next (add.next idleBackEnds)) := ⟨rfl, rfl⟩
  refine ⟨idleBackEnds_agree, _, .cons hadd (.cons hdelete (.nil _)), rfl, rfl, fun hagree => ?_⟩
  rcases hagree 1 with ⟨-, hnone⟩ | ⟨kind, ptr, hsome, -⟩
  · exact absurd (hnone EVFILT_READ) (by decide)
  · cases hsome

end EventMachine
