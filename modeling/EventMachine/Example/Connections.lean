import EventMachine.Example.Conversations
import Mathlib.Data.List.Forall2

/-!
# The connections of the server

The connections are served in any order, numbers of sockets are used again, and a connection may be closed
and another one accepted while a batch is gone through. Still every line is printed with the address of the
connection it is about, and the queue watches the sockets of exactly those connections that have been
accepted and not closed (`tcp_server_conversations`). What is open besides is the socket of each connection
that could not be registered (`tcp_server_sockets`).

The kernel is held to what it may report at each wait. The variable `old_ed` is assumed to hold `NULL`,
otherwise the server would free what it still uses. As it is, it frees nothing at all.
-/

namespace EventMachine

open Lib

/-! ## A batch -/

/-- The rest of the batch: descriptors of connections that are not closed, each once at most, and those of
the pipe and of the listening socket. -/
structure Pending (w : World Server) (b : Batch) : Prop where
  watched : ∀ j p, b.i ≤ j → b.pointer w j = some p → ∃ fd, Watched w.storage fd p
  once : ∀ j k a, b.i ≤ j → j < k → b.pointer w j = some (.obj a) → b.pointer w k = some (.obj a) → a = 0

theorem Pending.next {w w' : World Server} {b : Batch} (h : Pending w b) (hbuf : w'.buffers = w.buffers)
    (hstage : ∀ j c, b.i < j → b.pointer w j = some (.obj c) → w'.storage.stage c = w.storage.stage c) :
    Pending w' b.next := by
  have hpointer : ∀ j, b.next.pointer w' j = b.pointer w j := fun j => by
    simp only [Batch.pointer, Batch.next, hbuf]
  constructor
  · intro j p hj hp
    rw [hpointer] at hp
    have hlt : b.i < j := hj
    obtain ⟨fd, hwatched⟩ := h.watched j p (Nat.le_of_lt hlt) hp
    refine ⟨fd, hwatched.mono fun c hc hstagec => ?_⟩
    rw [hstage j c hlt (hc ▸ hp)]
    exact hstagec
  · intro j k c hj hjk hp hp'
    rw [hpointer] at hp hp'
    exact h.once j k c (Nat.le_of_succ_le hj) hjk hp hp'

theorem pending_of_reportable {net : Net} {m : EM Server} {q : File} {w w' : World Server} {fd : Int}
    {maxEvents : Int} {l : List EpollEvent} {buf : BufPtr} (h : Conversing net m q base w)
    (hr : Reportable w.kernel q.id maxEvents l) (hs : w'.storage = w.storage)
    (hbuf : w'.buffers = Function.update w.buffers buf (l ++ (w.buffers buf).drop l.length)) :
    Pending w' ⟨some buf, fd, 0, l.length⟩ := by
  obtain ⟨-, fds, hnodup, hall⟩ := hr
  have hpointer : ∀ j p, Batch.pointer ⟨some buf, fd, 0, l.length⟩ w' j = some p →
      ∃ hj : j < fds.length, Watched w'.storage (fds.get ⟨j, hj⟩) p := by
    intro j p hp
    by_cases hlt : j < l.length
    · simp only [Batch.pointer, hlt, if_true, hbuf, Option.bind_some, Function.update_self] at hp
      rw [List.getElem?_append_left hlt, List.getElem?_eq_getElem hlt, Option.bind_some] at hp
      have hfds : j < fds.length := by
        rw [hall.length_eq]
        exact hlt
      obtain ⟨ev, hev, hdata⟩ := hall.get hfds hlt
      obtain ⟨p', hp', hwatched⟩ := h.registered _ ev hev
      obtain rfl : p' = p := Option.some.inj ((hp'.symm.trans hdata.symm).trans hp)
      rw [hs]
      exact ⟨hfds, hwatched⟩
    · simp only [Batch.pointer, hlt, if_false, reduceCtorEq] at hp
  constructor
  · intro j p _ hp
    obtain ⟨hj, hwatched⟩ := hpointer j p hp
    exact ⟨_, hwatched⟩
  · intro j k a _ hjk hp hp'
    by_contra ha
    have htalking : ∀ n, Watched w'.storage n (.obj a) → w'.storage.stage a = some (.talking n) := by
      rintro n (hp | hp | ⟨c, hp, hc⟩)
      · cases hp
      · exact absurd (EDPtr.obj.inj hp) ha
      · obtain rfl := EDPtr.obj.inj hp
        exact hc
    obtain ⟨hj, hwj⟩ := hpointer j _ hp
    obtain ⟨hk, hwk⟩ := hpointer k _ hp'
    have heq := (htalking _ hwj).symm.trans (htalking _ hwk)
    have hjk' := (List.nodup_iff_injective_get.1 hnodup) (Stage.talking.inj (Option.some.inj heq))
    exact Nat.ne_of_lt hjk (congrArg Fin.val hjk')

/-! ## The main loop -/

/-- What holds while the main loop of the server has come to `pc`. -/
structure AtWork (net : Net) (m : EM Server) (q : File) (base : Int → Option File) (pc : RunPc)
    (w : World Server) : Prop where
  conversing : Conversing net m q base w
  pending : ∀ breakLoop b, pc = .batch breakLoop b → Pending w b

theorem SlotOutcome.of_handler {σ : Type} {w w' : World σ} {em : EMPtr} {readFd : Int} {e : EpollEvent}
    {p : EDPtr} {g : Handler} {events : UInt32} {fd : Int} {data : VoidPtr}
    (h : SlotOutcome w em readFd e p (.handler g events fd data) w') :
    (w.ed p).handler = some g ∧ fd = (w.ed p).fd ∧ data = (w.ed p).data := by
  cases h with
  | handler _ _ handler => exact ⟨handler, rfl, rfl⟩

namespace AtWork
variable {net : Net} {m : EM Server} {q : File} {base : Int → Option File} {pc : RunPc}
  {w w' : World Server}

theorem waiting (h : AtWork net m q base .waiting w) {o : WaitOutcome}
    (hmay : ∀ l q, o = .batch l → w.kernel.file (w.ems 0).queueFd = some q →
      Reportable w.kernel q.id (w.ems 0).maxEvents l)
    (hstep : runStep 0 o .waiting w = .ok pc w') : AtWork net m q base pc w' := by
  obtain ⟨hcalm, -, hcase⟩ := wp_ok (runStep_waiting_spec 0 o w) hstep
  refine ⟨h.conversing.calm hcalm, ?_⟩
  rcases hcase with ⟨r, -, rfl⟩ | ⟨q', l, buf, hq, ho, hk, hbuf, rfl⟩
  · rintro _ _ ⟨⟩
  · rintro _ _ ⟨⟩
    have hr := hmay l q' ho hq
    rw [h.conversing.machine, h.conversing.queue] at hq
    obtain rfl := Option.some.inj hq
    exact pending_of_reportable h.conversing hr (congrArg (·.storage) hcalm) hbuf

theorem slot {breakLoop : Bool} {b : Batch} {r : Slot} (h : AtWork net m q base (.batch breakLoop b) w)
    (hslot : runOnceSlot 0 b.events b.i b.breakLoopReadFd w = .ok r w') :
    AtWork net m q base (r.next breakLoop b) w' := by
  obtain ⟨buf, e, p, -, -, -, hout⟩ := wp_ok (runOnceSlot_spec 0 b.events b.i b.breakLoopReadFd w) hslot
  have hs : w'.storage = w.storage := congrArg (·.storage) hout.calm
  have hpending : Pending w' b.next := (h.pending breakLoop b rfl).next hout.buffers fun _ _ _ _ => by
    rw [hs]
  refine ⟨h.conversing.calm hout.calm, ?_⟩
  cases r with
  | readFailed => rintro _ _ ⟨⟩
  | breakLoop =>
    rintro _ _ ⟨⟩
    exact hpending
  | handler =>
    rintro _ _ ⟨⟩
    exact hpending

theorem handler (hinsert : m.descriptorStorage.insert = none) (hremove : m.descriptorStorage.remove = none)
    (hbreak : m.breakLoopEventDescriptor.handler = none) {breakLoop : Bool} {b : Batch} {g : Handler}
    {events : UInt32} {fd : Int} {data : VoidPtr} (h : AtWork net m q base (.batch breakLoop b) w)
    (hlt : b.i < b.numEvents)
    (hslot : runOnceSlot 0 b.events b.i b.breakLoopReadFd w = .ok (.handler g events fd data) w') :
    wp (callHandler (tcpServerCode net) g 0 events fd data)
      (fun _ w'' => AtWork net m q base (.batch breakLoop b.next) w'') (fun _ _ => True) w' := by
  obtain ⟨buf, e, p, hevents, he, hp, hout⟩ :=
    wp_ok (runOnceSlot_spec 0 b.events b.i b.breakLoopReadFd w) hslot
  have hpointer : b.pointer w b.i = some p := InSlot.pointer ⟨hlt, ⟨buf, hevents, he⟩, hp⟩
  have hpending := h.pending breakLoop b rfl
  obtain ⟨n, hwatched⟩ := hpending.watched b.i p (Nat.le_refl _) hpointer
  have hc := h.conversing.calm hout.calm
  have hs : w'.storage = w.storage := congrArg (·.storage) hout.calm
  have hbuf := hout.buffers
  rw [← hc.machine] at hinsert hremove
  have hdone : ∀ {w''}, Server.Handled net w' w'' → Conversing net m q base w'' →
      (∀ j c, b.i < j → b.pointer w j = some (.obj c) → w''.storage.stage c = w'.storage.stage c) →
      AtWork net m q base (.batch breakLoop b.next) w'' := by
    intro w'' hhandled hc' hstage
    refine ⟨hc', ?_⟩
    rintro _ _ ⟨⟩
    refine hpending.next (hhandled.buffers.trans hbuf) fun j c hj hp => ?_
    rw [hstage j c hj hp, hs]
  obtain ⟨hhandler, hfd, hdata⟩ := hout.of_handler
  rcases hwatched with rfl | rfl | ⟨a, rfl, ha⟩
  · -- the descriptor of the pipe has no handler
    change (w.ems 0).breakLoopEventDescriptor.handler = _ at hhandler
    rw [h.conversing.machine, hbreak] at hhandler
    cases hhandler
  · obtain rfl := Option.some.inj (h.conversing.listener.symm.trans hhandler)
    refine wp_mono (acceptHandler_spec hinsert net fd) ?_ fun _ _ h => h.elim
    intro _ w'' hout
    obtain ⟨hc', hstage⟩ := hc.acceptHandler hout
    refine hdone (.of_accept hout) hc' fun j c hj hp => hstage c ?_
    rw [hs]
    obtain ⟨fd', hp' | hp' | ⟨c', hp', hc'⟩⟩ := hpending.watched j _ (Nat.le_of_lt hj) hp
    · cases hp'
    · rw [EDPtr.obj.inj hp']
      exact (Nat.succ_ne_zero _).symm
    · obtain rfl := EDPtr.obj.inj hp'
      exact Nat.ne_of_lt (Nat.lt_succ_of_le (h.conversing.record hc').2)
  · have hed : w.ed (.obj a) = _ := (h.conversing.talking a n ha).descriptor
    rw [hed] at hhandler hfd hdata
    obtain rfl := Option.some.inj hhandler
    subst hfd hdata
    refine wp_mono (connectionHadnler_spec hremove net events fd (.user a)) ?_ fun _ _ _ => trivial
    rintro _ w'' ⟨a', ha', hout⟩
    obtain rfl := VoidPtr.user.inj ha'
    rw [← hs] at ha
    obtain ⟨hc', hstage⟩ := hc.connectionHadnler ha hout
    refine hdone (.of_connection hout) hc' fun j c hj hj' => hstage c ?_
    rintro rfl
    have hzero := hpending.once b.i j c (Nat.le_refl _) hj hpointer hj'
    exact absurd (hc.record ha).1 (by omega)

theorem rule (net : Net) (m : EM Server) (q : File) (base : Int → Option File)
    (hinsert : m.descriptorStorage.insert = none)
    (hremove : m.descriptorStorage.remove = none) (hbreak : m.breakLoopEventDescriptor.handler = none)
    (waits : Nat → WaitOutcome) :
    LoopRule (tcpServerCode net) 0 waits (fun n w => ∀ l q, waits n = .batch l →
        w.kernel.file (w.ems 0).queueFd = some q → Reportable w.kernel q.id (w.ems 0).maxEvents l)
      (AtWork net m q base) where
  waiting h hmay hstep := h.waiting hmay hstep
  slot h _ hslot _ := h.slot hslot
  handler h hlt hslot := h.handler hinsert hremove hbreak hlt hslot
  afterBatch {breakLoop b w} h _ := by
    refine ⟨h.conversing, ?_⟩
    cases breakLoop <;> rintro _ _ ⟨⟩

end AtWork

/-! ## The whole program -/

theorem Started.conversing {net : Net} {ls : Int} {m : EM Server} {q : File} {w : World Server}
    (h : Started ls m q w) (hfresh : w.storage = Server.start) :
    Conversing net m q w.kernel.file w := by
  have hstage : ∀ a, w.storage.stage a = some .fresh := by
    rw [hfresh]
    exact fun _ => rfl
  have htalking : ∀ a socket, w.storage.stage a ≠ some (.talking socket) := by
    intro a socket
    rw [hstage]
    exact nofun
  have hrefusals : w.storage.refusals = [] := by
    rw [hfresh]
    rfl
  have hholds : ∀ n, ¬ w.storage.Holds n := by
    rintro n (⟨a, ha⟩ | hn)
    · exact htalking a n ha
    · rw [hrefusals] at hn
      cases hn
  refine ⟨h.machine, h.queue, h.old, by rw [h.descriptor], ?_, ?_, fun a => ⟨_, hstage a⟩,
    fun a socket ha => absurd ha (htalking a socket), ?_, ⟨fun _ _ => id, fun _ _ => Or.inl,
      fun n hn => absurd hn (hholds n), fun a n ha => absurd ha (htalking a n), ?_⟩⟩
  · rw [hfresh]
    rfl
  · rw [hfresh]
    exact nofun
  · intro n e he
    rw [h.registered] at he
    by_cases hn : n = ls
    · rw [hn, Function.update_self] at he
      obtain rfl := Option.some.inj he
      exact ⟨_, rfl, Or.inr (Or.inl rfl)⟩
    · rw [Function.update_of_ne hn] at he
      by_cases hn' : n = m.breakLoopPipe.1
      · rw [hn', Function.update_self] at he
        obtain rfl := Option.some.inj he
        exact ⟨_, rfl, Or.inl rfl⟩
      · rw [Function.update_of_ne hn'] at he
        cases he
  · rw [hrefusals]
    exact List.nodup_nil

section program
variable {usePipe2 : Bool} {w w₁ w₂ : World Server}

theorem tcpServer_conversing (net : Net) (waits : Nat → WaitOutcome) (fuel : Nat)
    (hfresh : w.storage = Server.start) {ls : Int}
    (hstart : tcpServerStart net usePipe2 w = .ok (some ls) w₁)
    (hmay : ∀ j w', eventMachineRun (tcpServerCode net) (some 0) waits j w₁ = .ok none w' →
      (⟨w', [.run 0 false none], .library⟩ : Config Server).MayReport (waits j))
    {r : Option UInt32}
    (hrun : eventMachineRun (tcpServerCode net) (some 0) waits fuel w₁ = .ok r w₂) :
    ∃ m q, Conversing net m q w₁.kernel.file w₂ := by
  obtain ⟨hstorage, hstarted⟩ := wp_ok (tcpServerStart_spec net usePipe2 w) hstart
  obtain ⟨m, q, hs⟩ := hstarted ls rfl
  have hconversing : Conversing net m q w₁.kernel.file w₁ := hs.conversing (hstorage.trans hfresh)
  have hrule := (AtWork.rule net m q _ hs.insert hs.remove hs.breakLoop waits).run fuel w₁
    (fun w' hsame honly => ⟨hconversing.calm (.of_kernelOnly honly
      (Kernel.still_of_core (World.kernel_core hsame.core))), fun _ _ h => by cases h⟩)
    fun j w' hj l q ho hq => hmay j w' hj _ _ _ _ _ rfl ho hq
  obtain ⟨pc, hpc, -⟩ := wp_ok hrule hrun
  exact ⟨m, q, hpc.conversing⟩

/-- At every wait of the main loop and when it has returned, what the server has printed about each
connection is a conversation, on one socket and with the address of the connection; the queue watches the
sockets of the connections that have been accepted and not closed, each with the record of its connection;
these sockets are open; and no record has been freed. -/
theorem tcp_server_conversations (net : Net) (waits : Nat → WaitOutcome) (fuel : Nat)
    (hfresh : w.storage = Server.start) (hnull : ∀ i, net.oldEd i = none) {ls : Int}
    (hstart : tcpServerStart net usePipe2 w = .ok (some ls) w₁)
    (hmay : ∀ j w', eventMachineRun (tcpServerCode net) (some 0) waits j w₁ = .ok none w' →
      (⟨w', [.run 0 false none], .library⟩ : Config Server).MayReport (waits j))
    {r : Option UInt32}
    (hrun : eventMachineRun (tcpServerCode net) (some 0) waits fuel w₁ = .ok r w₂) :
    (∀ l ∈ w₂.storage.output, l.Proper net w₂.storage.records) ∧
      (∀ a, ∃ st, w₂.storage.stage a = some st) ∧
      (∃ q, w₂.kernel.file (w₂.ems 0).queueFd = some q ∧ ∀ a socket, 1 ≤ a →
        (w₂.storage.stage a = some (.talking socket) ↔
          (w₂.kernel.interest q.id socket).bind (·.data) = some (.obj a)) ∧
        (w₂.storage.stage a = some (.talking socket) → (w₂.kernel.file socket).isSome)) ∧
      w₂.storage.freed = [] := by
  obtain ⟨m, q, h⟩ := tcpServer_conversing net waits fuel hfresh hstart hmay hrun
  obtain ⟨-, -, -, -, hfreed⟩ := tcp_server_accounts net waits fuel hfresh hstart hrun
  refine ⟨h.lines, h.stages, ⟨q, by rw [h.machine]; exact h.queue, fun a socket ha => ⟨⟨fun hst => ?_,
    fun he => ?_⟩, fun hst => ?_⟩⟩, hfreed hnull⟩
  · exact (h.talking a socket hst).entry
  · obtain ⟨e, he, hdata⟩ := Option.bind_eq_some_iff.1 he
    obtain ⟨p, hp, hp' | hp' | ⟨c, hp', hc⟩⟩ := h.registered socket e he
    · rw [hdata, hp'] at hp
      cases hp
    · rw [hdata, hp'] at hp
      obtain rfl := EDPtr.obj.inj (Option.some.inj hp)
      exact absurd ha (by decide)
    · rw [hdata, hp'] at hp
      obtain rfl := EDPtr.obj.inj (Option.some.inj hp)
      exact hc
  · obtain ⟨f, hf, -⟩ := (h.talking a socket hst).file
    rw [hf]
    rfl

/-- At every wait of the main loop and when it has returned, the numbers that are open are those that were
open at the start, the sockets of the connections that have been accepted and not closed, and those of the
connections whose registration has failed, which nothing closes. No two of these are the same. -/
theorem tcp_server_sockets (net : Net) (waits : Nat → WaitOutcome) (fuel : Nat)
    (hfresh : w.storage = Server.start) (hnull : ∀ i, net.oldEd i = none) {ls : Int}
    (hstart : tcpServerStart net usePipe2 w = .ok (some ls) w₁)
    (hmay : ∀ j w', eventMachineRun (tcpServerCode net) (some 0) waits j w₁ = .ok none w' →
      (⟨w', [.run 0 false none], .library⟩ : Config Server).MayReport (waits j))
    {r : Option UInt32}
    (hrun : eventMachineRun (tcpServerCode net) (some 0) waits fuel w₁ = .ok r w₂) :
    (∀ fd, (w₂.kernel.file fd).isSome ↔ (w₁.kernel.file fd).isSome ∨
        (∃ a, w₂.storage.stage a = some (.talking fd) ∧ a ∉ w₂.storage.freed) ∨
        fd ∈ w₂.storage.refusals) ∧
      (∀ fd f, w₁.kernel.file fd = some f → w₂.kernel.file fd = some f) ∧
      (∀ fd, w₂.storage.Holds fd → w₁.kernel.file fd = none) ∧
      (∀ a b fd, w₂.storage.stage a = some (.talking fd) →
        fd ∉ w₂.storage.refusals ∧ (w₂.storage.stage b = some (.talking fd) → a = b)) ∧
      w₂.storage.refusals.Nodup := by
  obtain ⟨m, q, h⟩ := tcpServer_conversing net waits fuel hfresh hstart hmay hrun
  obtain ⟨-, -, -, -, hfreed⟩ := tcp_server_accounts net waits fuel hfresh hstart hrun
  have hs := h.sockets
  refine ⟨fun fd => ⟨fun hopen => ?_, ?_⟩, hs.kept, fun fd hheld => (hs.given fd hheld).1,
    fun a b fd ha => ⟨hs.apart a fd ha, h.unique ha⟩, hs.refused⟩
  · obtain ⟨f, hf⟩ := Option.isSome_iff_exists.1 hopen
    rcases hs.held fd f hf with hbase | ⟨a, ha⟩ | hrefused
    · exact Or.inl (by rw [hbase]; rfl)
    · refine Or.inr (Or.inl ⟨a, ha, ?_⟩)
      rw [hfreed hnull]
      exact List.not_mem_nil
    · exact Or.inr (Or.inr hrefused)
  · rintro (hbase | ⟨a, ha, -⟩ | hrefused)
    · obtain ⟨f, hf⟩ := Option.isSome_iff_exists.1 hbase
      rw [hs.kept fd f hf]
      rfl
    · exact (hs.given fd (Or.inl ⟨a, ha⟩)).2
    · exact (hs.given fd (Or.inr hrefused)).2

end program

/-! ### The two connections -/

/-- The kernel may report the batch, since the numbers `fds` are registered as it says. -/
def reportableAs (l : List EpollEvent) (fds : List Int) (w : World Server) : Bool :=
  match w.kernel.file (w.ems 0).queueFd with
  | none => true
  | some q => (l.length : Int) ≤ (w.ems 0).maxEvents && decide fds.Nodup &&
      decide (fds.map (fun fd => (w.kernel.interest q.id fd).map (·.data)) = l.map (some ·.data))

theorem mayReport_of_reportableAs {l : List EpollEvent} {fds : List Int} {w : World Server}
    (h : reportableAs l fds w = true) :
    (⟨w, [.run 0 false none], .library⟩ : Config Server).MayReport (.batch l) := by
  rintro em bl rest _ q hstack ⟨⟩ hq
  obtain ⟨⟨rfl, -, -⟩, -⟩ := by simpa using hstack
  dsimp only at hq ⊢
  simp only [reportableAs, hq, Bool.and_eq_true, decide_eq_true_eq] at h
  obtain ⟨⟨hlen, hnodup⟩, hdata⟩ := h
  refine ⟨hlen, fds, hnodup, ?_⟩
  rw [← List.forall₂_eq_eq_eq, List.forall₂_map_left_iff, List.forall₂_map_right_iff] at hdata
  refine hdata.imp fun fd e he => ?_
  obtain ⟨ev, hev, hd⟩ := Option.map_eq_some_iff.1 he
  exact ⟨ev, hev, hd.symm⟩

/-- The kernel may report what makes the connections ready, in the runs from `w`. -/
def ConnectionsReportable (w : World Server) : Prop :=
  noticed (reportableAs [⟨EPOLLIN, some (.obj 0)⟩] [3])
      (eventMachineRun (tcpServerCode twoConnections) (some 0) connectionsReady 0) w = some (none, true) ∧
    noticed (reportableAs [⟨EPOLLIN, some (.obj 1)⟩, ⟨EPOLLIN, some (.obj 0)⟩] [7, 3])
      (eventMachineRun (tcpServerCode twoConnections) (some 0) connectionsReady 1) w = some (none, true) ∧
    noticed (reportableAs [⟨EPOLLIN ||| EPOLLRDHUP, some (.obj 1)⟩] [7])
      (eventMachineRun (tcpServerCode twoConnections) (some 0) connectionsReady 2) w = some (none, true)

instance (w : World Server) : Decidable (ConnectionsReportable w) :=
  inferInstanceAs (Decidable (_ ∧ _ ∧ _))

theorem ConnectionsReportable.mayReport {w : World Server} (h : ConnectionsReportable w) (j : Nat)
    (w' : World Server)
    (hj : eventMachineRun (tcpServerCode twoConnections) (some 0) connectionsReady j w = .ok none w') :
    (⟨w', [.run 0 false none], .library⟩ : Config Server).MayReport (connectionsReady j) := by
  obtain ⟨h0, h1, h2⟩ := h
  rcases j with _ | _ | _ | j
  · exact mayReport_of_reportableAs (of_noticed h0 hj)
  · exact mayReport_of_reportableAs (of_noticed h1 hj)
  · exact mayReport_of_reportableAs (of_noticed h2 hj)
  · rintro em bl rest l q - ⟨⟩

theorem serverStarted_reportable : ConnectionsReportable serverStarted := by decide +kernel

theorem tcp_server_conversations_twoConnections :
    ∃ r w', eventMachineRun (tcpServerCode twoConnections) (some 0) connectionsReady 4 serverStarted =
        .ok r w' ∧ w'.storage.stage 1 = some .over ∧ w'.storage.stage 2 = some (.talking 8) ∧
      (w'.kernel.file 8).isSome := by
  obtain ⟨w', hrun, hsee⟩ := exists_of_noticed serverStarted_run
  obtain ⟨-, -, houtput⟩ := Prod.mk.inj hsee |>.imp id Prod.mk.inj
  obtain ⟨-, -, ⟨q, -, hwatched⟩, -⟩ := tcp_server_conversations twoConnections connectionsReady 4 rfl
    (fun _ => rfl) serverStarted_start serverStarted_reportable.mayReport hrun
  have hstage : w'.storage.stage 2 = some (.talking 8) := by
    rw [Server.stage, houtput]
    decide
  refine ⟨_, w', hrun, ?_, hstage, (hwatched 2 8 (by decide)).2 hstage⟩
  rw [Server.stage, houtput]
  decide

/-- The fourth `EPOLL_CTL_ADD`, that of the second connection, fails. -/
def crowdedWorld : World Server :=
  { shellWorld Server.start with kernel := { (shellWorld Server.start).kernel with
      faults := fun s n => if s = .epollCtl .add ∧ n = 3 then some (.code 28) else none } }

def crowdedStarted : World Server := final (tcpServerStart twoConnections true) crowdedWorld

theorem crowdedStarted_start :
    tcpServerStart twoConnections true crowdedWorld = .ok (some 3) crowdedStarted := rfl

theorem crowdedStarted_run :
    noticed (·.storage.output)
      (eventMachineRun (tcpServerCode twoConnections) (some 0) connectionsReady 4) crowdedStarted =
      some (some EMResult.errorEventWait.code,
        [⟨.user 1, 7, .accepted 7⟩, ⟨.user 1, 7, .text 7 [104, 105]⟩, ⟨.user 2, 8, .addFailed⟩,
          ⟨.user 1, 7, .closed 7⟩]) := by
  decide +kernel

theorem crowdedStarted_reportable : ConnectionsReportable crowdedStarted := by decide +kernel

theorem tcp_server_sockets_crowded :
    ∃ r w', eventMachineRun (tcpServerCode twoConnections) (some 0) connectionsReady 4 crowdedStarted =
        .ok r w' ∧ w'.storage.refusals = [8] ∧ (w'.kernel.file 8).isSome := by
  obtain ⟨w', hrun, houtput⟩ := exists_of_noticed crowdedStarted_run
  obtain ⟨hopen, -⟩ := tcp_server_sockets twoConnections connectionsReady 4 rfl (fun _ => rfl)
    crowdedStarted_start crowdedStarted_reportable.mayReport hrun
  have hrefusals : w'.storage.refusals = [8] := by
    rw [Server.refusals, houtput]
    rfl
  refine ⟨_, w', hrun, hrefusals, (hopen 8).2 (Or.inr (Or.inr ?_))⟩
  rw [hrefusals]
  exact List.mem_singleton.2 rfl

end EventMachine
