import EventMachine.Proof.Machines
import EventMachine.Registry.Agreement
import EventMachine.Timers.References

/-!
# What the main loop can trip over

The main loop follows pointers it has got from the kernel: `epoll_wait()` reports what was registered,
and what was registered is an event descriptor that the program has passed to a call. `Sane` is the
invariant of whole programs, with handlers that may do anything, nested loops and all: the machines
that are being run keep what the loop takes from them, and the batches they are in consist of such
pointers. So `event_machine_run_once()` serves nothing that was never registered
(`served_was_registered`), and library code goes wrong for reasons that lie in the descriptor or the
timer it serves and for no other (`loop_crashes_iff`).
-/

namespace EventMachine

open Lib

variable {σ : Type}

/-! ## Registered pointers -/

/-- The event descriptor a call may register. -/
def Call.registers : Call → EDRef
  | .init (some em) => some (.breakLoop em)
  | .reg _ (.add ed) => ed
  | .reg _ (.modify _ ed _) => ed
  | .timerCreate _ (some t) _ _ => some (.timer t)
  | _ => none

def Act.registers : Act → EDRef
  | .event (.ret c _) => c.registers
  | _ => none

/-- Going from `k` to `k'`, the only new entries are for descriptors in `H`. -/
def Kernel.Adds (H : Set EDPtr) (k k' : Kernel) : Prop :=
  ∀ q n ev, k'.interest q n = some ev → k.interest q n = some ev ∨ ∃ p ∈ H, ev.data = some p

namespace Kernel.Adds
variable {H : Set EDPtr} {k k' k'' : Kernel}

theorem of_eq (h : k'.interest = k.interest) : Adds H k k' := fun q n ev he => by
  rw [h] at he
  exact Or.inl he

theorem trans (h : Adds H k k') (h' : Adds H k' k'') : Adds H k k'' := by
  intro q n ev he
  rcases h' q n ev he with he' | hp
  · exact h q n ev he'
  · exact Or.inr hp

theorem setInterest (q : ObjId) (fd : Int) {e : Option EpollEvent}
    (he : ∀ ev, e = some ev → ∃ p ∈ H, ev.data = some p) : Adds H k (k.setInterest q fd e) := by
  intro q' n ev hev
  simp only [Kernel.setInterest, Function.update_apply] at hev
  split at hev
  · next hq =>
    rw [Function.update_apply] at hev
    split at hev
    · exact Or.inr (he ev hev)
    · exact Or.inl (by rwa [hq])
  · exact Or.inl hev

end Kernel.Adds

section calls
variable {H : Set EDPtr} {w w' : World σ}

theorem Closed.adds {who : Owner} {fd ret : Int} (h : Closed w who fd ret w') :
    w.kernel.Adds H w'.kernel := by
  intro q n ev he
  rw [Kernel.interest_congr h.core] at he
  exact Or.inl (w.kernel.released_le fd he)

theorem EndClosed.adds {em : EMPtr} {fd : Int} {forget : EM σ → EM σ} (h : EndClosed em fd forget w w') :
    w.kernel.Adds H w'.kernel := by
  rcases h with ⟨-, rfl⟩ | ⟨-, v, hclosed, rfl⟩
  · exact .of_eq rfl
  · exact hclosed.adds

theorem DestroyOutcome.adds {em : EMPtr} {r : UInt32} (h : DestroyOutcome w em r w') :
    w.kernel.Adds H w'.kernel := by
  have hfree : w.kernel.Adds H (w.freeEvents em).kernel :=
    .of_eq (congrArg (·.interest) (freeEvents_kernel w em).1)
  cases h with
  | queue _ closed => exact closed.adds
  | writeEnd _ _ closed => exact hfree.trans closed.adds
  | readEnd _ write _ closed => exact hfree.trans (write.adds.trans closed.adds)
  | done _ write read => exact hfree.trans (write.adds.trans read.adds)

theorem InitOutcome.adds {usePipe2 : Bool} {em : EMPtr} {ms : List (BufPtr × Int)} {m : EM σ} {r : UInt32}
    (h : InitOutcome usePipe2 w em ms m r w') (hH : EDPtr.breakLoop em ∈ H) :
    w.kernel.Adds H w'.kernel := by
  cases h with
  | noPipe _ _ core => exact .of_eq (Kernel.interest_congr core)
  | noFlags _ _ _ pipe => exact .of_eq pipe.interest
  | noQueue _ _ _ pipe => exact .of_eq pipe.interest
  | queue ends fd q k₁ k₂ _ pipe queue event =>
    have hqueue : w.kernel.Adds H k₂ := by
      intro q' n ev he
      rw [queue.2.2.2.1, Function.update_apply] at he
      split at he
      · exact absurd he (by simp)
      · rw [pipe.interest] at he
        exact Or.inl he
    rcases event with ⟨-, hcore⟩ | ⟨-, hcore⟩
    · refine (hqueue.trans (.setInterest q.id ends.1 ?_)).trans (.of_eq (Kernel.interest_congr hcore))
      rintro ev ⟨⟩
      exact ⟨_, hH, rfl⟩
    · exact hqueue.trans (.of_eq (Kernel.interest_congr hcore))

theorem Outcome.adds {em : EMPtr} {c : RegCall} {r : UInt32 × OutVar}
    (h : Outcome w em (c.change w em) c.oldEd r w')
    (hH : ∀ p, (Call.reg (some em) c).registers = some p → p ∈ H) : w.kernel.Adds H w'.kernel := by
  cases h with
  | refused _ _ same => exact .of_eq (World.interest_congr same.core)
  | done q can _ core =>
    refine (Kernel.Adds.setInterest q.id _ fun ev hev => ?_).trans (.of_eq (World.interest_congr core))
    obtain ⟨p, hp, -⟩ := Agreement.change_key can.target hev
    refine ⟨p, hH p ?_, hp⟩
    cases c with
    | add ed =>
      obtain rfl : ctlEvent w ed = ev := Option.some.inj hev
      exact hp
    | delete fd oldEd => simp [RegCall.change, deleteChange, Kernel.entryAfter] at hev
    | modify fd ed oldEd =>
      obtain rfl : ctlEvent w ed = ev := Option.some.inj hev
      exact hp

theorem TimerAdded.adds {t : TimerPtr} {fd : Int} {r : UInt32} (h : TimerAdded w t fd r w')
    (hH : EDPtr.timer t ∈ H) : w.kernel.Adds H w'.kernel := by
  obtain ⟨em, callback, data, f, w₁, hmade, hout, -⟩ := h
  refine (Kernel.Adds.of_eq hmade.made.interest).trans (Outcome.adds (c := .add (some (.timer t))) hout ?_)
  rintro p ⟨⟩
  exact hH

theorem CreateOutcome.adds {t : TimerPtr} {r : UInt32} (h : CreateOutcome w t r w')
    (hH : EDPtr.timer t ∈ H) : w.kernel.Adds H w'.kernel := by
  cases h with
  | refused => exact .of_eq rfl
  | noTimerfd core => exact .of_eq (Kernel.interest_congr core)
  | notAdded e _ added closed => exact (added.adds hH).trans closed.adds
  | done added => exact added.adds hH

theorem TimerDestroyOutcome.adds {t : TimerPtr} {r : UInt32} (h : TimerDestroyOutcome w t r w') :
    w.kernel.Adds H w'.kernel := by
  have hdeleted : ∀ {r w₁}, TimerDeleted w t r w₁ → w.kernel.Adds H w₁.kernel := by
    rintro r w₁ ⟨em, old, -, hout, -⟩
    exact Outcome.adds (c := .delete _ none) hout nofun
  cases h with
  | notDeleted e _ deleted closed => exact (hdeleted deleted).trans closed.adds
  | notClosed deleted closed => exact (hdeleted deleted).trans closed.adds
  | done deleted closed => exact (hdeleted deleted).trans closed.adds

theorem Settime.adds {t : TimerPtr} {new : Itimerspec} {r : UInt32} (h : Settime w t new r w') :
    w.kernel.Adds H w'.kernel := by
  rcases h.effect with ⟨-, hcore⟩ | ⟨-, f, -, -, hcore⟩
  · exact .of_eq (Kernel.interest_congr hcore)
  · exact .of_eq (congrArg (·.interest) hcore)

end calls

/-- A call adds entries for the event descriptor it may register, and for no other. -/
theorem Call.adds {usePipe2 : Bool} {f : Call} {r : UInt32} {w w' : World σ}
    (hexec : f.exec usePipe2 w = .ok r w') : w.kernel.Adds { p | f.registers = some p } w'.kernel := by
  cases Call.outcome hexec with
  | null => exact .of_eq rfl
  | init _ out => exact out.adds rfl
  | destroy out => exact out.adds
  | terminate _ still => exact .of_eq (congrArg (·.interest) still)
  | @reg em c r w' out => exact Outcome.adds out fun p hp => by cases c <;> exact hp
  | timerCreate out => exact out.adds rfl
  | timerStart out => exact out.adds
  | timerStop out => exact out.adds
  | timerDestroy out => exact out.adds

theorem Env.adds {H : Set EDPtr} (e : Env) (w : World σ) : w.kernel.Adds H (e.exec w).kernel := by
  cases e with
  | openFile status cloexec => exact .of_eq rfl
  | closeFile n =>
    intro q m ev he
    refine Or.inl (w.kernel.released_le n ?_)
    rwa [← Kernel.interest_congr (w.kernel.close_core n)]
  | setDescriptor a d => exact .of_eq rfl
  | setTimer x y => exact .of_eq rfl
  | expire o =>
    refine .of_eq ?_
    show (w.kernel.expire o).interest = _
    unfold Kernel.expire
    split <;> rfl

/-! ## The invariant -/

/-- Every entry is for a descriptor in `H`. -/
def Kernel.Known (H : Set EDPtr) (k : Kernel) : Prop :=
  ∀ q n ev, k.interest q n = some ev → ∃ p ∈ H, ev.data = some p

theorem Kernel.Known.adds {H H' : Set EDPtr} {k k' : Kernel} (h : k.Known H) (hadds : k.Adds H' k') :
    k'.Known (H ∪ H') := by
  intro q n ev he
  rcases hadds q n ev he with he' | ⟨p, hp, hdata⟩
  · obtain ⟨p, hp, hdata⟩ := h q n ev he'
    exact ⟨p, Or.inl hp, hdata⟩
  · exact ⟨p, Or.inr hp, hdata⟩

/-- A batch in the buffer `b` for `n` events: it has room there, and its slots hold events for
descriptors in `H`. -/
structure Reported (H : Set EDPtr) (w : World σ) (b : BufPtr) (n : Int) (x : Batch) : Prop where
  buffer : x.events = some b
  room : (x.numEvents : Int) ≤ n
  slots : ∀ j < x.numEvents, ∃ e p, (w.buffers b)[j]? = some e ∧ e.data = some p ∧ p ∈ H

/-- What holds of a program that has not crashed, when `H` is what has been registered so far. -/
structure Sane (H : Set EDPtr) (c : Config σ) : Prop where
  piped : c.world.Piped
  known : c.world.kernel.Known H
  running : ∀ em bl x, Frame.run em bl x ∈ c.stack →
    ∃ b n, CanWait c.world em b n ∧ ∀ y, x = some y → Reported H c.world b n y

namespace Reported
variable {H H' : Set EDPtr} {w w' : World σ} {b : BufPtr} {n : Int} {x : Batch}

theorem mono (h : Reported H w b n x) (hH : H ⊆ H') (hbuf : w'.buffers = w.buffers) :
    Reported H' w' b n x := by
  refine ⟨h.buffer, h.room, fun j hj => ?_⟩
  obtain ⟨e, p, he, hdata, hp⟩ := h.slots j hj
  exact ⟨e, p, by rw [hbuf, he], hdata, hH hp⟩

theorem next (h : Reported H w b n x) : Reported H w b n x.next := ⟨h.buffer, h.room, h.slots⟩

theorem update (h : Reported H w b n x) {buf : BufPtr} {l : List EpollEvent}
    (hl : ∀ e ∈ l, ∃ p ∈ H, e.data = some p)
    (hbuf : w'.buffers = Function.update w.buffers buf (l ++ (w.buffers buf).drop l.length)) :
    Reported H w' b n x := by
  refine ⟨h.buffer, h.room, fun j hj => ?_⟩
  obtain ⟨e, p, he, hdata, hp⟩ := h.slots j hj
  by_cases hb : b = buf
  · subst hb
    rw [hbuf, Function.update_self]
    by_cases hlt : j < l.length
    · obtain ⟨p', hp', hdata'⟩ := hl _ (List.getElem_mem hlt)
      exact ⟨l[j], p', by rw [List.getElem?_append_left hlt, List.getElem?_eq_getElem hlt], hdata', hp'⟩
    · refine ⟨e, p, ?_, hdata, hp⟩
      rw [List.getElem?_append_right (Nat.not_lt.1 hlt), List.getElem?_drop,
        Nat.add_sub_cancel' (Nat.not_lt.1 hlt), he]
  · refine ⟨e, p, ?_, hdata, hp⟩
    rw [hbuf, Function.update_of_ne hb, he]

theorem arrived {buf : BufPtr} {l : List EpollEvent} {old : List EpollEvent} {fd : Int}
    (hl : ∀ e ∈ l, ∃ p ∈ H, e.data = some p) (hn : (l.length : Int) ≤ n)
    (hbuf : w'.buffers buf = l ++ old) : Reported H w' buf n ⟨some buf, fd, 0, l.length⟩ := by
  refine ⟨rfl, hn, fun j hj => ?_⟩
  obtain ⟨p, hp, hdata⟩ := hl _ (List.getElem_mem hj)
  exact ⟨l[j], p, by rw [hbuf, List.getElem?_append_left hj, List.getElem?_eq_getElem hj], hdata, hp⟩

end Reported

theorem Config.go_buffer {w w' : World σ} {em : EMPtr} {bl bl' : Bool} {rest : List Frame}
    {o : WaitOutcome} {x : Batch}
    (h : Config.go ⟨w, .run em bl none :: rest, .library⟩ o =
      ⟨w', .run em bl' (some x) :: rest, .library⟩) : x.events = (w.ems em).events := by
  have hspec := runOnceBegin_spec em o w
  simp only [Config.go] at h
  split at h
  · simp at h
  · next n events fd w₁ hrun =>
    obtain ⟨hr, -⟩ := wp_ok hspec hrun
    split at h
    · simp at h
    · simp only [Config.mk.injEq, List.cons.injEq, Frame.run.injEq, Option.some.injEq] at h
      rw [← h.2.1.1.2.2]
      exact congrArg (·.1) hr

theorem Kernel.Known.reportable {H : Set EDPtr} {k : Kernel} (h : k.Known H) {q : ObjId} {n : Int}
    {l : List EpollEvent} (hl : Reportable k q n l) : ∀ e ∈ l, ∃ p ∈ H, e.data = some p := by
  obtain ⟨-, fds, -, hall⟩ := hl
  clear n
  induction hall with
  | nil => exact nofun
  | @cons fd e fds l hhead _ ih =>
    intro e' he'
    rcases List.mem_cons.1 he' with rfl | hmem
    · obtain ⟨ev, hev, hdata⟩ := hhead
      obtain ⟨p, hp, hp'⟩ := h q fd ev hev
      exact ⟨p, hp, hdata.trans hp'⟩
    · exact ih e' hmem

namespace Sane
variable {H : Set EDPtr} {usePipe2 : Bool} {w w' : World σ} {fs rest : List Frame} {f : Frame}
  {m m' : Mode} {em : EMPtr} {bl : Bool}

theorem kept (h : Sane H ⟨w, fs, m⟩) {H' : Set EDPtr} (hpiped : w'.Piped)
    (hadds : w.kernel.Adds H' w'.kernel) (hrun : ∀ {em b n}, CanWait w em b n → CanWait w' em b n)
    (hbuf : w'.buffers = w.buffers) :
    Sane (H ∪ H') ⟨w', fs, m'⟩ := by
  refine ⟨hpiped, h.known.adds hadds, fun em bl x hx => ?_⟩
  obtain ⟨b, n, hr, hb⟩ := h.running em bl x hx
  exact ⟨b, n, hrun hr, fun y hy => (hb y hy).mono (fun _ => Or.inl) hbuf⟩

theorem call (h : Sane H ⟨w, fs, m⟩) {f : Call} {r : UInt32} (hexec : f.exec usePipe2 w = .ok r w') :
    Sane (H ∪ { p | f.registers = some p }) ⟨w', fs, m'⟩ :=
  h.kept (h.piped.call hexec) (Call.adds hexec) (fun hr => hr.call hexec)
    (congrArg (·.2.1) (Call.passive hexec))

theorem calm (h : Sane H ⟨w, fs, m⟩) (hcalm : Calm w w') (hbuf : w'.buffers = w.buffers) {fs' : List Frame}
    (hfs : ∀ em bl x, Frame.run em bl x ∈ fs' → ∃ bl' x', Frame.run em bl' x' ∈ fs ∧
      ∀ y, x = some y → x' = some y ∨ ∃ z : Batch, x' = some z ∧ y = z.next) :
    Sane H ⟨w', fs', m'⟩ := by
  refine ⟨h.piped.of_machinery hcalm.machinery, ?_, fun em bl x hx => ?_⟩
  · show w'.kernel.Known H
    rw [Kernel.Known, hcalm.interest]
    exact h.known
  · obtain ⟨bl', x', hx', hy⟩ := hfs em bl x hx
    obtain ⟨b, n, hr, hb⟩ := h.running em bl' x' hx'
    refine ⟨b, n, hr.of_machinery hcalm.machinery, fun y hxy => ?_⟩
    rcases hy y hxy with rfl | ⟨z, rfl, rfl⟩
    · exact (hb y rfl).mono (fun _ => id) hbuf
    · exact (hb z rfl).next.mono (fun _ => id) hbuf

theorem top (h : Sane H ⟨w, f :: rest, m⟩) (fs' : List Frame) (hcalm : Calm w w')
    (hbuf : w'.buffers = w.buffers)
    (hfs : ∀ em bl x, Frame.run em bl x ∈ fs' → ∃ bl' x', Frame.run em bl' x' = f ∧
      ∀ y, x = some y → x' = some y ∨ ∃ z : Batch, x' = some z ∧ y = z.next) :
    Sane H ⟨w', fs' ++ rest, m'⟩ := by
  refine h.calm hcalm hbuf fun em bl x hx => ?_
  rcases List.mem_append.1 hx with hx | hx
  · obtain ⟨bl', x', rfl, hy⟩ := hfs em bl x hx
    exact ⟨bl', x', List.mem_cons_self, hy⟩
  · exact ⟨bl, x, List.mem_cons_of_mem f hx, fun y hy => Or.inl hy⟩

theorem waited (h : Sane H ⟨w, .run em bl none :: rest, m⟩) (hcalm : Calm w w') {l : List EpollEvent}
    {buf : BufPtr} {fd : Int} (hl : ∀ e ∈ l, ∃ p ∈ H, e.data = some p)
    (hn : (l.length : Int) ≤ (w.ems em).maxEvents) (hb : (w.ems em).events = some buf)
    (hbuf : w'.buffers = Function.update w.buffers buf (l ++ (w.buffers buf).drop l.length)) :
    Sane H ⟨w', .run em bl (some ⟨some buf, fd, 0, l.length⟩) :: rest, m'⟩ := by
  refine ⟨h.piped.of_machinery hcalm.machinery, ?_, fun em' bl' x hx => ?_⟩
  · show w'.kernel.Known H
    rw [Kernel.Known, hcalm.interest]
    exact h.known
  · rcases List.mem_cons.1 hx with hx | hx
    · obtain ⟨rfl, rfl, rfl⟩ := Frame.run.inj hx
      obtain ⟨b, n, hr, -⟩ := h.running em' bl' none List.mem_cons_self
      obtain rfl : b = buf := Option.some.inj (hr.buffer.symm.trans hb)
      refine ⟨b, n, hr.of_machinery hcalm.machinery, ?_⟩
      rintro y ⟨⟩
      have harrived : w'.buffers b = l ++ (w.buffers b).drop l.length := by
        rw [hbuf, Function.update_self]
      exact .arrived hl (hr.maxEvents ▸ hn) harrived
    · obtain ⟨b, n, hr, hy⟩ := h.running em' bl' x (List.mem_cons_of_mem _ hx)
      exact ⟨b, n, hr.of_machinery hcalm.machinery, fun y hxy => (hy y hxy).update hl hbuf⟩

theorem go {o : WaitOutcome} (h : Sane H ⟨w, fs, .library⟩)
    (hmay : (⟨w, fs, .library⟩ : Config σ).MayReport o)
    (hmode : (Config.go ⟨w, fs, .library⟩ o).mode ≠ .crashed) :
    Sane H (Config.go ⟨w, fs, .library⟩ o) := by
  have hbuffer : ∀ em bl bl' rest w' x, fs = .run em bl none :: rest →
      Config.go ⟨w, fs, .library⟩ o = ⟨w', .run em bl' (some x) :: rest, .library⟩ →
      x.events = (w.ems em).events := by
    rintro em bl bl' rest w' x rfl hgo
    exact Config.go_buffer hgo
  have hout := Config.go_cases w fs o
  generalize Config.go ⟨w, fs, .library⟩ o = c' at hout hmode hbuffer ⊢
  have hno : ∀ {f : Frame}, ∀ em bl x, Frame.run em bl x ∈ ([] : List Frame) →
      ∃ bl' x', Frame.run em bl' x' = f ∧
        ∀ y, x = some y → x' = some y ∨ ∃ z : Batch, x' = some z ∧ y = z.next := nofun
  have hnext : ∀ {em₁ : EMPtr} {bl₁ bl₂ : Bool} {b : Batch}, ∀ em bl x,
      Frame.run em bl x ∈ [Frame.run em₁ bl₂ (some b.next)] →
      ∃ bl' x', Frame.run em bl' x' = .run em₁ bl₁ (some b) ∧
        ∀ y, x = some y → x' = some y ∨ ∃ z : Batch, x' = some z ∧ y = z.next := by
    intro em₁ bl₁ bl₂ b em bl x hx
    obtain ⟨rfl, rfl, rfl⟩ := Frame.run.inj (List.mem_singleton.1 hx)
    exact ⟨bl₁, some b, rfl, fun y hy => Or.inr ⟨b, rfl, (Option.some.inj hy).symm⟩⟩
  cases hout with
  | idle => exact h
  | crashed => exact absurd rfl hmode
  | waitFailed calm buffers => exact h.top [] calm buffers hno
  | waited calm _ queue outcome _ buffers =>
    obtain ⟨hn, hreport⟩ := hmay _ _ _ _ _ rfl outcome queue
    exact h.waited calm (h.known.reportable ⟨hn, hreport⟩) hn (hbuffer _ _ _ _ _ _ rfl rfl).symm buffers
  | readFailed _ out => exact h.top [] out.calm out.buffers hno
  | breakLoop _ out => exact h.top [_] out.calm out.buffers hnext
  | handler _ out => exact h.top [_] out.calm out.buffers hnext
  | spurious _ calm buffers => exact h.top [_] calm buffers hnext
  | served _ calm buffers =>
    refine h.top [_, _] calm buffers fun em bl x hx => ?_
    rcases List.mem_cons.1 hx with hx | hx
    · exact absurd hx nofun
    · exact hnext em bl x hx
  | batchDone => exact h.top [] rfl rfl hno
  | again =>
    refine h.top [_] rfl rfl fun em bl x hx => ?_
    obtain ⟨rfl, rfl, rfl⟩ := Frame.run.inj (List.mem_singleton.1 hx)
    exact ⟨_, _, rfl, nofun⟩
  | timeoutDone => exact h.top [] rfl rfl hno
  | @round t n c rest =>
    refine h.top [.timeout (.timer t) n] rfl rfl fun em bl x hx => ?_
    exact absurd (List.mem_singleton.1 hx) nofun

theorem step {c c' : Config σ} {a : Act} (h : Sane H c) (hstep : Step usePipe2 c a c')
    (hmode : c'.mode ≠ .crashed) : Sane (H ∪ { p | a.registers = some p }) c' := by
  have hnone : ∀ {c' : Config σ}, Sane H c' → (∀ p, a.registers ≠ some p) →
      Sane (H ∪ { p | a.registers = some p }) c' := by
    intro c' hc' ha
    rwa [show H ∪ { p | a.registers = some p } = H from Set.union_eq_self_of_subset_right fun p hp =>
      absurd hp (ha p)]
  cases hstep with
  | call fs hexec => exact h.call hexec
  | crash => exact absurd rfl hmode
  | env e w fs m =>
    exact h.kept (h.piped.of_machinery (e.machinery w)) (e.adds w) (·.of_machinery (e.machinery w))
      (e.buffers w)
  | @enter em w w' r fs hexec hr =>
    subst hr
    obtain ⟨hsame, honly, -⟩ := wp_ok (eventMachineRunEnter_spec _ _) hexec
    obtain ⟨b, hb⟩ := CanWait.of_enter h.piped hexec
    refine hnone ?_ nofun
    refine ⟨h.piped.of_machinery honly.machinery, ?_, fun em' bl x hx => ?_⟩
    · show w'.kernel.Known H
      rw [Kernel.Known, World.interest_congr hsame.core]
      exact h.known
    · rcases List.mem_cons.1 hx with hx | hx
      · obtain ⟨rfl, rfl, rfl⟩ := Frame.run.inj hx
        exact ⟨b, _, hb.of_machinery honly.machinery, nofun⟩
      · obtain ⟨b', n, hr, hy⟩ := h.running em' bl x hx
        exact ⟨b', n, hr.of_machinery honly.machinery, fun y hxy =>
          (hy y hxy).mono (fun _ => id) (congrArg (·.buffers) honly)⟩
  | refuse fs hexec =>
    obtain ⟨hsame, honly, -⟩ := wp_ok (eventMachineRunEnter_spec _ _) hexec
    exact h.kept (h.piped.of_machinery honly.machinery) (.of_eq (World.interest_congr hsame.core))
      (·.of_machinery honly.machinery) (congrArg (·.buffers) honly)
  | ret => exact hnone ⟨h.piped, h.known, h.running⟩ nofun
  | go hmay => exact hnone (h.go hmay hmode) nofun

theorem run {c c' : Config σ} {as : List Act} (hrun : Steps (Step usePipe2) c as c')
    (h : c.mode ≠ .crashed → Sane H c) (hmode : c'.mode ≠ .crashed) :
    Sane (H ∪ { p | ∃ a ∈ as, a.registers = some p }) c' := by
  induction hrun generalizing H with
  | nil c => simpa using h hmode
  | @cons c c₁ c' a as hstep _ ih =>
    have hc₁ := ih (fun hc₁ => (h (hstep.not_crashed hc₁)).step hstep hc₁) hmode
    have hH : H ∪ { p | a.registers = some p } ∪ { p | ∃ b ∈ as, b.registers = some p } =
        H ∪ { p | ∃ b ∈ a :: as, b.registers = some p } := by
      ext p
      simp [or_assoc]
    rwa [hH] at hc₁

end Sane

/-- A program that has not used the library yet. -/
structure World.Unused (w : World σ) : Prop where
  static : ∀ em, (w.ems em).Static
  interest : ∀ q n, w.kernel.interest q n = none

theorem World.Unused.sane {w : World σ} (h : w.Unused) (m : Mode) : Sane ∅ ⟨w, [], m⟩ where
  piped em hq := by
    rw [show (w.ems em).queueFd = -1 from (h.static em).descriptors.1] at hq
    exact absurd hq (by decide)
  known q n ev he := absurd ((h.interest q n).symm.trans he) nofun
  running := nofun

theorem World.Unused.run {w : World σ} (h : w.Unused) {usePipe2 : Bool} {as : List Act} {c : Config σ}
    (hrun : Steps (Step usePipe2) ⟨w, [], .user⟩ as c) (hmode : c.mode ≠ .crashed) :
    Sane { p | ∃ a ∈ as, a.registers = some p } c := by
  simpa using Sane.run hrun (fun _ => h.sane .user) hmode

/-! ## What is served -/

/-- In every run of a program, `event_machine_run_once()` only ever goes through event descriptors that
a call of the program was to register. -/
theorem served_was_registered {usePipe2 : Bool} {w : World σ} (hw : w.Unused) {as : List Act}
    {c : Config σ} (hrun : Steps (Step usePipe2) ⟨w, [], .user⟩ as c) {p : EDPtr}
    (hp : c.serves = some p) : ∃ a ∈ as, a.registers = some p := by
  obtain ⟨em, bl, b, rest, e, hc, slot⟩ := Config.serves_inv hp
  have hmode : c.mode ≠ .crashed := by
    rw [hc]
    exact nofun
  have hsane := hw.run hrun hmode
  rw [hc] at hsane
  obtain ⟨buf, n, -, hb⟩ := hsane.running em bl (some b) List.mem_cons_self
  have hb := hb b rfl
  obtain ⟨e', p', he', hdata, hp'⟩ := hb.slots b.i slot.lt
  obtain ⟨buf', hbuf, he⟩ := slot.event
  obtain rfl : buf = buf' := Option.some.inj (hb.buffer.symm.trans hbuf)
  obtain rfl : e' = e := Option.some.inj (he'.symm.trans he)
  obtain rfl : p' = p := Option.some.inj (hdata.symm.trans slot.data)
  exact hp'

/-! ## What goes wrong -/

/-- The `read()` of `internal_timeout_handler()` fails, and not because there is nothing to read. -/
def Kernel.Unreadable (k : Kernel) (fd : Int) : Prop :=
  match k.file fd, k.faults .read 0 with
  | none, _ => True
  | some _, some e => e ≠ .EAGAIN
  | some _, none => False

/-- A timer that is about to be served has the number of a timerfd, if that number is open at all. -/
def Config.ReadsTimerfd (c : Config σ) : Prop :=
  ∀ em bl b rest p f, c.stack = .run em bl (some b) :: rest → c.serves = some p →
    (c.world.ed p).fd ≠ b.breakLoopReadFd → (c.world.ed p).handler = some .internalTimeoutHandler →
    c.world.kernel.file (c.world.ed p).fd = some f → f.kind = .timerfd

/-- The library is about to crash. -/
inductive Config.Trips (c : Config σ) : Prop
  /-- It is about to call through a descriptor without a handler. -/
  | handler {em : EMPtr} {bl : Bool} {b : Batch} {rest : List Frame} {p : EDPtr}
      (stack : c.stack = .run em bl (some b) :: rest) (serves : c.serves = some p)
      (fd : (c.world.ed p).fd ≠ b.breakLoopReadFd) (handler : (c.world.ed p).handler = none)
  /-- It is about to serve a timer the number of which is closed or fails to be read. -/
  | timer {em : EMPtr} {bl : Bool} {b : Batch} {rest : List Frame} {p : EDPtr}
      (stack : c.stack = .run em bl (some b) :: rest) (serves : c.serves = some p)
      (fd : (c.world.ed p).fd ≠ b.breakLoopReadFd)
      (handler : (c.world.ed p).handler = some .internalTimeoutHandler)
      (unreadable : c.world.kernel.Unreadable (c.world.ed p).fd)
  /-- It is about to call the callback of a timer that has none, or of no timer at all. -/
  | callback {data : VoidPtr} {n : Nat} {rest : List Frame}
      (stack : c.stack = .timeout data (n + 1) :: rest)
      (callback : ∀ t, data = .timer t → (c.world.timers t).callback = none)

theorem Kernel.unreadable_iff {k : Kernel} {fd : Int}
    (htimer : ∀ f, k.file fd = some f → f.kind = .timerfd) :
    k.Unreadable fd ↔ (k.readExpirations fd).1.1 ≠ 8 ∧ (k.readExpirations fd).2.errno ≠ .EAGAIN := by
  unfold Unreadable readExpirations
  simp only [file_turn]
  rw [show (k.turn .read).1 = k.faults .read 0 from rfl]
  cases hf : k.file fd with
  | none => simp
  | some f =>
    cases k.faults .read 0 with
    | some e => simp
    | none => by_cases hpending : (k.timerfds f.id).pending = 0 <;> simp [htimer f hf, hpending, turn]

theorem internalTimeoutRead_crash {fd : Int} (data : VoidPtr) {w : World σ}
    (htimer : ∀ f, w.kernel.file fd = some f → f.kind = .timerfd) :
    wp (internalTimeoutRead fd data) (fun _ _ => ¬ w.kernel.Unreadable fd)
      (fun _ _ => w.kernel.Unreadable fd) w := by
  unfold internalTimeoutRead
  rw [wp_bind, wp_cAssert]
  constructor
  · intro hfd
    rw [wp_bind]
    apply (wp_modifyGet _).2
    rw [wp_bind, wp_getErrno, wp_ite, Kernel.unreadable_iff htimer]
    constructor
    · rintro ⟨-, heagain⟩ ⟨-, hne⟩
      exact hne heagain
    · intro hgo
      rw [wp_bind, wp_cAssert]
      constructor
      · rintro h8 ⟨hne, -⟩
        exact hne h8
      · intro hne
        exact ⟨hne, fun heagain => hgo ⟨hne, heagain⟩⟩
  · intro hneg
    show w.kernel.Unreadable fd
    rw [Kernel.Unreadable, Kernel.file, if_pos (Int.not_le.1 hneg)]
    trivial

theorem runOnceSlot_at (em : EMPtr) {b : Batch} {e : EpollEvent} {p : EDPtr} {w : World σ}
    (slot : InSlot w b e p) :
    wp (runOnceSlot em b.events b.i b.breakLoopReadFd)
      (fun r w' => SlotOutcome w em b.breakLoopReadFd e p r w')
      (fun _ _ => (w.ed p).fd ≠ b.breakLoopReadFd ∧ (w.ed p).handler = none) w := by
  obtain ⟨buf, hbuf, he⟩ := slot.event
  refine wp_mono (runOnceSlot_spec em b.events b.i b.breakLoopReadFd w) ?_ ?_
  · rintro r w' ⟨buf', e', p', hbuf', he', hp', hout⟩
    obtain rfl := Option.some.inj (hbuf.symm.trans hbuf')
    obtain rfl := Option.some.inj (he.symm.trans he')
    obtain rfl := Option.some.inj (slot.data.symm.trans hp')
    exact hout
  · rintro _ w' ⟨-, hwhy⟩
    exact hwhy buf e p hbuf he slot.data

theorem runOnceBegin_crash (em : EMPtr) (o : WaitOutcome) (w : World σ) :
    wp (runOnceBegin em o) (fun _ _ => True)
      (fun _ _ => (w.ems em).queueFd < 0 ∨ (w.ems em).breakLoopPipe.1 < 0) w := by
  unfold runOnceBegin
  rw [wp_bind, wp_getEM, wp_bind]
  exact wp_mono (runOnceWait_spec _ _ _ _ _ _ _) (fun _ _ _ => trivial) fun _ _ h => h.2

theorem internalTimeoutRound_crash (data : VoidPtr) (w : World σ) :
    wp (internalTimeoutRound data) (fun _ _ => ¬ ∀ t, data = .timer t → (w.timers t).callback = none)
      (fun _ _ => ∀ t, data = .timer t → (w.timers t).callback = none) w := by
  unfold internalTimeoutRound
  cases data with
  | null => exact nofun
  | user a => exact nofun
  | timer t =>
    simp only
    rw [wp_bind, wp_getTimer]
    cases hc : (w.timers t).callback with
    | none =>
      rintro t' ⟨⟩
      exact hc
    | some c =>
      intro hnone
      exact absurd ((hnone t rfl).symm.trans hc) nofun

namespace Config
variable {w : World σ} {o : WaitOutcome} {em : EMPtr} {bl : Bool} {b : Batch} {rest : List Frame}

theorem user_ne_crashed : Mode.user ≠ .crashed := by simp

theorem library_ne_crashed : Mode.library ≠ .crashed := by simp

theorem not_crashed_wait {buf : BufPtr} {n : Int} (h : CanWait w em buf n) :
    (Config.go ⟨w, .run em bl none :: rest, .library⟩ o).mode ≠ .crashed := by
  have hcrash := runOnceBegin_crash em o w
  simp only [go]
  split
  · next hrun =>
    have hq := h.queue
    have hr := h.readEnd
    rcases wp_error hcrash hrun with hneg | hneg <;> omega
  · split
    · exact user_ne_crashed
    · exact library_ne_crashed

theorem trips_iff {fs : List Frame} : (⟨w, fs, .library⟩ : Config σ).Trips ↔
    match fs with
    | .run _ _ (some b) :: _ => ∃ p, b.pointer w b.i = some p ∧ (w.ed p).fd ≠ b.breakLoopReadFd ∧
      ((w.ed p).handler = none ∨
        (w.ed p).handler = some .internalTimeoutHandler ∧ w.kernel.Unreadable (w.ed p).fd)
    | .timeout data (_ + 1) :: _ => ∀ t, data = .timer t → (w.timers t).callback = none
    | _ => False := by
  constructor
  · rintro (⟨rfl, serves, fd, handler⟩ | ⟨rfl, serves, fd, handler, hread⟩ | ⟨rfl, callback⟩)
    · exact ⟨_, serves, fd, Or.inl handler⟩
    · exact ⟨_, serves, fd, Or.inr ⟨handler, hread⟩⟩
    · exact callback
  · intro h
    match fs, h with
    | .run em bl (some b) :: rest, ⟨p, hp, fd, Or.inl handler⟩ => exact .handler rfl hp fd handler
    | .run em bl (some b) :: rest, ⟨p, hp, fd, Or.inr ⟨handler, hread⟩⟩ =>
      exact .timer rfl hp fd handler hread
    | .timeout data (n + 1) :: rest, callback => exact .callback rfl callback

theorem crashed_slot_iff {e : EpollEvent} {p : EDPtr} (slot : InSlot w b e p)
    (htimer : (w.ed p).fd ≠ b.breakLoopReadFd → (w.ed p).handler = some .internalTimeoutHandler →
      ∀ f, w.kernel.file (w.ed p).fd = some f → f.kind = .timerfd) :
    (Config.go ⟨w, .run em bl (some b) :: rest, .library⟩ o).mode = .crashed ↔
      (w.ed p).fd ≠ b.breakLoopReadFd ∧ ((w.ed p).handler = none ∨
        (w.ed p).handler = some .internalTimeoutHandler ∧ w.kernel.Unreadable (w.ed p).fd) := by
  have hspec := runOnceSlot_at em slot
  simp only [go, if_pos slot.lt]
  split
  · next h =>
    obtain ⟨hfd, hnone⟩ := wp_error hspec h
    exact iff_of_true rfl ⟨hfd, Or.inl hnone⟩
  · next h =>
    cases wp_ok hspec h with
    | readFailed fd => exact iff_of_false user_ne_crashed fun h => h.1 fd
  · next h =>
    cases wp_ok hspec h with
    | breakLoop _ _ fd => exact iff_of_false library_ne_crashed fun h => h.1 fd
  · next h =>
    cases wp_ok hspec h with
    | handler _ _ handler => exact iff_of_false user_ne_crashed (by simp [handler])
  · next h =>
    cases wp_ok hspec h with
    | handler _ fd handler =>
      have hread := internalTimeoutRead_crash (w.ed p).data (w := { w with invoked :=
        w.invoked ++ [.handler .internalTimeoutHandler em e.events (w.ed p).fd (w.ed p).data] })
        (htimer fd handler)
      have hgoes : ¬ w.kernel.Unreadable (w.ed p).fd → ¬ ((w.ed p).fd ≠ b.breakLoopReadFd ∧
          ((w.ed p).handler = none ∨ (w.ed p).handler = some .internalTimeoutHandler ∧
            w.kernel.Unreadable (w.ed p).fd)) := by
        rintro hreadable ⟨-, hnone | ⟨-, hunreadable⟩⟩
        · simp [handler] at hnone
        · exact hreadable hunreadable
      split
      · next h => exact iff_of_true rfl ⟨fd, Or.inr ⟨handler, wp_error hread h⟩⟩
      · next h => exact iff_of_false library_ne_crashed (hgoes (wp_ok hread h))
      · next h => exact iff_of_false library_ne_crashed (hgoes (wp_ok hread h))

end Config

/-- In every run of a program, library code crashes when it is about to serve a descriptor without a
handler or a timer whose number fails to be read, or to call a callback that is gone, and at no other
time. -/
theorem loop_crashes_iff {usePipe2 : Bool} {w : World σ} (hw : w.Unused) {as : List Act} {c : Config σ}
    (hrun : Steps (Step usePipe2) ⟨w, [], .user⟩ as c) (hmode : c.mode = .library)
    (hread : c.ReadsTimerfd) (o : WaitOutcome) :
    (c.go o).mode = .crashed ↔ c.Trips := by
  obtain ⟨w', fs, m⟩ := c
  obtain rfl : m = .library := hmode
  have hsane := hw.run hrun Config.library_ne_crashed
  rw [Config.trips_iff]
  match fs with
  | [] => exact iff_of_false Config.library_ne_crashed id
  | .timeout data 0 :: rest => exact iff_of_false Config.library_ne_crashed id
  | .timeout data (n + 1) :: rest =>
    have hcrash := internalTimeoutRound_crash data w'
    simp only [Config.go]
    split
    · next h => exact iff_of_true rfl (wp_error hcrash h)
    · next h => exact iff_of_false Config.user_ne_crashed (wp_ok hcrash h)
  | .run em bl none :: rest =>
    obtain ⟨buf, n, hr, -⟩ := hsane.running em bl none List.mem_cons_self
    exact iff_of_false (Config.not_crashed_wait hr) id
  | .run em bl (some b) :: rest =>
    by_cases hlt : b.i < b.numEvents
    · -- the pointers of a batch are good
      obtain ⟨buf, n, -, hb⟩ := hsane.running em bl (some b) List.mem_cons_self
      obtain ⟨e, p, he, hp, -⟩ := (hb b rfl).slots b.i hlt
      have slot : InSlot w' b e p := ⟨hlt, ⟨buf, (hb b rfl).buffer, he⟩, hp⟩
      rw [Config.crashed_slot_iff slot fun fd handler f =>
        hread em bl b rest p f rfl slot.pointer fd handler]
      constructor
      · exact fun h => ⟨p, slot.pointer, h⟩
      · rintro ⟨p', hp', h⟩
        obtain rfl := Option.some.inj (slot.pointer.symm.trans hp')
        exact h
    · have hdone : (Config.go ⟨w', .run em bl (some b) :: rest, .library⟩ o).mode ≠ .crashed := by
        simp only [Config.go, if_neg hlt]
        cases bl
        · exact Config.library_ne_crashed
        · exact Config.user_ne_crashed
      refine iff_of_false hdone ?_
      rintro ⟨p, hp, -⟩
      rw [Batch.pointer, if_neg hlt] at hp
      cases hp

/-! ## A descriptor without a handler -/

/-- A program whose event descriptors have no handler, before it uses the library. -/
def handlerless : World Unit :=
  { World.start (emStaticWithMaxEvents Unit 16 none) () fun _ _ => none with
    descriptors := fun _ => ⟨EPOLLIN, 3, .null, none⟩ }

theorem handlerless_unused : handlerless.Unused where
  static _ := ⟨16, none, ⟨none, none, 0, .null⟩, rfl⟩
  interest _ _ := rfl

/-- Its machine is initialised, and other code has opened the number 3. -/
def handlerlessOpen : World Unit :=
  (Env.openFile 0 false).exec (final (eventMachineInit true (some 0)) handlerless)

/-- The descriptor 0 is registered. -/
def handlerlessAdded : World Unit := final (eventMachineAdd (some 0) (some (.obj 0))) handlerlessOpen

/-- The main loop has been entered. -/
def handlerlessWaiting : Config Unit :=
  ⟨final (eventMachineRunEnter (some 0)) handlerlessAdded, [.run 0 false none], .library⟩

def handlerlessReady : WaitOutcome := .batch [⟨EPOLLIN, some (.obj 0)⟩]

theorem handlerless_mayReport : handlerlessWaiting.MayReport handlerlessReady := by
  rintro em bl rest l q hstack hl hq
  obtain ⟨⟨rfl, rfl, -⟩, rfl⟩ := by simpa [handlerlessWaiting] using hstack
  obtain rfl := WaitOutcome.batch.inj hl
  obtain rfl : (⟨2, .epoll, .machine 0, 0, true⟩ : File) = q := Option.some.inj hq
  exact ⟨by decide, [3], by decide, .cons ⟨_, rfl, rfl⟩ .nil⟩

/-- What the program does until its descriptor is about to be served. -/
def handlerlessActs : List Act :=
  [.event (.ret (.init (some 0)) 0), .event (.env (.openFile 0 false)),
    .event (.ret (.reg (some 0) (.add (some (.obj 0)))) 0), .run (some 0), .go handlerlessReady]

theorem handlerless_run : Steps (Step true) ⟨handlerless, [], .user⟩ handlerlessActs
    (handlerlessWaiting.go handlerlessReady) := by
  have hinit : Step true ⟨handlerless, [], .user⟩ (.event (.ret (.init (some 0)) 0))
      ⟨final (eventMachineInit true (some 0)) handlerless, [], .user⟩ := .call [] rfl
  have hadd : Step true ⟨handlerlessOpen, [], .user⟩
      (.event (.ret (.reg (some 0) (.add (some (.obj 0)))) 0)) ⟨handlerlessAdded, [], .user⟩ := .call [] rfl
  exact .cons hinit <| .cons (.env _ _ _ _) <| .cons hadd <| .cons (.enter [] rfl rfl) <|
    .cons (.of_go rfl handlerless_mayReport) (.nil _)

theorem handlerless_readsTimerfd : (handlerlessWaiting.go handlerlessReady).ReadsTimerfd := by
  intro em bl b rest p f _ hp _ hhandler
  obtain rfl : EDPtr.obj 0 = p := Option.some.inj hp
  cases hhandler

theorem served_was_registered_handlerless :
    (handlerlessWaiting.go handlerlessReady).serves = some (.obj 0) ∧
      ∃ a ∈ handlerlessActs, a.registers = some (.obj 0) :=
  ⟨rfl, served_was_registered handlerless_unused handlerless_run rfl⟩

theorem loop_crashes_iff_handlerless :
    ((handlerlessWaiting.go handlerlessReady).go handlerlessReady).mode = .crashed ∧
      (handlerlessWaiting.go handlerlessReady).Trips :=
  ⟨rfl, (loop_crashes_iff handlerless_unused handlerless_run rfl handlerless_readsTimerfd
    handlerlessReady).1 rfl⟩

end EventMachine
