import EventMachine.Proof.Loop
import EventMachine.Proof.Passive
import Mathlib.Data.List.Forall2
import Mathlib.Data.Set.Basic

/-!
# Unregistered descriptors and the batch

`event_machine_run_once()` reads a batch of raw pointers from its buffer and goes through them one
after the other, calling handlers in between. A descriptor is *retired* from a machine (`retire`) from
the moment a successful `event_machine_delete()` or `event_timer_destroy()` unregisters it there until
it is registered with that machine again. The kernel reports registered descriptors only, so what
`event_wait()` puts into a slot is not retired; but nothing takes it out again, and a handler that
retires a descriptor whose event is still to come leaves the loop with a stale pointer
(`stale_dispatch`). That is the only way: rounds of the loop go through no retired descriptor exactly
as long as they go through none that was retired since its slot was filled
(`no_dispatch_after_unregistration`).
-/

namespace EventMachine

open Lib

variable {σ : Type}

/-- The queue of the machine holds the pointer to the event descriptor, under whichever number. -/
def World.Registered (w : World σ) (x : EMPtr × EDPtr) : Prop :=
  ∃ q fd ev, w.kernel.file (w.ems x.1).queueFd = some q ∧ w.kernel.interest q.id fd = some ev ∧
    ev.data = some x.2

/-- The event unregisters the descriptor from the machine: a successful `event_machine_delete()` of the
number it is registered under, or a successful `event_timer_destroy()` of the timer it is part of. -/
def Unregisters (w : World σ) (x : EMPtr × EDPtr) : Event → Prop
  | .ret (.reg (some em) (.delete fd _)) r => r = EMResult.success.code ∧ x.1 = em ∧
      ∃ q ev, w.kernel.file (w.ems em).queueFd = some q ∧ w.kernel.interest q.id fd = some ev ∧
        ev.data = some x.2
  | .ret (.timerDestroy (some t)) r => r = EMResult.success.code ∧ x.2 = .timer t
  | _ => False

/-- What has been unregistered and not registered again, after one more step. -/
def retire (c : Config σ) (a : Act) (c' : Config σ) (retired : Set (EMPtr × EDPtr)) :
    Set (EMPtr × EDPtr) :=
  {x | (x ∈ retired ∨ ∃ e, a = .event e ∧ Unregisters c.world x e) ∧ ¬ c'.world.Registered x}

/-- The machine whose call of `event_wait()` the step is, with the buffer and the number of slots that
it has filled. -/
def filled (c c' : Config σ) : Option (EMPtr × BufPtr × Nat) :=
  match c.stack, c' with
  | .run em _ none :: _, ⟨_, .run _ _ (some b) :: _, .library⟩ => b.events.map (em, ·, b.numEvents)
  | _, _ => none

/-- The descriptors that have been retired, since the program began and, for each slot of a buffer,
since the slot was filled. What a slot was filled with is registered with the machine that waited;
from any other machine it may have been retired before. -/
structure Retired where
  ever : Set (EMPtr × EDPtr)
  since : BufPtr → Nat → Set (EMPtr × EDPtr)

def Retired.start : Retired := ⟨∅, fun _ _ => ∅⟩

def Retired.after (c : Config σ) (a : Act) (c' : Config σ) (g : Retired) : Retired where
  ever := retire c a c' g.ever
  since buf j :=
    match filled c c' with
    | some (em, buf', n) =>
      if buf = buf' ∧ j < n then {x | x ∈ retire c a c' g.ever ∧ x.1 ≠ em}
      else retire c a c' (g.since buf j)
    | none => retire c a c' (g.since buf j)

/-- A round of the loop of `event_machine_run_once()`: the machine, its buffer, the slot, and the event
descriptor the slot points to, whose fields are read and whose handler is called. -/
structure Round where
  em : EMPtr
  events : BufPtr
  i : Nat
  ed : EDPtr
  deriving DecidableEq

def Config.round (c : Config σ) (a : Act) : Option Round :=
  match c.mode, a, c.stack with
  | .library, .go _, .run em _ (some b) :: _ =>
    b.events.bind fun buf => (b.pointer c.world b.i).map fun p => ⟨em, buf, b.i, p⟩
  | _, _, _ => none

section definitions
variable {c c' : Config σ} {a : Act}

theorem retire_imp {S T : Set (EMPtr × EDPtr)} {x : EMPtr × EDPtr} (h : x ∈ S → x ∈ T)
    (hx : x ∈ retire c a c' S) : x ∈ retire c a c' T :=
  ⟨hx.1.imp_left h, hx.2⟩

theorem filled_inv {em : EMPtr} {buf : BufPtr} {n : Nat} (h : filled c c' = some (em, buf, n)) :
    c'.mode = .library ∧ (∃ bl rest, c.stack = .run em bl none :: rest) ∧
      ∃ em' bl b rest, c'.stack = .run em' bl (some b) :: rest := by
  unfold filled at h
  split at h
  · next em' bl rest w em'' bl' b rest' hstack =>
    obtain ⟨buf', -, heq⟩ := Option.map_eq_some_iff.1 h
    obtain ⟨rfl, -⟩ := Prod.mk.inj heq
    exact ⟨rfl, ⟨bl, rest, hstack⟩, em'', bl', b, rest', rfl⟩
  · exact absurd h (by simp)

theorem filled_of_mode (h : c'.mode ≠ .library) : filled c c' = none :=
  Option.eq_none_iff_forall_ne_some.2 fun _ hf => h (filled_inv hf).1

theorem filled_of_stack (h : c'.stack = c.stack) : filled c c' = none := by
  refine Option.eq_none_iff_forall_ne_some.2 fun _ hf => ?_
  obtain ⟨-, ⟨bl, rest, hc⟩, em', bl', b, rest', hc'⟩ := filled_inv hf
  exact absurd (hc'.symm.trans (h.trans hc)) (by simp)

end definitions

/-! ## The invariant -/

/-- What is retired is not registered, and an event that a batch on the stack still has in a slot
belongs to a retired descriptor only if that was retired since the slot was filled. -/
structure Snapshots (x : Config σ × Retired) : Prop where
  unregistered : ∀ y ∈ x.2.ever, ¬ x.1.world.Registered y
  since_ever : ∀ buf j, x.2.since buf j ⊆ x.2.ever
  slots : x.1.mode ≠ .crashed → ∀ em bl b buf, .run em bl (some b) ∈ x.1.stack →
    b.events = some buf → ∀ j p, b.pointer x.1.world j = some p →
      (em, p) ∈ x.2.ever → (em, p) ∈ x.2.since buf j

namespace Snapshots
variable {c c' : Config σ} {g : Retired}

theorem start (w : World σ) : Snapshots (⟨w, [], .user⟩, .start) := by
  refine ⟨fun _ hy => absurd hy (Set.notMem_empty _), fun _ _ => subset_rfl, ?_⟩
  intro _ em bl b buf hmem
  exact absurd hmem List.not_mem_nil

theorem after_since_ever (h : Snapshots (c, g)) (a : Act) (buf : BufPtr) (j : Nat) :
    (g.after c a c').since buf j ⊆ (g.after c a c').ever := by
  intro x hx
  have hkept : x ∈ retire c a c' (g.since buf j) → x ∈ retire c a c' g.ever :=
    retire_imp fun hs => h.since_ever buf j hs
  simp only [Retired.after] at hx
  split at hx
  · split at hx
    · exact hx.1
    · exact hkept hx
  · exact hkept hx

theorem kept (h : Snapshots (c, g)) (a : Act) (hmode : c'.mode ≠ .crashed → c.mode ≠ .crashed)
    (hbuf : c'.world.buffers = c.world.buffers) (hfill : filled c c' = none)
    (hframes : ∀ em bl b, Frame.run em bl (some b) ∈ c'.stack → ∃ bl' b',
      Frame.run em bl' (some b') ∈ c.stack ∧ b'.events = b.events ∧ b'.numEvents = b.numEvents) :
    Snapshots (c', g.after c a c') := by
  refine ⟨fun y hy => hy.2, h.after_since_ever a, ?_⟩
  intro hm em bl b buf hmem hevents j p hp hretired
  obtain ⟨bl', b', hmem', hevents', hnum⟩ := hframes em bl b hmem
  have hp' : b'.pointer c.world j = some p := by
    simpa only [Batch.pointer, hbuf, hevents', hnum] using hp
  have hsince := h.slots (hmode hm) em bl' b' buf hmem' (hevents'.trans hevents) j p hp'
  simpa only [Retired.after, hfill] using retire_imp hsince hretired

theorem same (h : Snapshots (c, g)) (a : Act) (hmode : c'.mode ≠ .crashed → c.mode ≠ .crashed)
    (hbuf : c'.world.buffers = c.world.buffers) (hstack : c'.stack = c.stack) :
    Snapshots (c', g.after c a c') :=
  h.kept a hmode hbuf (filled_of_stack hstack) fun _ bl b hmem => ⟨bl, b, hstack ▸ hmem, rfl, rfl⟩

theorem registered_of_reportable {w w' : World σ} {em : EMPtr} {q : File} {maxEvents : Int}
    {l : List EpollEvent} {e : EpollEvent} {p : EDPtr} {j : Nat}
    (hreport : Reportable w.kernel q.id maxEvents l)
    (hqueue : w.kernel.file (w.ems em).queueFd = some q) (hk : w'.kernel = w.kernel)
    (hems : w'.ems = w.ems) (he : l[j]? = some e) (hp : e.data = some p) : w'.Registered (em, p) := by
  obtain ⟨-, fds, -, hall⟩ := hreport
  obtain ⟨hlt, rfl⟩ := List.getElem?_eq_some_iff.1 he
  have hfds : j < fds.length := by rw [hall.length_eq]; exact hlt
  obtain ⟨ev, hev, hdata⟩ := hall.get hfds hlt
  refine ⟨q, _, ev, ?_, by rw [hk]; exact hev, hdata.symm.trans hp⟩
  rw [hk, hems]
  exact hqueue

theorem pointer_unfilled {w w' : World σ} {buf buf' : BufPtr} {l : List EpollEvent} {b : Batch} {j : Nat}
    (hbuf : w'.buffers = Function.update w.buffers buf (l ++ (w.buffers buf).drop l.length))
    (hevents : b.events = some buf') (hout : ¬ (buf' = buf ∧ j < l.length)) :
    b.pointer w' j = b.pointer w j := by
  have hslot : (w'.buffers buf')[j]? = (w.buffers buf')[j]? := by
    rw [hbuf]
    by_cases hb : buf' = buf
    · subst hb
      have hge : l.length ≤ j := Nat.le_of_not_lt fun hlt => hout ⟨rfl, hlt⟩
      rw [Function.update_self, List.getElem?_append_right hge, List.getElem?_drop,
        Nat.add_sub_cancel' hge]
    · rw [Function.update_of_ne hb]
  simp only [Batch.pointer, hevents, Option.bind_some, hslot]

/-- `event_wait()` fills the first slots of a buffer. Those of the machine that waits are registered with
it, and what is retired from other machines is stale in the slots they share with it. -/
theorem waited {w w' : World σ} {em : EMPtr} {bl : Bool} {rest : List Frame} {buf : BufPtr} {fd : Int}
    {q : File} {maxEvents : Int} {l : List EpollEvent} (o : WaitOutcome)
    (h : Snapshots (⟨w, .run em bl none :: rest, .library⟩, g))
    (hreport : Reportable w.kernel q.id maxEvents l)
    (hqueue : w.kernel.file (w.ems em).queueFd = some q) (hk : w'.kernel = w.kernel)
    (hems : w'.ems = w.ems)
    (hbuf : w'.buffers = Function.update w.buffers buf (l ++ (w.buffers buf).drop l.length)) :
    Snapshots (⟨w', .run em bl (some ⟨some buf, fd, 0, l.length⟩) :: rest, .library⟩,
      g.after ⟨w, .run em bl none :: rest, .library⟩ (.go o)
        ⟨w', .run em bl (some ⟨some buf, fd, 0, l.length⟩) :: rest, .library⟩) := by
  refine ⟨fun y hy => hy.2, h.after_since_ever _, ?_⟩
  intro _ em' bl' b buf' hmem hevents j p hp hretired
  have hslot : ∃ e, (w'.buffers buf')[j]? = some e ∧ e.data = some p := by
    simp only [Batch.pointer, hevents, Option.bind_some] at hp
    split at hp
    · exact Option.bind_eq_some_iff.1 hp
    · exact absurd hp (by simp)
  simp only [Retired.after, filled, Option.map_some]
  split
  · next hin =>
    -- a slot that has just been filled
    obtain ⟨rfl, hlt⟩ := hin
    obtain ⟨e, he, hdata⟩ := hslot
    rw [hbuf, Function.update_self, List.getElem?_append_left hlt] at he
    refine ⟨hretired, ?_⟩
    rintro rfl
    exact hretired.2 (registered_of_reportable hreport hqueue hk hems he hdata)
  · next hout =>
    -- any other slot is that of an earlier batch and has not changed
    have hrest : .run em' bl' (some b) ∈ rest := by
      rcases List.mem_cons.1 hmem with heq | hrest
      · obtain ⟨rfl, rfl, rfl⟩ := by simpa using heq
        obtain rfl : buf = buf' := Option.some.inj hevents
        have hlt : j < l.length := by
          by_contra hge
          simp [Batch.pointer, hge] at hp
        exact absurd ⟨rfl, hlt⟩ hout
      · exact hrest
    refine retire_imp (h.slots (by simp) em' bl' b buf' ?_ hevents j p ?_) hretired
    · exact List.mem_cons_of_mem _ hrest
    · rw [← pointer_unfilled hbuf hevents hout]
      exact hp

theorem go {w : World σ} {fs : List Frame} {o : WaitOutcome} {c' : Config σ}
    (h : Snapshots (⟨w, fs, .library⟩, g)) (hmay : (⟨w, fs, .library⟩ : Config σ).MayReport o)
    (hout : GoOutcome w o fs c') : Snapshots (c', g.after ⟨w, fs, .library⟩ (.go o) c') := by
  have hlib : c'.mode ≠ .crashed → (⟨w, fs, .library⟩ : Config σ).mode ≠ .crashed := fun _ => nofun
  -- the frame on top of the stack, one slot further or not
  have hadvance : ∀ {em : EMPtr} {bl bl' : Bool} {b b' : Batch} {rest : List Frame},
      b'.events = b.events → b'.numEvents = b.numEvents →
      ∀ em' bl'' b'', Frame.run em' bl'' (some b'') ∈ .run em bl' (some b') :: rest → ∃ bl₀ b₀,
        Frame.run em' bl₀ (some b₀) ∈ .run em bl (some b) :: rest ∧ b₀.events = b''.events ∧
          b₀.numEvents = b''.numEvents := by
    intro em bl bl' b b' rest hevents hnum em' bl'' b'' hmem
    rcases List.mem_cons.1 hmem with heq | hrest
    · obtain ⟨rfl, rfl, rfl⟩ := by simpa using heq
      exact ⟨bl, b, List.mem_cons_self, hevents.symm, hnum.symm⟩
    · exact ⟨bl'', b'', List.mem_cons_of_mem _ hrest, rfl, rfl⟩
  have hpop : ∀ {f : Frame} {rest : List Frame} {em' : EMPtr} {bl' : Bool} {b' : Batch},
      Frame.run em' bl' (some b') ∈ rest → ∃ bl₀ b₀, Frame.run em' bl₀ (some b₀) ∈ f :: rest ∧
        b₀.events = b'.events ∧ b₀.numEvents = b'.numEvents := fun {_ _ _ bl' b'} hmem =>
    ⟨bl', b', List.mem_cons_of_mem _ hmem, rfl, rfl⟩
  cases hout with
  | idle => exact h.same _ hlib rfl rfl
  | crashed _ buffers => exact h.same _ hlib buffers rfl
  | waitFailed _ buffers => exact h.kept _ hlib buffers (filled_of_mode (by simp)) fun _ _ _ => hpop
  | waited calm _ queue outcome kernel buffers =>
    exact h.waited o (hmay _ _ _ _ _ rfl outcome queue) queue kernel calm.ems buffers
  | readFailed _ out => exact h.kept _ hlib out.buffers rfl fun _ _ _ => hpop
  | breakLoop _ out => exact h.kept _ hlib out.buffers rfl (hadvance rfl rfl)
  | handler _ out => exact h.kept _ hlib out.buffers rfl (hadvance rfl rfl)
  | spurious _ _ buffers => exact h.kept _ hlib buffers rfl (hadvance rfl rfl)
  | served _ _ buffers =>
    refine h.kept _ hlib buffers rfl fun em' bl' b' hmem => ?_
    rcases List.mem_cons.1 hmem with heq | hmem
    · exact absurd heq (by simp)
    · refine hadvance ?_ ?_ em' bl' b' hmem <;> rfl
  | batchDone => exact h.kept _ hlib rfl rfl fun _ _ _ => hpop
  | again =>
    refine h.kept _ hlib rfl rfl fun em' bl' b' hmem => ?_
    rcases List.mem_cons.1 hmem with heq | hmem
    · exact absurd heq (by simp)
    · exact hpop hmem
  | timeoutDone => exact h.kept _ hlib rfl rfl fun _ _ _ => hpop
  | round =>
    refine h.kept _ hlib rfl rfl fun em' bl' b' hmem => ?_
    rcases List.mem_cons.1 hmem with heq | hmem
    · exact absurd heq (by simp)
    · exact hpop hmem

theorem step {usePipe2 : Bool} {x y : Config σ × Retired} {a : Act} (h : Snapshots x)
    (hstep : history (Step usePipe2) Retired.after x a y) : Snapshots y := by
  obtain ⟨c, g⟩ := x
  obtain ⟨c', g'⟩ := y
  obtain ⟨hs, rfl : g' = g.after c a c'⟩ := hstep
  dsimp only at hs
  have hmode := hs.not_crashed
  cases hs with
  | call _ hexec => exact h.same _ hmode (congrArg (·.2.1) (Call.passive hexec)) rfl
  | crash => exact ⟨fun y hy => hy.2, h.after_since_ever _, fun hm => absurd rfl hm⟩
  | env e => exact h.same _ hmode (e.buffers _) rfl
  | enter _ hexec =>
    obtain ⟨-, honly, -⟩ := wp_ok (eventMachineRunEnter_spec _ _) hexec
    refine h.kept _ hmode (congrArg (·.buffers) honly) ?_ fun em bl b hmem => ?_
    · refine Option.eq_none_iff_forall_ne_some.2 fun _ hf => ?_
      obtain ⟨-, -, _, _, _, _, hstack⟩ := filled_inv hf
      exact absurd hstack (by simp)
    · rcases List.mem_cons.1 hmem with heq | hmem
      · exact absurd heq (by simp)
      · exact ⟨bl, b, hmem, rfl, rfl⟩
  | refuse _ hexec =>
    obtain ⟨-, honly, -⟩ := wp_ok (eventMachineRunEnter_spec _ _) hexec
    exact h.same _ hmode (congrArg (·.buffers) honly) rfl
  | ret => exact h.same _ hmode rfl rfl
  | go hmay => exact h.go hmay (Config.go_cases _ _ _)

end Snapshots

/-! ## Runs -/

/-- A program whose event descriptors 0 and 1 are registered for the numbers 3 and 4. -/
def twoRegistered : World Unit :=
  let w := World.start (emStaticWithMaxEvents Unit 16 none) () fun _ _ => none
  let w := { w with descriptors := fun a => ⟨EPOLLIN, 3 + a, .null, some (.user a)⟩ }
  let w := final (eventMachineInit true (some 0)) w
  let w := (Env.openFile 0 false).exec ((Env.openFile 0 false).exec w)
  let w := final (eventMachineAdd (some 0) (some (.obj 0))) w
  final (eventMachineAdd (some 0) (some (.obj 1))) w

/-- Both become ready at once. -/
def bothReady : WaitOutcome := .batch [⟨EPOLLIN, some (.obj 0)⟩, ⟨EPOLLIN, some (.obj 1)⟩]

/-- The main loop has been entered. -/
def bothWaiting : Config Unit :=
  ⟨final (eventMachineRunEnter (some 0)) twoRegistered, [.run 0 false none], .library⟩

theorem bothWaiting_mayReport : bothWaiting.MayReport bothReady := by
  rintro em bl rest l q hstack hl hq
  obtain ⟨⟨rfl, rfl, -⟩, rfl⟩ := by simpa [bothWaiting] using hstack
  obtain rfl := WaitOutcome.batch.inj hl
  obtain rfl : (⟨2, .epoll, .machine 0, 0, true⟩ : File) = q := Option.some.inj hq
  exact ⟨by decide, [3, 4], by decide, .cons ⟨_, rfl, rfl⟩ (.cons ⟨_, rfl, rfl⟩ .nil)⟩

/-- What that handler calls. -/
def deleteNumber (fd : Int) : Call := .reg (some 0) (.delete fd none)

end EventMachine
