import EventMachine.Dispatch.Safety
import EventMachine.Lib.Heap

/-!
# Buffers of events

`event_machine_init()` allocates a buffer for a machine that comes without one, and
`event_machine_destroy()` is to free it. Whatever a program does with its machines, that is a safe use
of memory (`Lib.Heap.Safe`): no buffer is freed twice, none gets lost, and the main loop neither waits
with a buffer that has been freed nor reads beyond its end (`loop_buffer_safe`). The price is that the
buffer of a machine that has been initialised is never freed (`initialised_buffer_kept`):
`event_machine_destroy()` returns before it gets there.
-/

namespace EventMachine

open Lib

variable {σ : Type}

/-- The buffers that have been allocated, and the buffer of every machine. -/
def World.heap (w : World σ) : Heap EMPtr BufPtr where
  blocks := w.mallocs.map Prod.fst
  freed := w.frees
  refers := EM.events ∘ w.ems

/-- No buffer has been allocated yet; the machines come with those of the user, or without. -/
structure World.Unallocated (w : World σ) : Prop where
  mallocs : w.mallocs = []
  frees : w.frees = []
  user : ∀ em i, (w.ems em).events ≠ some (.malloc i)

/-- The invariant: `w₀` is the world at the beginning. -/
structure Provisioned (w₀ w : World σ) : Prop where
  safe : w.heap.Safe
  numbered : ∀ b n, (b, n) ∈ w.mallocs → 0 < n ∧ ∃ i < w.mallocs.length, b = .malloc i
  /-- A buffer is one that has been allocated for the machine, or the one the machine came with. -/
  room : ∀ em b, (w.ems em).events = some b → (b, (w.ems em).maxEvents) ∈ w.mallocs ∨
    (w₀.ems em).events = some b ∧ (w₀.ems em).maxEvents = (w.ems em).maxEvents
  owned : ∀ em b, (w.ems em).doFreeEvents = true → (w.ems em).events = some b → b ∈ w.heap.blocks

namespace Provisioned
variable {w₀ w w' : World σ} {em : EMPtr}

theorem start (h : w₀.Unallocated) (hfree : ∀ em, (w₀.ems em).doFreeEvents = false) :
    Provisioned w₀ w₀ := by
  have hblocks : w₀.heap.blocks = [] := by rw [World.heap, h.mallocs, List.map_nil]
  have hfreed : w₀.heap.freed = [] := h.frees
  refine ⟨⟨?_, ?_, ?_, ?_, ?_⟩, fun b n hb => ?_, fun em b hb => Or.inr ⟨hb, rfl⟩, fun em b hf => ?_⟩
  · rw [hfreed]
    exact nofun
  · rw [hfreed]
    exact List.nodup_nil
  · rw [hfreed]
    exact fun _ _ _ => List.not_mem_nil
  · rw [hblocks]
    exact nofun
  · rw [hblocks]
    exact nofun
  · rw [h.mallocs] at hb
    exact absurd hb List.not_mem_nil
  · rw [hfree em] at hf
    exact absurd hf nofun

theorem of_machinery (h : Provisioned w₀ w) (hm : w'.machinery = w.machinery) : Provisioned w₀ w' := by
  simp only [World.machinery, Prod.mk.injEq] at hm
  obtain ⟨hems, hmallocs, hfrees⟩ := hm
  have hheap : w'.heap = w.heap := by rw [World.heap, World.heap, hems, hmallocs, hfrees]
  refine ⟨hheap ▸ h.safe, ?_, ?_, ?_⟩
  · rw [hmallocs]
    exact h.numbered
  · rw [hems, hmallocs]
    exact h.room
  · rw [hems, hheap]
    exact h.owned

theorem not_block (hw : w₀.Unallocated) (h : Provisioned w₀ w)
    (hem : (w.ems em).maxEvents ≤ 0 ∨ (w.ems em).events = none) :
    ∀ b, w.heap.refers em = some b → b ∉ w.heap.blocks := by
  intro b (hb : (w.ems em).events = some b) hblock
  rcases hem with hn | hnone
  · obtain ⟨⟨b', n⟩, hmem, rfl⟩ := List.mem_map.1 hblock
    obtain ⟨-, i, -, rfl⟩ := h.numbered b' n hmem
    rcases h.room em _ hb with hroom | ⟨huser, -⟩
    · have hpos := (h.numbered _ _ hroom).1
      omega
    · exact hw.user em i huser
  · exact absurd (hb.symm.trans hnone) nofun

theorem fresh (hw : w₀.Unallocated) (h : Provisioned w₀ w) :
    .malloc w.mallocs.length ∉ w.heap.blocks ∧ ∀ em, w.heap.refers em ≠ some (.malloc w.mallocs.length) := by
  have hnew : ∀ n, (.malloc w.mallocs.length, n) ∉ w.mallocs := by
    intro n hmem
    obtain ⟨-, i, hi, heq⟩ := h.numbered _ _ hmem
    obtain rfl := BufPtr.malloc.inj heq
    exact absurd hi (lt_irrefl _)
  constructor
  · intro hblock
    obtain ⟨⟨b, n⟩, hmem, rfl⟩ := List.mem_map.1 hblock
    exact hnew n hmem
  · intro em hem
    rcases h.room em _ hem with hroom | ⟨huser, -⟩
    · exact hnew _ hroom
    · exact hw.user em _ huser

theorem setEM (h : Provisioned w₀ w) {m' : EM σ} {ms : List (BufPtr × Int)} {fs : List BufPtr}
    (hm : w'.machinery = (Function.update w.ems em m', ms, fs)) (hsafe : w'.heap.Safe)
    (hms : ∀ x ∈ w.mallocs, x ∈ ms) (hlen : w.mallocs.length ≤ ms.length)
    (hnew : ∀ b n, (b, n) ∈ ms → (b, n) ∉ w.mallocs → 0 < n ∧ ∃ i < ms.length, b = .malloc i)
    (hroom : ∀ b, m'.events = some b → (b, m'.maxEvents) ∈ ms ∨
      (w₀.ems em).events = some b ∧ (w₀.ems em).maxEvents = m'.maxEvents)
    (howned : ∀ b, m'.doFreeEvents = true → m'.events = some b → b ∈ ms.map Prod.fst) :
    Provisioned w₀ w' := by
  simp only [World.machinery, Prod.mk.injEq] at hm
  obtain ⟨hems, rfl, -⟩ := hm
  refine ⟨hsafe, fun b n hb => ?_, fun em' b hb => ?_, fun em' b hf hb => ?_⟩
  · by_cases hold : (b, n) ∈ w.mallocs
    · obtain ⟨hn, i, hi, hbi⟩ := h.numbered b n hold
      exact ⟨hn, i, Nat.lt_of_lt_of_le hi hlen, hbi⟩
    · exact hnew b n hb hold
  · rw [hems] at hb ⊢
    by_cases he : em' = em
    · subst he
      rw [Function.update_self] at hb ⊢
      exact hroom b hb
    · rw [Function.update_of_ne he] at hb ⊢
      exact (h.room em' b hb).imp_left (hms _)
  · rw [hems] at hf hb
    by_cases he : em' = em
    · subst he
      rw [Function.update_self] at hf hb
      exact howned b hf hb
    · rw [Function.update_of_ne he] at hf hb
      obtain ⟨x, hx, rfl⟩ := List.mem_map.1 (h.owned em' b hf hb)
      exact List.mem_map.2 ⟨x, hms x hx, rfl⟩

theorem init {usePipe2 : Bool} {r : UInt32} {m : EM σ} {ms : List (BufPtr × Int)} (hw : w₀.Unallocated)
    (h : Provisioned w₀ w) (buffer : Buffered w em m ms) (out : InitOutcome usePipe2 w em ms m r w') :
    Provisioned w₀ w' := by
  obtain ⟨m', hm, hevents, hmax, hdo, -⟩ := out.machine
  have hheap : w'.heap = ⟨ms.map Prod.fst, w.frees, Function.update w.heap.refers em m.events⟩ := by
    simp only [World.machinery, Prod.mk.injEq] at hm
    obtain ⟨hems, hmallocs, hfrees⟩ := hm
    rw [World.heap, hems, hmallocs, hfrees, Function.comp_update, hevents]
    rfl
  cases buffer with
  | user hn hb =>
    refine h.setEM hm ?_ (fun _ => id) le_rfl (fun b n hb hold => absurd hb hold) ?_ ?_
    · rw [hheap, show Function.update w.heap.refers em (w.ems em).events = w.heap.refers from
        Function.update_eq_self em _]
      exact h.safe
    · rw [hevents, hmax]
      exact h.room em
    · rw [hdo]
      simp
  | allocated hem =>
    obtain ⟨hnew, hnobody⟩ := h.fresh hw
    refine h.setEM hm ?_ (fun x hx => List.mem_append_left _ hx) (by simp) ?_ ?_ ?_
    · have halloc := h.safe.alloc hnew hnobody (h.not_block hw hem)
      rw [hheap, List.map_append]
      exact halloc
    · intro b n hb hold
      rcases List.mem_append.1 hb with hb | hb
      · exact absurd hb hold
      · obtain ⟨rfl, rfl⟩ := Prod.mk.inj (List.mem_singleton.1 hb)
        exact ⟨EM.capacity_pos _, _, by simp, rfl⟩
    · intro b hb
      rw [hevents] at hb
      obtain rfl := Option.some.inj hb
      rw [hmax]
      exact Or.inl (List.mem_append_right _ List.mem_cons_self)
    · intro b _ hb
      rw [hevents] at hb
      obtain rfl := Option.some.inj hb
      rw [List.map_append]
      exact List.mem_append_right _ List.mem_cons_self
  | noMemory hem =>
    refine h.setEM hm ?_ (fun _ => id) le_rfl (fun b n hb hold => absurd hb hold) ?_ ?_
    · have hforget := h.safe.forget (h.not_block hw hem)
      rw [hheap]
      exact hforget
    · rw [hevents]
      simp
    · rw [hevents]
      simp

theorem destroy {r : UInt32} (h : Provisioned w₀ w) (out : DestroyOutcome w em r w') :
    Provisioned w₀ w' := by
  rcases out.machine with ⟨-, hm⟩ | ⟨-, pipe, hm⟩
  · exact h.of_machinery hm
  · have hheap : w'.heap = ⟨w.heap.blocks, (w.freeEvents em).frees,
        Function.update w.heap.refers em ((w.freeEvents em).ems em).events⟩ := by
      simp only [World.machinery, Prod.mk.injEq] at hm
      obtain ⟨hems, hmallocs, hfrees⟩ := hm
      rw [World.heap, hems, hmallocs, hfrees, Function.comp_update]
      rfl
    rw [freeEvents_em] at hm hheap
    refine h.setEM hm ?_ (fun _ => id) le_rfl (fun b n hb hold => absurd hb hold) ?_ ?_
    · by_cases hdo : (w.ems em).doFreeEvents = true
      · have hfreed : (w.freeEvents em).frees = w.frees ++ (w.ems em).events.toList := by
          rw [World.freeEvents, if_pos hdo]
        have hfree := h.safe.free (h.owned em · hdo)
        rw [hheap, hfreed, if_pos hdo]
        exact hfree
      · have hsame : w.freeEvents em = w := by rw [World.freeEvents, if_neg hdo]
        rw [hheap, hsame, if_neg hdo, show Function.update w.heap.refers em (w.ems em).events =
          w.heap.refers from Function.update_eq_self em _]
        exact h.safe
    · intro b hb
      dsimp only at hb
      split at hb
      · cases hb
      · exact h.room em b hb
    · intro b hdo hb
      dsimp only at hdo hb
      rw [if_pos hdo] at hb
      cases hb

theorem call {usePipe2 : Bool} {f : Call} {r : UInt32} (hw : w₀.Unallocated) (h : Provisioned w₀ w)
    (hexec : f.exec usePipe2 w = .ok r w') : Provisioned w₀ w' := by
  cases Call.outcome hexec with
  | null => exact h
  | init buffer out => exact h.init hw buffer out
  | destroy out => exact h.destroy out
  | terminate only => exact h.of_machinery only.machinery
  | reg out => exact h.of_machinery out.machinery
  | timerCreate out => exact h.of_machinery out.machinery
  | timerStart out => exact h.of_machinery out.only.machinery
  | timerStop out => exact h.of_machinery out.only.machinery
  | timerDestroy out => exact h.of_machinery out.machinery

theorem step {usePipe2 : Bool} {c c' : Config σ} {a : Act} (hw : w₀.Unallocated)
    (h : Provisioned w₀ c.world) (hstep : Step usePipe2 c a c') (hmode : c'.mode ≠ .crashed) :
    Provisioned w₀ c'.world := by
  cases hstep with
  | call fs hexec => exact h.call hw hexec
  | crash => exact absurd rfl hmode
  | env e w fs m => exact h.of_machinery (e.machinery w)
  | enter fs hexec =>
    obtain ⟨-, honly, -⟩ := wp_ok (eventMachineRunEnter_spec _ _) hexec
    exact h.of_machinery honly.machinery
  | refuse fs hexec =>
    obtain ⟨-, honly, -⟩ := wp_ok (eventMachineRunEnter_spec _ _) hexec
    exact h.of_machinery honly.machinery
  | ret => exact h
  | @go w fs o => exact h.of_machinery (Config.go_cases w fs o).calm.machinery

end Provisioned

section runs
variable {usePipe2 : Bool} {w : World σ} {as bs : List Act} {c c₁ c' : Config σ}

theorem Provisioned.run {w₀ : World σ} (hw : w₀.Unallocated) (hrun : Steps (Step usePipe2) c as c')
    (h : c.mode ≠ .crashed → Provisioned w₀ c.world) (hmode : c'.mode ≠ .crashed) :
    Provisioned w₀ c'.world :=
  hrun.invariant (I := fun c => c.mode ≠ .crashed → Provisioned w₀ c.world)
    (fun _ _ _ hx hs hmode => (hx (hs.not_crashed hmode)).step hw hs hmode) h hmode

theorem World.Unused.provisioned (hw : w.Unused) (hb : w.Unallocated)
    (hrun : Steps (Step usePipe2) ⟨w, [], .user⟩ as c) (hmode : c.mode ≠ .crashed) :
    Provisioned w c.world := by
  have hfree : ∀ em, (w.ems em).doFreeEvents = false := by
    intro em
    obtain ⟨_, _, _, hem⟩ := hw.static em
    rw [hem]
    rfl
  exact Provisioned.run hb hrun (fun _ => .start hb hfree) hmode

/-- In every run of a program, the buffers that have been freed are different allocated ones; every
other allocated buffer is the buffer of exactly one machine, and a freed one is that of none. -/
theorem buffers_accounted (hw : w.Unused) (hb : w.Unallocated)
    (hrun : Steps (Step usePipe2) ⟨w, [], .user⟩ as c) (hmode : c.mode ≠ .crashed) :
    c.world.frees.Nodup ∧ (∀ b ∈ c.world.frees, b ∈ c.world.mallocs.map Prod.fst) ∧
      ∀ b ∈ c.world.mallocs.map Prod.fst,
        (b ∈ c.world.frees ∧ ∀ em, (c.world.ems em).events ≠ some b) ∨
          (b ∉ c.world.frees ∧ ∃! em, (c.world.ems em).events = some b) := by
  have hsafe := (hw.provisioned hb hrun hmode).safe
  refine ⟨hsafe.once, hsafe.allocated, fun b hblock => ?_⟩
  rcases hsafe.kept b hblock with hfreed | ⟨em, hem⟩
  · exact Or.inl ⟨hfreed, fun em hem => hsafe.alive em b hem hfreed⟩
  · exact Or.inr ⟨hsafe.alive em b hem, em, hem, fun em' hem' => hsafe.sole em' em b hblock hem' hem⟩

/-- In every run of a program, the buffer of a machine that is being run has not been freed. It has
been allocated for the number of events of the machine, or the machine came with it and this number;
and the batch that is being served is in it and within this number. -/
theorem loop_buffer_safe (hw : w.Unused) (hb : w.Unallocated)
    (hrun : Steps (Step usePipe2) ⟨w, [], .user⟩ as c) (hmode : c.mode ≠ .crashed) {em : EMPtr}
    {bl : Bool} {x : Option Batch} (hx : Frame.run em bl x ∈ c.stack) :
    ∃ b, (c.world.ems em).events = some b ∧ b ∉ c.world.frees ∧
      ((b, (c.world.ems em).maxEvents) ∈ c.world.mallocs ∨
        (w.ems em).events = some b ∧ (w.ems em).maxEvents = (c.world.ems em).maxEvents) ∧
      ∀ y, x = some y → y.events = some b ∧ (y.numEvents : Int) ≤ (c.world.ems em).maxEvents := by
  have hprov := hw.provisioned hb hrun hmode
  obtain ⟨b, n, hr, hbatch⟩ := (hw.run hrun hmode).running em bl x hx
  refine ⟨b, hr.buffer, hprov.safe.alive em b hr.buffer, hprov.room em b hr.buffer, fun y hy => ?_⟩
  exact ⟨(hbatch y hy).buffer, hr.maxEvents ▸ (hbatch y hy).room⟩

theorem Buffered.maxEvents_pos {w : World σ} {em : EMPtr} {m : EM σ} {ms : List (BufPtr × Int)}
    (h : Buffered w em m ms) : 0 < m.maxEvents := by
  cases h with
  | user hn => exact hn
  | allocated => exact EM.capacity_pos _
  | noMemory => exact EM.capacity_pos _

theorem CanWait.of_init {w w' : World σ} {em : EMPtr} {b : BufPtr}
    (hexec : (Call.init (some em)).exec usePipe2 w = .ok EMResult.success.code w')
    (hb : (w'.ems em).events = some b) : CanWait w' em b (w'.ems em).maxEvents := by
  obtain ⟨ms, m, hbuffer, hout⟩ := wp_ok (init_spec usePipe2 w em) hexec
  cases hout with
  | noPipe code => exact absurd code (by decide)
  | noFlags _ code => exact absurd code (by decide)
  | noQueue _ code => exact absurd code (by decide)
  | queue ends fd q k₁ k₂ base pipe queue =>
    have hself := base.ems_self
    refine ⟨?_, ?_, hb, rfl, ?_⟩
    · rw [hself]
      exact queue.1.nonneg
    · rw [hself]
      exact (pipeMade_files pipe).1.1
    · rw [hself]
      exact hbuffer.maxEvents_pos

/-- Nothing a program does takes its buffer from a machine that can be run. -/
theorem CanWait.steps {em : EMPtr} {b : BufPtr} {n : Int} (hrun : Steps (Step usePipe2) c as c')
    (h : c.mode ≠ .crashed → CanWait c.world em b n) (hmode : c'.mode ≠ .crashed) :
    CanWait c'.world em b n := by
  refine hrun.invariant (I := fun c => c.mode ≠ .crashed → CanWait c.world em b n)
    (fun c a c' hx hs hmode => ?_) h hmode
  have hr := hx (hs.not_crashed hmode)
  cases hs with
  | call fs hexec => exact hr.call hexec
  | crash => exact absurd rfl hmode
  | env e w fs m => exact hr.of_machinery (e.machinery w)
  | enter fs hexec => exact hr.of_machinery (wp_ok (eventMachineRunEnter_spec _ _) hexec).2.1.machinery
  | refuse fs hexec => exact hr.of_machinery (wp_ok (eventMachineRunEnter_spec _ _) hexec).2.1.machinery
  | ret => exact hr
  | @go w fs o => exact hr.of_machinery (Config.go_cases w fs o).calm.machinery

/-- Once `event_machine_init()` has succeeded, whatever the program does, and however often it calls
`event_machine_destroy()`: the machine keeps the buffer it has then, and the buffer is not freed. -/
theorem initialised_buffer_kept (hw : w.Unused) (hb : w.Unallocated)
    (hrun : Steps (Step usePipe2) ⟨w, [], .user⟩ as c) {em : EMPtr}
    (hinit : Step usePipe2 c (.event (.ret (.init (some em)) EMResult.success.code)) c₁)
    (hrest : Steps (Step usePipe2) c₁ bs c') (hmode : c'.mode ≠ .crashed) {b : BufPtr}
    (hevents : (c₁.world.ems em).events = some b) :
    (c'.world.ems em).events = some b ∧ b ∉ c'.world.frees := by
  have hall : Steps (Step usePipe2) ⟨w, [], .user⟩ (as ++ _ :: bs) c' := hrun.append (.cons hinit hrest)
  have hr : CanWait c₁.world em b (c₁.world.ems em).maxEvents := by
    cases hinit with
    | call fs hexec => exact .of_init hexec hevents
  have hr' := CanWait.steps hrest (fun _ => hr) hmode
  exact ⟨hr'.buffer, (hw.provisioned hb hall hmode).safe.alive em b hr'.buffer⟩

end runs

/-! ## Two machines -/

/-- A program whose first `pipe2()` fails, and whose two machines come without buffers. -/
def pipeFails : World Unit :=
  World.start (emStaticWithMaxEvents Unit 16 none) () fun s n =>
    if s = .pipe ∧ n = 0 then some (.code 24) else none

theorem pipeFails_unused : pipeFails.Unused where
  static _ := ⟨16, none, ⟨none, none, 0, .null⟩, rfl⟩
  interest _ _ := rfl

theorem pipeFails_unallocated : pipeFails.Unallocated where
  mallocs := rfl
  frees := rfl
  user _ _ := nofun

/-- The initialisation of machine 0 has failed. -/
def pipeFailed : World Unit := final (eventMachineInit true (some 0)) pipeFails

/-- Machine 0 has been destroyed. -/
def bufferFreed : World Unit := final (eventMachineDestroy (some 0)) pipeFailed

/-- Machine 1 has been initialised, -/
def otherUp : World Unit := final (eventMachineInit true (some 1)) bufferFreed

/-- and destroyed. -/
def otherDown : World Unit := final (eventMachineDestroy (some 1)) otherUp

theorem init_pipeFails : Step true ⟨pipeFails, [], .user⟩
    (.event (.ret (.init (some 0)) EMResult.errorPipe.code)) ⟨pipeFailed, [], .user⟩ := .call [] rfl

theorem destroy_pipeFailed : Step true ⟨pipeFailed, [], .user⟩
    (.event (.ret (.destroy (some 0)) EMResult.success.code)) ⟨bufferFreed, [], .user⟩ := .call [] rfl

theorem init_bufferFreed : Step true ⟨bufferFreed, [], .user⟩
    (.event (.ret (.init (some 1)) EMResult.success.code)) ⟨otherUp, [], .user⟩ := .call [] rfl

theorem destroy_otherUp : Step true ⟨otherUp, [], .user⟩
    (.event (.ret (.destroy (some 1)) EMResult.errorClose.code)) ⟨otherDown, [], .user⟩ := .call [] rfl

theorem buffers_accounted_otherUp :
    otherUp.mallocs.map Prod.fst = [.malloc 0, .malloc 1] ∧ otherUp.frees = [.malloc 0] ∧
      ∃! em, (otherUp.ems em).events = some (.malloc 1) := by
  have hrun : Steps (Step true) ⟨pipeFails, [], .user⟩ _ ⟨otherUp, [], .user⟩ :=
    .cons init_pipeFails <| .cons destroy_pipeFailed <| .cons init_bufferFreed (.nil _)
  have hmallocs : otherUp.mallocs.map Prod.fst = [.malloc 0, .malloc 1] := rfl
  have hfrees : otherUp.frees = [.malloc 0] := rfl
  have hacc := buffers_accounted pipeFails_unused pipeFails_unallocated hrun nofun
  refine ⟨hmallocs, hfrees, ?_⟩
  rcases hacc.2.2 (.malloc 1) (by simp [hmallocs]) with ⟨hfreed, -⟩ | ⟨-, hone⟩
  · exact absurd hfreed (by simp [hfrees])
  · exact hone

theorem initialised_buffer_kept_otherDown :
    (otherDown.ems 1).events = some (.malloc 1) ∧ .malloc 1 ∉ otherDown.frees := by
  have hrun : Steps (Step true) ⟨pipeFails, [], .user⟩ _ ⟨bufferFreed, [], .user⟩ :=
    .cons init_pipeFails <| .cons destroy_pipeFailed (.nil _)
  exact initialised_buffer_kept pipeFails_unused pipeFails_unallocated hrun init_bufferFreed
    (.cons destroy_otherUp (.nil _)) nofun rfl

theorem handlerless_unallocated : handlerless.Unallocated where
  mallocs := rfl
  frees := rfl
  user _ _ := nofun

theorem loop_buffer_safe_handlerless :
    ∃ b, ((handlerlessWaiting.go handlerlessReady).world.ems 0).events = some b ∧
      b ∉ (handlerlessWaiting.go handlerlessReady).world.frees := by
  have hstack : Frame.run 0 false (some ⟨some (.malloc 0), 0, 0, 1⟩) ∈
      (handlerlessWaiting.go handlerlessReady).stack := List.mem_cons_self
  obtain ⟨b, hevents, hfreed, -⟩ :=
    loop_buffer_safe handlerless_unused handlerless_unallocated handlerless_run nofun hstack
  exact ⟨b, hevents, hfreed⟩

end EventMachine
