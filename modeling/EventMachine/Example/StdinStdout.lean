import EventMachine.Dispatch.LoopRule
import EventMachine.Example.Setup
import EventMachine.Proof.Destroy

/-!
# A program on top of the machine

`example/stdin-stdout.c`: a program that copies its standard input to its standard output, one handler
call a chunk, until the input ends or something fails, and then tells the machine to terminate. What
its own calls of `read()` and `write()` come to is given (`Streams`), what they have done so far is the
state of the program (`Stdio`); messages on the standard error output are left out.

The output is the input read so far, as far as `write()` has taken it, and the main loop returns
`EM_SUCCESS` only when the input has ended or a call has failed (`stdin_stdout_copies`). The program
itself cannot end with `EXIT_SUCCESS`, for `event_machine_destroy()` never does so for a machine that
has a queue (`stdin_stdout_exit`).
-/

namespace EventMachine

open Lib

/-! ## The program -/

/-- What the `i`-th `read()` finds and how many bytes the `i`-th `write()` takes, unless they fail. -/
structure Streams where
  input : Nat → Option (List UInt8)
  room : Nat → Option Nat

/-- The calls of `read()` and `write()` so far, and what has been written. -/
structure Stdio where
  reads : Nat
  writes : Nat
  output : List UInt8
  deriving DecidableEq, Repr

/-- `read(fd, &buffer, count)`. -/
def readInput (io : Streams) (count : Nat) : Sys Stdio (Option (List UInt8)) :=
  modifyGet fun w => ((io.input w.storage.reads).map (·.take count),
    { w with storage := { w.storage with reads := w.storage.reads + 1 } })

/-- `write(STDOUT_FILENO, &buffer, len)`. -/
def writeOutput (io : Streams) (buffer : List UInt8) : Sys Stdio (Option Nat) :=
  modifyGet fun w => match io.room w.storage.writes with
    | none => (none, { w with storage := { w.storage with writes := w.storage.writes + 1 } })
    | some n => (some (min n buffer.length), { w with storage := { w.storage with
        writes := w.storage.writes + 1, output := w.storage.output ++ buffer.take n } })

/-- The `if` of `stdin_handler()`, and whether its last branch is taken. -/
def copyChunk (io : Streams) : Sys Stdio Bool := do
  match ← readInput io 4096 with
  | none => return false
  | some [] => return false
  | some buffer => return (← writeOutput io buffer).isSome

/-- `stdin_handler()`. -/
def stdinHandler (io : Streams) (em : EMPtr) : Sys Stdio Unit := do
  if ← copyChunk io then return
  let _ ← eventMachineTerminate (some em)

/-- The functions of the program; it has no timers. -/
def stdinStdoutCode (io : Streams) : UserCode Stdio where
  handler _ em _ _ _ := stdinHandler io em
  callback _ _ _ := pure ()

/-- `main()` up to its call of `event_machine_run()`, and whether it gets there. -/
def stdinStdoutStart (usePipe2 : Bool) : Sys Stdio Bool := do
  modifyEM 0 fun _ => emStaticWithMaxEvents Stdio EM_DEFAULT_MAX_EVENTS (some (.user 0))
  let ret ← eventMachineInit usePipe2 (some 0)
  if ¬ isEmSuccess ret then return false
  modifyGet fun w => ((), { w with
    descriptors := Function.update w.descriptors 0 ⟨EPOLLIN, 0, .null, some (.user 0)⟩ })
  let ret ← eventMachineAdd (some 0) (some (.obj 0))
  return isEmSuccess ret

inductive ExitStatus
  | success
  | failure
  deriving DecidableEq, Repr

/-- `main()`, with at most `fuel` rounds of the main loop; `none` when that is still going on. -/
def stdinStdoutMain (io : Streams) (usePipe2 : Bool) (waits : Nat → WaitOutcome) (fuel : Nat) :
    Sys Stdio (Option ExitStatus) := do
  if ¬ (← stdinStdoutStart usePipe2) then return some .failure
  match ← eventMachineRun (stdinStdoutCode io) (some 0) waits fuel with
  | none => return none
  | some ret =>
    if ¬ isEmSuccess ret then return some .failure
    let ret ← eventMachineDestroy (some 0)
    if ¬ isEmSuccess ret then return some .failure
    return some .success

/-! ## What has been copied -/

namespace Streams
variable {io : Streams} {s : Stdio}

/-- What the `i`-th `read()` puts into the buffer. -/
def chunk (io : Streams) (i : Nat) : List UInt8 := ((io.input i).getD []).take 4096

/-- No `write()` fails or takes only a part of the buffer. -/
def Ample (io : Streams) : Prop := ∀ i, ∃ n, io.room i = some n ∧ 4096 ≤ n

/-- The end of the input has been read, or a `read()` or a `write()` has failed. -/
def Ended (io : Streams) (s : Stdio) : Prop :=
  (∃ i < s.reads, io.chunk i = []) ∨ ∃ i < s.writes, io.room i = none

/-- The calls of `write()` before the `i`-th `read()`: there is one for each chunk that is not empty. -/
def writesBefore (io : Streams) (i : Nat) : Nat := (List.range i).countP fun j => io.chunk j ≠ []

/-- What `write()` takes of the `i`-th chunk. -/
def part (io : Streams) (i : Nat) : List UInt8 :=
  (io.chunk i).take ((io.room (io.writesBefore i)).getD 0)

/-- The output consists of what `write()` has taken of each chunk, in order. -/
structure Copied (io : Streams) (s : Stdio) : Prop where
  writes : s.writes = io.writesBefore s.reads
  output : s.output = (List.range s.reads).flatMap io.part

theorem writesBefore_succ (io : Streams) (i : Nat) :
    io.writesBefore (i + 1) = io.writesBefore i + if io.chunk i = [] then 0 else 1 := by
  rw [writesBefore, List.range_succ, List.countP_append, ← writesBefore, List.countP_singleton]
  by_cases h : io.chunk i = [] <;> simp [h]

theorem Copied.start : io.Copied ⟨0, 0, []⟩ := ⟨rfl, rfl⟩

theorem Copied.silent (h : io.Copied s) (hchunk : io.chunk s.reads = []) :
    io.Copied ⟨s.reads + 1, s.writes, s.output⟩ where
  writes := by simp [writesBefore_succ, hchunk, h.writes]
  output := by simp [List.range_succ, part, hchunk, h.output]

theorem Copied.wrote (h : io.Copied s) (hchunk : io.chunk s.reads ≠ []) :
    io.Copied ⟨s.reads + 1, s.writes + 1,
      s.output ++ (io.chunk s.reads).take ((io.room s.writes).getD 0)⟩ where
  writes := by simp [writesBefore_succ, hchunk, h.writes]
  output := by simp [List.range_succ, part, h.writes, h.output]

theorem Ample.part_eq (h : io.Ample) (i : Nat) : io.part i = io.chunk i := by
  obtain ⟨n, hn, hle⟩ := h (io.writesBefore i)
  rw [part, hn, Option.getD_some, chunk, List.take_take, Nat.min_eq_right hle]

theorem Copied.all (h : io.Copied s) (hample : io.Ample) :
    s.output = (List.range s.reads).flatMap io.chunk := by
  rw [h.output, funext hample.part_eq]

theorem Ended.mono {s' : Stdio} (h : io.Ended s) (hreads : s.reads ≤ s'.reads)
    (hwrites : s.writes ≤ s'.writes) : io.Ended s' := by
  rcases h with ⟨i, hi, hend⟩ | ⟨i, hi, hend⟩
  · exact Or.inl ⟨i, by omega, hend⟩
  · exact Or.inr ⟨i, by omega, hend⟩

/-- What the handler has done to the state of the program. -/
structure Went (io : Streams) (s s' : Stdio) : Prop where
  copied : io.Copied s → io.Copied s'
  reads : s.reads ≤ s'.reads
  writes : s.writes ≤ s'.writes

theorem Went.ended {s' : Stdio} (h : io.Went s s') (hend : io.Ended s) : io.Ended s' :=
  hend.mono h.reads h.writes

end Streams

/-! ## The handler -/

section handler
variable {io : Streams} {w : World Stdio}

theorem copyChunk_spec (io : Streams) (w : World Stdio) :
    wp (copyChunk io)
      (fun copied w' => w' = { w with storage := w'.storage } ∧ io.Went w.storage w'.storage ∧
        (copied = false → io.Ended w'.storage))
      (fun _ _ => False) w := by
  have hnothing : io.chunk w.storage.reads = [] → ∀ writes,
      io.Ended ⟨w.storage.reads + 1, writes, w.storage.output⟩ := fun hchunk writes =>
    Or.inl ⟨w.storage.reads, Nat.lt_succ_self _, hchunk⟩
  have hsilent : io.chunk w.storage.reads = [] →
      io.Went w.storage ⟨w.storage.reads + 1, w.storage.writes, w.storage.output⟩ := fun hchunk =>
    ⟨fun h => h.silent hchunk, Nat.le_succ _, Nat.le_refl _⟩
  unfold copyChunk
  rw [wp_bind]
  apply (wp_modifyGet _).2
  cases hinput : io.input w.storage.reads with
  | none =>
    have hchunk : io.chunk w.storage.reads = [] := by simp [Streams.chunk, hinput]
    exact ⟨rfl, hsilent hchunk, fun _ => hnothing hchunk _⟩
  | some bytes =>
    have hchunk : io.chunk w.storage.reads = bytes.take 4096 := by simp [Streams.chunk, hinput]
    cases hbuffer : bytes.take 4096 with
    | nil =>
      rw [hbuffer] at hchunk
      simp only [Option.map_some, hbuffer]
      exact ⟨rfl, hsilent hchunk, fun _ => hnothing hchunk _⟩
    | cons b bs =>
      rw [hbuffer] at hchunk
      have hwrote : io.Copied w.storage → _ := fun h => h.wrote (by simp [hchunk])
      simp only [Option.map_some, hbuffer]
      rw [wp_bind]
      apply (wp_modifyGet _).2
      cases hroom : io.room w.storage.writes with
      | none =>
        refine ⟨rfl, ⟨fun h => ?_, Nat.le_succ _, Nat.le_succ _⟩,
          fun _ => Or.inr ⟨w.storage.writes, Nat.lt_succ_self _, hroom⟩⟩
        simpa [hroom] using hwrote h
      | some n =>
        refine ⟨rfl, ⟨fun h => ?_, Nat.le_succ _, Nat.le_succ _⟩, fun h => by cases h⟩
        simpa [hroom, hchunk] using hwrote h

end handler

/-! ## The main loop -/

/-- What holds while the main loop of machine `em`, which is `m`, has come to `pc`: a byte in its pipe `p`
tells that the copying is over. -/
structure Copying (io : Streams) (em : EMPtr) (m : EM Stdio) (p : ObjId) (pc : RunPc)
    (w : World Stdio) : Prop where
  machine : w.ems em = m
  readEnd : ∃ f, w.kernel.file m.breakLoopPipe.1 = some f ∧ f.kind = .pipeRead p
  told : 0 < w.kernel.bytes p → io.Ended w.storage
  broken : pc.broken → io.Ended w.storage
  copied : io.Copied w.storage
  readFd : ∀ breakLoop b, pc = .batch breakLoop b → b.breakLoopReadFd = m.breakLoopPipe.1

namespace Copying
variable {io : Streams} {em : EMPtr} {m : EM Stdio} {p : ObjId} {pc pc' : RunPc} {w w' : World Stdio}

theorem calm (h : Copying io em m p pc w) (hcalm : Calm w w')
    (htold : 0 < w'.kernel.bytes p → io.Ended w.storage) (hbroken : pc'.broken → io.Ended w.storage)
    (hfd : ∀ breakLoop b, pc' = .batch breakLoop b → b.breakLoopReadFd = m.breakLoopPipe.1) :
    Copying io em m p pc' w' := by
  have hstorage : w'.storage = w.storage := congrArg (·.storage) hcalm
  obtain ⟨f, hf, hkind⟩ := h.readEnd
  constructor
  · rw [hcalm.ems]
    exact h.machine
  · exact ⟨f, (hcalm.file _).trans hf, hkind⟩
  · rw [hstorage]
    exact htold
  · rw [hstorage]
    exact hbroken
  · rw [hstorage]
    exact h.copied
  · exact hfd

theorem went (h : Copying io em m p pc w) {s : Stdio} (hs : io.Went w.storage s) :
    Copying io em m p pc { w with storage := s } where
  machine := h.machine
  readEnd := h.readEnd
  told hbytes := hs.ended (h.told hbytes)
  broken hpc := hs.ended (h.broken hpc)
  copied := hs.copied h.copied
  readFd := h.readFd

theorem stdinHandler (h : Copying io em m p pc w) :
    wp (stdinHandler io em) (fun _ w' => Copying io em m p pc w') (fun _ _ => False) w := by
  unfold EventMachine.stdinHandler
  rw [wp_bind]
  refine wp_mono (copyChunk_spec io w) ?_ fun _ _ hfalse => hfalse
  rintro copied w₁ ⟨hw₁, hwent, hended⟩
  have hcopying : Copying io em m p pc w₁ := by
    rw [hw₁]
    exact h.went hwent
  cases copied with
  | true => exact hcopying
  | false =>
    have hend := hended rfl
    simp only [Bool.false_eq_true, if_false]
    rw [wp_bind]
    refine wp_mono (terminate_spec w₁ em) ?_ fun _ _ hfalse => hfalse
    rintro r w₂ ⟨honly, hstill, -, -⟩
    exact hcopying.calm (.of_kernelOnly honly hstill) (fun _ => hend) (fun _ => hend) hcopying.readFd

theorem timeoutHandler (h : Copying io em m p pc w) (fd : Int) (data : VoidPtr) :
    wp (internalTimeoutHandler (stdinStdoutCode io) fd data) (fun _ w' => Copying io em m p pc w')
      (fun _ _ => True) w := by
  refine wp_mono (internalTimeoutHandler_idle (fun _ _ _ => rfl) fd data w) ?_ fun _ _ _ => trivial
  rintro _ w' ⟨hcalm, hbytes, -⟩
  exact h.calm hcalm (hbytes ▸ h.told) h.broken h.readFd

theorem waiting (h : Copying io em m p .waiting w) (o : WaitOutcome) :
    wp (runStep em o .waiting) (fun pc w' => Copying io em m p pc w') (fun _ _ => True) w := by
  refine wp_mono (runStep_waiting_spec em o w) ?_ fun _ _ _ => trivial
  rintro pc w' ⟨hcalm, hbytes, hcase⟩
  have htold : 0 < w'.kernel.bytes p → io.Ended w.storage := hbytes ▸ h.told
  rcases hcase with ⟨r, hr, rfl⟩ | ⟨q, l, buf, -, -, -, -, rfl⟩
  · apply h.calm hcalm htold
    · intro hbroken
      exact absurd (of_decide_eq_true hbroken) hr
    · rintro _ _ ⟨⟩
  · apply h.calm hcalm htold
    · rintro ⟨⟩
    · rintro _ _ ⟨⟩
      rw [h.machine]

theorem slot {breakLoop : Bool} {b : Batch} {r : Slot} (h : Copying io em m p (.batch breakLoop b) w)
    (hslot : runOnceSlot em b.events b.i b.breakLoopReadFd w = .ok r w') :
    Copying io em m p (r.next breakLoop b) w' := by
  obtain ⟨buf, e, q, -, -, -, hout⟩ := wp_ok (runOnceSlot_spec em b.events b.i b.breakLoopReadFd w) hslot
  have hfd := h.readFd breakLoop b rfl
  have hcalm := hout.calm
  cases hout with
  | readFailed _ _ hcore =>
    have hbytes : w'.kernel.bytes p = w.kernel.bytes p := congrFun (congrArg (·.bytes) hcore) p
    show Copying io em m p (.done _) w'
    apply h.calm hcalm (hbytes ▸ h.told)
    · intro hbroken
      exact absurd hbroken (by decide)
    · rintro _ _ ⟨⟩
  | breakLoop f o _ _ hfile hkind hpos hcore =>
    obtain ⟨f', hf', hkind'⟩ := h.readEnd
    rw [hfd] at hfile
    obtain rfl := Option.some.inj (hfile.symm.trans hf')
    obtain rfl : o = p := by simpa using hkind.symm.trans hkind'
    have hend := h.told hpos
    apply h.calm hcalm (fun _ => hend) (fun _ => hend)
    rintro _ _ ⟨⟩
    exact hfd
  | handler =>
    show Copying io em m p (.batch breakLoop b.next) _
    refine h.calm hcalm h.told (fun hbroken => h.broken hbroken) ?_
    rintro _ _ ⟨⟩
    exact hfd

theorem rule (io : Streams) (em : EMPtr) (m : EM Stdio) (p : ObjId) (waits : Nat → WaitOutcome) :
    LoopRule (stdinStdoutCode io) em waits (fun _ _ => True) (Copying io em m p) where
  waiting h _ hstep := wp_ok (h.waiting _) hstep
  slot h _ hslot _ := h.slot hslot
  handler {breakLoop b w g events fd data w'} h _ hslot := by
    have hcopying : Copying io em m p (.batch breakLoop b.next) w' := h.slot hslot
    cases g with
    | user n => exact wp_mono hcopying.stdinHandler (fun _ _ h => h) fun _ _ h => h.elim
    | internalTimeoutHandler => exact hcopying.timeoutHandler fd data
  afterBatch {breakLoop b w} h _ := by
    cases breakLoop with
    | true => exact ⟨h.machine, h.readEnd, h.told, fun _ => h.broken rfl, h.copied, nofun⟩
    | false => exact ⟨h.machine, h.readEnd, h.told, nofun, h.copied, nofun⟩

end Copying

/-! ## The whole program -/

section program
variable {usePipe2 : Bool} {w w₁ w₂ : World Stdio}

theorem stdinStdoutStart_spec (usePipe2 : Bool) (w : World Stdio) :
    wp (stdinStdoutStart usePipe2)
      (fun r w₁ => w₁.storage = w.storage ∧ (r = true → ∃ m q reg, SetUp 0 m q reg w₁))
      (fun _ _ => False) w := by
  unfold stdinStdoutStart
  rw [wp_bind]
  apply (wp_modifyEM _ _).2
  rw [wp_bind]
  refine wp_mono (init_setUp usePipe2 (w.setEM_self 0 _)) ?_ fun _ _ h => h
  rintro code w₁ ⟨hstorage, hsetUp⟩
  rw [wp_ite]
  refine ⟨fun _ => ⟨hstorage, nofun⟩, fun hok => ?_⟩
  rw [isEmSuccess_iff, not_not] at hok
  obtain ⟨m, q, h⟩ := hsetUp hok
  rw [wp_bind]
  apply (wp_modifyGet _).2
  rw [wp_bind]
  refine wp_mono ((h.setDescriptors _).add (.obj 0)) ?_ fun _ _ h => h
  rintro r w₂ ⟨hs, -, hadded⟩
  exact ⟨hs.trans hstorage, fun hr => ⟨m, q, _, hadded ((isEmSuccess_iff r).1 hr)⟩⟩

theorem run_copying {io : Streams} {m : EM Stdio} {p : ObjId} (waits : Nat → WaitOutcome) (fuel : Nat)
    (h : Copying io 0 m p .waiting w) :
    wp (eventMachineRun (stdinStdoutCode io) (some 0) waits fuel)
      (fun r w' => ∃ pc, Copying io 0 m p pc w' ∧
        (r = some EMResult.success.code → pc.broken ∧ 0 ≤ m.queueFd))
      (fun _ _ => True) w := by
  have hrun := (Copying.rule io 0 m p waits).run fuel w (fun w₁ hsame honly => ?_) fun _ _ _ => trivial
  · refine wp_mono hrun ?_ fun _ _ _ => trivial
    rintro r w' ⟨pc, hpc, hsuccess⟩
    rw [h.machine] at hsuccess
    refine ⟨pc, hpc, fun hr => ?_⟩
    obtain ⟨rfl, hq⟩ := hsuccess hr
    exact ⟨rfl, hq⟩
  · have hcore := World.kernel_core hsame.core
    have hbytes : w₁.kernel.bytes p = w.kernel.bytes p := congrFun (congrArg (·.bytes) hcore) p
    exact h.calm (.of_kernelOnly honly (Kernel.still_of_core hcore)) (hbytes ▸ h.told) h.broken h.readFd

theorem copying_of_start (hfresh : w.storage = ⟨0, 0, []⟩)
    (hstart : stdinStdoutStart usePipe2 w = .ok true w₁) (io : Streams) :
    ∃ m p, Copying io 0 m p .waiting w₁ := by
  obtain ⟨hstorage, hsetUp⟩ := wp_ok (stdinStdoutStart_spec usePipe2 w) hstart
  obtain ⟨m, q, reg, h⟩ := hsetUp rfl
  obtain ⟨p, f, hfile, hkind, hbytes⟩ := h.emptyPipe
  refine ⟨m, p, h.machine, ⟨f, hfile, hkind⟩, fun hpos => ?_, nofun, ?_, nofun⟩
  · rw [hbytes] at hpos
    exact absurd hpos (Nat.lt_irrefl 0)
  · rw [hstorage, hfresh]
    exact .start

/-- The program copies its input to its output: at every wait of the main loop and when that has returned,
the output is what `write()` has taken of the chunks read so far, all of them if `write()` always takes
everything. The main loop returns `EM_SUCCESS` only when the end of the input has been read or a call of
`read()` or `write()` has failed. -/
theorem stdin_stdout_copies (io : Streams) (waits : Nat → WaitOutcome) (fuel : Nat)
    (hfresh : w.storage = ⟨0, 0, []⟩) (hstart : stdinStdoutStart usePipe2 w = .ok true w₁)
    {r : Option UInt32} (hrun : eventMachineRun (stdinStdoutCode io) (some 0) waits fuel w₁ = .ok r w₂) :
    io.Copied w₂.storage ∧
      (io.Ample → w₂.storage.output = (List.range w₂.storage.reads).flatMap io.chunk) ∧
      (r = some EMResult.success.code → io.Ended w₂.storage) := by
  obtain ⟨m, p, hwaiting⟩ := copying_of_start hfresh hstart io
  obtain ⟨pc, hcopying, hsuccess⟩ := wp_ok (run_copying waits fuel hwaiting) hrun
  exact ⟨hcopying.copied, hcopying.copied.all, fun hr => hcopying.broken (hsuccess hr).1⟩

/-- Once the main loop has returned `EM_SUCCESS`, the machine cannot be destroyed: its queue is closed,
and nothing else. -/
theorem destroy_fails {io : Streams} {waits : Nat → WaitOutcome} {fuel : Nat}
    (hfresh : w.storage = ⟨0, 0, []⟩) (hstart : stdinStdoutStart usePipe2 w = .ok true w₁)
    (hrun : eventMachineRun (stdinStdoutCode io) (some 0) waits fuel w₁ =
      .ok (some EMResult.success.code) w₂) :
    ∃ w₃, eventMachineDestroy (some 0) w₂ = .ok EMResult.errorClose.code w₃ := by
  obtain ⟨m, p, hwaiting⟩ := copying_of_start hfresh hstart io
  obtain ⟨pc, hcopying, hsuccess⟩ := wp_ok (run_copying waits fuel hwaiting) hrun
  obtain ⟨-, hq⟩ := hsuccess rfl
  rw [← hcopying.machine] at hq
  obtain ⟨r, w₃, hexec, hdestroy⟩ := wp_total (destroy_spec w₂ 0)
  cases hdestroy with
  | queue => exact ⟨_, hexec⟩
  | writeEnd => exact ⟨_, hexec⟩
  | readEnd => exact ⟨_, hexec⟩
  | done hneg => omega

/-- The program does not end with `EXIT_SUCCESS`, whatever happens: when the main loop returns
`EM_SUCCESS`, `event_machine_destroy()` returns `EM_ERROR_CLOSE`. -/
theorem stdin_stdout_exit (io : Streams) (waits : Nat → WaitOutcome) (fuel : Nat)
    (hfresh : w.storage = ⟨0, 0, []⟩) :
    (∀ r w', stdinStdoutMain io usePipe2 waits fuel w = .ok r w' → r ≠ some .success) ∧
      ∀ w₁ w₂, stdinStdoutStart usePipe2 w = .ok true w₁ →
        eventMachineRun (stdinStdoutCode io) (some 0) waits fuel w₁ =
          .ok (some EMResult.success.code) w₂ →
        ∃ w₃, eventMachineDestroy (some 0) w₂ = .ok EMResult.errorClose.code w₃ := by
  have hmain : wp (stdinStdoutMain io usePipe2 waits fuel) (fun r _ => r ≠ some .success)
      (fun _ _ => True) w := by
    unfold stdinStdoutMain
    rw [wp_bind]
    refine wp_mono (wp_self _ w) ?_ fun _ _ _ => trivial
    intro started w₁ hstart
    rw [wp_ite]
    refine ⟨fun _ => by simp [wp_pure], fun hgoes => ?_⟩
    obtain rfl : started = true := by simpa using hgoes
    rw [wp_bind]
    refine wp_mono (wp_self _ w₁) ?_ fun _ _ _ => trivial
    intro ret w₂ hrun
    cases ret with
    | none => simp [wp_pure]
    | some code =>
      dsimp only
      rw [wp_ite]
      refine ⟨fun _ => by simp [wp_pure], fun hok => ?_⟩
      rw [isEmSuccess_iff, not_not] at hok
      subst hok
      obtain ⟨w₃, hdestroy⟩ := destroy_fails hfresh hstart hrun
      rw [wp_bind]
      refine wp_mono (wp_self _ w₂) ?_ fun _ _ _ => trivial
      intro code' w₄ hdestroy'
      obtain ⟨rfl, -⟩ := EStateM.Result.ok.inj (hdestroy.symm.trans hdestroy')
      rw [wp_ite]
      exact ⟨fun _ => by simp [wp_pure], fun h => absurd h (by decide)⟩
  exact ⟨fun r w' h => wp_ok hmain h, fun w₁ w₂ hstart hrun => destroy_fails hfresh hstart hrun⟩

end program

/-! ### A run on an input of two bytes -/

def twoBytes : Streams where
  input i := if i = 0 then some [104, 105] else some []
  room _ := some 4096

/-- Standard input becomes ready twice, and then the pipe. -/
def stdinTwice : Nat → WaitOutcome
  | 0 | 1 => .batch [⟨EPOLLIN, some (.obj 0)⟩]
  | _ => .batch [⟨EPOLLIN, some (.breakLoop 0)⟩]

/-- Only the three standard streams are open. -/
def shellWorld {σ : Type} (storage : σ) : World σ :=
  (Env.openFile 0 false).exec <| (Env.openFile 0 false).exec <| (Env.openFile 0 false).exec <|
    World.start (emStaticWithMaxEvents σ 0 none) storage fun _ _ => none

/-- How a call ends, and what `see` notices of the world it leaves. -/
def noticed {σ α β : Type} (see : World σ → β) (x : Sys σ α) (w : World σ) : Option (α × β) :=
  match x w with
  | .ok r w' => some (r, see w')
  | .error _ _ => none

theorem exists_of_noticed {σ α β : Type} {see : World σ → β} {x : Sys σ α} {w : World σ} {r : α} {b : β}
    (h : noticed see x w = some (r, b)) : ∃ w', x w = .ok r w' ∧ see w' = b := by
  unfold noticed at h
  cases hx : x w with
  | ok r' w' =>
    rw [hx] at h
    obtain ⟨rfl, rfl⟩ := Prod.mk.inj (Option.some.inj h)
    exact ⟨w', rfl, rfl⟩
  | error e w' =>
    rw [hx] at h
    cases h

theorem of_noticed {σ α β : Type} {see : World σ → β} {x : Sys σ α} {w w' : World σ} {r r' : α} {b : β}
    (h : noticed see x w = some (r, b)) (hx : x w = .ok r' w') : see w' = b := by
  unfold noticed at h
  rw [hx] at h
  exact (Prod.mk.inj (Option.some.inj h)).2

def programStarted : World Stdio := final (stdinStdoutStart true) (shellWorld ⟨0, 0, []⟩)

theorem programStarted_start :
    stdinStdoutStart true (shellWorld ⟨0, 0, []⟩) = .ok true programStarted := rfl

theorem programStarted_run :
    noticed (·.storage) (eventMachineRun (stdinStdoutCode twoBytes) (some 0) stdinTwice 3) programStarted =
      some (some EMResult.success.code, ⟨2, 1, [104, 105]⟩) := by
  decide +kernel

theorem stdin_stdout_copies_twoBytes :
    ∃ w', eventMachineRun (stdinStdoutCode twoBytes) (some 0) stdinTwice 3 programStarted =
        .ok (some EMResult.success.code) w' ∧
      w'.storage.output = [104, 105] ∧ twoBytes.Ended w'.storage := by
  obtain ⟨w', hrun, hstorage⟩ := exists_of_noticed programStarted_run
  obtain ⟨-, houtput, hended⟩ :=
    stdin_stdout_copies twoBytes stdinTwice 3 rfl programStarted_start hrun
  refine ⟨w', hrun, ?_, hended rfl⟩
  rw [houtput fun _ => ⟨4096, rfl, Nat.le_refl _⟩, hstorage]
  decide

theorem shellWorld_main :
    noticed (·.storage) (stdinStdoutMain twoBytes true stdinTwice 3) (shellWorld ⟨0, 0, []⟩) =
      some (some .failure, ⟨2, 1, [104, 105]⟩) := by
  decide +kernel

theorem stdin_stdout_exit_twoBytes :
    (∃ r w', stdinStdoutMain twoBytes true stdinTwice 3 (shellWorld ⟨0, 0, []⟩) = .ok r w' ∧
      r ≠ some .success) ∧
    ∃ w₂ w₃, eventMachineRun (stdinStdoutCode twoBytes) (some 0) stdinTwice 3 programStarted =
        .ok (some EMResult.success.code) w₂ ∧
      eventMachineDestroy (some 0) w₂ = .ok EMResult.errorClose.code w₃ := by
  obtain ⟨w', hmain, -⟩ := exists_of_noticed shellWorld_main
  obtain ⟨w₂, hrun, -⟩ := exists_of_noticed programStarted_run
  have hfresh : (shellWorld (⟨0, 0, []⟩ : Stdio)).storage = ⟨0, 0, []⟩ := rfl
  have hexit := (stdin_stdout_exit twoBytes stdinTwice 3 hfresh).1 _ _ hmain
  obtain ⟨w₃, hclose⟩ :=
    (stdin_stdout_exit twoBytes stdinTwice 3 hfresh).2 _ w₂ programStarted_start hrun
  exact ⟨⟨_, w', hmain, hexit⟩, w₂, w₃, hrun, hclose⟩

end EventMachine
