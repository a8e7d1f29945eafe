import EventMachine.Proof.Init
import EventMachine.Proof.Invariant
import EventMachine.Proof.Loop

/-!
# Termination hand-shake

Any number of callers of `event_machine_terminate()`, in handlers or in other threads, next to one
main loop that is run again and again. The system calls of the two sides interleave freely
(`ShakeStep`): a caller looks at the pipe and then writes into it (`terminateStep`), the loop is
entered, waits, goes through a batch and reads from the pipe (`runStep`). Everything else, handlers
included, may change the world at any moment, but not this machine and its pipe (`Undisturbed`).

The pipe is the only thing the two sides share, so what they have done to each other is in the log of
system calls. `Balanced` is the invariant: it relates the bytes in the pipe, the calls logged since
`event_machine_init()` and the codes returned so far.
-/

namespace EventMachine

open Lib

variable {σ : Type}

/-! ## The two sides, one system call at a time -/

/-- Where a call of `event_machine_terminate()` has come to. -/
inductive TerminatePc
  | check
  | write
  | done (r : UInt32)
  deriving DecidableEq

/-- `event_machine_terminate()` up to its next system call, and with what follows it. -/
def terminateStep (em : EMPtr) : TerminatePc → Sys σ TerminatePc
  | .check => do
    let m ← getEM em
    if m.breakLoopPipe.2 < 0 then return .done EMResult.errorBadfd.code
    let flags ← fcntlGetfl (.machine em) m.breakLoopPipe.2
    if flags < 0 then return .done EMResult.errorBadfd.code
    return .write
  | .write => do
    let m ← getEM em
    let ret ← writeByte (.machine em) m.breakLoopPipe.2
    if ret < 0 then
      let errno ← getErrno
      if errno ≠ .EAGAIN ∧ errno ≠ .EWOULDBLOCK then return .done EMResult.errorWrite.code
    return .done EMResult.success.code
  | .done r => return .done r

/-- Two such steps are the whole function. -/
theorem terminate_steps (em : EMPtr) :
    (TerminatePc.done <$> eventMachineTerminate (some em) : Sys σ TerminatePc) =
      terminateStep em .check >>= terminateStep em := by
  have hget : ∀ (k : EM σ → Sys σ TerminatePc) w, (getEM em >>= k) w = k (w.ems em) w :=
    fun _ _ => rfl
  have hfcntl : ∀ (fd : Int) (w : World σ), ∃ r w', w'.ems = w.ems ∧
      ∀ k : Int → Sys σ TerminatePc, (fcntlGetfl (.machine em) fd >>= k) w = k r w' :=
    fun fd w => ⟨_, w.issued (.machine em) .fcntlGetfl fd (·.fcntlGetfl fd), rfl, fun _ => rfl⟩
  funext w
  simp only [eventMachineTerminate, terminateStep, map_eq_pure_bind, bind_assoc]
  rw [hget, hget]
  by_cases hfd : (w.ems em).breakLoopPipe.2 < 0
  · simp only [hfd, if_true, pure_bind, terminateStep]
  · obtain ⟨flags, w₁, hems, hk⟩ := hfcntl (w.ems em).breakLoopPipe.2 w
    simp only [hfd, if_false, bind_assoc]
    rw [hk, hk]
    by_cases hflags : flags < 0
    · simp only [hflags, if_true, pure_bind, terminateStep]
    · simp only [hflags, if_false, pure_bind, terminateStep]
      rw [hget, hems, bind_assoc]
      refine congrArg (fun k => (writeByte _ _ >>= k) w₁) (funext fun ret => ?_)
      split
      · rw [bind_assoc]
        refine congrArg (fun k => getErrno >>= k) (funext fun errno => ?_)
        split <;> rfl
      · rfl

/-- Where the main loop has come to. -/
inductive RunPc
  | idle
  | waiting
  | batch (breakLoop : Bool) (b : Batch)
  | done (r : UInt32)
  deriving DecidableEq

/-- `event_machine_run()` up to its next system call or the next call of a handler, and with what
follows it; `o` is the outcome of `epoll_wait()`, if the step is that call. -/
def runStep (em : EMPtr) (o : WaitOutcome) : RunPc → Sys σ RunPc
  | .idle => do
    let ret ← eventMachineRunEnter (some em)
    if ¬ isEmSuccess ret then return .done ret
    return .waiting
  | .waiting => do
    let (numEvents, events, fd) ← runOnceBegin em o
    if numEvents < 0 then return .done EMResult.errorEventWait.code
    return .batch false ⟨events, fd, 0, numEvents.toNat⟩
  | .batch breakLoop b =>
    if b.i < b.numEvents then do
      match ← runOnceSlot em b.events b.i b.breakLoopReadFd with
      | .readFailed => return .done EMResult.errorRead.code
      | .breakLoop => return .batch true b.next
      | .handler _ _ _ _ => return .batch breakLoop b.next
    else if breakLoop then return .done EMResult.success.code
    else return .waiting
  | .done r => return .done r

/-! ## The system -/

/-- The machine, the callers of `event_machine_terminate()` and what their calls have returned, the
main loop and what its runs have returned. -/
structure Shake (σ : Type) where
  world : World σ
  callers : Nat → Option TerminatePc
  codes : List UInt32
  runner : RunPc
  results : List UInt32

/-- A world with nobody in a call. -/
def Shake.start (w : World σ) : Shake σ := ⟨w, fun _ => none, [], .idle, []⟩

/-- What handlers and other code may do meanwhile: anything that leaves the machine and the two ends
of its pipe alone, is not recorded as a call on the pipe, and goes by the kernel's rules for the
pipe. -/
structure Undisturbed (em : EMPtr) (w w' : World σ) : Prop where
  machine : w'.ems em = w.ems em
  readEnd : w'.kernel.file (w.ems em).breakLoopPipe.1 = w.kernel.file (w.ems em).breakLoopPipe.1
  writeEnd : w'.kernel.file (w.ems em).breakLoopPipe.2 = w.kernel.file (w.ems em).breakLoopPipe.2
  bytes : ∀ f p, w.kernel.file (w.ems em).breakLoopPipe.1 = some f → f.kind = .pipeRead p →
    w'.kernel.bytes p = w.kernel.bytes p
  capacity : w'.kernel.capacity = w.kernel.capacity
  reliable : (w.kernel.Never .write ∧ w.kernel.Never .fcntlGetfl) →
    w'.kernel.Never .write ∧ w'.kernel.Never .fcntlGetfl
  records : Records (fun x => ¬ (x.who = .machine em ∧ (x.call = .read ∨ x.call = .write))) w w'

inductive ShakeAct
  | call (i : Nat)
  | terminate (i : Nat)
  | terminated (i : Nat)
  | run (o : WaitOutcome)
  | finished
  | other
  deriving DecidableEq

/-- The steps of the system. -/
inductive ShakeStep (em : EMPtr) : Shake σ → ShakeAct → Shake σ → Prop
  | call {s : Shake σ} {i : Nat} (h : s.callers i = none) :
      ShakeStep em s (.call i) { s with callers := Function.update s.callers i (some .check) }
  | terminate {s : Shake σ} {i : Nat} {pc pc' : TerminatePc} {w : World σ} (h : s.callers i = some pc)
      (hs : terminateStep em pc s.world = .ok pc' w) :
      ShakeStep em s (.terminate i)
        { s with world := w, callers := Function.update s.callers i (some pc') }
  | terminated {s : Shake σ} {i : Nat} {r : UInt32} (h : s.callers i = some (.done r)) :
      ShakeStep em s (.terminated i)
        { s with callers := Function.update s.callers i none, codes := s.codes ++ [r] }
  | run {s : Shake σ} {o : WaitOutcome} {pc : RunPc} {w : World σ}
      (hs : runStep em o s.runner s.world = .ok pc w) :
      ShakeStep em s (.run o) { s with world := w, runner := pc }
  | finished {s : Shake σ} {r : UInt32} (h : s.runner = .done r) :
      ShakeStep em s .finished { s with runner := .idle, results := s.results ++ [r] }
  | other {s : Shake σ} {w : World σ} (h : Undisturbed em s.world w) :
      ShakeStep em s .other { s with world := w }

/-! ## What the log says -/

/-- A write of the machine into its pipe, or an attempt. -/
def SysRecord.isWrite (em : EMPtr) (x : SysRecord) : Bool := x.who = .machine em ∧ x.call = .write

/-- A completed read of the machine from its pipe. -/
def SysRecord.isRead (em : EMPtr) (x : SysRecord) : Bool :=
  x.who = .machine em ∧ x.call = .read ∧ 0 ≤ x.ret

/-- The number of bytes the machine has written into its pipe. -/
def written (em : EMPtr) (l : List SysRecord) : Nat := l.countP fun x => x.isWrite em && 0 ≤ x.ret

/-- The number of bytes the machine has read from its pipe. -/
def consumed (em : EMPtr) (l : List SysRecord) : Nat := l.countP (·.isRead em)

/-- A write has been attempted, and no read has been completed since. -/
def told (em : EMPtr) (l : List SysRecord) : Bool :=
  l.foldl (fun t x => x.isWrite em || t && ! x.isRead em) false

section log
variable {em : EMPtr} {l l' : List SysRecord} {x : SysRecord}

theorem observed_append (h : ∀ x ∈ l', ¬ (x.who = .machine em ∧ (x.call = .read ∨ x.call = .write))) :
    written em (l ++ l') = written em l ∧ consumed em (l ++ l') = consumed em l ∧
      told em (l ++ l') = told em l := by
  have hwrite : ∀ x ∈ l', x.isWrite em = false := fun x hx => by
    simpa [SysRecord.isWrite] using fun hwho hcall => h x hx ⟨hwho, Or.inr hcall⟩
  have hread : ∀ x ∈ l', x.isRead em = false := fun x hx => by
    have hnot : ¬ x.isRead em = true := fun hr => by
      simp only [SysRecord.isRead, decide_eq_true_eq] at hr
      exact h x hx ⟨hr.1, Or.inl hr.2.1⟩
    simpa using hnot
  have hwritten : l'.countP (fun x => x.isWrite em && 0 ≤ x.ret) = 0 :=
    List.countP_eq_zero.2 fun x hx => by simp [hwrite x hx]
  have hconsumed : l'.countP (·.isRead em) = 0 :=
    List.countP_eq_zero.2 fun x hx => by simp [hread x hx]
  refine ⟨?_, ?_, ?_⟩
  · rw [written, List.countP_append, hwritten, Nat.add_zero, written]
  · rw [consumed, List.countP_append, hconsumed, Nat.add_zero, consumed]
  · unfold told
    rw [List.foldl_append]
    generalize List.foldl _ false l = t
    clear hwritten hconsumed h
    induction l' with
    | nil => rfl
    | cons x l' ih =>
      rw [List.foldl_cons, hwrite x List.mem_cons_self, hread x List.mem_cons_self, Bool.false_or,
        Bool.not_false, Bool.and_true]
      exact ih (fun y hy => hwrite y (List.mem_cons_of_mem x hy))
        fun y hy => hread y (List.mem_cons_of_mem x hy)

theorem observed_write (em : EMPtr) (l : List SysRecord) (fd ret : Int) (f : Option File) :
    let l' := l ++ [⟨.machine em, .write, fd, f, none, ret⟩]
    written em l' = written em l + (if 0 ≤ ret then 1 else 0) ∧ consumed em l' = consumed em l ∧
      told em l' = true := by
  simp [written, consumed, told, SysRecord.isWrite, SysRecord.isRead, List.countP_singleton]

theorem observed_read (em : EMPtr) (l : List SysRecord) (fd ret : Int) (f : Option File) :
    let l' := l ++ [⟨.machine em, .read, fd, f, none, ret⟩]
    written em l' = written em l ∧ consumed em l' = consumed em l + (if 0 ≤ ret then 1 else 0) ∧
      (told em l' = true → told em l = true ∧ ret < 0) := by
  simp [written, consumed, told, SysRecord.isWrite, SysRecord.isRead, List.countP_singleton]

end log

/-! ## The invariant -/

/-- The run has read from the pipe and is about to return, or has returned with success. -/
def RunPc.broken : RunPc → Bool
  | .batch breakLoop _ => breakLoop
  | .done r => r = EMResult.success.code
  | _ => false

/-- The number of runs that have returned `EM_SUCCESS`. -/
def Shake.successes (s : Shake σ) : Nat := s.results.count EMResult.success.code

/-- The pipe `p` of the machine is open and behaves as a byte counter. -/
structure PipeOpen (em : EMPtr) (p : ObjId) (w : World σ) : Prop where
  readEnd : ∃ f, w.kernel.file (w.ems em).breakLoopPipe.1 = some f ∧ f.kind = .pipeRead p
  writeEnd : ∃ f, w.kernel.file (w.ems em).breakLoopPipe.2 = some f ∧ f.kind = .pipeWrite p
  write : w.kernel.Never .write
  fcntl : w.kernel.Never .fcntlGetfl
  capacity : 0 < w.kernel.capacity

/-- What holds after the calls `l` of a machine whose pipe is `p`. -/
structure Balanced (em : EMPtr) (p : ObjId) (l : List SysRecord) (s : Shake σ) : Prop where
  isOpen : PipeOpen em p s.world
  bytes : s.world.kernel.bytes p + consumed em l = written em l
  told : told em l = true → 0 < s.world.kernel.bytes p
  codes : ∀ r ∈ s.codes, r = EMResult.success.code
  callers : ∀ i r, s.callers i = some (.done r) → r = EMResult.success.code
  readFd : ∀ breakLoop b, s.runner = .batch breakLoop b →
    b.breakLoopReadFd = (s.world.ems em).breakLoopPipe.1
  runs : s.successes + (if s.runner.broken then 1 else 0) ≤ consumed em l

/-! ## What one system call changes -/

/-- A call that does not make calls of kind `s` fail. -/
def NeverKept (s : Syscall) (w w' : World σ) : Prop := w.kernel.Never s → w'.kernel.Never s

namespace PipeOpen
variable {em : EMPtr} {p : ObjId} {w w' : World σ}

theorem congr (h : PipeOpen em p w) (hem : w'.ems em = w.ems em)
    (hfile : ∀ n, w'.kernel.file n = w.kernel.file n)
    (hcapacity : w'.kernel.capacity = w.kernel.capacity) (hwrite : NeverKept .write w w')
    (hfcntl : NeverKept .fcntlGetfl w w') : PipeOpen em p w' where
  readEnd := by rw [hem, hfile]; exact h.readEnd
  writeEnd := by rw [hem, hfile]; exact h.writeEnd
  write := hwrite h.write
  fcntl := hfcntl h.fcntl
  capacity := by rw [hcapacity]; exact h.capacity

theorem of_calm (h : PipeOpen em p w) (hcalm : Calm w w') (hwrite : NeverKept .write w w')
    (hfcntl : NeverKept .fcntlGetfl w w') : PipeOpen em p w' :=
  h.congr (congrFun hcalm.ems em) hcalm.file (congrArg (·.kernel.capacity) hcalm) hwrite hfcntl

theorem undisturbed (h : PipeOpen em p w) (hu : Undisturbed em w w') :
    PipeOpen em p w' ∧ w'.kernel.bytes p = w.kernel.bytes p := by
  obtain ⟨f, hf, hkind⟩ := h.readEnd
  obtain ⟨hwrite, hfcntl⟩ := hu.reliable ⟨h.write, h.fcntl⟩
  refine ⟨⟨?_, ?_, hwrite, hfcntl, by rw [hu.capacity]; exact h.capacity⟩, hu.bytes f p hf hkind⟩
  · rw [hu.machine, hu.readEnd]
    exact ⟨f, hf, hkind⟩
  · rw [hu.machine, hu.writeEnd]
    exact h.writeEnd

end PipeOpen

section steps
variable {em : EMPtr} {p : ObjId} {w : World σ}

/-- A call that is none on the pipe. -/
structure Aside (em : EMPtr) (p : ObjId) (w w' : World σ) : Prop where
  isOpen : PipeOpen em p w'
  machine : w'.ems em = w.ems em
  bytes : w'.kernel.bytes p = w.kernel.bytes p
  records : Records (fun x => ¬ (x.who = .machine em ∧ (x.call = .read ∨ x.call = .write))) w w'

theorem terminateStep_check (h : PipeOpen em p w) :
    wp (terminateStep em .check) (fun pc w' => pc = .write ∧ Aside em p w w') (fun _ _ => False) w := by
  obtain ⟨f, hf, -⟩ := h.writeEnd
  have hpos := Kernel.nonneg_of_file hf
  have hflags : ¬ (w.kernel.fcntlGetfl (w.ems em).breakLoopPipe.2).1 < 0 := by
    simp [Kernel.fcntlGetfl_neg, hf, h.fcntl 0]
  have hcore := Kernel.fcntlGetfl_core w.kernel (w.ems em).breakLoopPipe.2
  have hfaults := Kernel.fcntlGetfl_faults w.kernel (w.ems em).breakLoopPipe.2
  unfold terminateStep
  rw [wp_bind, wp_getEM, if_neg (by omega), wp_bind]
  apply wp_issue.2
  rw [if_neg hflags]
  refine ⟨rfl, h.of_calm (.of_kernelOnly rfl (Kernel.still_of_core hcore)) ?_ ?_, rfl, ?_, ?_⟩
  · exact fun hn => Kernel.Never.of_faults hn hfaults
  · exact fun hn => Kernel.Never.of_faults hn hfaults
  · exact congrFun (congrArg (·.bytes) hcore) p
  · exact World.issued_records (by simp)

theorem terminateStep_write (h : PipeOpen em p w) :
    wp (terminateStep em .write)
      (fun pc w' => pc = .done EMResult.success.code ∧ PipeOpen em p w' ∧ w'.ems em = w.ems em ∧
        ∃ ret fd f, w'.log = w.log ++ [⟨.machine em, .write, fd, f, none, ret⟩] ∧
          ((ret = 1 ∧ w'.kernel.bytes p = w.kernel.bytes p + 1) ∨
            (ret = -1 ∧ w'.kernel.bytes p = w.kernel.bytes p ∧ 0 < w.kernel.bytes p)))
      (fun _ _ => False) w := by
  obtain ⟨f, hf, hkind⟩ := h.writeEnd
  have hfaults := Kernel.writeByte_faults w.kernel (w.ems em).breakLoopPipe.2
  unfold terminateStep
  rw [wp_bind, wp_getEM, wp_bind]
  apply wp_issue.2
  generalize hw₁ : w.issued (.machine em) .write _ _ = w₁
  have hk : w₁.kernel = (w.kernel.writeByte (w.ems em).breakLoopPipe.2).2 := by rw [← hw₁]; rfl
  have hlog : w₁.log = w.log ++ [⟨.machine em, .write, (w.ems em).breakLoopPipe.2,
      w.kernel.file (w.ems em).breakLoopPipe.2, none,
      (w.kernel.writeByte (w.ems em).breakLoopPipe.2).1⟩] := by rw [← hw₁]; rfl
  have hems : w₁.ems em = w.ems em := by rw [← hw₁]; rfl
  have hnever : ∀ s, NeverKept s w w₁ := fun s hn =>
    hn.of_faults (by rw [hk]; exact hfaults)
  rcases Kernel.writeByte_cases w.kernel (w.ems em).breakLoopPipe.2 with
    ⟨hret, hcore⟩ | ⟨f', p', hf', hkind', -, hret, hcore⟩
  · obtain ⟨herrno, hfull⟩ := Kernel.writeByte_refused hf hkind h.write hret
    have hopen := h.congr hems (fun n => by rw [hk, Kernel.file_congr hcore])
      (by rw [hk]; exact congrArg (·.capacity) hcore) (hnever _) (hnever _)
    rw [hret] at hlog
    rw [hret, if_pos (by decide), wp_bind, wp_getErrno, hk, if_neg (by simp [herrno])]
    refine ⟨rfl, hopen, hems, -1, _, _, hlog, Or.inr ⟨rfl, ?_, ?_⟩⟩
    · rw [hk]
      exact congrFun (congrArg (·.bytes) hcore) p
    · have := h.capacity
      omega
  · obtain rfl := Option.some.inj (hf.symm.trans hf')
    obtain rfl : p = p' := by simpa using hkind.symm.trans hkind'
    have hfile : ∀ n, w₁.kernel.file n = w.kernel.file n := fun n => by
      rw [hk]
      exact Kernel.file_still (congrArg (fun k : Kernel =>
        { k with bytes := fun _ => 0, timerfds := fun _ => ⟨none, 0⟩ }) hcore) n
    have hopen := h.congr hems hfile (by rw [hk]; exact congrArg (·.capacity) hcore) (hnever _)
      (hnever _)
    rw [hret] at hlog
    rw [hret, if_neg (by decide)]
    refine ⟨rfl, hopen, hems, 1, _, _, hlog, Or.inl ⟨rfl, ?_⟩⟩
    rw [hk, Kernel.bytes_of_core hcore, Function.update_self]

theorem PipeOpen.terminate (h : PipeOpen em p w) :
    ∃ w', eventMachineTerminate (some em) w = .ok EMResult.success.code w' := by
  obtain ⟨pc, w₁, h₁, rfl, haside⟩ := wp_total (terminateStep_check h)
  obtain ⟨pc, w₂, h₂, rfl, -⟩ := wp_total (terminateStep_write haside.isOpen)
  have hsteps : (TerminatePc.done <$> eventMachineTerminate (some em) : Sys σ TerminatePc) w =
      .ok (.done EMResult.success.code) w₂ := by
    rw [terminate_steps]
    show EStateM.bind _ _ _ = _
    rw [EStateM.bind, h₁]
    exact h₂
  have hmap : EStateM.map TerminatePc.done (eventMachineTerminate (some em)) w = _ := hsteps
  unfold EStateM.map at hmap
  cases hr : eventMachineTerminate (some em) w with
  | ok r w' =>
    rw [hr] at hmap
    obtain ⟨hcode, rfl⟩ := EStateM.Result.ok.inj hmap
    obtain rfl := TerminatePc.done.inj hcode
    exact ⟨w', rfl⟩
  | error c w' =>
    rw [hr] at hmap
    exact absurd hmap nofun

/-- A step of the main loop that is not a completed read does not touch the pipe. -/
structure RunStepped (em : EMPtr) (p : ObjId) (w : World σ) (pc : RunPc) (pc' : RunPc) (w' : World σ) :
    Prop where
  isOpen : PipeOpen em p w'
  machine : w'.ems em = w.ems em
  readFd : ∀ breakLoop b, pc' = .batch breakLoop b → b.breakLoopReadFd = (w.ems em).breakLoopPipe.1
  effect : (Aside em p w w' ∧ (pc'.broken → pc.broken)) ∨
    ∃ ret fd f, w'.log = w.log ++ [⟨.machine em, .read, fd, f, none, ret⟩] ∧
      ((ret = 1 ∧ w.kernel.bytes p = w'.kernel.bytes p + 1) ∨
        (ret = -1 ∧ w'.kernel.bytes p = w.kernel.bytes p ∧ pc'.broken = false))

theorem runStep_idle (h : PipeOpen em p w) (o : WaitOutcome) :
    wp (runStep em o .idle) (fun pc' w' => RunStepped em p w .idle pc' w') (fun _ _ => True) w := by
  unfold runStep
  rw [wp_bind]
  have hnever := fun s => eventMachineRunEnter_preserves (Kernel.never_invariant s) (some em) w
  refine wp_mono (wp_and (eventMachineRunEnter_spec (some em) w) (wp_and (hnever .write)
    (hnever .fcntlGetfl))) ?_ fun _ _ _ => trivial
  rintro r w' ⟨⟨hsame, honly, hrec, -⟩, hwrite, hfcntl⟩
  have hcore := World.kernel_core hsame.core
  have hopen := h.of_calm (.of_kernelOnly honly (Kernel.still_of_core hcore)) hwrite hfcntl
  have hems : w'.ems em = w.ems em := congrFun (World.ems_congr hsame.core) em
  have haside : Aside em p w w' := by
    refine ⟨hopen, hems, congrFun (congrArg (·.bytes) hcore) p, (hrec em rfl).mono ?_⟩
    rintro x ⟨-, hcall, -⟩
    simp [hcall]
  rw [wp_ite]
  refine ⟨fun hr => ⟨hopen, hems, nofun, Or.inl ⟨haside, fun hb => ?_⟩⟩,
    fun _ => ⟨hopen, hems, nofun, Or.inl ⟨haside, nofun⟩⟩⟩
  rw [isEmSuccess_iff] at hr
  exact absurd (by simpa [RunPc.broken] using hb) hr

theorem runStep_waiting (h : PipeOpen em p w) (o : WaitOutcome) :
    wp (runStep em o .waiting) (fun pc' w' => RunStepped em p w .waiting pc' w') (fun _ _ => True)
      w := by
  unfold runStep
  rw [wp_bind]
  have hnever := fun s => runOnceBegin_preserves (Kernel.never_invariant s) em o w
  refine wp_mono (wp_and (runOnceBegin_spec em o w) (wp_and (hnever .write) (hnever .fcntlGetfl))) ?_
    fun _ _ _ => trivial
  rintro ⟨n, events, fd⟩ w' ⟨⟨hr, -, -, hcalm, hrec, -, hcase⟩, hwrite, hfcntl⟩
  obtain ⟨rfl, rfl⟩ := Prod.mk.inj hr
  have hopen := h.of_calm hcalm hwrite hfcntl
  have hems : w'.ems em = w.ems em := congrFun hcalm.ems em
  have hbytes : w'.kernel.bytes p = w.kernel.bytes p := by
    rcases hcase with ⟨-, hcore, -⟩ | ⟨-, -, -, -, -, -, -, hk, -⟩
    · exact congrFun (congrArg (·.bytes) hcore) p
    · rw [hk]
  have haside : Aside em p w w' := by
    refine ⟨hopen, hems, hbytes, hrec.mono ?_⟩
    rintro x ⟨-, hcall, -⟩
    simp [hcall]
  dsimp only
  rw [wp_ite]
  refine ⟨fun _ => ⟨hopen, hems, nofun, Or.inl ⟨haside, nofun⟩⟩,
    fun _ => ⟨hopen, hems, ?_, Or.inl ⟨haside, nofun⟩⟩⟩
  rintro _ _ ⟨⟩
  rfl

theorem runStep_batch (h : PipeOpen em p w) (o : WaitOutcome) (breakLoop : Bool) (b : Batch)
    (hfd : b.breakLoopReadFd = (w.ems em).breakLoopPipe.1) :
    wp (runStep em o (.batch breakLoop b)) (fun pc' w' => RunStepped em p w (.batch breakLoop b) pc' w')
      (fun _ _ => True) w := by
  have hnone : Aside em p w w := ⟨h, rfl, rfl, .refl w⟩
  unfold runStep
  rw [wp_ite]
  constructor
  · intro _
    rw [wp_bind]
    have hnever := fun s =>
      runOnceSlot_preserves (Kernel.never_invariant s) em b.events b.i b.breakLoopReadFd w
    refine wp_mono (wp_and (runOnceSlot_spec em b.events b.i b.breakLoopReadFd w)
      (wp_and (hnever .write) (hnever .fcntlGetfl))) ?_ fun _ _ _ => trivial
    rintro r w' ⟨⟨buf, e, q, -, -, -, hout⟩, hwrite, hfcntl⟩
    have hopen := h.of_calm hout.calm hwrite hfcntl
    have hems : w'.ems em = w.ems em := congrFun hout.calm.ems em
    cases hout with
    | readFailed _ hlog hcore =>
      refine ⟨hopen, hems, nofun, Or.inr ⟨-1, _, _, hlog, Or.inr ⟨rfl, ?_, rfl⟩⟩⟩
      exact congrFun (congrArg (·.bytes) hcore) p
    | breakLoop f o _ hlog hfile hkind hpos hcore =>
      obtain ⟨f', hf', hkind'⟩ := h.readEnd
      rw [hfd] at hfile
      obtain rfl := Option.some.inj (hfile.symm.trans hf')
      obtain rfl : o = p := by simpa using hkind.symm.trans hkind'
      refine ⟨hopen, hems, ?_, Or.inr ⟨1, _, _, hlog, Or.inl ⟨rfl, ?_⟩⟩⟩
      · rintro _ _ ⟨⟩
        exact hfd
      · rw [Kernel.bytes_of_core hcore, Function.update_self]
        omega
    | handler =>
      have haside : Aside em p w _ := ⟨hopen, hems, rfl, .refl _⟩
      refine ⟨hopen, hems, ?_, Or.inl ⟨haside, id⟩⟩
      rintro _ _ ⟨⟩
      exact hfd
  · intro _
    rw [wp_ite]
    refine ⟨fun hb => ⟨h, rfl, nofun, Or.inl ⟨hnone, fun _ => hb⟩⟩,
      fun _ => ⟨h, rfl, nofun, Or.inl ⟨hnone, nofun⟩⟩⟩

theorem runStep_spec (h : PipeOpen em p w) (o : WaitOutcome) (pc : RunPc)
    (hfd : ∀ breakLoop b, pc = .batch breakLoop b →
      b.breakLoopReadFd = (w.ems em).breakLoopPipe.1) :
    wp (runStep em o pc) (fun pc' w' => RunStepped em p w pc pc' w') (fun _ _ => True) w := by
  cases pc with
  | idle => exact runStep_idle h o
  | waiting => exact runStep_waiting h o
  | batch breakLoop b => exact runStep_batch h o breakLoop b (hfd breakLoop b rfl)
  | done r => exact ⟨h, rfl, nofun, Or.inl ⟨⟨h, rfl, rfl, .refl w⟩, id⟩⟩

end steps

/-! ## The invariant is kept -/

namespace Balanced
variable {em : EMPtr} {p : ObjId} {l l' : List SysRecord} {s : Shake σ} {w : World σ}

theorem aside (h : Balanced em p l s) (ha : Aside em p s.world w)
    (hl : ∀ x ∈ l', ¬ (x.who = .machine em ∧ (x.call = .read ∨ x.call = .write))) :
    Balanced em p (l ++ l') { s with world := w } := by
  obtain ⟨hwritten, hconsumed, htold⟩ := observed_append (l := l) hl
  refine ⟨ha.isOpen, ?_, fun ht => ?_, h.codes, h.callers, ?_, ?_⟩
  · show w.kernel.bytes p + _ = _
    rw [hwritten, hconsumed, ha.bytes, h.bytes]
  · rw [htold] at ht
    show 0 < w.kernel.bytes p
    rw [ha.bytes]
    exact h.told ht
  · intro breakLoop b hb
    show _ = (w.ems em).breakLoopPipe.1
    rw [ha.machine]
    exact h.readFd breakLoop b hb
  · rw [hconsumed]
    exact h.runs

theorem setCaller (h : Balanced em p l s) (i : Nat) (pc : Option TerminatePc)
    (hpc : ∀ r, pc = some (.done r) → r = EMResult.success.code) :
    Balanced em p l { s with callers := Function.update s.callers i pc } := by
  refine ⟨h.isOpen, h.bytes, h.told, h.codes, fun j r hj => ?_, h.readFd, h.runs⟩
  by_cases hij : j = i
  · subst hij
    exact hpc r (by simpa using hj)
  · exact h.callers j r (by simpa [Function.update_of_ne hij] using hj)

theorem wrote (h : Balanced em p l s) {ret fd : Int} {f : Option File} (hopen : PipeOpen em p w)
    (hems : w.ems em = s.world.ems em)
    (hret : (ret = 1 ∧ w.kernel.bytes p = s.world.kernel.bytes p + 1) ∨
      (ret = -1 ∧ w.kernel.bytes p = s.world.kernel.bytes p ∧ 0 < s.world.kernel.bytes p)) :
    Balanced em p (l ++ [⟨.machine em, .write, fd, f, none, ret⟩]) { s with world := w } := by
  obtain ⟨hwritten, hconsumed, -⟩ := observed_write em l fd ret f
  have hbytes := h.bytes
  refine ⟨hopen, ?_, fun _ => ?_, h.codes, h.callers, ?_, ?_⟩
  · show w.kernel.bytes p + _ = _
    rw [hwritten, hconsumed]
    rcases hret with ⟨rfl, hb⟩ | ⟨rfl, hb, -⟩
    · rw [if_pos (by decide)]
      omega
    · rw [if_neg (by decide)]
      omega
  · show 0 < w.kernel.bytes p
    rcases hret with ⟨-, hb⟩ | ⟨-, hb, hpos⟩ <;> omega
  · intro breakLoop b hb
    show _ = (w.ems em).breakLoopPipe.1
    rw [hems]
    exact h.readFd breakLoop b hb
  · rw [hconsumed]
    exact h.runs

theorem ran (h : Balanced em p l s) {pc : RunPc} (hstep : RunStepped em p s.world s.runner pc w) :
    ∃ l', w.log = s.world.log ++ l' ∧
      Balanced em p (l ++ l') { s with world := w, runner := pc } := by
  have hreadFd : ∀ breakLoop b, pc = .batch breakLoop b →
      b.breakLoopReadFd = (w.ems em).breakLoopPipe.1 := by
    rw [hstep.machine]
    exact hstep.readFd
  have hruns := h.runs
  have hbytes := h.bytes
  rcases hstep.effect with ⟨haside, hbroken⟩ | ⟨ret, fd, f, hlog, hret⟩
  · obtain ⟨l', hlog, hl'⟩ := haside.records
    have hnext := h.aside haside hl'
    refine ⟨l', hlog, hnext.isOpen, hnext.bytes, hnext.told, h.codes, h.callers, hreadFd, ?_⟩
    have hold : s.successes + (if s.runner.broken then 1 else 0) ≤ consumed em (l ++ l') := hnext.runs
    refine Nat.le_trans (Nat.add_le_add_left ?_ _) hold
    by_cases hb : pc.broken = true
    · rw [if_pos (hbroken hb)]
      split <;> omega
    · rw [if_neg hb]
      exact Nat.zero_le _
  · obtain ⟨hwritten, hconsumed, htold⟩ := observed_read em l fd ret f
    refine ⟨_, hlog, hstep.isOpen, ?_, fun ht => ?_, h.codes, h.callers, hreadFd, ?_⟩
    · show w.kernel.bytes p + _ = _
      rw [hwritten, hconsumed]
      rcases hret with ⟨rfl, hb⟩ | ⟨rfl, hb, -⟩
      · rw [if_pos (by decide)]
        omega
      · rw [if_neg (by decide)]
        omega
    · obtain ⟨ht, hneg⟩ := htold ht
      have hpos := h.told ht
      show 0 < w.kernel.bytes p
      rcases hret with ⟨rfl, -⟩ | ⟨-, hb, -⟩ <;> omega
    · rw [hconsumed]
      show s.successes + (if pc.broken then 1 else 0) ≤ _
      rcases hret with ⟨rfl, -⟩ | ⟨rfl, -, hb⟩
      · have hone : (if (0 : Int) ≤ 1 then 1 else 0) = 1 := rfl
        rw [hone]
        split <;> omega
      · rw [hb]
        simp only [Bool.false_eq_true, if_false]
        omega

theorem step (h : Balanced em p l s) {a : ShakeAct} {s' : Shake σ} (hstep : ShakeStep em s a s') :
    ∃ l', s'.world.log = s.world.log ++ l' ∧ Balanced em p (l ++ l') s' := by
  have hsame : ∀ {s' : Shake σ}, Balanced em p l s' → Balanced em p (l ++ []) s' := fun h => by
    rw [List.append_nil]
    exact h
  cases hstep with
  | call hi => exact ⟨[], (List.append_nil _).symm, hsame (h.setCaller _ _ nofun)⟩
  | @terminate i pc pc' w hi hs =>
    cases pc with
    | check =>
      obtain ⟨rfl, haside⟩ := wp_ok (terminateStep_check h.isOpen) hs
      obtain ⟨l', hlog, hl'⟩ := haside.records
      exact ⟨l', hlog, (h.aside haside hl').setCaller i _ nofun⟩
    | write =>
      obtain ⟨rfl, hopen, hems, ret, fd, f, hlog, hret⟩ := wp_ok (terminateStep_write h.isOpen) hs
      refine ⟨_, hlog, (h.wrote hopen hems hret).setCaller i _ ?_⟩
      rintro r ⟨⟩
      rfl
    | done r =>
      obtain ⟨rfl, rfl⟩ : TerminatePc.done r = pc' ∧ s.world = w := by
        simpa [terminateStep, pure, EStateM.pure] using hs
      refine ⟨[], (List.append_nil _).symm, hsame (h.setCaller i _ ?_)⟩
      rintro r' ⟨⟩
      exact h.callers i r hi
  | @terminated i r hi =>
    have hr := h.callers i r hi
    have hnext := h.setCaller i none nofun
    refine ⟨[], (List.append_nil _).symm, hsame ⟨h.isOpen, h.bytes, h.told, ?_, hnext.callers, h.readFd,
      h.runs⟩⟩
    intro r' hr'
    rcases List.mem_append.1 hr' with hr' | hr'
    · exact h.codes r' hr'
    · rw [List.mem_singleton.1 hr', hr]
  | run hs => exact h.ran (wp_ok (runStep_spec h.isOpen _ s.runner h.readFd) hs)
  | @finished r hr =>
    refine ⟨[], (List.append_nil _).symm, hsame ⟨h.isOpen, h.bytes, h.told, h.codes, h.callers, nofun, ?_⟩⟩
    have hruns := h.runs
    rw [hr] at hruns
    show (s.results ++ [r]).count EMResult.success.code + 0 ≤ _
    simp only [RunPc.broken, Shake.successes, decide_eq_true_eq] at hruns
    simpa only [List.count_append, List.count_singleton, beq_iff_eq, Nat.add_zero] using hruns
  | other hu =>
    obtain ⟨hopen, hbytes⟩ := h.isOpen.undisturbed hu
    obtain ⟨l', hlog, hl'⟩ := hu.records
    exact ⟨l', hlog, h.aside ⟨hopen, hu.machine, hbytes, hu.records⟩ hl'⟩

end Balanced

/-! ## From `event_machine_init()` on -/

theorem Balanced.of_init {usePipe2 : Bool} {em : EMPtr} {w₀ w₁ : World σ}
    (hinit : eventMachineInit usePipe2 (some em) w₀ = .ok EMResult.success.code w₁)
    (hwrite : w₁.kernel.Never .write) (hfcntl : w₁.kernel.Never .fcntlGetfl)
    (hcapacity : 0 < w₁.kernel.capacity) : ∃ p, Balanced em p [] (Shake.start w₁) := by
  obtain ⟨ms, m, -, hout⟩ := wp_ok (init_spec usePipe2 w₀ em) hinit
  cases hout with
  | noPipe code => exact absurd code (by decide)
  | noFlags _ code => exact absurd code (by decide)
  | noQueue _ code => exact absurd code (by decide)
  | queue ends fd q k₁ k₂ base pipe queue event =>
    obtain ⟨-, hcore⟩ : _ ∧ w₁.kernel.core = _ := event.resolve_right fun h => absurd h.1 (by decide)
    obtain ⟨⟨-, -, hne⟩, -, -, hfile⟩ := pipeMade_files pipe
    have hbytes : w₁.kernel.bytes w₀.kernel.next = 0 := by
      obtain ⟨r, w, k₃, k₄, -, -, -, -, -, -, -, -, -, hpipe, hflags⟩ := pipe
      rw [show w₁.kernel.bytes = k₂.bytes from congrArg (·.bytes) hcore, queue.2.2.2.2.1,
        show k₁.bytes = k₄.bytes from congrArg (·.bytes) hflags.2, hpipe, Function.update_self]
    -- the queue has got another number, so the ends of the pipe are as `pipe()` has left them
    have hends : ∀ n, k₁.file n ≠ none → w₁.kernel.file n = k₁.file n := fun n hn => by
      rw [Kernel.file_congr (k := k₂.setInterest _ _ _) hcore]
      refine (queue.1.file n).trans (if_neg fun heq => ?_)
      rw [heq] at hn
      exact hn queue.1.free
    have hread := hfile ends.1
    have hwriteEnd := hfile ends.2
    rw [if_neg hne, if_pos rfl, Option.map_eq_some_iff] at hread
    rw [if_pos rfl, Option.map_eq_some_iff] at hwriteEnd
    obtain ⟨f, hf, hfid⟩ := hread
    obtain ⟨g, hg, hgid⟩ := hwriteEnd
    have hem : (w₁.ems em).breakLoopPipe = ends := by rw [base.ems_self]
    refine ⟨w₀.kernel.next, ⟨⟨f, ?_, congrArg (·.2.1) hfid⟩, ⟨g, ?_, congrArg (·.2.1) hgid⟩, hwrite,
      hfcntl, hcapacity⟩, ?_, nofun, nofun, nofun, nofun, Nat.le_refl 0⟩
    · show w₁.kernel.file (w₁.ems em).breakLoopPipe.1 = some f
      rw [hem, ← hf]
      exact hends _ (by simp [hf])
    · show w₁.kernel.file (w₁.ems em).breakLoopPipe.2 = some g
      rw [hem, ← hg]
      exact hends _ (by simp [hg])
    · exact hbytes

/-- Termination hand-shake: in every reachable state the bytes in the pipe are the bytes written by
`event_machine_terminate()` less those read by the main loop; no more runs have returned `EM_SUCCESS`
than bytes have been written; every call of `event_machine_terminate()` has returned `EM_SUCCESS`, and
would from here; and from a write attempt, refused or not, to the next completed read the pipe is not
empty. -/
theorem terminate_handshake {usePipe2 : Bool} {em : EMPtr} {w₀ w₁ : World σ}
    (hinit : eventMachineInit usePipe2 (some em) w₀ = .ok EMResult.success.code w₁)
    (hwrite : w₁.kernel.Never .write) (hfcntl : w₁.kernel.Never .fcntlGetfl)
    (hcapacity : 0 < w₁.kernel.capacity) {as : List ShakeAct} {s : Shake σ}
    (hrun : Steps (ShakeStep em) (Shake.start w₁) as s) :
    ∃ p f l, s.world.kernel.file (s.world.ems em).breakLoopPipe.1 = some f ∧ f.kind = .pipeRead p ∧
      s.world.log = w₁.log ++ l ∧
      s.world.kernel.bytes p + consumed em l = written em l ∧
      s.successes ≤ written em l ∧
      (∀ r ∈ s.codes, r = EMResult.success.code) ∧
      (∃ w', eventMachineTerminate (some em) s.world = .ok EMResult.success.code w') ∧
      (told em l = true → 0 < s.world.kernel.bytes p) := by
  obtain ⟨p, hstart⟩ := Balanced.of_init hinit hwrite hfcntl hcapacity
  have hinv := hrun.invariant (I := fun s => ∃ l, s.world.log = w₁.log ++ l ∧ Balanced em p l s)
    (fun s a t ⟨l, hlog, h⟩ hstep => by
      obtain ⟨l', hlog', h'⟩ := h.step hstep
      exact ⟨l ++ l', by rw [hlog', hlog, List.append_assoc], h'⟩)
    ⟨[], (List.append_nil _).symm, hstart⟩
  obtain ⟨l, hlog, h⟩ := hinv
  obtain ⟨f, hf, hkind⟩ := h.isOpen.readEnd
  refine ⟨p, f, l, hf, hkind, hlog, h.bytes, ?_, h.codes, h.isOpen.terminate, h.told⟩
  have hruns := h.runs
  have hbytes := h.bytes
  omega

/-- A machine that has just been initialised, on a kernel where nothing fails. -/
def freshMachine : World Unit :=
  final (eventMachineInit true (some 0))
    (World.start (emStaticWithMaxEvents Unit 16 none) () fun _ _ => none)

/-- What the kernel reports of a pipe that has been written into. -/
def breakReported : WaitOutcome := .batch [⟨EPOLLIN, some (.breakLoop 0)⟩]

/-- A caller has told it to terminate, and its call has returned. -/
def toldOnce : Shake Unit :=
  { Shake.start (final (terminateStep 0 .write) (final (terminateStep 0 .check) freshMachine)) with
    codes := [EMResult.success.code] }

/-- The main loop has been entered, and the pipe has been reported. -/
def breakRunning : Shake Unit :=
  { toldOnce with
    world := final (runStep 0 breakReported .waiting)
      (final (runStep 0 breakReported .idle) toldOnce.world)
    runner := .batch false ⟨some (.malloc 0), 0, 0, 1⟩ }

/-- The main loop has read from the pipe and returned. -/
def brokenOnce : Shake Unit :=
  { toldOnce with
    world := final (runStep 0 breakReported breakRunning.runner) breakRunning.world
    results := [EMResult.success.code] }

theorem brokenOnce_run : ∃ as, Steps (ShakeStep 0) (Shake.start freshMachine) as brokenOnce := by
  let s₁ : Shake Unit := { Shake.start freshMachine with
    callers := Function.update (fun _ => none) 0 (some .check) }
  let s₂ : Shake Unit := { s₁ with
    world := final (terminateStep 0 .check) freshMachine
    callers := Function.update s₁.callers 0 (some .write) }
  let s₃ : Shake Unit := { s₂ with
    world := toldOnce.world
    callers := Function.update s₂.callers 0 (some (.done EMResult.success.code)) }
  let s₄ : Shake Unit := { toldOnce with
    world := final (runStep 0 breakReported .idle) toldOnce.world, runner := .waiting }
  let s₅ : Shake Unit := { toldOnce with
    world := brokenOnce.world, runner := .batch true ⟨some (.malloc 0), 0, 1, 1⟩ }
  let s₆ : Shake Unit := { s₅ with runner := .done EMResult.success.code }
  have hcall : ShakeStep 0 (Shake.start freshMachine) (.call 0) s₁ := .call rfl
  have hchecking : s₁.callers 0 = some .check := rfl
  have hcheck : ShakeStep 0 s₁ (.terminate 0) s₂ := .terminate hchecking rfl
  have hwriting : s₂.callers 0 = some .write := rfl
  have hwrite : ShakeStep 0 s₂ (.terminate 0) s₃ := .terminate hwriting rfl
  have hnone : Function.update s₃.callers 0 none = toldOnce.callers := by
    funext i
    by_cases hi : i = 0 <;> simp [s₁, s₂, s₃, toldOnce, Shake.start, hi]
  have hreturn : ShakeStep 0 s₃ (.terminated 0) toldOnce := by
    have h : ShakeStep 0 s₃ (.terminated 0) { s₃ with
        callers := Function.update s₃.callers 0 none, codes := [EMResult.success.code] } :=
      .terminated rfl
    rwa [hnone] at h
  have henter : ShakeStep 0 toldOnce (.run breakReported) s₄ := .run rfl
  have hwait : ShakeStep 0 s₄ (.run breakReported) breakRunning := .run rfl
  have hread : ShakeStep 0 breakRunning (.run breakReported) s₅ := .run rfl
  have hend : ShakeStep 0 s₅ (.run breakReported) s₆ := .run rfl
  have hfinished : ShakeStep 0 s₆ .finished brokenOnce := .finished rfl
  exact ⟨_, .cons hcall <| .cons hcheck <| .cons hwrite <| .cons hreturn <| .cons henter <|
    .cons hwait <| .cons hread <| .cons hend <| .cons hfinished (.nil _)⟩

theorem terminate_handshake_brokenOnce :
    (∃ p f l, brokenOnce.world.kernel.file (brokenOnce.world.ems 0).breakLoopPipe.1 = some f ∧
      f.kind = .pipeRead p ∧ brokenOnce.world.log = freshMachine.log ++ l ∧
      brokenOnce.world.kernel.bytes p + consumed 0 l = written 0 l ∧
      brokenOnce.successes ≤ written 0 l ∧
      (∀ r ∈ brokenOnce.codes, r = EMResult.success.code) ∧
      (∃ w', eventMachineTerminate (some 0) brokenOnce.world = .ok EMResult.success.code w') ∧
      (told 0 l = true → 0 < brokenOnce.world.kernel.bytes p)) ∧
    brokenOnce.codes = [EMResult.success.code] ∧ brokenOnce.successes = 1 := by
  have hinit : eventMachineInit true (some 0)
      (World.start (emStaticWithMaxEvents Unit 16 none) () fun _ _ => none) =
        .ok EMResult.success.code freshMachine := rfl
  have hwrite : freshMachine.kernel.Never .write := fun _ => rfl
  have hfcntl : freshMachine.kernel.Never .fcntlGetfl := fun _ => rfl
  have hcapacity : 0 < freshMachine.kernel.capacity := by decide
  obtain ⟨as, hrun⟩ := brokenOnce_run
  exact ⟨terminate_handshake hinit hwrite hfcntl hcapacity hrun, rfl, rfl⟩

end EventMachine
