import EventMachine.Proof.Init
import EventMachine.Proof.Plain

/-!
# The two builds of `event_machine_init()`

With `USE_PIPE2` the pipe is opened with the flags it is to have. Without, it is opened plainly, and a
loop of `fcntl()` calls sets the flags of its ends: the comment says `FD_CLOEXEC` and `O_NONBLOCK`. Both
are given to `F_SETFL`, for which `FD_CLOEXEC` is a bit of the access mode and ignored. So the ends of the
second build are never closed on exec, and in everything else the two builds agree (`builds_agree_iff`).
-/

namespace EventMachine

open Lib

variable {σ : Type}

theorem initQueue_blind (em : EMPtr) : Blind World.plain (initQueue em : Sys σ UInt32) := by
  refine .bind (modifyEM_blind _ _) fun _ => .bind (epollCreate_blind _) fun queueFd => ?_
  refine .ite (.of_pure _) (.bind (modifyEM_blind _ _) fun _ => ?_)
  exact .bind (eventCtl_blind _ _ _ _ _) fun ret => .ite (.of_pure _) (.of_pure _)

/-! ## The loop -/

/-- What `F_SETFL` makes of the flags that the loop gives to it: it ignores the bit of `FD_CLOEXEC`. -/
theorem setfl_status (s : UInt32) :
    (s &&& ~~~ SETFL_MASK) ||| ((s ||| FD_CLOEXEC ||| O_NONBLOCK) &&& SETFL_MASK) = s ||| O_NONBLOCK := by
  have hcloexec : FD_CLOEXEC &&& SETFL_MASK = 0 := by decide
  have hnonblock : O_NONBLOCK &&& SETFL_MASK = O_NONBLOCK := by decide
  generalize FD_CLOEXEC = c at hcloexec ⊢
  generalize O_NONBLOCK = n at hnonblock ⊢
  generalize SETFL_MASK = m at hcloexec hnonblock ⊢
  apply UInt32.toBitVec_inj.1
  apply BitVec.eq_of_getLsbD_eq
  intro i hi
  have hc := congrArg (fun x : UInt32 => x.toBitVec.getLsbD i) hcloexec
  have hn := congrArg (fun x : UInt32 => x.toBitVec.getLsbD i) hnonblock
  simp only [UInt32.toBitVec_and, BitVec.getLsbD_and, UInt32.toBitVec_or, UInt32.toBitVec_not,
    BitVec.getLsbD_or, BitVec.getLsbD_not, hi, decide_true, Bool.true_and] at hc hn ⊢
  simp at hc
  grind

theorem Kernel.turn_fcntl_rest (k : Kernel) {s : Syscall} (hs : s = .fcntlGetfl ∨ s = .fcntlSetfl) :
    (k.turn s).2.rest = k.rest := by
  unfold Kernel.rest Kernel.turn
  simp only [Kernel.mk.injEq, true_and]
  funext s'
  by_cases heq : s' = s
  · subst heq
    simp [hs]
  · simp [heq]

theorem Kernel.fcntlGetfl_exact {k : Kernel} {fd : Int} (h : ¬ (k.fcntlGetfl fd).1 < 0) :
    ∃ f, k.file fd = some f ∧ k.fcntlGetfl fd = ((f.status.toNat : Int), (k.turn .fcntlGetfl).2) := by
  unfold Kernel.fcntlGetfl at h ⊢
  simp only [Kernel.file_turn] at h ⊢
  split at h
  · exact absurd h (by simp [Kernel.fail])
  · exact absurd h (by simp [Kernel.fail])
  · next f hf hfault =>
    exact ⟨f, hf, rfl⟩

theorem Kernel.fcntlSetfl_exact {k : Kernel} {fd : Int} {flags : UInt32}
    (h : ¬ (k.fcntlSetfl fd flags).1 < 0) :
    ∃ f, k.file fd = some f ∧ (k.fcntlSetfl fd flags).2.rest = k.rest ∧
      ∀ n, (k.fcntlSetfl fd flags).2.file n = if n = fd then
        some { f with status := (f.status &&& ~~~ SETFL_MASK) ||| (flags &&& SETFL_MASK) }
        else k.file n := by
  have hturn := k.turn_fcntl_rest (s := .fcntlSetfl) (Or.inr rfl)
  unfold Kernel.fcntlSetfl at h ⊢
  simp only [Kernel.file_turn] at h ⊢
  split at h
  · exact absurd h (by simp [Kernel.fail])
  · exact absurd h (by simp [Kernel.fail])
  · next f hf hfault =>
    rw [hf]
    refine ⟨f, rfl, hturn, fun n => ?_⟩
    have hfd : (fd.toNat : Int) = fd := Int.toNat_of_nonneg (Kernel.nonneg_of_file hf)
    rw [Kernel.file_of_files (k := k) rfl, hfd]

/-- An end of the pipe after the two `fcntl()` calls on it. -/
def File.nonBlocking (f : File) : File := { f with status := f.status ||| O_NONBLOCK }

theorem Kernel.fcntl_exact {k : Kernel} {fd : Int} (hget : ¬ (k.fcntlGetfl fd).1 < 0)
    (hset : ¬ ((k.fcntlGetfl fd).2.fcntlSetfl fd
      (UInt32.ofNat (k.fcntlGetfl fd).1.toNat ||| FD_CLOEXEC ||| O_NONBLOCK)).1 < 0) :
    let k' := ((k.fcntlGetfl fd).2.fcntlSetfl fd
      (UInt32.ofNat (k.fcntlGetfl fd).1.toNat ||| FD_CLOEXEC ||| O_NONBLOCK)).2
    k'.rest = k.rest ∧ ∀ n, k'.file n = if n = fd then (k.file n).map File.nonBlocking else k.file n := by
  obtain ⟨f, hf, hk⟩ := Kernel.fcntlGetfl_exact hget
  rw [hk, Int.toNat_natCast, UInt32.ofNat_toNat] at hset ⊢
  obtain ⟨f', hf', hrest, hfile⟩ := Kernel.fcntlSetfl_exact hset
  obtain rfl : f' = f := Option.some.inj (hf'.symm.trans hf)
  refine ⟨hrest.trans (Kernel.turn_fcntl_rest k (Or.inl rfl)), fun n => (hfile n).trans ?_⟩
  rw [setfl_status]
  split
  · next hn =>
    rw [hn, hf]
    rfl
  · rfl

theorem setPipeFlags_exact (who : Owner) (fds : List Int) (w : World σ) (hnodup : fds.Nodup) :
    wp (setPipeFlags who fds) (fun r w' => r = EMResult.success.code →
      w'.plain.2 = w.plain.2 ∧ ∀ n, w'.kernel.file n =
        if n ∈ fds then (w.kernel.file n).map File.nonBlocking else w.kernel.file n)
      (fun _ _ => True) w := by
  induction fds generalizing w with
  | nil => exact fun _ => ⟨rfl, fun n => by simp⟩
  | cons fd rest ih =>
    obtain ⟨hnotin, hrest⟩ := List.nodup_cons.1 hnodup
    unfold setPipeFlags
    rw [wp_bind]
    apply wp_issue.2
    rw [wp_ite]
    refine ⟨fun _ h => absurd h (by decide), fun hget => ?_⟩
    rw [wp_bind]
    apply wp_issue.2
    rw [wp_ite]
    refine ⟨fun _ h => absurd h (by decide), fun hset => ?_⟩
    obtain ⟨hkernel, hfile⟩ := Kernel.fcntl_exact hget hset
    refine wp_mono (ih _ hrest) (fun r w' h hr => ?_) fun _ _ _ => trivial
    obtain ⟨hplain, hfiles⟩ := h hr
    refine ⟨hplain.trans ?_, fun n => (hfiles n).trans ?_⟩
    · exact congrArg (fun k => ({ w with kernel := k, log := [] } : World σ)) hkernel
    · refine (congrArg (fun f => if n ∈ rest then Option.map File.nonBlocking f else f) (hfile n)).trans ?_
      by_cases hn : n = fd
      · subst hn
        simp [hnotin]
      · simp [hn]

/-! ## The pipe -/

/-- The descriptors after `pipe()` or `pipe2()`. -/
def Kernel.pipeFile (k : Kernel) (owner : Owner) (pipe2 : Bool) (n : Int) : Option File :=
  let flag := if pipe2 then O_NONBLOCK else 0
  let ends := (k.pipe owner true).2.1
  if n = ends.2 then some ⟨k.next + 1, .pipeWrite k.next, owner, k.pipeStatus.2 ||| flag, pipe2⟩
  else if n = ends.1 then some ⟨k.next, .pipeRead k.next, owner, k.pipeStatus.1 ||| flag, pipe2⟩
  else k.file n

/-- The `fcntl()` calls make up for `pipe2()`, close-on-exec apart. -/
theorem Kernel.pipeFile_plain (k : Kernel) (owner : Owner) (n : Int) :
    (if n ∈ [(k.pipe owner true).2.1.1, (k.pipe owner true).2.1.2] then
        (k.pipeFile owner false n).map File.nonBlocking
      else k.pipeFile owner false n).map File.plain = (k.pipeFile owner true n).map File.plain := by
  simp only [Kernel.pipeFile, List.mem_cons, List.not_mem_nil, or_false]
  by_cases hw : n = (k.pipe owner true).2.1.2
  · simp [← hw, File.plain, File.nonBlocking]
  · by_cases hr : n = (k.pipe owner true).2.1.1
    · simp [hw, ← hr, File.plain, File.nonBlocking]
    · simp [hw, hr]

theorem Kernel.pipeFile_ends {k : Kernel} {owner : Owner}
    (hne : (k.pipe owner true).2.1.1 ≠ (k.pipe owner true).2.1.2) (pipe2 : Bool) :
    let flag := if pipe2 then O_NONBLOCK else 0
    k.pipeFile owner pipe2 (k.pipe owner true).2.1.1 =
        some ⟨k.next, .pipeRead k.next, owner, k.pipeStatus.1 ||| flag, pipe2⟩ ∧
      k.pipeFile owner pipe2 (k.pipe owner true).2.1.2 =
        some ⟨k.next + 1, .pipeWrite k.next, owner, k.pipeStatus.2 ||| flag, pipe2⟩ := by
  simp [Kernel.pipeFile, hne]

theorem Kernel.pipe_exact (k : Kernel) (owner : Owner) (pipe2 : Bool) (h : k.faults .pipe 0 = none) :
    let ends := (k.pipe owner true).2.1
    (k.pipe owner pipe2).1 = 0 ∧ (k.pipe owner pipe2).2.1 = ends ∧ ends.1 ≠ ends.2 ∧
      (k.pipe owner pipe2).2.2.rest = (k.pipe owner true).2.2.rest ∧
      ∀ n, (k.pipe owner pipe2).2.2.file n = k.pipeFile owner pipe2 n := by
  have hlowest : ∀ f f' : File, (k.files.put k.files.lowest (some f)).lowest =
      (k.files.put k.files.lowest (some f')).lowest := fun f f' =>
    Lib.Slots.lowest_congr fun n => by
      rw [Lib.Slots.get_put, Lib.Slots.get_put]
      split <;> rfl
  have hne : ∀ f : File, k.files.lowest ≠ (k.files.put k.files.lowest (some f)).lowest := by
    intro f heq
    have hfree := Lib.Slots.get_lowest (k.files.put k.files.lowest (some f))
    rw [← heq, Lib.Slots.get_put_self] at hfree
    cases hfree
  intro ends
  have hends : (k.pipe owner pipe2).2.1 = ends := by
    simp only [ends, Kernel.pipe, Kernel.turn, h, Kernel.openFile]
    rw [hlowest]
  refine ⟨?_, hends, ?_, ?_, fun n => ?_⟩
  · simp [Kernel.pipe, Kernel.turn, h]
  · intro heq
    simp only [ends, Kernel.pipe, Kernel.turn, h, Kernel.openFile] at heq
    exact hne _ (Int.ofNat.inj heq)
  · simp only [Kernel.pipe, Kernel.turn, h, Kernel.openFile]
    rfl
  · unfold Kernel.pipeFile
    dsimp only
    rw [show (k.pipe owner true).2.1 = (k.pipe owner pipe2).2.1 from hends.symm]
    generalize hflag : (if pipe2 then O_NONBLOCK else 0) = flag
    simp only [Kernel.pipe, Kernel.turn, h, hflag]
    let k' := (k.openFile owner (.pipeRead k.next) (k.pipeStatus.1 ||| flag) pipe2).2
    rw [Kernel.file_of_files (k := k') rfl, Kernel.file_of_files (k := k) rfl]
    rfl

/-- The world once the pipe is open with its flags. -/
def World.pipeOpened (w : World σ) (em : EMPtr) : World σ :=
  ({ w with kernel := (w.kernel.pipe (.machine em) true).2.2 } : World σ).setEM em
    { w.ems em with breakLoopPipe := (w.kernel.pipe (.machine em) true).2.1 }

/-- An end of the pipe does not block, its other flags are those of `status`, and it is closed on exec or
not. -/
def EndSet (w : World σ) (fd : Int) (status : UInt32) (cloexec : Bool) : Prop :=
  ∃ f, w.kernel.file fd = some f ∧ f.status = status ||| O_NONBLOCK ∧ f.cloexec = cloexec

/-- Both ends of the pipe of a machine. -/
def EndsSet (w : World σ) (em : EMPtr) (status : UInt32 × UInt32) (cloexec : Bool) : Prop :=
  EndSet w (w.ems em).breakLoopPipe.1 status.1 cloexec ∧ EndSet w (w.ems em).breakLoopPipe.2 status.2 cloexec

/-- Nothing keeps the build from getting through the flags of the pipe. -/
def GetsThrough (k : Kernel) (usePipe2 : Bool) : Prop :=
  k.faults .pipe 0 = none ∧ (usePipe2 = true ∨ ¬ FcntlFails k 2)

/-- What has become of opening the pipe and setting its flags in the world `w`: it is as it should be, or a
system call has failed. -/
def PipeSet (usePipe2 : Bool) (em : EMPtr) (w : World σ) (flags : UInt32) (u : World σ) : Prop :=
  (flags = EMResult.success.code ∧ GetsThrough w.kernel usePipe2 ∧
    u.plain = (w.pipeOpened em).plain ∧ EndsSet u em w.kernel.pipeStatus usePipe2) ∨
  ((flags = EMResult.errorPipe.code ∨ flags = EMResult.errorFcntl.code) ∧
    ¬ GetsThrough w.kernel usePipe2)

/-- The pipe has been opened in the world `w`, and what there is to do about its flags is still ahead. -/
structure FlagsAhead (usePipe2 : Bool) (em : EMPtr) (w u : World σ) : Prop where
  opened : w.kernel.faults .pipe 0 = none
  ends : (u.ems em).breakLoopPipe = (w.kernel.pipe (.machine em) true).2.1
  file : ∀ n, u.kernel.file n = w.kernel.pipeFile (.machine em) usePipe2 n
  rest : u.plain.2 = (w.pipeOpened em).plain.2
  faults : ∀ s, s ≠ .pipe → u.kernel.faults s = w.kernel.faults s

theorem flagsAhead_of_pipe {usePipe2 : Bool} {em : EMPtr} {w w₁ : World σ} {ret : Int} {ends : Int × Int}
    (hopened : w.kernel.faults .pipe 0 = none) (h : pipe (.machine em) usePipe2 w = .ok (ret, ends) w₁) :
    ends = (w.kernel.pipe (.machine em) true).2.1 ∧
      FlagsAhead usePipe2 em w (w₁.setEM em { w₁.ems em with breakLoopPipe := ends }) := by
  obtain ⟨-, hends, -, hrest, hfile⟩ := Kernel.pipe_exact w.kernel (.machine em) usePipe2 hopened
  have hfaults := Kernel.pipe_faults w.kernel (.machine em) usePipe2
  obtain ⟨hvalue, rfl⟩ := EStateM.Result.ok.inj h
  obtain rfl : (w.kernel.pipe (.machine em) true).2.1 = ends := hends.symm.trans (congrArg (·.2) hvalue)
  refine ⟨rfl, hopened, ?_, hfile, ?_, fun s hs => ?_⟩
  · rw [World.setEM_self]
  · exact congrArg (fun k => ({ (w.pipeOpened em) with kernel := k, log := [] } : World σ)) hrest
  · rw [← Kernel.turn_faults_of_ne w.kernel hs]
    exact congrFun hfaults s

namespace FlagsAhead
variable {usePipe2 : Bool} {em : EMPtr} {w u : World σ}

theorem fcntl (h : FlagsAhead usePipe2 em w u) : FcntlFails u.kernel 2 ↔ FcntlFails w.kernel 2 := by
  simp only [FcntlFails, h.faults .fcntlGetfl (by decide), h.faults .fcntlSetfl (by decide)]

theorem both (h : FlagsAhead usePipe2 em w u) :
    let ends := (w.kernel.pipe (.machine em) true).2.1
    let flag := if usePipe2 then O_NONBLOCK else 0
    ends.1 ≠ ends.2 ∧
      u.kernel.file ends.1 =
        some ⟨w.kernel.next, .pipeRead w.kernel.next, .machine em, w.kernel.pipeStatus.1 ||| flag,
          usePipe2⟩ ∧
      u.kernel.file ends.2 = some ⟨w.kernel.next + 1, .pipeWrite w.kernel.next, .machine em,
        w.kernel.pipeStatus.2 ||| flag, usePipe2⟩ := by
  obtain ⟨-, -, hne, -⟩ := Kernel.pipe_exact w.kernel (.machine em) true h.opened
  intro ends flag
  rw [h.file, h.file]
  exact ⟨hne, Kernel.pipeFile_ends hne usePipe2⟩

theorem pipe2 (h : FlagsAhead true em w u) : PipeSet true em w EMResult.success.code u := by
  obtain ⟨-, -, -, -, hopened⟩ := Kernel.pipe_exact w.kernel (.machine em) true h.opened
  obtain ⟨-, hread, hwrite⟩ := h.both
  refine Or.inl ⟨rfl, ⟨h.opened, Or.inl rfl⟩, Prod.ext (funext fun n => ?_) h.rest, ?_⟩
  · exact congrArg (Option.map File.plain) ((h.file n).trans (hopened n).symm)
  · unfold EndsSet EndSet
    rw [h.ends, hread, hwrite]
    exact ⟨⟨_, rfl, rfl, rfl⟩, _, rfl, rfl, rfl⟩

theorem loop (h : FlagsAhead false em w u) :
    wp (initPipeFlags false (.machine em) (w.kernel.pipe (.machine em) true).2.1)
      (PipeSet false em w) (fun _ _ => False) u := by
  obtain ⟨-, -, -, -, hopened⟩ := Kernel.pipe_exact w.kernel (.machine em) true h.opened
  obtain ⟨hne, hread, hwrite⟩ := h.both
  have hopen : ∀ fd ∈ [(w.kernel.pipe (.machine em) true).2.1.1,
      (w.kernel.pipe (.machine em) true).2.1.2], u.kernel.file fd ≠ none := by
    intro fd hfd
    simp only [List.mem_cons, List.not_mem_nil, or_false] at hfd
    rcases hfd with rfl | rfl
    · simp [hread]
    · simp [hwrite]
  have hnodup : [(w.kernel.pipe (.machine em) true).2.1.1,
      (w.kernel.pipe (.machine em) true).2.1.2].Nodup := by simp [hne]
  refine wp_mono (wp_and (initPipeFlags_spec false em _ u hopen) (setPipeFlags_exact _ _ u hnodup)) ?_
    fun _ _ h => h.1
  rintro flags u' ⟨⟨hkept, hcode⟩, hset⟩
  rw [h.fcntl] at hcode
  rcases hcode with ⟨hflags, hpass⟩ | ⟨hflags, -, hfails⟩
  · obtain ⟨hrest, hfile⟩ := hset hflags
    have hthrough : GetsThrough w.kernel false := ⟨h.opened, Or.inr (hpass.resolve_left (by decide))⟩
    refine Or.inl ⟨hflags, hthrough, Prod.ext (funext fun n => ?_) (hrest.trans h.rest), ?_⟩
    · show (u'.kernel.file n).map File.plain = ((w.kernel.pipe (.machine em) true).2.2.file n).map File.plain
      rw [hfile, h.file, hopened, Kernel.pipeFile_plain]
    · unfold EndsSet EndSet
      rw [hkept.only.ems, h.ends, hfile, hread, hfile, hwrite]
      refine ⟨⟨_, if_pos (by simp), ?_, rfl⟩, _, if_pos (by simp), ?_, rfl⟩
      · simp [File.nonBlocking]
      · simp [File.nonBlocking]
  · exact Or.inr ⟨Or.inr hflags, fun hthrough => absurd hfails (hthrough.2.resolve_left (by decide))⟩

end FlagsAhead

theorem openPipe_spec (usePipe2 : Bool) (em : EMPtr) (w : World σ) :
    wp (do
        let (ret, ends) ← pipe (.machine em) usePipe2
        if ret ≠ 0 then return EMResult.errorPipe.code
        modifyEM em fun m => { m with breakLoopPipe := ends }
        initPipeFlags usePipe2 (.machine em) ends) (PipeSet usePipe2 em w) (fun _ _ => False) w := by
  rw [wp_bind]
  refine wp_mono (wp_and (pipe_spec em usePipe2 w) (wp_self _ w)) ?_ fun _ _ h => h.1.elim
  rintro ⟨ret, ends⟩ w₁ ⟨⟨-, -, -, hcase⟩, hexec⟩
  dsimp only at hcase ⊢
  rcases hcase with ⟨rfl, hfault, -⟩ | ⟨rfl, hfault, -⟩
  · rw [if_pos (by decide)]
    exact Or.inr ⟨Or.inl rfl, fun h => hfault h.1⟩
  · rw [if_neg (by decide), wp_bind, wp_modifyEM]
    obtain ⟨rfl, hahead⟩ := flagsAhead_of_pipe hfault hexec
    cases usePipe2 with
    | true => exact hahead.pipe2
    | false => exact hahead.loop

/-! ## The function -/

/-- `event_machine_init()` up to the flags of the pipe. -/
def initPipe (usePipe2 : Bool) (em : EMPtr) : Sys σ UInt32 := do
  initEvents em
  let (ret, ends) ← pipe (.machine em) usePipe2
  if ret ≠ 0 then return EMResult.errorPipe.code
  modifyEM em fun m => { m with breakLoopPipe := ends }
  initPipeFlags usePipe2 (.machine em) ends

theorem eventMachineInit_eq (usePipe2 : Bool) (em : EMPtr) :
    (eventMachineInit usePipe2 (some em) : Sys σ UInt32) = (do
      let flags ← initPipe usePipe2 em
      if ¬ isEmSuccess flags then return flags
      initQueue em) := by
  unfold eventMachineInit initPipe
  simp only [bind_assoc]
  refine bind_congr fun _ => bind_congr fun r => ?_
  split
  · rfl
  · rw [bind_assoc]
    rfl

theorem initPipe_spec (usePipe2 : Bool) (em : EMPtr) (w : World σ) :
    wp (initPipe usePipe2 em)
      (fun flags u => ∃ w₀, initEvents em w = .ok () w₀ ∧
        ((flags = EMResult.success.code ∧ GetsThrough w.kernel usePipe2 ∧
          u.plain = (w₀.pipeOpened em).plain ∧ EndsSet u em w.kernel.pipeStatus usePipe2) ∨
        ((flags = EMResult.errorPipe.code ∨ flags = EMResult.errorFcntl.code) ∧
          ¬ GetsThrough w.kernel usePipe2)))
      (fun _ _ => False) w := by
  unfold initPipe
  rw [wp_bind]
  refine wp_mono (wp_and (initEvents_spec em w) (wp_self _ w)) ?_ fun _ _ h => h.1
  rintro ⟨⟩ w₀ ⟨⟨m, hprep⟩, hexec⟩
  refine wp_mono (openPipe_spec usePipe2 em w₀) (fun flags u h => ⟨w₀, hexec, ?_⟩) fun _ _ h => h
  have hstatus : w₀.kernel.pipeStatus = w.kernel.pipeStatus := congrArg (·.pipeStatus) hprep.core
  have hthrough : GetsThrough w₀.kernel usePipe2 ↔ GetsThrough w.kernel usePipe2 := by
    simp only [GetsThrough, FcntlFails, hprep.faults .pipe (by decide),
      hprep.faults .fcntlGetfl (by decide), hprep.faults .fcntlSetfl (by decide)]
  unfold PipeSet at h
  rwa [hstatus, hthrough] at h

theorem initQueue_code (em : EMPtr) (w : World σ) :
    wp (initQueue em) (fun r _ => r ≠ EMResult.errorPipe.code ∧ r ≠ EMResult.errorFcntl.code)
      (fun _ _ => False) w := by
  unfold initQueue
  rw [wp_bind, wp_modifyEM, wp_bind]
  apply (wp_modifyGet _).2
  rw [wp_ite]
  refine ⟨fun _ => ⟨by decide, by decide⟩, fun _ => ?_⟩
  rw [wp_bind, wp_modifyEM, wp_bind]
  refine wp_mono (eventCtl_spec _ _ _ _ _ _) (fun ret w' _ => ?_) fun _ _ h => absurd h.1 (by simp)
  rw [wp_ite]
  exact ⟨fun _ => ⟨by decide, by decide⟩, fun _ => ⟨by decide, by decide⟩⟩

/-- Open descriptors stay as they are, and so do the ends of the pipe. -/
structure PipeKept (em : EMPtr) (w w' : World σ) : Prop where
  file : ∀ n f, w.kernel.file n = some f → w'.kernel.file n = some f
  ends : (w'.ems em).breakLoopPipe = (w.ems em).breakLoopPipe

namespace PipeKept
variable {em : EMPtr}

theorem refl (w : World σ) : PipeKept em w w := ⟨fun _ _ h => h, rfl⟩

theorem trans (w w' w'' : World σ) (h : PipeKept em w w') (h' : PipeKept em w' w'') : PipeKept em w w'' :=
  ⟨fun n f hf => h'.file n f (h.file n f hf), h'.ends.trans h.ends⟩

theorem endsSet {w w' : World σ} (h : PipeKept em w w') {status : UInt32 × UInt32} {cloexec : Bool}
    (hset : EndsSet w em status cloexec) : EndsSet w' em status cloexec := by
  unfold EndsSet at hset ⊢
  rw [h.ends]
  obtain ⟨⟨r, hr, hr'⟩, x, hx, hx'⟩ := hset
  exact ⟨⟨r, h.file _ _ hr, hr'⟩, x, h.file _ _ hx, hx'⟩

theorem modifyEM {f : EM σ → EM σ} (hf : ∀ m, (f m).breakLoopPipe = m.breakLoopPipe) :
    Keeps (PipeKept em) (modifyEM em f) :=
  .of_modifyGet fun w => ⟨fun _ _ h => h, by rw [World.setEM_self, hf]⟩

theorem epollCreate (who : Owner) : Keeps (PipeKept em) (epollCreate who : Sys σ Int) := by
  refine .of_modifyGet fun w => ⟨fun n f hf => ?_, rfl⟩
  rcases Kernel.epollCreate_exact w.kernel who with ⟨-, -, hfile⟩ | ⟨-, -, hfile⟩
  · exact (hfile n).trans hf
  · refine (hfile n).trans ((if_neg fun hn => ?_).trans hf)
    rw [hn, Kernel.file_natCast, Lib.Slots.get_lowest] at hf
    cases hf

theorem epollCtl (who : Owner) (epfd : Int) (op : CtlOp) (fd : Int) (event : EpollEvent) :
    Keeps (PipeKept em) (epollCtl who epfd op fd event : Sys σ Int) :=
  .of_modifyGet fun _ => ⟨fun n _ hf => (epollCtl_file _ _ _ _ _ n).trans hf, rfl⟩

theorem eventCtl (who : Owner) (queueFd : Int) (ed : EDRef) (fd : Int) (op : CtlOp) :
    Keeps (PipeKept em) (eventCtl who queueFd ed fd op : Sys σ Int) := by
  unfold EventMachine.eventCtl
  refine .bind trans (fun w => refl w) fun w => .bind trans (epollCtl _ _ _ _ _) fun ret => ?_
  refine .ite (.of_pure refl _) (.bind trans (.of_modifyGet refl) fun errno => ?_)
  refine .ite (.of_pure refl _) ?_
  cases ed with
  | none => exact .of_throw refl _
  | some p => exact epollCtl _ _ _ _ _

theorem initQueue : Keeps (PipeKept em) (initQueue em : Sys σ UInt32) := by
  unfold EventMachine.initQueue
  refine .bind trans (modifyEM fun _ => rfl) fun _ => .bind trans (epollCreate _) fun queueFd => ?_
  refine .ite (.of_pure refl _) (.bind trans (modifyEM fun _ => rfl) fun _ => ?_)
  exact .bind trans (eventCtl _ _ _ _ _) fun ret => .ite (.of_pure refl _) (.of_pure refl _)

end PipeKept

theorem init_through (usePipe2 : Bool) (em : EMPtr) (w : World σ) :
    wp (eventMachineInit usePipe2 (some em))
      (fun r w' => (GetsThrough w.kernel usePipe2 ∧ r ≠ EMResult.errorPipe.code ∧
          r ≠ EMResult.errorFcntl.code ∧ EndsSet w' em w.kernel.pipeStatus usePipe2 ∧
          ∃ w₀ u, initEvents em w = .ok () w₀ ∧ u.plain = (w₀.pipeOpened em).plain ∧
            initQueue em u = .ok r w') ∨
        (¬ GetsThrough w.kernel usePipe2 ∧
          (r = EMResult.errorPipe.code ∨ r = EMResult.errorFcntl.code)))
      (fun _ _ => False) w := by
  rw [eventMachineInit_eq, wp_bind]
  refine wp_mono (initPipe_spec usePipe2 em w) ?_ fun _ _ h => h
  rintro flags u ⟨w₀, hexec, ⟨rfl, hthrough, hplain, hset⟩ | ⟨hflags, hfails⟩⟩
  · rw [if_neg (by decide)]
    refine wp_mono (wp_and (initQueue_code em u) (wp_self _ u)) (fun r w' h => Or.inl ?_) fun _ _ h => h.1
    obtain ⟨⟨hpipe, hfcntl⟩, hqueue⟩ := h
    exact ⟨hthrough, hpipe, hfcntl, (PipeKept.initQueue.ok hqueue).endsSet hset,
      w₀, u, hexec, hplain, hqueue⟩
  · have hfail : ¬ isEmSuccess flags := by rcases hflags with rfl | rfl <;> decide
    rw [if_pos hfail]
    exact Or.inr ⟨hfails, hflags⟩

/-! ## Both builds -/

/-- When the build with `fcntl()` gets through its loop, the ends of its pipe are as they should be (with
the close-on-exec flag `cloexec`) and so are those of the other build, and both return the same code and
leave the same machines and the same interest sets. -/
def BuildsAgree (w : World σ) (em : EMPtr) (cloexec : Bool) : Prop :=
  ∀ r w₁ r' w₂, eventMachineInit false (some em) w = .ok r w₁ →
    eventMachineInit true (some em) w = .ok r' w₂ →
    r ≠ EMResult.errorPipe.code → r ≠ EMResult.errorFcntl.code →
    EndsSet w₁ em w.kernel.pipeStatus cloexec ∧ EndsSet w₂ em w.kernel.pipeStatus true ∧
      r = r' ∧ w₁.ems = w₂.ems ∧ w₁.kernel.interest = w₂.kernel.interest

/-- The read end of the pipe is not closed on exec when the build with `fcntl()` gets through. -/
theorem builds_disagree {w : World σ} {em : EMPtr} (hthrough : GetsThrough w.kernel false) :
    ¬ BuildsAgree w em true := by
  intro h
  obtain ⟨r, w₁, hfalse, hcase⟩ := wp_total (init_through false em w)
  obtain ⟨r', w₂, htrue, -⟩ := wp_total (init_through true em w)
  obtain ⟨-, hpipe, hfcntl, hset, -⟩ := hcase.resolve_right fun hr => hr.1 hthrough
  have hset' := (h r w₁ r' w₂ hfalse htrue hpipe hfcntl).1
  obtain ⟨f, hf, -, hcloexec⟩ := hset.1
  obtain ⟨f', hf', -, hcloexec'⟩ := hset'.1
  obtain rfl : f = f' := Option.some.inj (hf.symm.trans hf')
  exact absurd (hcloexec.symm.trans hcloexec') (by decide)

/-- The two builds agree, except that the one with `fcntl()` never sets close-on-exec: the agreement with
it holds only where the loop is not left at its end. -/
theorem builds_agree_iff (w : World σ) (em : EMPtr) :
    BuildsAgree w em false ∧
      (BuildsAgree w em true ↔ w.kernel.faults .pipe 0 ≠ none ∨ FcntlFails w.kernel 2) := by
  have hagree : BuildsAgree w em false := by
    intro r w₁ r' w₂ hfalse htrue hpipe hfcntl
    rcases wp_ok (init_through false em w) hfalse with
      ⟨hthrough, -, -, hset, w₀, u, hw₀, hu, hqueue⟩ | ⟨-, hr⟩
    · rcases wp_ok (init_through true em w) htrue with
        ⟨-, -, -, hset', w₀', u', hw₀', hu', hqueue'⟩ | ⟨hfails, -⟩
      · obtain ⟨-, rfl⟩ := EStateM.Result.ok.inj (hw₀.symm.trans hw₀')
        -- the same calls, in two worlds that look the same to them
        obtain ⟨v, hv, hplain⟩ := (initQueue_blind em).ok (hu.trans hu'.symm) hqueue
        obtain ⟨rfl, rfl⟩ := EStateM.Result.ok.inj (hqueue'.symm.trans hv)
        exact ⟨hset, hset', rfl, congrArg (·.2.ems) hplain, congrArg (·.2.kernel.interest) hplain⟩
      · exact absurd ⟨hthrough.1, Or.inl rfl⟩ hfails
    · exact absurd hr (not_or.2 ⟨hpipe, hfcntl⟩)
  refine ⟨hagree, fun h => ?_, fun h r w₁ r' w₂ hfalse htrue hpipe hfcntl => ?_⟩
  · by_contra hnot
    rw [not_or, not_not] at hnot
    exact builds_disagree ⟨hnot.1, Or.inr hnot.2⟩ h
  · rcases wp_ok (init_through false em w) hfalse with ⟨hthrough, -⟩ | ⟨-, hr⟩
    · rcases h with h | h
      · exact absurd hthrough.1 h
      · exact absurd h (hthrough.2.resolve_left (by decide))
    · exact absurd hr (not_or.2 ⟨hpipe, hfcntl⟩)

/-- A static machine in a program whose system calls do not fail. -/
def pipeWorld : World Unit := World.start (emStaticWithMaxEvents Unit 16 none) () fun _ _ => none

theorem not_builds_agree : ¬ ∀ w : World Unit, ∀ em : EMPtr, BuildsAgree w em true := by
  intro h
  have hpass : ¬ FcntlFails pipeWorld.kernel 2 := by
    rintro ⟨i, -, hget | hset⟩
    · exact hget rfl
    · exact hset rfl
  exact builds_disagree ⟨rfl, Or.inr hpass⟩ (h pipeWorld 0)

end EventMachine
