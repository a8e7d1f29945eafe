import EventMachine.Proof.Kernel

/-!
# What a call leaves alone

Relations between the worlds before and after a call: `Same` for calls without effect, `KernelOnly`
for calls that change nothing but the kernel, and `Records` for the system calls they have issued.
-/

namespace EventMachine

open Lib

variable {σ : Type}

namespace World

/-- The world without what every system call may change. -/
def core (w : World σ) : World σ := { w with kernel := w.kernel.core, log := [] }

/-- Change one entry of one interest set. -/
def setInterest (w : World σ) (q : ObjId) (fd : Int) (e : Option EpollEvent) : World σ :=
  { w with kernel := w.kernel.setInterest q fd e }

/-- Change the state of the storage. -/
def setStorage (w : World σ) (s : σ) : World σ := { w with storage := s }

theorem kernel_core {w w' : World σ} (h : w'.core = w.core) : w'.kernel.core = w.kernel.core :=
  congrArg (·.kernel) h

theorem ems_congr {w w' : World σ} (h : w'.core = w.core) : w'.ems = w.ems :=
  congrArg (·.ems) h

theorem storage_congr {w w' : World σ} (h : w'.core = w.core) : w'.storage = w.storage :=
  congrArg (·.storage) h

theorem interest_congr {w w' : World σ} (h : w'.core = w.core) :
    w'.kernel.interest = w.kernel.interest :=
  Kernel.interest_congr (kernel_core h)

theorem file_congr {w w' : World σ} (h : w'.core = w.core) (fd : Int) :
    w'.kernel.file fd = w.kernel.file fd :=
  Kernel.file_congr (kernel_core h) fd

theorem ed_core (w : World σ) (p : EDPtr) : w.core.ed p = w.ed p := by
  cases p <;> rfl

theorem ed_congr {w w' : World σ} (h : w'.core = w.core) (p : EDPtr) : w'.ed p = w.ed p := by
  rw [← ed_core, h, ed_core]

theorem setInterest_congr {w w' : World σ} (h : w'.core = w.core) (q : ObjId) (fd : Int)
    (e : Option EpollEvent) : (w'.setInterest q fd e).core = (w.setInterest q fd e).core := by
  show ({ w'.core with kernel := w'.core.kernel.setInterest q fd e } : World σ) = _
  rw [h]
  rfl

@[simp] theorem ed_entries (w : World σ) (q : ObjId) (fd : Int) (e : Option EpollEvent) (s : σ)
    (p : EDPtr) : ((w.setInterest q fd e).setStorage s).ed p = w.ed p := by
  cases p <;> rfl

theorem setStorage_congr {w w' : World σ} (h : w'.core = w.core) (s : σ) :
    (w'.setStorage s).core = (w.setStorage s).core := by
  show ({ w'.core with storage := s } : World σ) = _
  rw [h]
  rfl

end World

/-- Two worlds that differ at most in what every system call may change. -/
structure Same (w w' : World σ) : Prop where
  core : w'.core = w.core
  faultFree : w.kernel.FaultFree → w'.kernel.FaultFree

theorem Same.refl (w : World σ) : Same w w := ⟨rfl, id⟩

theorem Same.trans {w w' w'' : World σ} (h : Same w w') (h' : Same w' w'') : Same w w'' :=
  ⟨h'.core.trans h.core, fun hf => h'.faultFree (h.faultFree hf)⟩

/-- Only the kernel has changed, and system calls have been recorded. -/
def KernelOnly (w w' : World σ) : Prop := { w' with kernel := w.kernel, log := w.log } = w

theorem KernelOnly.refl (w : World σ) : KernelOnly w w := rfl

theorem KernelOnly.trans {w w' w'' : World σ} (h : KernelOnly w w') (h' : KernelOnly w' w'') :
    KernelOnly w w'' := by
  unfold KernelOnly at h h' ⊢
  rw [← h, ← h']

theorem KernelOnly.ems {w w' : World σ} (h : KernelOnly w w') : w'.ems = w.ems :=
  congrArg (·.ems) h

theorem KernelOnly.ed {w w' : World σ} (h : KernelOnly w w') (p : EDPtr) : w'.ed p = w.ed p := by
  have hed := congrArg (·.ed p) h
  cases p <;> exact hed

theorem KernelOnly.of_core {w w' : World σ} {k : Kernel}
    (h : w'.core = ({ w with kernel := k } : World σ).core) : KernelOnly w w' := by
  unfold KernelOnly
  exact congrArg (fun v : World σ => { v with kernel := w.kernel, log := w.log }) h

/-- The system calls issued between `w` and `w'` all satisfy `P`. -/
def Records (P : SysRecord → Prop) (w w' : World σ) : Prop :=
  ∃ l, w'.log = w.log ++ l ∧ ∀ x ∈ l, P x

namespace Records
variable {P P' : SysRecord → Prop} {w w' w'' : World σ}

theorem of_log_eq (h : w'.log = w.log) : Records P w w' := ⟨[], by rw [h, List.append_nil], by simp⟩

theorem refl (w : World σ) : Records P w w := .of_log_eq rfl

theorem of_one {x : SysRecord} (h : w'.log = w.log ++ [x]) (hx : P x) : Records P w w' :=
  ⟨[x], h, by simpa using hx⟩

theorem trans (h : Records P w w') (h' : Records P w' w'') : Records P w w'' := by
  obtain ⟨l, hl, hP⟩ := h
  obtain ⟨l', hl', hP'⟩ := h'
  refine ⟨l ++ l', by rw [hl', hl, List.append_assoc], fun x hx => ?_⟩
  rcases List.mem_append.1 hx with hx | hx
  · exact hP x hx
  · exact hP' x hx

theorem mono (h : Records P w w') (hP : ∀ x, P x → P' x) : Records P' w w' := by
  obtain ⟨l, hl, hl'⟩ := h
  exact ⟨l, hl, fun x hx => hP x (hl' x hx)⟩

theorem mem (h : Records P w w') {l : List SysRecord} (hl : w'.log = w.log ++ l) : ∀ x ∈ l, P x := by
  obtain ⟨l', hl', hP⟩ := h
  rwa [List.append_cancel_left (hl.symm.trans hl')]

end Records

/-! ## System calls -/

/-- The world after a system call on one descriptor. -/
def World.issued (w : World σ) (who : Owner) (call : Syscall) (fd : Int)
    (f : Kernel → Int × Kernel) : World σ :=
  { w with kernel := (f w.kernel).2
           log := w.log ++ [⟨who, call, fd, w.kernel.file fd, none, (f w.kernel).1⟩] }

theorem wp_issue {who : Owner} {call : Syscall} {fd : Int} {f : Kernel → Int × Kernel} {w : World σ}
    {Q : Int → World σ → Prop} {E : Crash → World σ → Prop} :
    wp (issue who call fd f) Q E w ↔ Q (f w.kernel).1 (w.issued who call fd f) := Iff.rfl

theorem World.issued_kernelOnly (w : World σ) (who : Owner) (call : Syscall) (fd : Int)
    (f : Kernel → Int × Kernel) : KernelOnly w (w.issued who call fd f) := rfl

theorem World.issued_records {P : SysRecord → Prop} {w : World σ} {who : Owner} {call : Syscall}
    {fd : Int} {f : Kernel → Int × Kernel}
    (h : P ⟨who, call, fd, w.kernel.file fd, none, (f w.kernel).1⟩) :
    Records P w (w.issued who call fd f) := .of_one rfl h

end EventMachine
