import EventMachine.Proof.Registration

/-!
# The old descriptor

`event_machine_delete()` and `event_machine_modify()` hand the descriptor they have taken out of the
storage to the caller, through a pointer to one of the caller's variables. When there is none,
`event-machine.h` promises `NULL`; `remove_event_descriptor()` assigns only what `remove` handed out, and
leaves the variable as it was otherwise. The two agree when there is a descriptor to hand out, or when
the caller has cleared the variable (`old_descriptor_iff`).
-/

namespace EventMachine

open Lib

variable {σ : Type}

/-- What the storage hands out when the entry of `fd` is removed: `NULL` when there is no callback, or
when it leaves its argument alone. -/
def EMDescriptorStorage.handedOut (s : EMDescriptorStorage σ) (fd : Int) (st : σ) : EDRef :=
  (s.removeEntry fd st).2.1

/-- The number whose entry a call takes out of the storage. -/
def RegCall.removes : RegCall → Option Int
  | .add _ => none
  | .delete fd _ => some fd
  | .modify fd _ _ => some fd

/-- A call that reports success leaves in the caller's variable what the storage has handed out. -/
def OldDescriptorDefined (w : World σ) (em : EMRef) (c : RegCall) : Prop :=
  ∀ m fd r w', em = some m → c.removes = some fd → c.oldEd ≠ none →
    c.exec em w = .ok r w' → r.1 = EMResult.success.code →
    r.2 = some ((w.ems m).descriptorStorage.handedOut fd w.storage)

/-- Nothing makes the call fail: not its checks, not the kernel, and not the storage. -/
def Succeeds (w : World σ) (em : EMPtr) (c : RegCall) : Prop :=
  Reaches w em (c.change w em) ∧ ((c.change w em).store w.storage).1.1 = EMResult.success.code

theorem Outcome.success_iff_succeeds {w w' : World σ} {em : EMPtr} {c : RegCall} {r : UInt32 × OutVar}
    (h : Outcome w em (c.change w em) c.oldEd r w') : r.1 = EMResult.success.code ↔ Succeeds w em c := by
  cases h with
  | refused why => exact iff_of_false why.ne_success fun h => why.not_reaches h.1
  | done q can code core faultFree reached =>
    rw [code]
    exact ⟨fun hr => ⟨reached, hr⟩, fun h => h.2⟩

theorem RegCall.store_oldEd {w : World σ} {em : EMPtr} {c : RegCall} {fd : Int} (hfd : c.removes = some fd)
    (st : σ) : ((c.change w em).store st).1.2 =
      assignOld ((w.ems em).descriptorStorage.handedOut fd st) c.oldEd := by
  cases c with
  | add ed => cases hfd
  | delete n oldEd =>
    obtain rfl := Option.some.inj hfd
    rfl
  | modify n ed oldEd =>
    obtain rfl := Option.some.inj hfd
    simp only [change, modifyChange]
    split <;> rfl

/-- The assignment of `remove_event_descriptor()` leaves the variable right when there is something to
assign, or when the variable is `NULL` anyway. -/
theorem assignOld_eq_iff (tmpEd old : EDRef) :
    assignOld tmpEd (some old) = some tmpEd ↔ tmpEd ≠ none ∨ old = none := by
  cases tmpEd with
  | none => simp [assignOld]
  | some p => simp [assignOld]

/-- The caller's variable is right after a successful call exactly when the storage has a descriptor to
hand out, or the variable was `NULL` before the call. -/
theorem old_descriptor_iff (w : World σ) (em : EMRef) (c : RegCall) :
    OldDescriptorDefined w em c ↔
      ∀ m fd old, em = some m → c.removes = some fd → c.oldEd = some old → Succeeds w m c →
        (w.ems m).descriptorStorage.handedOut fd w.storage ≠ none ∨ old = none := by
  constructor
  · intro h m fd old hem hfd hold hsucceeds
    subst hem
    obtain ⟨r, w', hexec, hout⟩ := wp_total (c.spec w m)
    have hr := hout.success_iff_succeeds.2 hsucceeds
    have hdefined := h m fd r w' rfl hfd (by simp [hold]) hexec hr
    obtain ⟨q, -, hcode, -⟩ := hout.of_success hr
    rw [hcode, RegCall.store_oldEd hfd, hold] at hdefined
    exact (assignOld_eq_iff _ _).1 hdefined
  · intro h m fd r w' hem hfd hnonnull hexec hr
    subst hem
    obtain ⟨old, hold⟩ := Option.ne_none_iff_exists'.1 hnonnull
    have hout := wp_ok (c.spec w m) hexec
    have hcond := h m fd old rfl hfd hold (hout.success_iff_succeeds.1 hr)
    obtain ⟨q, -, hcode, -⟩ := hout.of_success hr
    rw [hcode, RegCall.store_oldEd hfd, hold]
    exact (assignOld_eq_iff _ _).2 hcond

/-- Without a storage, a successful delete leaves in the caller's variable what was there before. -/
theorem not_old_descriptor_defined :
    ¬ ∀ (w : World Unit) (em : EMRef) (c : RegCall), OldDescriptorDefined w em c := by
  intro h
  have hdefined := h (registeredWorld ⟨none, none, 0, .null⟩ ()) (some 0)
    (.delete 1 (some (some (.obj 7)))) 0 1 _ _ rfl rfl (by decide) rfl (by decide)
  exact absurd hdefined (by decide)

end EventMachine
