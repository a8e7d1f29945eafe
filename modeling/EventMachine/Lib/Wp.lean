import Mathlib.Tactic.Common

/-!
# Reasoning about stateful programs that may crash

`wp x Q E s` says where a program `x` of the core monad `EStateM` may end when it starts in `s`: with
a value and a state that satisfy `Q`, or with an exception and a state that satisfy `E`. The rules
below compute it along the program text (`wp_bind`, `wp_pure`, ...), so that a goal about a program
becomes a goal about its calls. `Keeps R x` is the special case of a relation `R` between the first
and the last state, whichever way the program ends; for a reflexive and transitive `R` it composes.
-/

namespace EventMachine.Lib

variable {ε σ α β : Type}

/-- Where `x` may end when it starts in `s`. -/
def wp (x : EStateM ε σ α) (Q : α → σ → Prop) (E : ε → σ → Prop) (s : σ) : Prop :=
  match x s with
  | .ok a t => Q a t
  | .error e t => E e t

/-- The state in which `x` ends when it starts in `s`. -/
def final (x : EStateM ε σ α) (s : σ) : σ :=
  match x s with
  | .ok _ t => t
  | .error _ t => t

section rules
variable {Q : α → σ → Prop} {E : ε → σ → Prop} {s : σ}

theorem wp_pure (a : α) : wp (pure a : EStateM ε σ α) Q E s ↔ Q a s := Iff.rfl

theorem wp_bind (x : EStateM ε σ β) (f : β → EStateM ε σ α) :
    wp (x >>= f) Q E s ↔ wp x (fun b t => wp (f b) Q E t) E s := by
  show wp (EStateM.bind x f) Q E s ↔ _
  unfold wp EStateM.bind
  cases x s <;> rfl

theorem wp_get {Q : σ → σ → Prop} : wp (get : EStateM ε σ σ) Q E s ↔ Q s s := Iff.rfl

theorem wp_modifyGet (f : σ → α × σ) :
    wp (modifyGet f : EStateM ε σ α) Q E s ↔ Q (f s).1 (f s).2 := Iff.rfl

theorem wp_ite (c : Prop) [Decidable c] (x y : EStateM ε σ α) :
    wp (if c then x else y) Q E s ↔ (c → wp x Q E s) ∧ (¬ c → wp y Q E s) := by
  split
  · next h => simp [h]
  · next h => simp [h]

end rules

theorem wp_mono {x : EStateM ε σ α} {Q Q' : α → σ → Prop} {E E' : ε → σ → Prop} {s : σ}
    (h : wp x Q E s) (hQ : ∀ a t, Q a t → Q' a t) (hE : ∀ e t, E e t → E' e t) :
    wp x Q' E' s := by
  unfold wp at h ⊢
  cases hx : x s with
  | ok a t => rw [hx] at h; exact hQ a t h
  | error e t => rw [hx] at h; exact hE e t h

theorem wp_self (x : EStateM ε σ α) (s : σ) :
    wp x (fun a t => x s = .ok a t) (fun e t => x s = .error e t) s := by
  unfold wp
  cases x s <;> rfl

theorem wp_ok {x : EStateM ε σ α} {Q : α → σ → Prop} {E : ε → σ → Prop} {s : σ}
    (h : wp x Q E s) {a : α} {t : σ} (hx : x s = .ok a t) : Q a t := by
  simpa [wp, hx] using h

theorem wp_error {x : EStateM ε σ α} {Q : α → σ → Prop} {E : ε → σ → Prop} {s : σ}
    (h : wp x Q E s) {e : ε} {t : σ} (hx : x s = .error e t) : E e t := by
  simpa [wp, hx] using h

theorem wp_eq_ok {x : EStateM ε σ α} {Q : α → σ → Prop} {E : ε → σ → Prop} {s : σ} {a : α} {t : σ}
    (hx : x s = .ok a t) : wp x Q E s ↔ Q a t := by
  simp [wp, hx]

theorem wp_and {x : EStateM ε σ α} {Q Q' : α → σ → Prop} {E E' : ε → σ → Prop} {s : σ}
    (h : wp x Q E s) (h' : wp x Q' E' s) :
    wp x (fun a t => Q a t ∧ Q' a t) (fun e t => E e t ∧ E' e t) s := by
  unfold wp at h h' ⊢
  cases hx : x s <;> rw [hx] at h h' <;> exact ⟨h, h'⟩

/-- A program that cannot crash ends with a value. -/
theorem wp_total {x : EStateM ε σ α} {Q : α → σ → Prop} {s : σ}
    (h : wp x Q (fun _ _ => False) s) : ∃ a t, x s = .ok a t ∧ Q a t := by
  unfold wp at h
  cases hx : x s with
  | ok a t => exact ⟨a, t, rfl, by simpa only [hx] using h⟩
  | error e t => exact absurd h (by simp [hx])

/-! ## Relations between the first and the last state -/

/-- Every run of `x` leads from a state to an `R`-related one. -/
def Keeps (R : σ → σ → Prop) (x : EStateM ε σ α) : Prop :=
  ∀ s, wp x (fun _ t => R s t) (fun _ t => R s t) s

namespace Keeps
variable {R : σ → σ → Prop}

theorem of_pure (hR : ∀ s, R s s) (a : α) : Keeps R (pure a : EStateM ε σ α) :=
  fun s => (wp_pure a).2 (hR s)

theorem of_throw (hR : ∀ s, R s s) (e : ε) : Keeps R (throw e : EStateM ε σ α) := fun s => hR s

theorem of_modifyGet {f : σ → α × σ} (h : ∀ s, R s (f s).2) :
    Keeps R (modifyGet f : EStateM ε σ α) := fun s => h s

theorem bind (hR : ∀ s t u, R s t → R t u → R s u) {x : EStateM ε σ β} {f : β → EStateM ε σ α}
    (hx : Keeps R x) (hf : ∀ b, Keeps R (f b)) : Keeps R (x >>= f) := by
  intro s
  rw [wp_bind]
  refine wp_mono (hx s) (fun b t hst => ?_) (fun _ _ h => h)
  exact wp_mono (hf b t) (fun _ _ h => hR _ _ _ hst h) (fun _ _ h => hR _ _ _ hst h)

theorem ite {c : Prop} [Decidable c] {x y : EStateM ε σ α} (hx : Keeps R x) (hy : Keeps R y) :
    Keeps R (if c then x else y) := by
  split
  · exact hx
  · exact hy

theorem ok {x : EStateM ε σ α} (h : Keeps R x) {s t : σ} {a : α} (hx : x s = .ok a t) : R s t :=
  wp_ok (h s) hx

theorem error {x : EStateM ε σ α} (h : Keeps R x) {s t : σ} {e : ε} (hx : x s = .error e t) :
    R s t :=
  wp_error (h s) hx

end Keeps

end EventMachine.Lib
