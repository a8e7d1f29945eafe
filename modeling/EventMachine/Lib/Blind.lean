import EventMachine.Lib.Wp

/-!
# Programs that do not see all of the state

`e` says what of a state can be seen. A program is blind to the rest (`Blind e x`) when its result, and
what can be seen of the state it leaves, depend on what can be seen of the state it starts in. Blind
programs compose, so that two runs of one program from states that look the same end alike (`Blind.ok`).
-/

namespace EventMachine.Lib

variable {ε σ τ α β : Type}

/-- What can be seen of an outcome. -/
def seen (e : σ → τ) : EStateM.Result ε σ α → EStateM.Result ε τ α
  | .ok a s => .ok a (e s)
  | .error c s => .error c (e s)

/-- The program does not depend on what `e` hides. -/
def Blind (e : σ → τ) (x : EStateM ε σ α) : Prop :=
  ∀ s t, e s = e t → seen e (x s) = seen e (x t)

namespace Blind
variable {e : σ → τ}

theorem of_pure (a : α) : Blind e (pure a : EStateM ε σ α) :=
  fun _ _ h => congrArg (EStateM.Result.ok a) h

theorem of_throw (c : ε) : Blind e (throw c : EStateM ε σ α) :=
  fun _ _ h => congrArg (EStateM.Result.error c) h

theorem of_modifyGet {f : σ → α × σ} (h : ∀ s t, e s = e t → (f s).1 = (f t).1 ∧ e (f s).2 = e (f t).2) :
    Blind e (modifyGet f : EStateM ε σ α) := by
  intro s t hst
  obtain ⟨hvalue, hstate⟩ := h s t hst
  show EStateM.Result.ok (f s).1 (e (f s).2) = .ok (f t).1 (e (f t).2)
  rw [hvalue, hstate]

theorem bind {x : EStateM ε σ β} {f : β → EStateM ε σ α} (hx : Blind e x) (hf : ∀ b, Blind e (f b)) :
    Blind e (x >>= f) := by
  intro s t hst
  have hseen := hx s t hst
  show seen e (EStateM.bind x f s) = seen e (EStateM.bind x f t)
  unfold EStateM.bind
  cases hs : x s with
  | ok a s' =>
    cases ht : x t with
    | ok b t' =>
      rw [hs, ht] at hseen
      obtain ⟨rfl, hst'⟩ := EStateM.Result.ok.inj hseen
      exact hf a s' t' hst'
    | error c t' =>
      rw [hs, ht] at hseen
      cases hseen
  | error c s' =>
    cases ht : x t with
    | ok b t' =>
      rw [hs, ht] at hseen
      cases hseen
    | error d t' =>
      rw [hs, ht] at hseen
      obtain ⟨rfl, hst'⟩ := EStateM.Result.error.inj hseen
      exact congrArg (EStateM.Result.error c) hst'

theorem get_bind {f : σ → EStateM ε σ α} (hf : ∀ s t, e s = e t → f s = f t)
    (hblind : ∀ s, Blind e (f s)) : Blind e (get >>= f) := by
  intro s t hst
  show seen e (f s s) = seen e (f t t)
  rw [hf s t hst]
  exact hblind t s t hst

theorem ite {c : Prop} [Decidable c] {x y : EStateM ε σ α} (hx : Blind e x) (hy : Blind e y) :
    Blind e (if c then x else y) := by
  split
  · exact hx
  · exact hy

theorem ok {x : EStateM ε σ α} (hx : Blind e x) {s t s' : σ} {a : α} (hst : e s = e t)
    (hs : x s = .ok a s') : ∃ t', x t = .ok a t' ∧ e s' = e t' := by
  have hseen := hx s t hst
  rw [hs] at hseen
  cases ht : x t with
  | ok b t' =>
    rw [ht] at hseen
    obtain ⟨rfl, hst'⟩ := EStateM.Result.ok.inj hseen
    exact ⟨t', rfl, hst'⟩
  | error c t' =>
    rw [ht] at hseen
    cases hseen

end Blind

end EventMachine.Lib
