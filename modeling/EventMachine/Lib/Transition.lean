import Mathlib.Data.List.Induction
import Mathlib.Tactic.Common

/-!
# Runs of a transition relation

`Steps step s as t` says that the labels `as` lead from `s` to `t`. What every step preserves, every
run preserves (`Steps.invariant`); what a step preserves under a condition only, a run preserves exactly
when its steps meet it (`Steps.prefixes_iff`). The steps of one party, made without those of the others,
lead to the same observations exactly as long as no step of another one is observed
(`Steps.alone_iff`). A history variable (`history`) is a second component that follows the run without
influencing it.
-/

namespace EventMachine.Lib

variable {S A G : Type*}

/-- The finite runs of a transition relation. -/
inductive Steps (step : S → A → S → Prop) : S → List A → S → Prop
  | nil (s : S) : Steps step s [] s
  | cons {s t u : S} {a : A} {as : List A} (h : step s a t) (hs : Steps step t as u) :
      Steps step s (a :: as) u

namespace Steps
variable {step step' : S → A → S → Prop} {s t u : S} {a : A} {as bs : List A}

theorem append (h : Steps step s as t) (h' : Steps step t bs u) : Steps step s (as ++ bs) u := by
  induction h with
  | nil s => exact h'
  | cons h _ ih => exact .cons h (ih h')

/-- What every step preserves holds at the end of a run if it holds at its beginning. -/
theorem invariant {I : S → Prop} (h : Steps step s as t)
    (hstep : ∀ s a t, I s → step s a t → I t) (hs : I s) : I t := by
  induction h with
  | nil s => exact hs
  | cons h _ ih => exact ih (hstep _ _ _ hs h)

theorem invariant_mem {I : S → Prop} (h : Steps step s as t)
    (hstep : ∀ s a t, a ∈ as → I s → step s a t → I t) (hs : I s) : I t := by
  induction h with
  | nil s => exact hs
  | @cons s t u a as h _ ih =>
    apply ih fun s b t hb => hstep s b t (List.mem_cons_of_mem a hb)
    exact hstep s a t List.mem_cons_self hs h

theorem split (h : Steps step s (as ++ bs) u) : ∃ t, Steps step s as t ∧ Steps step t bs u := by
  induction as generalizing s with
  | nil => exact ⟨s, .nil s, h⟩
  | cons a as ih =>
    cases h with
    | cons hstep hs =>
      obtain ⟨t, has, hbs⟩ := ih hs
      exact ⟨t, .cons hstep has, hbs⟩

theorem unique (hstep : ∀ s a t t', step s a t → step s a t' → t = t') (h : Steps step s as t)
    (h' : Steps step s as u) : t = u := by
  induction h with
  | nil s => cases h'; rfl
  | cons h₁ _ ih =>
    cases h' with
    | cons h₂ hs => exact ih (hstep _ _ _ _ h₂ h₁ ▸ hs)

/-- Where an invariant of the steps makes them steps of another relation, runs are runs of that one. -/
theorem mono_of_invariant {I : S → Prop} (h : Steps step s as t)
    (hinv : ∀ s a t, I s → step s a t → I t) (hstep : ∀ s a t, I s → step s a t → step' s a t)
    (hs : I s) : Steps step' s as t := by
  induction h with
  | nil s => exact .nil s
  | cons h _ ih => exact .cons (hstep _ _ _ hs h) (ih (hinv _ _ _ hs h))

theorem mono (h : Steps step s as t) (hstep : ∀ s a t, step s a t → step' s a t) :
    Steps step' s as t :=
  h.mono_of_invariant (I := fun _ => True) (fun _ _ _ _ _ => trivial) (fun s a t _ => hstep s a t)
    trivial

/-- A property of the states of a run and the labels that lead to them, which passes over a step
exactly when the step meets the condition `C`, holds along the run exactly when all its steps meet `C`. -/
theorem prefixes_iff (hstep : ∀ s a t t', step s a t → step s a t' → t = t') (h : Steps step s as u)
    {P : List A → S → Prop} {C : S → A → Prop} (h₀ : P [] s)
    (hP : ∀ as₁ a as₂ t t', as = as₁ ++ a :: as₂ → Steps step s as₁ t → step t a t' → P as₁ t →
      (P (as₁ ++ [a]) t' ↔ C t a)) :
    (∀ as₁ as₂ t, as = as₁ ++ as₂ → Steps step s as₁ t → P as₁ t) ↔
      ∀ as₁ a as₂ t, as = as₁ ++ a :: as₂ → Steps step s as₁ t → C t a := by
  constructor
  · intro hall as₁ a as₂ t has ht
    have hpt := hall as₁ _ t has ht
    rw [has] at h
    obtain ⟨t', ht', hrest⟩ := h.split
    obtain rfl : t' = t := ht'.unique hstep ht
    cases hrest with
    | cons ha _ =>
      apply (hP as₁ a as₂ _ _ has ht ha hpt).1
      exact hall (as₁ ++ [a]) as₂ _ (by simp [has]) (ht.append (.cons ha (.nil _)))
  · intro hC as₁
    -- induction on the prefix, from its end
    induction as₁ using List.reverseRecOn with
    | nil =>
      intro as₂ t _ ht
      cases ht
      exact h₀
    | append_singleton as₁ a ih =>
      intro as₂ t has ht
      obtain ⟨t', ht', hlast⟩ := ht.split
      rw [List.append_assoc] at has
      cases hlast with
      | cons ha hnil =>
        cases hnil
        exact (hP as₁ a as₂ t' _ has ht' ha (ih _ t' has ht')).2 (hC as₁ a as₂ t' has ht')

end Steps

/-! ## The steps of one party -/

section alone
variable {step : S → A → S → Prop} {K V : S → S → Prop} {s t u v : S} {as : List A}

/-- A relation that own steps on both sides keep, and steps of others on one side, holds between what a
run leads to and what its own steps lead to when they are made alone. -/
theorem Steps.alone_related (own : A → Bool)
    (hown : ∀ v t a v' t', a ∈ as → own a = true → K v t → step v a v' → step t a t' → K v' t')
    (hother : ∀ v t a t', a ∈ as → own a = false → K v t → step t a t' → K v t')
    (h : Steps step t as u) {w : S} (hv : Steps step v (as.filter own) w) (hK : K v t) : K w u := by
  induction h generalizing v with
  | nil t =>
    cases hv
    exact hK
  | @cons t t' u a as ha _ ih =>
    have hown' := fun v t b v' t' hb => hown v t b v' t' (List.mem_cons_of_mem a hb)
    have hother' := fun v t b t' hb => hother v t b t' (List.mem_cons_of_mem a hb)
    have hmem : a ∈ a :: as := List.mem_cons_self
    cases hmine : own a with
    | true =>
      rw [List.filter_cons_of_pos hmine] at hv
      cases hv with
      | cons ha' hv => exact ih hown' hother' hv (hown _ _ _ _ _ hmem hmine hK ha' ha)
    | false =>
      rw [List.filter_cons_of_neg (by simp [hmine])] at hv
      exact ih hown' hother' hv (hother _ _ _ _ hmem hmine hK ha)

/-- The own steps can be made alone and are observed to lead to the same, all along a run, exactly when
every step of another party meets the condition `C` under which it is not observed. -/
theorem Steps.alone_iff (own : A → Bool) (hstep : ∀ s a t t', step s a t → step s a t' → t = t')
    (h : Steps step s as u) {C : S → A → Prop} (hK : K s s) (hV : V s s)
    (hKown : ∀ v t a v' t', a ∈ as → own a = true → K v t → step v a v' → step t a t' → K v' t')
    (hKother : ∀ v t a t', a ∈ as → own a = false → K v t → step t a t' → K v t')
    (hVown : ∀ v t a t', a ∈ as → own a = true → K v t → V v t → step t a t' →
      ∃ v', step v a v' ∧ V v' t')
    (hVother : ∀ v t a t', a ∈ as → own a = false → K v t → V v t → step t a t' →
      (V v t' ↔ C t a)) :
    (∀ as₁ as₂ t, as = as₁ ++ as₂ → Steps step s as₁ t →
        ∃ v, Steps step s (as₁.filter own) v ∧ V v t) ↔
      ∀ as₁ a as₂ t, as = as₁ ++ a :: as₂ → Steps step s as₁ t → own a = false → C t a := by
  refine h.prefixes_iff hstep (P := fun as₁ t => ∃ v, Steps step s (as₁.filter own) v ∧ V v t)
    (C := fun t a => own a = false → C t a) ⟨s, .nil s, hV⟩ ?_
  rintro as₁ a as₂ t t' has ht ha ⟨v, hv, hVt⟩
  have hsub : ∀ b ∈ as₁, b ∈ as := fun b hb => by simp [has, hb]
  have hKt : K v t := ht.alone_related own (fun v t b v' t' hb => hKown v t b v' t' (hsub b hb))
    (fun v t b t' hb => hKother v t b t' (hsub b hb)) hv hK
  have hmem : a ∈ as := by simp [has]
  rw [List.filter_append]
  cases hmine : own a with
  | true =>
    refine iff_of_true ?_ fun hne => by cases hne
    obtain ⟨v', ha', hVt'⟩ := hVown v t a t' hmem hmine hKt hVt ha
    rw [List.filter_cons_of_pos hmine, List.filter_nil]
    exact ⟨v', hv.append (.cons ha' (.nil _)), hVt'⟩
  | false =>
    rw [List.filter_cons_of_neg (by simp [hmine]), List.filter_nil, List.append_nil]
    constructor
    · rintro ⟨v', hv', hVt'⟩ -
      obtain rfl : v' = v := hv'.unique hstep hv
      exact (hVother v' t a t' hmem hmine hKt hVt ha).1 hVt'
    · intro hC
      exact ⟨v, hv, (hVother v t a t' hmem hmine hKt hVt ha).2 (hC rfl)⟩

end alone

/-! ## History variables -/

/-- A transition relation with a history variable that `upd` computes along the way. -/
def history (step : S → A → S → Prop) (upd : S → A → S → G → G) (x : S × G) (a : A) (y : S × G) :
    Prop :=
  step x.1 a y.1 ∧ y.2 = upd x.1 a y.1 x.2

theorem history_of_step {step : S → A → S → Prop} (upd : S → A → S → G → G) {s t : S} {a : A}
    (h : step s a t) (g : G) : history step upd (s, g) a (t, upd s a t g) := ⟨h, rfl⟩

end EventMachine.Lib
