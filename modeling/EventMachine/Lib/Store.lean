import Mathlib.Data.Set.Insert
import Mathlib.Logic.Function.Basic
import Mathlib.Tactic.Common

/-!
# Stores

A store keeps values by key. Its states are abstract, `view` says what a state contains, and the laws
say what the two operations do to it and when they report success: a value is inserted under a free
key only, and removed from a taken one only. Operations on one key do not notice how two states differ
under others (`AgreeOff`). `Store.assoc` is the store whose states are association lists.
-/

namespace EventMachine.Lib

/-- A store with states `σ` and codes `ρ`, of which `ok` reports success. -/
structure Store (κ ν ρ σ : Type) [DecidableEq κ] (ok : ρ) where
  insert : κ → ν → σ → ρ × σ
  remove : κ → σ → ρ × ν × σ
  view : σ → κ → Option ν
  insert_free : ∀ s k v, view s k = none →
    (insert k v s).1 = ok ∧ view (insert k v s).2 = Function.update (view s) k (some v)
  insert_taken : ∀ s k v, view s k ≠ none →
    (insert k v s).1 ≠ ok ∧ view (insert k v s).2 = view s
  remove_taken : ∀ s k v, view s k = some v →
    (remove k s).1 = ok ∧ (remove k s).2.1 = v ∧
      view (remove k s).2.2 = Function.update (view s) k none
  remove_free : ∀ s k, view s k = none →
    (remove k s).1 ≠ ok ∧ view (remove k s).2.2 = view s

namespace Store
variable {κ ν ρ σ : Type} [DecidableEq κ] {ok : ρ}

theorem replace (S : Store κ ν ρ σ ok) {s : σ} {k : κ} (v : ν) (h : S.view s k ≠ none) :
    (S.remove k s).1 = ok ∧ (S.insert k v (S.remove k s).2.2).1 = ok ∧
      S.view (S.insert k v (S.remove k s).2.2).2 = Function.update (S.view s) k (some v) := by
  obtain ⟨old, hold⟩ := Option.ne_none_iff_exists'.1 h
  obtain ⟨hok, -, hview⟩ := S.remove_taken s k old hold
  obtain ⟨hok', hview'⟩ := S.insert_free (S.remove k s).2.2 k v (by simp [hview])
  refine ⟨hok, hok', ?_⟩
  rw [hview', hview, Function.update_idem]

theorem view_insert (S : Store κ ν ρ σ ok) (s : σ) (k : κ) (v : ν) :
    S.view (S.insert k v s).2 = Function.update (S.view s) k (some ((S.view s k).getD v)) := by
  cases h : S.view s k with
  | none => rw [(S.insert_free s k v h).2, Option.getD_none]
  | some u =>
    rw [(S.insert_taken s k v (by simp [h])).2, Option.getD_some, ← h, Function.update_eq_self]

theorem view_remove (S : Store κ ν ρ σ ok) (s : σ) (k : κ) :
    S.view (S.remove k s).2.2 = Function.update (S.view s) k none := by
  cases h : S.view s k with
  | none => rw [(S.remove_free s k h).2, ← h, Function.update_eq_self]
  | some v => exact (S.remove_taken s k v h).2.2

/-! ### States that differ under some keys -/

/-- The two states contain the same under every key outside `N`. -/
def AgreeOff (S : Store κ ν ρ σ ok) (N : Set κ) (s s' : σ) : Prop :=
  ∀ k, k ∉ N → S.view s k = S.view s' k

/-- There is nothing under the keys of `N`. -/
def Vacant (S : Store κ ν ρ σ ok) (N : Set κ) (s : σ) : Prop := ∀ k, k ∈ N → S.view s k = none

/-- What the store answers when it is asked about a key depends on the value under that key only. -/
structure Local (S : Store κ ν ρ σ ok) : Prop where
  insert : ∀ s s' k v, S.view s k = S.view s' k → (S.insert k v s).1 = (S.insert k v s').1
  remove : ∀ s s' k, S.view s k = S.view s' k →
    (S.remove k s).1 = (S.remove k s').1 ∧ (S.remove k s).2.1 = (S.remove k s').2.1

namespace AgreeOff
variable {S : Store κ ν ρ σ ok} {N : Set κ} {k : κ} {s s' : σ}

theorem refl (S : Store κ ν ρ σ ok) (N : Set κ) (s : σ) : S.AgreeOff N s s := fun _ _ => rfl

theorem mono {N' : Set κ} (h : S.AgreeOff N s s') (hN : N ⊆ N') : S.AgreeOff N' s s' :=
  fun k hk => h k fun hmem => hk (hN hmem)

theorem insert (h : S.AgreeOff N s s') (hk : k ∉ N) (v : ν) :
    S.AgreeOff N (S.insert k v s).2 (S.insert k v s').2 := by
  intro k' hk'
  rw [S.view_insert, S.view_insert, Function.update_apply, Function.update_apply, h k' hk', h k hk]

theorem remove (h : S.AgreeOff N s s') (k : κ) :
    S.AgreeOff N (S.remove k s).2.2 (S.remove k s').2.2 := by
  intro k' hk'
  rw [S.view_remove, S.view_remove, Function.update_apply, Function.update_apply, h k' hk']

theorem insert_left (S : Store κ ν ρ σ ok) (k : κ) (v : ν) (s : σ) :
    S.AgreeOff {k} (S.insert k v s).2 s := by
  intro k' hk'
  rw [S.view_insert, Function.update_of_ne hk']

theorem remove_left (h : S.AgreeOff {k} s s') (hk : S.Vacant {k} s') :
    S.AgreeOff ∅ (S.remove k s).2.2 s' := by
  intro k' _
  rw [S.view_remove, Function.update_apply]
  split
  · next heq => rw [heq, hk k rfl]
  · next hne => exact h k' hne

end AgreeOff

theorem lookup_filter_ne (s : List (κ × ν)) (k k' : κ) :
    (s.filter (·.1 ≠ k)).lookup k' = if k' = k then none else s.lookup k' := by
  induction s with
  | nil => simp
  | cons e s ih =>
    obtain ⟨a, v⟩ := e
    by_cases ha : a = k
    · rw [List.filter_cons_of_neg (by simpa using ha), ih]
      by_cases hk : k' = k
      · rw [if_pos hk, if_pos hk]
      · have hne : (k' == a) = false := beq_false_of_ne (by rw [ha]; exact hk)
        rw [if_neg hk, if_neg hk, List.lookup_cons, hne]
    · rw [List.filter_cons_of_pos (by simpa using ha), List.lookup_cons, List.lookup_cons, ih]
      by_cases hk : k' = k
      · have hne : (k' == a) = false := beq_false_of_ne (by rw [hk]; exact fun h => ha h.symm)
        rw [if_pos hk, if_pos hk, hne]
      · rw [if_neg hk, if_neg hk]

/-- Association lists, with the codes `dup` and `missing` for the two failures. -/
def assoc [Inhabited ν] {dup missing : ρ} (hdup : dup ≠ ok) (hmissing : missing ≠ ok) :
    Store κ ν ρ (List (κ × ν)) ok where
  insert k v s := if (s.lookup k).isSome then (dup, s) else (ok, (k, v) :: s)
  remove k s :=
    match s.lookup k with
    | some v => (ok, v, s.filter (·.1 ≠ k))
    | none => (missing, default, s)
  view s k := s.lookup k
  insert_free s k v h := by
    simp only [h, Option.isSome_none, Bool.false_eq_true, if_false, true_and]
    funext k'
    by_cases hk : k' = k
    · simp [hk]
    · simp [List.lookup_cons, hk, beq_false_of_ne hk]
  insert_taken s k v h := by
    rw [if_pos (Option.isSome_iff_ne_none.2 h)]
    exact ⟨hdup, rfl⟩
  remove_taken s k v h := by
    simp only [h, true_and]
    funext k'
    rw [lookup_filter_ne, Function.update_apply]
  remove_free s k h := by
    simp only [h]
    exact ⟨hmissing, trivial⟩

theorem assoc_local [Inhabited ν] {dup missing : ρ} (hdup : dup ≠ ok) (hmissing : missing ≠ ok) :
    (assoc (κ := κ) (ν := ν) hdup hmissing).Local where
  insert s s' k v h := by
    change s.lookup k = s'.lookup k at h
    show (if _ then _ else _ : ρ × _).1 = (if _ then _ else _ : ρ × _).1
    rw [h]
    split <;> rfl
  remove s s' k h := by
    change s.lookup k = s'.lookup k at h
    simp only [assoc, h]
    split <;> exact ⟨rfl, rfl⟩

end Store

end EventMachine.Lib
