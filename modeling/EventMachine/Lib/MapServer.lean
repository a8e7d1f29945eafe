import EventMachine.Lib.Transition
import Mathlib.Logic.Function.Basic

/-!
# Serving a partial map

What a partial map is for, as a transition system (`MapStep`): a value is put under a key that has none,
is removed, or is replaced. A request is served, and answered with what was there before; or it is
refused, and nothing changes. A server may refuse what it could serve, but it serves nothing that does
not fit. What is under a key is then up to the last request for that key that has been served
(`Steps.last_served`), and the requests for one key are answered as if there were no others
(`Steps.at_key`).
-/

namespace EventMachine.Lib

variable {κ ν : Type*}

inductive MapRequest (κ ν : Type*)
  | insert (k : κ) (v : ν)
  | remove (k : κ)
  | replace (k : κ) (v : ν)

namespace MapRequest

def key : MapRequest κ ν → κ
  | insert k _ => k
  | remove k => k
  | replace k _ => k

/-- What is under the key once the request has been served. -/
def value : MapRequest κ ν → Option ν
  | insert _ v => some v
  | remove _ => none
  | replace _ v => some v

/-- Whether the request can be served. -/
def Fits (m : κ → Option ν) : MapRequest κ ν → Prop
  | insert k _ => m k = none
  | remove k => m k ≠ none
  | replace k _ => m k ≠ none

theorem Fits.congr {m m' : κ → Option ν} {r : MapRequest κ ν} (h : r.Fits m)
    (hkey : m' r.key = m r.key) : r.Fits m' := by
  cases r with
  | insert k v => exact hkey.trans h
  | remove k => exact fun hnone => h (hkey.symm.trans hnone)
  | replace k v => exact fun hnone => h (hkey.symm.trans hnone)

end MapRequest

/-- A request with its answer: what was there before, or `none` when it has been refused. -/
abbrev Answered (κ ν : Type*) := MapRequest κ ν × Option (Option ν)

section server
variable [DecidableEq κ]

inductive MapStep : (κ → Option ν) → Answered κ ν → (κ → Option ν) → Prop
  | served {m : κ → Option ν} (r : MapRequest κ ν) (h : r.Fits m) :
      MapStep m (r, some (m r.key)) (Function.update m r.key r.value)
  | refused (m : κ → Option ν) (r : MapRequest κ ν) : MapStep m (r, none) m

/-- What an answered request leaves. -/
def Answered.apply (m : κ → Option ν) : Answered κ ν → κ → Option ν
  | (r, some _) => Function.update m r.key r.value
  | (_, none) => m

theorem MapStep.eq_apply {m m' : κ → Option ν} {l : Answered κ ν} (h : MapStep m l m') :
    m' = l.apply m := by
  cases h <;> rfl

theorem Answered.apply_of_ne (m : κ → Option ν) {l : Answered κ ν} {k : κ} (hk : l.1.key ≠ k) :
    l.apply m k = m k := by
  obtain ⟨r, _ | old⟩ := l
  · rfl
  · exact Function.update_of_ne (Ne.symm hk) _ _

/-- Whether a request for this key has been served. -/
def Answered.servedAt (k : κ) (l : Answered κ ν) : Bool := l.1.key = k ∧ l.2.isSome

/-- What is under a key was put there by the last request for it that has been served. -/
theorem Steps.last_served {m m' : κ → Option ν} {ls : List (Answered κ ν)} (h : Steps MapStep m ls m')
    (k : κ) : m' k = ((ls.filter (Answered.servedAt k)).getLast?.map (·.1.value)).getD (m k) := by
  induction h with
  | nil m => rfl
  | @cons m m₁ m' l ls hl _ ih =>
    obtain rfl := hl.eq_apply
    rw [ih]
    cases hserved : l.servedAt k with
    | false =>
      have hsame : l.apply m k = m k := by
        obtain ⟨r, _ | old⟩ := l
        · rfl
        · exact Answered.apply_of_ne m (by simpa [Answered.servedAt] using hserved)
      rw [List.filter_cons_of_neg (by simp [hserved]), hsame]
    | true =>
      obtain ⟨r, answer⟩ := l
      obtain ⟨rfl, old, rfl⟩ : r.key = k ∧ ∃ old, answer = some old := by
        simpa [Answered.servedAt, Option.isSome_iff_exists] using hserved
      rw [List.filter_cons_of_pos hserved]
      have hput : Answered.apply m (r, some old) r.key = r.value := Function.update_self _ _ _
      rw [hput]
      cases hrest : (ls.filter (Answered.servedAt r.key)).getLast? with
      | none =>
        rw [List.getLast?_eq_none_iff] at hrest
        simp [hrest]
      | some l' => simp [List.getLast?_cons, hrest]

/-- The requests for one key are served by a map that is not asked about others. -/
theorem Steps.at_key {m m' : κ → Option ν} {ls : List (Answered κ ν)} (h : Steps MapStep m ls m') (k : κ)
    {m₁ : κ → Option ν} (hm : m₁ k = m k) :
    ∃ m₁', Steps MapStep m₁ (ls.filter (·.1.key = k)) m₁' ∧ m₁' k = m' k := by
  induction h generalizing m₁ with
  | nil m => exact ⟨m₁, .nil m₁, hm⟩
  | @cons m m₂ m' l ls hl _ ih =>
    by_cases hk : l.1.key = k
    · rw [List.filter_cons_of_pos (by simpa using hk)]
      cases hl with
      | served r hfits =>
        obtain rfl : r.key = k := hk
        have hput : Function.update m₁ r.key r.value r.key = Function.update m r.key r.value r.key := by
          rw [Function.update_self, Function.update_self]
        obtain ⟨m₁', hrest, hm'⟩ := ih hput
        have hstep : MapStep m₁ (r, some (m r.key)) (Function.update m₁ r.key r.value) := by
          rw [← hm]
          exact .served r (hfits.congr hm)
        exact ⟨m₁', .cons hstep hrest, hm'⟩
      | refused r =>
        obtain ⟨m₁', hrest, hm'⟩ := ih hm
        exact ⟨m₁', .cons (.refused m₁ r) hrest, hm'⟩
    · rw [List.filter_cons_of_neg (by simpa using hk)]
      apply ih
      rw [hl.eq_apply, Answered.apply_of_ne m hk, hm]

end server

end EventMachine.Lib
