import Mathlib.Data.List.Perm.Basic
import Mathlib.Logic.Function.Basic

/-!
# What a partial map contains

A partial map with finitely many keys is listed by its keys, each once (`Lists`), and its contents are
the values under them. Changing one entry changes the contents by one value, up to order.
-/

namespace EventMachine.Lib

variable {κ ν : Type}

/-- The keys of a partial map, each once. -/
structure Lists (view : κ → Option ν) (keys : List κ) : Prop where
  nodup : keys.Nodup
  mem : ∀ k, k ∈ keys ↔ view k ≠ none

namespace Lists
variable {view : κ → Option ν} {keys : List κ} {k : κ} {v : ν}

theorem empty (h : ∀ k, view k = none) : Lists view [] :=
  ⟨List.nodup_nil, fun k => by simp [h k]⟩

variable [DecidableEq κ]

theorem filterMap_update (h : k ∉ keys) (x : Option ν) :
    keys.filterMap (Function.update view k x) = keys.filterMap view := by
  apply List.filterMap_congr
  intro k' hk'
  have hne : k' ≠ k := fun heq => h (heq ▸ hk')
  rw [Function.update_of_ne hne]

theorem insert (h : Lists view keys) (hk : view k = none) (v : ν) :
    Lists (Function.update view k (some v)) (k :: keys) ∧
      (k :: keys).filterMap (Function.update view k (some v)) = v :: keys.filterMap view := by
  have hfree : k ∉ keys := fun hmem => (h.mem k).1 hmem hk
  refine ⟨⟨List.nodup_cons.2 ⟨hfree, h.nodup⟩, fun k' => ?_⟩, ?_⟩
  · rw [List.mem_cons, h.mem, Function.update_apply]
    by_cases hk' : k' = k
    · simp [hk']
    · simp [hk']
  · rw [List.filterMap_cons_some (Function.update_self k _ view), filterMap_update hfree]

theorem remove (h : Lists view keys) (hk : view k = some v) :
    Lists (Function.update view k none) (keys.erase k) ∧
      (keys.filterMap view).Perm (v :: (keys.erase k).filterMap (Function.update view k none)) := by
  have hmem : k ∈ keys := (h.mem k).2 (by simp [hk])
  refine ⟨⟨h.nodup.erase k, fun k' => ?_⟩, ?_⟩
  · rw [h.nodup.mem_erase_iff, h.mem, Function.update_apply]
    by_cases hk' : k' = k
    · simp [hk']
    · simp [hk']
  · have hperm := (List.perm_cons_erase hmem).filterMap view
    rwa [List.filterMap_cons_some hk, ← filterMap_update h.nodup.not_mem_erase none] at hperm

theorem replace (h : Lists view keys) (hk : view k = some v) (v' : ν) :
    ∃ keys', Lists (Function.update view k (some v')) keys' ∧
      (v :: keys'.filterMap (Function.update view k (some v'))).Perm (v' :: keys.filterMap view) := by
  obtain ⟨hremoved, hperm⟩ := h.remove hk
  obtain ⟨hinserted, heq⟩ := hremoved.insert (Function.update_self k none view) v'
  rw [Function.update_idem] at hinserted heq
  refine ⟨k :: keys.erase k, hinserted, ?_⟩
  rw [heq]
  exact (List.Perm.swap _ _ _).trans (hperm.symm.cons v')

end Lists

end EventMachine.Lib
