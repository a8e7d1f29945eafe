import Mathlib.Data.List.Nodup
import Mathlib.Logic.Function.Basic
import Mathlib.Tactic.Common

/-!
# Blocks of memory and who refers to them

A heap as its users see it: the blocks that have been allocated, those that have been freed, and the
block each user refers to, which need not be one of the heap's. `Heap.Safe` says that no block is freed
twice or referred to after it has been freed, and that none gets lost: a block is freed, or it has
exactly one user. Allocating, forgetting and freeing keep it under conditions a user can check.
-/

namespace EventMachine.Lib

variable {P B : Type*}

structure Heap (P B : Type*) where
  blocks : List B
  freed : List B
  refers : P → Option B

namespace Heap

structure Safe (h : Heap P B) : Prop where
  allocated : ∀ b ∈ h.freed, b ∈ h.blocks
  once : h.freed.Nodup
  alive : ∀ p b, h.refers p = some b → b ∉ h.freed
  sole : ∀ p q b, b ∈ h.blocks → h.refers p = some b → h.refers q = some b → p = q
  kept : ∀ b ∈ h.blocks, b ∈ h.freed ∨ ∃ p, h.refers p = some b

variable [DecidableEq P]

/-- `p` is given a new block. -/
def alloc (h : Heap P B) (p : P) (b : B) : Heap P B where
  blocks := h.blocks ++ [b]
  freed := h.freed
  refers := Function.update h.refers p (some b)

/-- `p` forgets what it refers to. -/
def forget (h : Heap P B) (p : P) : Heap P B := { h with refers := Function.update h.refers p none }

/-- `p` frees what it refers to. -/
def free (h : Heap P B) (p : P) : Heap P B where
  blocks := h.blocks
  freed := h.freed ++ (h.refers p).toList
  refers := Function.update h.refers p none

section refers
variable (h : Heap P B) (p : P) (b : B)

theorem alloc_refers : (h.alloc p b).refers = Function.update h.refers p (some b) := rfl

theorem forget_refers : (h.forget p).refers = Function.update h.refers p none := rfl

theorem free_refers : (h.free p).refers = Function.update h.refers p none := rfl

theorem mem_free : b ∈ (h.free p).freed ↔ b ∈ h.freed ∨ h.refers p = some b := by
  simp [Heap.free]

end refers

namespace Safe
variable {h : Heap P B} {p : P} {b : B}

theorem forget (hs : h.Safe) (hp : ∀ b, h.refers p = some b → b ∉ h.blocks) : (h.forget p).Safe := by
  have hold : ∀ q b, (h.forget p).refers q = some b → h.refers q = some b := by
    intro q b hq
    simp only [forget_refers, Function.update_apply] at hq
    split at hq
    · exact absurd hq nofun
    · exact hq
  refine ⟨hs.allocated, hs.once, fun q b hq => hs.alive q b (hold q b hq), ?_, fun b hb => ?_⟩
  · intro q q' b hb hq hq'
    exact hs.sole q q' b hb (hold q b hq) (hold q' b hq')
  · rcases hs.kept b hb with hfreed | ⟨q, hq⟩
    · exact Or.inl hfreed
    · have hne : q ≠ p := by
        rintro rfl
        exact hp b hq hb
      exact Or.inr ⟨q, by rw [forget_refers, Function.update_of_ne hne, hq]⟩

theorem alloc (hs : h.Safe) (hnew : b ∉ h.blocks) (hfree : ∀ q, h.refers q ≠ some b)
    (hp : ∀ b, h.refers p = some b → b ∉ h.blocks) : (h.alloc p b).Safe := by
  have hcase : ∀ q c, (h.alloc p b).refers q = some c → (q = p ∧ c = b) ∨ (q ≠ p ∧ h.refers q = some c) := by
    intro q c hq
    simp only [alloc_refers, Function.update_apply] at hq
    split at hq
    · next heq => exact Or.inl ⟨heq, (Option.some.inj hq).symm⟩
    · next hne => exact Or.inr ⟨hne, hq⟩
  refine ⟨fun c hc => List.mem_append_left _ (hs.allocated c hc), hs.once, fun q c hq => ?_, ?_,
    fun c hc => ?_⟩
  · rcases hcase q c hq with ⟨-, rfl⟩ | ⟨-, hq'⟩
    · exact fun hfreed => hnew (hs.allocated c hfreed)
    · exact hs.alive q c hq'
  · intro q q' c hc hq hq'
    rcases hcase q c hq with ⟨hqp, hcb⟩ | ⟨-, hold⟩
    · rcases hcase q' c hq' with ⟨hqp', -⟩ | ⟨-, hold'⟩
      · exact hqp.trans hqp'.symm
      · exact absurd (hcb ▸ hold') (hfree q')
    · rcases hcase q' c hq' with ⟨-, hcb⟩ | ⟨-, hold'⟩
      · exact absurd (hcb ▸ hold) (hfree q)
      · have hc : c ∈ h.blocks := (List.mem_append.1 hc).resolve_right fun hb =>
          hfree q (List.mem_singleton.1 hb ▸ hold)
        exact hs.sole q q' c hc hold hold'
  · rcases List.mem_append.1 hc with hc | hc
    · rcases hs.kept c hc with hfreed | ⟨q, hq⟩
      · exact Or.inl hfreed
      · have hne : q ≠ p := fun heq => hp c (heq ▸ hq) hc
        exact Or.inr ⟨q, by rw [alloc_refers, Function.update_of_ne hne, hq]⟩
    · obtain rfl := List.mem_singleton.1 hc
      exact Or.inr ⟨p, by rw [alloc_refers, Function.update_self]⟩

theorem free (hs : h.Safe) (hp : ∀ b, h.refers p = some b → b ∈ h.blocks) : (h.free p).Safe := by
  have hold : ∀ q b, (h.free p).refers q = some b → q ≠ p ∧ h.refers q = some b := by
    intro q b hq
    simp only [free_refers, Function.update_apply] at hq
    split at hq
    · exact absurd hq nofun
    · next hne => exact ⟨hne, hq⟩
  refine ⟨fun b hb => ?_, ?_, fun q b hq hb => ?_, ?_, fun b hb => ?_⟩
  · rcases (h.mem_free p b).1 hb with hb | hb
    · exact hs.allocated b hb
    · exact hp b hb
  · refine hs.once.append ?_ fun b hb hb' => ?_
    · cases h.refers p <;> simp
    · exact hs.alive p b (by simpa using hb') hb
  · obtain ⟨hne, hq⟩ := hold q b hq
    rcases (h.mem_free p b).1 hb with hb | hb
    · exact hs.alive q b hq hb
    · exact hne (hs.sole q p b (hp b hb) hq hb)
  · intro q q' b hb hq hq'
    exact hs.sole q q' b hb (hold q b hq).2 (hold q' b hq').2
  · rcases hs.kept b hb with hfreed | ⟨q, hq⟩
    · exact Or.inl ((h.mem_free p b).2 (Or.inl hfreed))
    · by_cases hqp : q = p
      · subst hqp
        exact Or.inl ((h.mem_free q b).2 (Or.inr hq))
      · exact Or.inr ⟨q, by rw [free_refers, Function.update_of_ne hqp, hq]⟩

end Safe

end Heap

end EventMachine.Lib
