import Mathlib.Data.List.Basic

/-!
# Monitors

A list of events that belong to different keys, and a protocol that the events of each key are to
follow: every event leads from a stage to the next one, or is not allowed there. What a further event
does to the stages of all the keys is told by the key it belongs to.
-/

namespace EventMachine.Lib

variable {ε κ σ : Type} [DecidableEq κ] {key : ε → κ} {next : σ → ε → Option σ} {start : σ} {k : κ}
  {e : ε} {l : List ε}

/-- The stage the events of key `k` lead to, if all are allowed. -/
def monitor (key : ε → κ) (next : σ → ε → Option σ) (start : σ) (k : κ) (l : List ε) : Option σ :=
  (l.filter fun e => key e = k).foldlM next start

/-- An event of the key is one step of its protocol. -/
theorem monitor_append (h : key e = k) :
    monitor key next start k (l ++ [e]) = (monitor key next start k l).bind (next · e) := by
  unfold monitor
  rw [List.filter_append, List.filter_singleton, h, List.foldlM_append]
  simp [bind]

theorem monitor_append_of_ne (h : key e ≠ k) :
    monitor key next start k (l ++ [e]) = monitor key next start k l := by
  simp [monitor, h]

theorem monitor_of_forall_ne (h : ∀ e ∈ l, key e ≠ k) : monitor key next start k l = some start := by
  have hfilter : (l.filter fun e => key e = k) = [] := by simpa using h
  rw [monitor, hfilter]
  rfl

end EventMachine.Lib
