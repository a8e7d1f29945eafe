import Mathlib.Data.Option.Basic
import Mathlib.Tactic.Common

/-!
# Numbered slots

A table whose entries are reached by number, where a new entry goes into the lowest free number and
a released number becomes free again. `Slots α` is the list of the entries, free ones included;
numbers past its end are free.
-/

namespace EventMachine.Lib

/-- The entries by number; `none` and everything past the end is free. -/
abbrev Slots (α : Type) := List (Option α)

namespace Slots
variable {α : Type}

/-- The entry of number `n`, if it is taken. -/
def get : Slots α → Nat → Option α
  | [], _ => none
  | a :: _, 0 => a
  | _ :: t, n + 1 => get t n

/-- Overwrite the entry of number `n`, growing the table when it is too short. -/
def put : Slots α → Nat → Option α → Slots α
  | [], 0, a => [a]
  | [], n + 1, a => none :: put [] n a
  | _ :: t, 0, a => a :: t
  | b :: t, n + 1, a => b :: put t n a

/-- The lowest free number. -/
def lowest : Slots α → Nat
  | [] => 0
  | none :: _ => 0
  | some _ :: t => lowest t + 1

@[simp] theorem get_nil (n : Nat) : get ([] : Slots α) n = none := by
  cases n <;> rfl

@[simp] theorem get_put_self (t : Slots α) (n : Nat) (a : Option α) : (t.put n a).get n = a := by
  induction t generalizing n with
  | nil =>
    induction n with
    | zero => rfl
    | succ n ih => exact ih
  | cons b t ih =>
    cases n with
    | zero => rfl
    | succ n => exact ih n

theorem get_put_of_ne (t : Slots α) {n m : Nat} (a : Option α) (h : m ≠ n) :
    (t.put n a).get m = t.get m := by
  induction t generalizing n m with
  | nil =>
    induction n generalizing m with
    | zero =>
      cases m with
      | zero => exact absurd rfl h
      | succ m => simp [put, get]
    | succ n ih =>
      cases m with
      | zero => simp [put, get]
      | succ m => simpa [put, get] using ih (m := m) (by omega)
  | cons b t ih =>
    cases n with
    | zero =>
      cases m with
      | zero => exact absurd rfl h
      | succ m => rfl
    | succ n =>
      cases m with
      | zero => rfl
      | succ m => exact ih (by omega)

theorem get_put (t : Slots α) (n m : Nat) (a : Option α) :
    (t.put n a).get m = if m = n then a else t.get m := by
  split
  · next h => rw [h, get_put_self]
  · next h => exact get_put_of_ne t a h

@[simp] theorem get_lowest (t : Slots α) : t.get t.lowest = none := by
  induction t with
  | nil => rfl
  | cons b t ih =>
    cases b with
    | none => rfl
    | some b => exact ih

theorem lowest_congr {β : Type} {s : Slots α} {t : Slots β}
    (h : ∀ n, (s.get n).isSome = (t.get n).isSome) : s.lowest = t.lowest := by
  induction s generalizing t with
  | nil =>
    cases t with
    | nil => rfl
    | cons b t =>
      have hb := h 0
      cases b with
      | none => rfl
      | some b => simp [Slots.get] at hb
  | cons a s ih =>
    cases t with
    | nil =>
      have ha := h 0
      cases a with
      | none => rfl
      | some a => simp [Slots.get] at ha
    | cons b t =>
      have hhead := h 0
      have htail := ih fun n => h (n + 1)
      cases a with
      | none =>
        cases b with
        | none => rfl
        | some b => simp [Slots.get] at hhead
      | some a =>
        cases b with
        | none => simp [Slots.get] at hhead
        | some b => exact congrArg (· + 1) htail

end Slots

end EventMachine.Lib
