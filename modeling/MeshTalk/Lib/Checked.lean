import Mathlib.Algebra.Group.Nat.Defs
import Mathlib.Order.Basic

/-! # Bounded arithmetic

Machine counters as natural numbers with the largest value of the type passed along: additions that
fail past it, and additions that stop at it. -/

namespace MeshTalk.Lib

def u64Max : ℕ := 2 ^ 64 - 1

def i64Max : ℕ := 2 ^ 63 - 1

def usizeMax : ℕ := 2 ^ 64 - 1

def checkedAdd (bound a b : ℕ) : Option ℕ := if a + b ≤ bound then some (a + b) else none

theorem checkedAdd_eq_some {bound a b c} :
    checkedAdd bound a b = some c ↔ a + b ≤ bound ∧ c = a + b := by
  unfold checkedAdd
  split_ifs with h
  · simp [h, eq_comm]
  · simp [h]

def saturatingAdd (bound a b : ℕ) : ℕ := min bound (a + b)

theorem saturatingAdd_le (bound a b) : saturatingAdd bound a b ≤ a + b := Nat.min_le_right _ _

end MeshTalk.Lib
