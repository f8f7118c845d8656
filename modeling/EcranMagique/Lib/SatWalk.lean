import EcranMagique.Lib.Clocked
import Mathlib.Algebra.Order.Group.Defs
import Mathlib.Order.Lattice

/-! Walks that saturate: each increment is added and the sum is clamped to an interval. A walk whose
    free position never leaves the interval is that position; the clamping is not otherwise undone. -/

namespace SatWalk

variable {α : Type*} [LinearOrder α] [AddCommGroup α] {lo hi : α}

/-- The sum, clamped to `lo .. hi`. -/
def satAdd (lo hi p d : α) : α := max lo (min hi (p + d))

theorem lo_le_satAdd (p d : α) : lo ≤ satAdd lo hi p d := le_max_left _ _

theorem satAdd_le_hi (h : lo ≤ hi) (p d : α) : satAdd lo hi p d ≤ hi := max_le h (min_le_left _ _)

theorem satAdd_of_mem {p d : α} (hlo : lo ≤ p + d) (hhi : p + d ≤ hi) : satAdd lo hi p d = p + d := by
  rw [satAdd, min_eq_right hhi, max_eq_right hlo]

/-- The position after `n` increments, saturated at every one of them. -/
def walk (lo hi p : α) (inc : Nat → α) (n : Nat) : α := Clocked.run (satAdd lo hi) p inc n

@[simp] theorem walk_zero {p : α} {inc : Nat → α} : walk lo hi p inc 0 = p := rfl

theorem walk_succ {p : α} {inc : Nat → α} (n : Nat) :
    walk lo hi p inc (n + 1) = satAdd lo hi (walk lo hi p inc n) (inc n) := rfl

theorem walk_add {p : α} {inc : Nat → α} (m n : Nat) :
    walk lo hi p inc (m + n) = walk lo hi (walk lo hi p inc m) (fun k => inc (m + k)) n :=
  Clocked.run_add m n

theorem walk_congr {p : α} {inc inc' : Nat → α} {n : Nat} (h : ∀ i < n, inc i = inc' i) :
    walk lo hi p inc n = walk lo hi p inc' n :=
  Clocked.run_congr h

theorem walk_mem (h : lo ≤ hi) {p : α} (hlo : lo ≤ p) (hhi : p ≤ hi) (inc : Nat → α) (n : Nat) :
    lo ≤ walk lo hi p inc n ∧ walk lo hi p inc n ≤ hi :=
  Clocked.run_invariant (P := fun q => lo ≤ q ∧ q ≤ hi) ⟨hlo, hhi⟩
    (fun q d _ => ⟨lo_le_satAdd q d, satAdd_le_hi h q d⟩) n

/-- The increments of a position that stays in the interval walk along that position. -/
theorem walk_of_mem {f : Nat → α} {n : Nat} (h : ∀ i ≤ n, lo ≤ f i ∧ f i ≤ hi) :
    walk lo hi (f 0) (fun i => f (i + 1) - f i) n = f n := by
  induction n with
  | zero => rfl
  | succ n ih =>
    have hn := h (n + 1) (Nat.le_refl _)
    have hsum : f n + (f (n + 1) - f n) = f (n + 1) := add_sub_cancel _ _
    rw [walk_succ, ih fun i hi => h i (Nat.le_succ_of_le hi),
      satAdd_of_mem (by rw [hsum]; exact hn.1) (by rw [hsum]; exact hn.2), hsum]

theorem walk_of_zero {p : α} (hlo : lo ≤ p) (hhi : p ≤ hi) {inc : Nat → α} {n : Nat} (h : ∀ i < n, inc i = 0) :
    walk lo hi p inc n = p := by
  induction n with
  | zero => rfl
  | succ n ih =>
    rw [walk_succ, ih fun i hi => h i (Nat.lt_succ_of_lt hi), h n (Nat.lt_succ_self n),
      satAdd_of_mem (by rwa [add_zero]) (by rwa [add_zero]), add_zero]

end SatWalk
