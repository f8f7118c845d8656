import EcranMagique.Lib.Clocked
import Mathlib.Logic.Function.Basic

/-! A store whose edges may each write one cell. A cell holds the word of the last write to it, or its first word when
    none was made. -/

namespace LastWrite
open Clocked

variable {α β : Type*}

/-! ### Histories of writes -/

/-- None of the edges from `j` on and before `n` writes the cell. -/
def Untouched (ws : Nat → Option (α × β)) (j n : Nat) (a : α) : Prop := ∀ i, j ≤ i → i < n → ∀ d, ws i ≠ some (a, d)

/-- The last write to the cell before `n` writes `d`. -/
def Last (ws : Nat → Option (α × β)) (n : Nat) (a : α) (d : β) : Prop :=
  ∃ j < n, ws j = some (a, d) ∧ Untouched ws (j + 1) n a

section History
variable {ws : Nat → Option (α × β)} {j n : Nat} {a : α}

theorem Untouched.mono {j' n' : Nat} (h : Untouched ws j n a) (hj : j ≤ j') (hn : n' ≤ n) : Untouched ws j' n' a :=
  fun i h1 h2 => h i (Nat.le_trans hj h1) (Nat.lt_of_lt_of_le h2 hn)

theorem last_or_untouched (ws : Nat → Option (α × β)) (j n : Nat) (a : α) :
    (∃ i d, j ≤ i ∧ i < n ∧ ws i = some (a, d) ∧ Untouched ws (i + 1) n a) ∨ Untouched ws j n a := by
  induction n with
  | zero => exact Or.inr fun i _ hi => absurd hi (Nat.not_lt_zero i)
  | succ n ih =>
    by_cases hnow : ∃ d, j ≤ n ∧ ws n = some (a, d)
    · obtain ⟨d, hjn, hd⟩ := hnow
      exact Or.inl ⟨n, d, hjn, Nat.lt_succ_self n, hd, fun i h1 h2 => absurd h2 (Nat.not_lt.mpr h1)⟩
    · have hskip : j ≤ n → ∀ d, ws n ≠ some (a, d) := fun hj d hd => hnow ⟨d, hj, hd⟩
      rcases ih with ⟨i, d, hji, hin, hd, hlast⟩ | huntouched
      · refine Or.inl ⟨i, d, hji, Nat.lt_succ_of_lt hin, hd, fun k h1 h2 => ?_⟩
        rcases Nat.lt_succ_iff_lt_or_eq.mp h2 with h2 | rfl
        · exact hlast k h1 h2
        · exact hskip (Nat.le_trans hji (Nat.le_of_succ_le h1))
      · refine Or.inr fun k h1 h2 => ?_
        rcases Nat.lt_succ_iff_lt_or_eq.mp h2 with h2 | rfl
        · exact huntouched k h1 h2
        · exact hskip h1

end History

/-! ### The store -/

section Store
variable [DecidableEq α]

def store (m : α → β) : Option (α × β) → α → β
  | none => m
  | some (a, d) => Function.update m a d

variable {m : α → β} {ws : Nat → Option (α × β)} {j n : Nat} {a : α} {d : β}

theorem store_same : store m (some (a, d)) a = d := by
  simp [store]

theorem store_other {x : Option (α × β)} (h : ∀ d, x ≠ some (a, d)) : store m x a = m a := by
  rcases x with _ | ⟨b, e⟩
  · rfl
  · have hne : a ≠ b := fun heq => h e (by rw [heq])
    exact Function.update_of_ne hne e m

theorem run_untouched (h : Untouched ws j n a) (hj : j ≤ n) : run store m ws n a = run store m ws j a := by
  induction hj with
  | refl => rfl
  | @step n hj ih => rw [run_succ, store_other (h n hj (Nat.lt_succ_self n)), ih (h.mono (Nat.le_refl j) (Nat.le_succ n))]

theorem run_last (h : Last ws n a d) : run store m ws n a = d := by
  obtain ⟨j, hj, hwrite, hlast⟩ := h
  rw [run_untouched hlast hj, run_succ, hwrite, store_same]

end Store

end LastWrite
