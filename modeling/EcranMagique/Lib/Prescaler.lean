import Mathlib.Logic.Function.Iterate
import EcranMagique.Lib.Clocked

/-! A prescaler: a counter of clock edges whose registered pulse, once a period, lets another register take a step. -/

namespace Prescaler
open Clocked

variable {α ι : Type*}

structure Prescaled (α : Type*) where
  count : Nat
  pulse : Bool
  state : α
  deriving DecidableEq, Repr

/-- The other register reads the pulse as it was before the edge. -/
def step (period : Nat) (next : α → α) (s : Prescaled α) : Prescaled α where
  count := if s.count = period - 1 then 0 else s.count + 1
  pulse := s.count = period - 1
  state := if s.pulse = true then next s.state else s.state

section Run
variable {period : Nat} {next : α → α} {a : α}

theorem count_succ (hp : 0 < period) (k : Nat) :
    (k + 1) % period = if k % period = period - 1 then 0 else k % period + 1 := by
  have hk := Nat.div_add_mod k period
  have hlt := Nat.mod_lt k hp
  split
  · rename_i hlast
    have hsucc : k + 1 = period * (k / period + 1) := by
      rw [Nat.mul_succ]
      omega
    rw [hsucc, Nat.mul_mod_right]
  · rename_i hnot
    have hsucc : k + 1 = period * (k / period) + (k % period + 1) := by omega
    rw [hsucc, Nat.mul_add_mod, Nat.mod_eq_of_lt (by omega)]

theorem pulse_succ (hp : 0 < period) (k : Nat) : k % period = period - 1 ↔ (k + 1) % period = 0 := by
  rw [count_succ hp]
  split <;> simp_all

/-- The steps of the other register, one for each pulse that it has obeyed. -/
theorem steps_succ (k : Nat) : k / period = (k - 1) / period + if 0 < k ∧ k % period = 0 then 1 else 0 := by
  cases k with
  | zero => simp
  | succ k => simp [Nat.succ_div, Nat.dvd_iff_mod_eq_zero]

/-- The pulse of a period comes with its last edge, and is obeyed at the next one. -/
theorem run_step (hp : 0 < period) (w : Nat → ι) (k : Nat) : run (fun s _ => step period next s) ⟨0, false, a⟩ w k =
    ⟨k % period, 0 < k ∧ k % period = 0, next^[(k - 1) / period] a⟩ := by
  induction k with
  | zero => simp
  | succ k ih =>
    rw [run_succ, ih]
    simp only [step, Prescaled.mk.injEq, decide_eq_true_eq, decide_eq_decide]
    refine ⟨(count_succ hp k).symm, ?_, ?_⟩
    · rw [pulse_succ hp]
      simp
    · rw [Nat.add_sub_cancel, steps_succ k]
      split
      · exact (Function.iterate_succ_apply' next _ a).symm
      · rfl

end Run

end Prescaler
