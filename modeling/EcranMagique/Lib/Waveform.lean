import EcranMagique.Lib.Raster

/-! Digital waveforms: a level at every clock, its falls and rises, and trains of low pulses. -/

namespace Waveform

def FallsAt (x : Nat → Bool) (n : Nat) : Prop := x (n - 1) = true ∧ x n = false

def RisesAt (x : Nat → Bool) (n : Nat) : Prop := x (n - 1) = false ∧ x n = true

/-- From clock `N` on, `x` falls at `N` and repeats itself every `period` clocks, and after each fall it is
    low for exactly `low` clocks and high for the rest of the period. -/
structure PulseTrain (x : Nat → Bool) (N low period : Nat) : Prop where
  start : FallsAt x N
  periodic : ∀ n, N ≤ n → x (n + period) = x n
  stays_low : ∀ n, N ≤ n → FallsAt x n → ∀ k < low, x (n + k) = false
  stays_high : ∀ n, N ≤ n → FallsAt x n → ∀ k, low ≤ k → k < period → x (n + k) = true

section Count
variable {x : Nat → Bool} {N L P : Nat}

/-- A level that is low while a count modulo `P` is below `L` falls where the count is `0`. -/
theorem fallsAt_iff (hL : 0 < L) (hLP : L < P) {n : Nat} (hn : 0 < n)
    (hx : ∀ m, n ≤ m + 1 → x m = decide (L ≤ m % P)) : FallsAt x n ↔ n % P = 0 := by
  obtain ⟨m, rfl⟩ : ∃ m, n = m + 1 := ⟨n - 1, by omega⟩
  unfold FallsAt
  rw [Nat.add_sub_cancel, hx m (Nat.le_refl _), hx (m + 1) (by omega)]
  have hlt := Nat.mod_lt m (show 0 < P by omega)
  rw [(Raster.succ_div_mod (show 0 < P by omega)).2]
  simp only [decide_eq_true_eq, decide_eq_false_iff_not]
  split <;> omega

/-- The clock after which the level follows the count is of no matter, if it is not before clock `N - 1`. -/
theorem PulseTrain.of_count (hL : 0 < L) (hLP : L < P) (hN : 0 < N) (hPN : P ∣ N)
    (hx : ∀ n, N ≤ n + 1 → x n = decide (L ≤ n % P)) : PulseTrain x N L P where
  start := (fallsAt_iff hL hLP hN hx).mpr (Nat.mod_eq_zero_of_dvd hPN)
  periodic n hn := by
    rw [hx n (by omega), hx (n + P) (by omega), Nat.add_mod_right]
  stays_low n hn hfall k hk := by
    have h0 := (fallsAt_iff hL hLP (by omega) fun m hm => hx m (by omega)).mp hfall
    rw [hx (n + k) (by omega), ← Nat.mod_add_mod, h0, Nat.zero_add, Nat.mod_eq_of_lt (by omega)]
    simpa using hk
  stays_high n hn hfall k hk hkP := by
    have h0 := (fallsAt_iff hL hLP (by omega) fun m hm => hx m (by omega)).mp hfall
    rw [hx (n + k) (by omega), ← Nat.mod_add_mod, h0, Nat.zero_add, Nat.mod_eq_of_lt hkP]
    simpa using hk

end Count

end Waveform
