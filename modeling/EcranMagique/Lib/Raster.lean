import EcranMagique.Lib.Clocked
import Mathlib.Data.Nat.Basic

/-! Raster scans: a column counter of period `H`, and a row counter of period `V` that advances when the
    column wraps. After `n` clocks the counters hold two digits of `n`. A window of the raster is the
    product of an interval of columns and one of rows; its positions are numbered in scan order. -/

namespace Raster

/-! ### The counters -/

def next (H V : Nat) (p : Nat × Nat) : Nat × Nat :=
  if p.1 + 1 = H then (0, if p.2 + 1 = V then 0 else p.2 + 1) else (p.1 + 1, p.2)

def position (H V n : Nat) : Nat × Nat := (n % H, n / H % V)

section Counters
variable {H V n : Nat}

theorem succ_div_mod (hH : 0 < H) :
    (n + 1) / H = (if n % H + 1 = H then n / H + 1 else n / H) ∧
      (n + 1) % H = (if n % H + 1 = H then 0 else n % H + 1) := by
  have hlt := Nat.mod_lt n hH
  have hn := Nat.mod_add_div n H
  rw [Nat.div_mod_unique hH]
  split
  · rw [Nat.mul_add]
    omega
  · omega

theorem position_succ (hH : 0 < H) (hV : 0 < V) : position H V (n + 1) = next H V (position H V n) := by
  obtain ⟨hdiv, hmod⟩ := succ_div_mod (n := n) hH
  have hrow := (succ_div_mod (n := n / H) hV).2
  unfold position next
  by_cases hwrap : n % H + 1 = H
  · rw [hdiv, hmod, if_pos hwrap, if_pos hwrap, if_pos hwrap, hrow]
  · rw [hdiv, hmod, if_neg hwrap, if_neg hwrap, if_neg hwrap]

theorem line_div {q k : Nat} (hk : k < H) : (q * H + k) / H = q := by
  rw [Nat.mul_comm, Nat.mul_add_div (Nat.zero_lt_of_lt hk), Nat.div_eq_of_lt hk, Nat.add_zero]

theorem position_line {q k : Nat} (hk : k < H) : position H V (q * H + k) = (k, q % V) := by
  rw [position, Nat.mul_add_mod_of_lt hk, line_div hk]

/-- From row `y` and column `x` the counters run on as from clock `y * H + x`. -/
theorem run_next {ι : Type*} {x y : Nat} (hx : x < H) (hy : y < V) (w : Nat → ι) (n : Nat) :
    Clocked.run (fun p _ => next H V p) (x, y) w n = position H V (y * H + x + n) := by
  have hH := Nat.zero_lt_of_lt hx
  have hV := Nat.zero_lt_of_lt hy
  induction n with
  | zero => rw [Clocked.run_zero, Nat.add_zero, position_line hx, Nat.mod_eq_of_lt hy]
  | succ n ih => rw [Clocked.run_succ, ih, ← Nat.add_assoc, position_succ hH hV]

/-- A count takes every residue within a period. -/
theorem exists_mod {P r : Nat} (hr : r < P) (n : Nat) : ∃ k, n ≤ k ∧ k < n + P ∧ k % P = r := by
  have hn := Nat.div_add_mod' n P
  have hlt := Nat.mod_lt n (Nat.zero_lt_of_lt hr)
  rcases Nat.lt_or_ge r (n % P) with h | h
  · refine ⟨(n / P + 1) * P + r, ?_, ?_, Nat.mul_add_mod_of_lt hr⟩ <;> rw [Nat.succ_mul] <;> omega
  · exact ⟨n / P * P + r, by omega, by omega, Nat.mul_add_mod_of_lt hr⟩

/-- The counters take every position within a frame. -/
theorem exists_position {x y : Nat} (hx : x < H) (hy : y < V) (n : Nat) :
    ∃ k, n ≤ k ∧ k < n + H * V ∧ position H V k = (x, y) := by
  have hlt : y * H + x < H * V := calc y * H + x
    _ < y * H + H := Nat.add_lt_add_left hx _
    _ = (y + 1) * H := (Nat.succ_mul y H).symm
    _ ≤ V * H := Nat.mul_le_mul_right H hy
    _ = H * V := Nat.mul_comm V H
  obtain ⟨k, h1, h2, hk⟩ := exists_mod hlt n
  have hcol : k % H = x := by
    rw [← Nat.mod_mul_right_mod k H V, hk, Nat.mul_add_mod_of_lt hx]
  have hrow : k / H % V = y := by
    rw [← Nat.mod_mul_right_div_self, hk, line_div hx]
  exact ⟨k, h1, h2, by rw [position, hcol, hrow]⟩

end Counters

/-! ### Windows -/

/-- `p` is one of the `len` counts after `lo`. -/
def Inside (lo len p : Nat) : Prop := lo < p ∧ p ≤ lo + len

instance (lo len p : Nat) : Decidable (Inside lo len p) := inferInstanceAs (Decidable (_ ∧ _))

/-- How many of the `len` counts after `lo` come before `p`. -/
def passed (lo len p : Nat) : Nat := min (p - (lo + 1)) len

/-- How many positions of the window of the `w` columns after `x0` and the `h` rows after `y0` come before
    column `x` of row `y` in scan order. -/
def before (x0 w y0 h x y : Nat) : Nat := passed y0 h y * w + if Inside y0 h y then passed x0 w x else 0

section Windows
variable {H V x0 w y0 h x y : Nat}

theorem passed_of_inside {lo len p : Nat} (hp : Inside lo len p) :
    lo + 1 + passed lo len p = p ∧ passed lo len p < len ∧ passed lo len (p + 1) = passed lo len p + 1 := by
  unfold Inside at hp
  unfold passed
  omega

theorem passed_of_not_inside {lo len p : Nat} (hp : ¬Inside lo len p) : passed lo len (p + 1) = passed lo len p := by
  unfold Inside at hp
  unfold passed
  omega

/-- A flag set at `lo` and cleared at `lo + len` follows a counter that goes from `T` to `0`: it is set inside
    the window of the `len` counts after `lo`, once the counter has been at `lo`. -/
theorem inside_succ {lo len T p : Nat} {b : Bool} (hlen : 0 < len) (hT : lo + len < T) (hp : p ≤ T)
    (hb : p = lo ∨ b = decide (Inside lo len p)) :
    (if p = lo then true else if p = lo + len then false else b) =
      decide (Inside lo len (if p = T then 0 else p + 1)) := by
  have hstart : lo ≠ T := by omega
  rcases hb with rfl | rfl
  · rw [if_pos rfl, if_neg hstart, eq_comm, decide_eq_true_eq]
    exact ⟨by omega, by omega⟩
  · rw [Bool.eq_iff_iff, decide_eq_true_eq]
    split_ifs <;> simp only [decide_eq_true_eq, true_iff, false_iff] <;> unfold Inside <;> omega

theorem passed_zero {lo len : Nat} : passed lo len 0 = 0 := by simp [passed]

theorem countP_inside (lo len p : Nat) :
    (List.range p).countP (fun k => decide (Inside lo len k)) = passed lo len p := by
  induction p with
  | zero => simp [passed]
  | succ p ih =>
    rw [List.range_succ, List.countP_append, ih, List.countP_singleton]
    by_cases hin : Inside lo len p
    · rw [(passed_of_inside hin).2.2, if_pos (decide_eq_true hin)]
    · rw [passed_of_not_inside hin, if_neg (by simpa using hin), Nat.add_zero]

theorem before_of_inside (hx : Inside x0 w x) (hy : Inside y0 h y) :
    before x0 w y0 h x y = passed y0 h y * w + passed x0 w x ∧ before x0 w y0 h x y < h * w := by
  have hbefore : before x0 w y0 h x y = passed y0 h y * w + passed x0 w x := by rw [before, if_pos hy]
  refine ⟨hbefore, ?_⟩
  have hx' := (passed_of_inside hx).2.1
  have hy' := (passed_of_inside hy).2.1
  calc before x0 w y0 h x y = passed y0 h y * w + passed x0 w x := hbefore
    _ < passed y0 h y * w + w := by omega
    _ = (passed y0 h y + 1) * w := by rw [Nat.add_mul, Nat.one_mul]
    _ ≤ h * w := Nat.mul_le_mul_right w hy'

theorem before_last_iff (hx : Inside x0 w x) (hy : Inside y0 h y) :
    before x0 w y0 h x y + 1 = h * w ↔ x = x0 + w ∧ y = y0 + h := by
  rw [(before_of_inside hx hy).1]
  obtain ⟨hcol, hcolLt, -⟩ := passed_of_inside hx
  obtain ⟨hrow, hrowLt, -⟩ := passed_of_inside hy
  by_cases hlast : passed y0 h y + 1 = h
  · have hsize : h * w = passed y0 h y * w + w := by rw [← hlast, Nat.add_mul, Nat.one_mul, hlast]
    omega
  · have hsize : (passed y0 h y + 2) * w ≤ h * w := Nat.mul_le_mul_right w (by omega)
    rw [Nat.add_mul] at hsize
    omega

theorem before_column : before x0 w y0 h (x + 1) y =
    before x0 w y0 h x y + if Inside x0 w x ∧ Inside y0 h y then 1 else 0 := by
  by_cases hrow : Inside y0 h y
  · by_cases hcol : Inside x0 w x
    · rw [if_pos ⟨hcol, hrow⟩, before, before, if_pos hrow, if_pos hrow, (passed_of_inside hcol).2.2, Nat.add_assoc]
    · rw [if_neg (fun hin => hcol hin.1), before, before, if_pos hrow, if_pos hrow, passed_of_not_inside hcol,
        Nat.add_zero]
  · rw [if_neg (fun hin => hrow hin.2), before, before, if_neg hrow, if_neg hrow]

/-- Past its last column the window has no more positions in a row. -/
theorem before_row (hx : x0 + w < x) : before x0 w y0 h 0 (y + 1) = before x0 w y0 h x y := by
  have hend : passed x0 w x = w := by unfold passed; omega
  by_cases hrow : Inside y0 h y
  · rw [before, before, if_pos hrow, hend, (passed_of_inside hrow).2.2, passed_zero, ite_self, Nat.add_zero,
      Nat.add_mul, Nat.one_mul]
  · rw [before, before, if_neg hrow, passed_of_not_inside hrow, passed_zero, ite_self]

/-- A clock passes one more position when it leaves one of the window, and none otherwise; a window clear
    of the last column and row is passed completely when the raster starts again. -/
theorem before_next (hx0 : x0 + w + 1 < H) (hy0 : y0 + h + 1 < V) :
    before x0 w y0 h (next H V (x, y)).1 (next H V (x, y)).2 % (h * w) =
      (before x0 w y0 h x y + if Inside x0 w x ∧ Inside y0 h y then 1 else 0) % (h * w) := by
  unfold next
  by_cases hwrap : x + 1 = H
  · -- The last column is outside the window.
    have hpast : x0 + w < x := by omega
    have hout : ¬Inside x0 w x := by unfold Inside; omega
    simp only [if_pos hwrap, hout, false_and, if_false, Nat.add_zero]
    by_cases hfirst : y + 1 = V
    · have hlast : before x0 w y0 h x y = h * w := by
        have hrow : ¬Inside y0 h y := by unfold Inside; omega
        have hrows : passed y0 h y = h := by unfold passed; omega
        rw [before, if_neg hrow, hrows, Nat.add_zero]
      have hzero : before x0 w y0 h 0 0 = 0 := by
        rw [before, if_neg (by unfold Inside; omega), passed_zero, Nat.zero_mul]
      rw [if_pos hfirst, hlast, hzero, Nat.zero_mod, Nat.mod_self]
    · rw [if_neg hfirst, before_row hpast]
  · rw [if_neg hwrap]
    exact congrArg (· % (h * w)) before_column

/-- `before` counts the positions of the window that the scan has passed. -/
theorem countP_before (hx0 : x0 + w + 1 < H) (n : Nat) :
    (List.range n).countP (fun k => decide (Inside x0 w (k % H) ∧ Inside y0 h (k / H))) =
      before x0 w y0 h (n % H) (n / H) := by
  have hH : 0 < H := by omega
  induction n with
  | zero => simp [before, passed, Inside]
  | succ n ih =>
    obtain ⟨hdiv, hmod⟩ := succ_div_mod (n := n) hH
    rw [List.range_succ, List.countP_append, ih, List.countP_singleton, hdiv, hmod]
    simp only [decide_eq_true_eq]
    by_cases hwrap : n % H + 1 = H
    · have hpast : x0 + w < n % H := by omega
      have hout : ¬Inside x0 w (n % H) := by unfold Inside; omega
      rw [if_pos hwrap, if_pos hwrap, if_neg (fun hin => hout hin.1), Nat.add_zero, before_row hpast]
    · rw [if_neg hwrap, if_neg hwrap, before_column]

end Windows

end Raster
