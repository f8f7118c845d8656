import EcranMagique.Lib.Clocked
import Mathlib.Data.Nat.Basic
import Mathlib.Order.Interval.Set.Defs
import Mathlib.Order.Lattice
import Mathlib.Order.Monotone.Basic

/-! A trigger with hysteresis over a linear order. A sample below `lo` sets its flag and one above `hi`
    clears it; samples in between, and missing ones, leave it alone. The flag remembers one bit, but which
    samples set it is a property of the whole history, and neutral samples play no part in it. -/

namespace Hysteresis
open Clocked

variable {α : Type*} [LinearOrder α] {lo hi : α} {flag : Bool} {o : Option α}

def Low (lo : α) (o : Option α) : Prop := ∃ x ∈ o, x < lo

def High (hi : α) (o : Option α) : Prop := ∃ x ∈ o, hi < x

/-- The sample is missing or between the thresholds. -/
def Neutral (lo hi : α) (o : Option α) : Prop := ∀ x ∈ o, lo ≤ x ∧ x ≤ hi

theorem Neutral.not_low (h : Neutral lo hi o) : ¬Low lo o := fun ⟨x, hx, hlt⟩ => absurd hlt (not_lt.mpr (h x hx).1)

theorem Neutral.not_high (h : Neutral lo hi o) : ¬High hi o := fun ⟨x, hx, hlt⟩ => absurd hlt (not_lt.mpr (h x hx).2)

/-! ### The flag -/

/-- The flag after a sample. -/
def next (lo hi : α) (flag : Bool) : Option α → Bool
  | none => flag
  | some x => if flag = false ∧ x < lo then true else if flag = true ∧ hi < x then false else flag

theorem next_eq_true (hle : lo ≤ hi) : next lo hi flag o = true ↔ Low lo o ∨ (flag = true ∧ ¬High hi o) := by
  cases o with
  | none => simp [next, Low, High]
  | some x =>
    have hexcl : x < lo → ¬hi < x := fun h => (h.trans_le hle).asymm
    cases flag
    · simp [next, Low]
    · simpa [next, Low, High] using fun h => le_of_not_gt (hexcl h)

/-- Sample `j` was low, and none of those between it and sample `n` was high. -/
def SetSince (lo hi : α) (w : Nat → Option α) (n j : Nat) : Prop :=
  j < n ∧ Low lo (w j) ∧ ∀ k, j < k → k < n → ¬High hi (w k)

section Runs
variable {w w' : Nat → Option α}

/-- The flag is set when some low sample has not been followed by a high one. -/
theorem run_next_iff (hle : lo ≤ hi) (n : Nat) :
    run (next lo hi) false w n = true ↔ ∃ j, SetSince lo hi w n j := by
  induction n with
  | zero => simp [SetSince]
  | succ n ih =>
    rw [run_succ, next_eq_true hle, ih]
    constructor
    · rintro (hlow | ⟨⟨j, hj, hlow, hkept⟩, hnot⟩)
      · exact ⟨n, by omega, hlow, fun k h1 h2 => by omega⟩
      · refine ⟨j, by omega, hlow, fun k h1 h2 => ?_⟩
        rcases Nat.lt_succ_iff_lt_or_eq.mp h2 with h | rfl
        · exact hkept k h1 h
        · exact hnot
    · rintro ⟨j, hj, hlow, hkept⟩
      rcases Nat.lt_succ_iff_lt_or_eq.mp hj with h | rfl
      · exact Or.inr ⟨⟨j, h, hlow, fun k h1 h2 => hkept k h1 (by omega)⟩, hkept n h (by omega)⟩
      · exact Or.inl hlow

/-- The flag is clear before sample `n`, and the sample sets it. -/
def Fires (lo hi : α) (w : Nat → Option α) (n : Nat) : Prop := run (next lo hi) false w n = false ∧ Low lo (w n)

theorem fires_iff (hle : lo ≤ hi) (n : Nat) : Fires lo hi w n ↔ Low lo (w n) ∧ ¬∃ j, SetSince lo hi w n j := by
  rw [Fires, ← run_next_iff hle, Bool.not_eq_true, and_comm]

/-- Between two samples that set the flag a high one has cleared it. -/
theorem Fires.high_between (hle : lo ≤ hi) {i j : Nat} (hij : i < j) (hi' : Fires lo hi w i) (hj : Fires lo hi w j) :
    ∃ k, i < k ∧ k < j ∧ High hi (w k) := by
  by_contra hno
  refine ((fires_iff hle j).mp hj).2 ⟨i, hij, hi'.2, fun k h1 h2 h => hno ⟨k, h1, h2, h⟩⟩

end Runs

/-! ### Inserted samples -/

/-- The first `n` inputs of `w` are inputs of `w'`, in the same order and at the places that `e` gives;
    the other inputs of `w'` among them satisfy `P`. -/
structure Inserted {β : Type*} (P : β → Prop) (e : Nat → Nat) (n : Nat) (w w' : Nat → β) : Prop where
  order : StrictMonoOn e (Set.Iio n)
  kept : ∀ i < n, w' (e i) = w i
  extra : ∀ i < n, ∀ k < e i, (∀ j < n, e j ≠ k) → P (w' k)

namespace Inserted
variable {e : Nat → Nat} {n i : Nat}

theorem map {β γ : Type*} {P : β → Prop} {Q : γ → Prop} {f : β → γ} {w w' : Nat → β} (h : Inserted P e n w w')
    (hf : ∀ x, P x → Q (f x)) : Inserted Q e n (fun i => f (w i)) fun i => f (w' i) where
  order := h.order
  kept i hi := congrArg f (h.kept i hi)
  extra i hi k hk hj := hf _ (h.extra i hi k hk hj)

theorem exists_place {β : Type*} {P : β → Prop} {w w' : Nat → β} (h : Inserted P e n w w') (hi' : i < n) {k : Nat}
    (hk : k < e i) (hne : ¬P (w' k)) : ∃ j < i, e j = k := by
  have hplace : ∃ j < n, e j = k := by
    by_contra hno
    exact hne (h.extra i hi' k hk fun j hj heq => hno ⟨j, hj, heq⟩)
  obtain ⟨j, hj, rfl⟩ := hplace
  exact ⟨j, (h.order.lt_iff_lt hj hi').mp hk, rfl⟩

variable {w w' : Nat → Option α}

theorem setSince_iff (h : Inserted (Neutral lo hi) e n w w') (hi' : i < n) :
    (∃ j, SetSince lo hi w' (e i) j) ↔ ∃ j, SetSince lo hi w i j := by
  constructor
  · rintro ⟨j', hj', hlow, hkept⟩
    obtain ⟨j, hj, rfl⟩ := h.exists_place hi' hj' fun hn => hn.not_low hlow
    rw [h.kept j (by omega)] at hlow
    refine ⟨j, hj, hlow, fun k h1 h2 => ?_⟩
    rw [← h.kept k (by omega)]
    exact hkept (e k) (h.order (Set.mem_Iio.mpr (by omega)) (Set.mem_Iio.mpr (by omega)) h1)
      (h.order (Set.mem_Iio.mpr (by omega)) hi' h2)
  · rintro ⟨j, hj, hlow, hkept⟩
    rw [← h.kept j (by omega)] at hlow
    refine ⟨e j, h.order (Set.mem_Iio.mpr (by omega)) hi' hj, hlow, fun k' h1 h2 hhigh => ?_⟩
    obtain ⟨k, hk, rfl⟩ := h.exists_place hi' h2 fun hn => hn.not_high hhigh
    rw [h.kept k (by omega)] at hhigh
    exact hkept k ((h.order.lt_iff_lt (Set.mem_Iio.mpr (by omega)) (Set.mem_Iio.mpr (by omega))).mp h1) hk hhigh

theorem fires_iff (h : Inserted (Neutral lo hi) e n w w') (hle : lo ≤ hi) (hi' : i < n) :
    Fires lo hi w' (e i) ↔ Fires lo hi w i := by
  rw [Hysteresis.fires_iff hle, Hysteresis.fires_iff hle, h.setSince_iff hi', h.kept i hi']

end Inserted

end Hysteresis
