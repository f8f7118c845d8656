import EcranMagique.Drawing.FrameBuffer

/-! A press of any length. Every edge that samples the button low puts the sweep back to address `0`, so the
    sweep only moves on once the button is released: `k` edges after the press began it is at address
    `k - d`, where `d` is the number of edges for which the button was low. -/

namespace EcranMagique
open Clocked

structure Press (w : Nat → EncoderPins) (d : Nat) : Prop where
  pos : 1 ≤ d
  low : ∀ j < d, (w j).iLeftPb = false
  high : ∀ j, d ≤ j → (w j).iLeftPb = true

namespace Drawing
variable {s : Drawing} {w : Nat → EncoderPins} {d : Nat}

/-- Port A has written `x"00"` at address `a` by edge `n`, which is one of the edges from `0` on. -/
def ErasedBy (s : Drawing) (w : Nat → EncoderPins) (n a : Nat) : Prop :=
  ∃ j ≤ n, (run edge s w j).sMuxAddrA = a ∧ (run edge s w j).sMuxDataA = 0x00#8

theorem sweep_of_press (press : Press w d) {k : Nat} (h1 : 1 ≤ k) (hk : k < memSize + d) :
    (run edge s w k).rEraseActive = true ∧ (run edge s w k).rEraseAddr = k - d := by
  have hd := press.pos
  rcases Nat.lt_or_ge k d with hlow | hhigh
  · obtain ⟨m, rfl⟩ : ∃ m, k = m + 1 := ⟨k - 1, by omega⟩
    obtain ⟨hact, haddr⟩ := edge_of_pressed (run edge s w m) (w m) (press.low m (by omega))
    rw [run_succ, hact, haddr]
    exact ⟨rfl, by omega⟩
  · -- The last edge with the button low starts the sweep that runs to the end.
    have hsum : k = d - 1 + (k - d + 1) := by omega
    have hsweep := sweep_at (s := run edge s w (d - 1)) (w := fun j => w (d - 1 + j)) (press.low (d - 1) (by omega))
      (k := k - d) (by omega) fun j h1 _ => press.high (d - 1 + j) (by omega)
    rwa [← run_add, ← hsum] at hsweep

/-- The edge of the press itself still writes the pen; those after it have cleared the cells up to address `n - d`. -/
theorem erasedBy_iff (idle : s.rEraseActive = false) (press : Press w d) {n a : Nat} (h1 : 1 ≤ n)
    (hn : n < memSize + d) : ErasedBy s w n a ↔ a ≤ n - d := by
  have hwrites : ∀ j, 1 ≤ j → j ≤ n →
      (run edge s w j).sMuxAddrA = j - d ∧ (run edge s w j).sMuxDataA = 0x00#8 := fun j hj hjn => by
    obtain ⟨hact, haddr⟩ := sweep_of_press (s := s) press hj (by omega)
    simp only [sMuxAddrA, sMuxDataA, hact, ite_true, haddr, and_self]
  constructor
  · rintro ⟨j, hjn, haddr, hdata⟩
    cases j with
    | zero =>
      simp only [run_zero, sMuxDataA, idle, Bool.false_eq_true, ite_false] at hdata
      exact absurd hdata (by decide)
    | succ j =>
      have := (hwrites (j + 1) (Nat.succ_pos j) hjn).1
      omega
  · intro ha
    have hd := press.pos
    -- The last edge at which the sweep is at `a`, or for address `0` the first.
    rcases Nat.lt_or_ge n d with hlt | hge
    · obtain ⟨haddr, hdata⟩ := hwrites 1 (Nat.le_refl 1) h1
      exact ⟨1, h1, by omega, hdata⟩
    · obtain ⟨haddr, hdata⟩ := hwrites (a + d) (by omega) (by omega)
      exact ⟨a + d, by omega, by omega, hdata⟩

/-- Whatever the state in which the button goes low with no sweep active, the `720 * 480` edges after that one
    have cleared every cell exactly when the press is sampled at no other edge. -/
theorem press_erases_iff (idle : s.rEraseActive = false) (press : Press w d) :
    (∀ a < memSize, ErasedBy s w memSize a) ↔ d = 1 := by
  have hd := press.pos
  have herased : ∀ a, ErasedBy s w memSize a ↔ a ≤ memSize - d := fun a =>
    erasedBy_iff idle press (by decide) (by omega)
  simp only [herased]
  constructor
  · intro hall
    have := hall (memSize - 1) (by decide)
    rw [memSize_eq] at this
    omega
  · rintro rfl a ha
    omega

def pressedFor (d n : Nat) : EncoderPins := ⟨false, false, decide (d ≤ n), false, false, true⟩

theorem press_pressedFor {d : Nat} (hd : 1 ≤ d) : Press (pressedFor d) d where
  pos := hd
  low j hj := by simpa [pressedFor] using hj
  high j hj := by simpa [pressedFor] using hj

theorem press_erases_iff_one : ErasedBy reset (pressedFor 1) memSize (memSize - 1) :=
  (press_erases_iff rfl (press_pressedFor (Nat.le_refl 1))).mpr rfl (memSize - 1) (by decide)

/-- A press that is sampled at two edges: the last cell is not cleared in time. -/
theorem press_held : ¬ ∀ (s : Drawing) (w : Nat → EncoderPins) (d : Nat), Reachable activate reset s →
    s.rEraseActive = false → Press w d → ∀ a < memSize, ErasedBy s w memSize a := fun h => by
  have press : Press (pressedFor 2) 2 := press_pressedFor (by decide)
  have hlast := h reset (pressedFor 2) 2 ⟨fun _ => ⟨true, true, default⟩, 0, rfl⟩ rfl press (memSize - 1) (by decide)
  rw [erasedBy_iff rfl press (by decide) (by decide)] at hlast
  exact absurd hlast (by decide)

end Drawing

namespace Telecran
variable {s t : Telecran} {w : Nat → EncoderPins} {d : Nat}

/-- The frame buffer along a press: the cells up to address `n - d` are clear, and the others hold what they
    held before the press, but for the cell that the pen lit at the edge of the press. -/
theorem ram_of_press (idle : s.drawing.rEraseActive = false) (press : Press w d) {n : Nat} (hn : n < memSize + d)
    (h : run? edge50? s w (n + 1) = some t) (a : Fin memSize) :
    t.uFrameBuffer.ram a =
      if 1 ≤ n ∧ a.val ≤ n - d then 0x00#8
      else if a.val = s.drawing.penAddr then 0xFF#8 else s.uFrameBuffer.ram a := by
  have hd := press.pos
  induction n generalizing t with
  | zero =>
    obtain ⟨u, hu, ht⟩ := run?_succ.mp h
    cases hu
    have hnone : ¬(1 ≤ 0 ∧ a.val ≤ 0 - d) := fun hone => Nat.not_succ_le_zero 0 hone.1
    rw [ram_of_idle ht idle, if_neg hnone]
  | succ n ih =>
    obtain ⟨u, hu, ht⟩ := run?_succ.mp h
    obtain ⟨hact, haddr⟩ := Drawing.sweep_of_press (s := s.drawing) press (Nat.succ_pos n) (by omega)
    rw [← drawing_run? hu] at hact haddr
    rw [ram_of_sweeping ht hact, haddr, ih (by omega) hu]
    by_cases hnow : a.val = n + 1 - d
    · rw [if_pos hnow, if_pos ⟨Nat.succ_pos n, Nat.le_of_eq hnow⟩]
    · rw [if_neg hnow]
      exact if_congr (by omega) rfl rfl

end Telecran
end EcranMagique
