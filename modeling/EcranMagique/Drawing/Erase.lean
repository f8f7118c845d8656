import EcranMagique.Telecran

/-! The erase sweep. An edge that samples the button low puts the sweep at address `0`, wherever it was;
    from there each edge with the button high clears one cell and goes to the next, and the last cell
    ends the sweep. So the sweep is active exactly when the button was pressed within the last
    `720 * 480` edges, and a single press clears the frame buffer in order. -/

namespace EcranMagique
open Clocked

namespace Drawing

/-! ### The automaton along a run -/

/-- What the erase automaton tells of the button after `n` edges: an active sweep counts the edges since
    the last press, and an idle one has had a whole sweep since then. -/
structure Swept (w : Nat → EncoderPins) (n : Nat) (s : Drawing) : Prop where
  active : s.rEraseActive = true → ∃ i, (w i).iLeftPb = false ∧
    (∀ j, i < j → j < n → (w j).iLeftPb = true) ∧ i + 1 + s.rEraseAddr = n ∧ s.rEraseAddr < memSize
  idle : s.rEraseActive = false → ∀ i < n, (w i).iLeftPb = false → i + memSize < n

theorem Swept.reset (w : Nat → EncoderPins) : Swept w 0 Drawing.reset where
  active h := by cases h
  idle _ i hi := by omega

theorem Swept.edge {w : Nat → EncoderPins} {n : Nat} {s : Drawing} (h : Swept w n s) :
    Swept w (n + 1) (s.edge (w n)) := by
  rcases edge_cases s (w n) with ⟨hpb, ha, haddr⟩ | ⟨hpb, hact, hne, ha, haddr⟩ | ⟨hpb, hact, heq, ha, haddr⟩ |
    ⟨hpb, hact, ha, haddr⟩
  · refine ⟨fun _ => ⟨n, hpb, fun j h1 h2 => by omega, by rw [haddr], by rw [haddr]; decide⟩, fun hidle => ?_⟩
    rw [ha] at hidle
    cases hidle
  · refine ⟨fun _ => ?_, fun hidle => ?_⟩
    · obtain ⟨i, hi, hhigh, hn, hlt⟩ := h.active hact
      refine ⟨i, hi, fun j h1 h2 => ?_, by omega, by omega⟩
      rcases Nat.lt_succ_iff_lt_or_eq.mp h2 with h2 | rfl
      · exact hhigh j h1 h2
      · exact hpb
    · rw [ha] at hidle
      cases hidle
  · refine ⟨fun hsweep => ?_, fun _ i hi hpress => ?_⟩
    · rw [ha] at hsweep
      cases hsweep
    · -- The sweep that ends here began with the last press, `memSize` edges ago.
      obtain ⟨j, -, hhigh, hn, -⟩ := h.active hact
      by_contra hlate
      rcases Nat.lt_succ_iff_lt_or_eq.mp hi with hi | rfl
      · rw [hhigh i (by omega) hi] at hpress
        cases hpress
      · rw [hpb] at hpress
        cases hpress
  · refine ⟨fun hsweep => ?_, fun _ i hi hpress => ?_⟩
    · rw [ha] at hsweep
      cases hsweep
    · have hin : i ≠ n := fun heq => by
        rw [heq, hpb] at hpress
        cases hpress
      have := h.idle hact i (by omega) hpress
      omega

theorem swept_run (w : Nat → EncoderPins) (n : Nat) : Swept w n (run edge reset w n) := by
  induction n with
  | zero => exact Swept.reset w
  | succ n ih => exact ih.edge

/-- A sweep is active exactly when the button was pressed within the last `memSize` edges. -/
theorem sweeping_iff (w : Nat → EncoderPins) (n : Nat) :
    (run edge reset w n).rEraseActive = true ↔ ∃ i < n, (w i).iLeftPb = false ∧ n ≤ i + memSize := by
  have h := swept_run w n
  constructor
  · intro hact
    obtain ⟨i, hi, -, hn, hlt⟩ := h.active hact
    exact ⟨i, by omega, hi, by omega⟩
  · rintro ⟨i, hin, hi, hlate⟩
    by_contra hidle
    have := h.idle (Bool.eq_false_iff.mpr hidle) i hin hi
    omega

theorem eraseAddr_lt_of_sweeping {w : Nat → EncoderPins} {n : Nat}
    (h : (run edge reset w n).rEraseActive = true) : (run edge reset w n).rEraseAddr < memSize := by
  obtain ⟨_, -, -, -, hlt⟩ := (swept_run w n).active h
  exact hlt

/-- `r_erase_addr` stays in its declared range under any activations of the clock and the reset. -/
theorem eraseAddr_lt {s : Drawing} (h : Reachable activate reset s) : s.rEraseAddr < memSize := by
  have hreset : reset.rEraseAddr < memSize := by decide
  refine h.invariant (P := fun s => s.rEraseAddr < memSize) hreset (process_keeps hreset fun s i hs => ?_)
  rcases edge_cases s i with ⟨-, -, ha⟩ | ⟨-, -, hne, -, ha⟩ | ⟨-, -, -, -, ha⟩ | ⟨-, -, -, ha⟩ <;> omega

/-! ### The sweep after a press -/

section Sweep
variable {s : Drawing} {w : Nat → EncoderPins}

/-- The `k` edges after a press bring the sweep to address `k`. -/
theorem sweep_at (press : (w 0).iLeftPb = false) {k : Nat} (hk : k < memSize)
    (high : ∀ j, 1 ≤ j → j ≤ k → (w j).iLeftPb = true) :
    (run edge s w (k + 1)).rEraseActive = true ∧ (run edge s w (k + 1)).rEraseAddr = k := by
  induction k with
  | zero => exact edge_of_pressed s (w 0) press
  | succ k ih =>
    obtain ⟨hact, haddr⟩ := ih (by omega) fun j h1 h2 => high j h1 (by omega)
    have hnext := edge_of_sweeping (run edge s w (k + 1)) (w (k + 1)) (high (k + 1) (by omega) (by omega)) hact
      (by omega)
    rwa [haddr] at hnext

theorem sweep_ends (press : (w 0).iLeftPb = false) (high : ∀ j, 1 ≤ j → j ≤ memSize → (w j).iLeftPb = true) :
    (run edge s w (memSize + 1)).rEraseActive = false := by
  obtain ⟨hact, haddr⟩ := sweep_at (s := s) press (k := memSize - 1) (by decide)
    fun j h1 h2 => high j h1 (by omega)
  exact (edge_of_last _ (w memSize) (high memSize (by decide) (Nat.le_refl _)) hact haddr).1

end Sweep

end Drawing

namespace Telecran

theorem edge50?_of_sweeping {s : Telecran} (i : EncoderPins) (hact : s.drawing.rEraseActive = true)
    (hlt : s.drawing.rEraseAddr < memSize) :
    ∃ t, s.edge50? i = some t ∧ t.drawing = s.drawing.edge i ∧
      ∀ a, t.uFrameBuffer.ram a = if a.val = s.drawing.rEraseAddr then 0x00#8 else s.uFrameBuffer.ram a := by
  have haddr : s.drawing.sMuxAddrA = s.drawing.rEraseAddr := by simp [Drawing.sMuxAddrA, hact]
  refine ⟨_, edge50?_eq_some.mpr ⟨by omega, rfl⟩, rfl, fun a => ?_⟩
  simp only [Function.update_apply, Fin.ext_iff, haddr, Drawing.sMuxDataA, hact, ite_true]

theorem sweep_clears {s : Telecran} {w : Nat → EncoderPins} {d : Drawing} (press : (w 0).iLeftPb = false)
    (hs : s.drawing = d.edge (w 0)) {k : Nat} (hk : k ≤ memSize)
    (high : ∀ j, 1 ≤ j → j ≤ k → (w j).iLeftPb = true) :
    ∃ t, run? edge50? s (fun j => w (j + 1)) k = some t ∧ t.drawing = run Drawing.edge d w (k + 1) ∧
      ∀ a, t.uFrameBuffer.ram a = if a.val < k then 0x00#8 else s.uFrameBuffer.ram a := by
  induction k with
  | zero => exact ⟨s, rfl, hs, fun a => by simp⟩
  | succ k ih =>
    obtain ⟨t, ht, hd, hram⟩ := ih (by omega) fun j h1 h2 => high j h1 (by omega)
    obtain ⟨hact, haddr⟩ := Drawing.sweep_at (s := d) press (k := k) (by omega) fun j h1 h2 => high j h1 (by omega)
    rw [← hd] at hact haddr
    obtain ⟨u, hu, hdu, hramu⟩ := edge50?_of_sweeping (w (k + 1)) hact (by omega)
    refine ⟨u, run?_succ.mpr ⟨t, ht, hu⟩, by rw [hdu, hd, run_succ (k + 1)], fun a => ?_⟩
    rw [hramu, haddr, hram]
    rcases Nat.lt_trichotomy a.val k with h | h | h
    · rw [if_neg (by omega), if_pos h, if_pos (by omega)]
    · rw [if_pos h, if_pos (by omega)]
    · rw [if_neg (by omega), if_neg (by omega), if_neg (by omega)]

/-- From a press after which the button stays high, the next `memSize` edges write zero to every address
    in order, the last of them ends the sweep, and the frame buffer is cleared from below as they go.
    Whatever the sweep was doing before the press does not matter. -/
theorem erase_sweep (s : Drawing) (w : Nat → EncoderPins) (press : (w 0).iLeftPb = false)
    (high : ∀ j, 1 ≤ j → j ≤ memSize → (w j).iLeftPb = true) :
    (∀ k < memSize, (run Drawing.edge s w (k + 1)).rEraseActive = true ∧
      (run Drawing.edge s w (k + 1)).sMuxAddrA = k ∧ (run Drawing.edge s w (k + 1)).sMuxDataA = 0x00#8) ∧
    (run Drawing.edge s w (memSize + 1)).rEraseActive = false ∧
    (∀ t u : Telecran, t.drawing = s → t.edge50? (w 0) = some u → ∀ k ≤ memSize,
      ∃ v, run? edge50? u (fun j => w (j + 1)) k = some v ∧ v.drawing = run Drawing.edge s w (k + 1) ∧
        ∀ a, v.uFrameBuffer.ram a = if a.val < k then 0x00#8 else u.uFrameBuffer.ram a) ∧
    ∀ t, Reachable Drawing.activate Drawing.reset t → t.rEraseAddr < memSize := by
  refine ⟨fun k hk => ?_, Drawing.sweep_ends press high, ?_, fun t ht => Drawing.eraseAddr_lt ht⟩
  · obtain ⟨hact, haddr⟩ := Drawing.sweep_at (s := s) press hk fun j h1 h2 => high j h1 (by omega)
    refine ⟨hact, ?_, ?_⟩
    · simp only [Drawing.sMuxAddrA, hact, ite_true, haddr]
    · simp only [Drawing.sMuxDataA, hact, ite_true]
  · rintro t u rfl hedge k hk
    obtain ⟨_, rfl⟩ := edge50?_eq_some.mp hedge
    exact sweep_clears press rfl hk fun j h1 h2 => high j h1 (by omega)

/-- A button pressed for one edge out of the reset, with the encoders at rest. -/
def onePress (n : Nat) : EncoderPins := ⟨false, false, n != 0, false, false, true⟩

theorem onePress_high {j : Nat} (h : 1 ≤ j) : (onePress j).iLeftPb = true := by
  simp only [onePress, bne_iff_ne]
  omega

theorem erase_sweep_onePress :
    (run Drawing.edge Drawing.reset onePress memSize).sMuxAddrA = memSize - 1 ∧
      (run Drawing.edge Drawing.reset onePress (memSize + 1)).rEraseActive = false := by
  have h := erase_sweep Drawing.reset onePress rfl fun j h1 _ => onePress_high h1
  exact ⟨(h.1 (memSize - 1) (by decide)).2.1, h.2.1⟩

end Telecran
end EcranMagique
