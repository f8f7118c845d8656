import EcranMagique.Drawing.Erase
import EcranMagique.Encoder.Tracking
import Mathlib.Algebra.Order.Group.Abs
import Mathlib.Algebra.Order.Group.Int
import Mathlib.Data.List.GetD

/-! The address of port A. Both coordinates saturate at `1023`, while a row has `720` cells and the screen
    `480` rows. So the pen is inside the frame buffer only as long as the encoders have not taken it
    below the screen, and it leaves its row for the next one where it passes column `719`. -/

namespace EcranMagique
open Clocked EncoderManager SatWalk

namespace Drawing

/-! ### The range -/

/-- The position of an axis that the inputs since the reset describe: the saturated walk of the movements
    between their samples, of which the last has not been decoded yet. -/
def penPosition (d : Side) (inputs : List EncoderPins) : Int :=
  walk 0 1023 0 (movement d fun i => inputs.getD i default) (inputs.length - 1)

/-- The button was pressed at one of the last `memSize` edges since the reset. -/
def PressedLately (inputs : List EncoderPins) : Prop :=
  ∃ i, ∃ h : i < inputs.length, inputs[i].iLeftPb = false ∧ inputs.length ≤ i + memSize

/-- The cell at column `x` of row `y` is in the frame buffer. The last row ends at column `719`; in the rows
    above it the columns from `720` on are cells of the next row. -/
def OnScreen (x y : Int) : Prop := y < 479 ∨ (y = 479 ∧ x < 720)

theorem onScreen_iff {x y : Int} (hx : 0 ≤ x ∧ x ≤ 1023) : OnScreen x y ↔ x + y * 720 < memSize := by
  have := memSize_eq
  unfold OnScreen
  omega

theorem coord_eq_penPosition (d : Side) (inputs : List EncoderPins) :
    ((coord d (inputs.foldl edge reset).encs).toNat : Int) = penPosition d inputs := by
  rw [foldl_eq_run inputs default, encs_run]
  unfold penPosition
  cases inputs.length with
  | zero =>
    rw [run_zero]
    cases d <;> rfl
  | succ n => exact coord_run d _ n

theorem penPosition_range (d : Side) (inputs : List EncoderPins) :
    0 ≤ penPosition d inputs ∧ penPosition d inputs ≤ 1023 :=
  walk_mem (by decide) (by decide) (by decide) _ _

theorem sweeping_iff_pressedLately (inputs : List EncoderPins) :
    (inputs.foldl edge reset).rEraseActive = true ↔ PressedLately inputs := by
  rw [foldl_eq_run inputs default, sweeping_iff]
  unfold PressedLately
  constructor
  · rintro ⟨i, hi, hpb, hlate⟩
    exact ⟨i, hi, by rwa [List.getD_eq_getElem _ _ hi] at hpb, hlate⟩
  · rintro ⟨i, hi, hpb, hlate⟩
    exact ⟨i, hi, by rwa [List.getD_eq_getElem _ _ hi], hlate⟩

/-- In every state that any waveforms and any reset pulses reach, the address of port A is in range exactly
    when a sweep is active, since the button was pressed lately, or the inputs since the reset leave the
    pen on a cell of the frame buffer. -/
theorem muxAddr_in_range_iff (acts : Nat → Activation EncoderPins) (n : Nat) :
    (run activate reset acts n).sMuxAddrA < memSize ↔
      PressedLately (sinceReset acts n) ∨
        OnScreen (penPosition .left (sinceReset acts n)) (penPosition .right (sinceReset acts n)) := by
  unfold activate
  rw [run_process, ← sweeping_iff_pressedLately]
  generalize sinceReset acts n = inputs
  rw [onScreen_iff (penPosition_range .left inputs), ← coord_eq_penPosition, ← coord_eq_penPosition]
  unfold sMuxAddrA penAddr
  cases hact : (inputs.foldl edge reset).rEraseActive
  · simp only [Bool.false_eq_true, ite_false, false_or, coord]
    omega
  · have haddr : (inputs.foldl edge reset).rEraseAddr < memSize := by
      rw [foldl_eq_run inputs default] at hact ⊢
      exact eraseAddr_lt_of_sweeping hact
    simpa using haddr

theorem idle_run {s : Drawing} {w : Nat → EncoderPins} (idle : s.rEraseActive = false)
    (high : ∀ i, (w i).iLeftPb = true) (n : Nat) : (run edge s w n).rEraseActive = false := by
  induction n with
  | zero => exact idle
  | succ n ih => exact (edge_of_idle _ _ (high n) ih).1

theorem muxAddr_of_idle {s : Drawing} (idle : s.rEraseActive = false) : s.sMuxAddrA = s.penAddr := by
  simp only [sMuxAddrA, idle, Bool.false_eq_true, ite_false]

theorem forward_high (d : Side) (i : Nat) : (forward d i).iLeftPb = true := by cases d <;> rfl

theorem muxAddr_forward (d : Side) (n : Nat) : (run edge reset (forward d) n).sMuxAddrA =
    (coord .left (run EncoderManager.edge EncoderManager.reset (forward d) n)).toNat +
      (coord .right (run EncoderManager.edge EncoderManager.reset (forward d) n)).toNat * 720 := by
  rw [muxAddr_of_idle (idle_run rfl (forward_high d) n), penAddr, encs_run, encs_reset, coord, coord]

/-- The right encoder turned forward from the reset on takes the pen below the screen in `961` edges. -/
theorem muxAddr_out_of_range : ¬ ∀ acts n, (run activate reset acts n).sMuxAddrA < memSize := fun h => by
  have hn := h (fun i => ⟨true, true, forward .right i⟩) 961
  have hy : (coord .right (run EncoderManager.edge EncoderManager.reset (forward .right) 961)).toNat = 480 :=
    coord_forward .right (n := 960) (by decide)
  unfold activate at hn
  rw [run_process_edges, muxAddr_forward, hy, memSize_eq] at hn
  omega

/-! ### The stroke -/

/-- Two addresses are equal or neighbours on a screen of `720` columns: neither their columns nor their rows
    are more than one apart. -/
def Neighbours (a b : Nat) : Prop :=
  |((a % 720 : Nat) : Int) - (b % 720 : Nat)| ≤ 1 ∧ |((a / 720 : Nat) : Int) - (b / 720 : Nat)| ≤ 1

/-- The next edge takes `X` across the end of a row: it increments it from `719`, or decrements it from `720`. -/
def CrossesRowEnd (e : EncoderManager) : Prop :=
  (e.rCoordX.toNat = 719 ∧ incBranch e.rASyncLeft e.rBSyncLeft = true) ∨
  (e.rCoordX.toNat = 720 ∧ incBranch e.rASyncLeft e.rBSyncLeft = false ∧
    decBranch e.rASyncLeft e.rBSyncLeft = true)

theorem neighbours_iff {x y x' y' : Nat} (hx : x < 1024) (hx' : x' < 1024) (dx : x ≤ x' + 1 ∧ x' ≤ x + 1)
    (dy : y ≤ y' + 1 ∧ y' ≤ y + 1) :
    Neighbours (x + y * 720) (x' + y' * 720) ↔ (x < 720 ↔ x' < 720) := by
  have hcol : ∀ a b : Nat, (a + b * 720) % 720 = a % 720 := fun a b => Nat.add_mul_mod_self_right a b 720
  have hrow : ∀ a b : Nat, (a + b * 720) / 720 = a / 720 + b := fun a b => Nat.add_mul_div_right a b (by decide)
  unfold Neighbours
  rw [hcol, hcol, hrow, hrow, abs_le, abs_le]
  omega

theorem rCoordY_edge_near (e : EncoderManager) (i : EncoderPins) :
    e.rCoordY.toNat ≤ (e.edge i).rCoordY.toNat + 1 ∧ (e.edge i).rCoordY.toNat ≤ e.rCoordY.toNat + 1 := by
  have hc := toNat_le_cMaxCoord e.rCoordY
  have hy : (e.edge i).rCoordY = nextCoord e.rASyncRight e.rBSyncRight e.rCoordY := rfl
  rw [hy]
  rcases nextCoord_cases e.rASyncRight e.rBSyncRight e.rCoordY with ⟨-, h⟩ | ⟨-, -, h⟩ | ⟨-, -, h⟩ <;> omega

theorem penAddr_edge_neighbours (s : Drawing) (i : EncoderPins) :
    Neighbours s.penAddr (s.edge i).penAddr ↔ ¬CrossesRowEnd s.encs := by
  have hc := toNat_le_cMaxCoord s.encs.rCoordX
  have hmax : cMaxCoord = 1023 := rfl
  have hx : (s.encs.edge i).rCoordX = nextCoord s.encs.rASyncLeft s.encs.rBSyncLeft s.encs.rCoordX := rfl
  have hlt : (s.encs.edge i).rCoordX.toNat < 1024 := (s.encs.edge i).rCoordX.isLt
  unfold penAddr CrossesRowEnd
  rw [encs_edge]
  rcases nextCoord_cases s.encs.rASyncLeft s.encs.rBSyncLeft s.encs.rCoordX with ⟨hi, h⟩ | ⟨hi, hd, h⟩ | ⟨hi, hd, h⟩
  all_goals rw [neighbours_iff (by omega) hlt (by rw [hx]; omega) (rCoordY_edge_near s.encs i), hx, h, hi]
  · simp only [and_true, Bool.true_eq_false, false_and, and_false, or_false]
    omega
  · simp only [hd, and_true, Bool.false_eq_true, and_false, false_or]
    omega
  · simp [hd]

/-- In every run without an erase, the cells written at two consecutive edges are equal or neighbours exactly
    when the edge between them does not take `X` across the end of a row. -/
theorem stroke_neighbours_iff (s : Drawing) (w : Nat → EncoderPins) (idle : s.rEraseActive = false)
    (noErase : ∀ i, (w i).iLeftPb = true) (n : Nat) :
    Neighbours (run edge s w n).sMuxAddrA (run edge s w (n + 1)).sMuxAddrA ↔
      ¬CrossesRowEnd (run edge s w n).encs := by
  rw [muxAddr_of_idle (idle_run idle noErase n), muxAddr_of_idle (idle_run idle noErase (n + 1)), run_succ,
    penAddr_edge_neighbours]

/-- The left encoder turned forward from the reset on leaves column `719` of the first row for column `0`
    of the second. -/
theorem stroke_broken : ¬ ∀ w : Nat → EncoderPins, (∀ i, (w i).iLeftPb = true) → ∀ n,
    Neighbours (run edge reset w n).sMuxAddrA (run edge reset w (n + 1)).sMuxAddrA := fun h => by
  have hn := h (forward .left) (forward_high .left) 1440
  have hx : (coord .left (run EncoderManager.edge EncoderManager.reset (forward .left) 1440)).toNat = 719 :=
    coord_forward .left (n := 1439) (by decide)
  have hx' : (coord .left (run EncoderManager.edge EncoderManager.reset (forward .left) (1440 + 1))).toNat = 720 :=
    coord_forward .left (n := 1440) (by decide)
  have hy : ∀ n, coord .right (run EncoderManager.edge EncoderManager.reset (forward .left) n) = 0 :=
    coord_forward_other (by decide)
  rw [muxAddr_forward, muxAddr_forward, hy, hy, hx, hx'] at hn
  unfold Neighbours at hn
  revert hn
  decide

theorem stroke_neighbours_iff_down :
    Neighbours (run edge reset (forward .right) 5).sMuxAddrA (run edge reset (forward .right) 6).sMuxAddrA :=
  (stroke_neighbours_iff reset (forward .right) rfl (forward_high .right) 5).mpr (by
    unfold CrossesRowEnd
    decide)

end Drawing
end EcranMagique
