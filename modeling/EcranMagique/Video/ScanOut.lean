import EcranMagique.Display
import EcranMagique.Video.Timing

/-! The picture on the screen is the frame buffer. The address at port B runs one clock ahead of the enable,
    and the registered read of the memory takes that clock back: at every enabled clock the colour is that
    of the cell of the current pixel, as it was at the edge. Writes through port A may fall anywhere
    between the pixel clocks. -/

namespace EcranMagique.Display
open Clocked Raster HdmiControler

variable {g : Generics}

def cell (c : Fin g.hRes) (r : Fin g.vRes) : Fin (g.hRes * g.vRes) :=
  ⟨r * g.hRes + c, calc r * g.hRes + c
    _ < r * g.hRes + g.hRes := Nat.add_lt_add_left c.isLt _
    _ = (r + 1) * g.hRes := (Nat.succ_mul _ _).symm
    _ ≤ g.vRes * g.hRes := Nat.mul_le_mul_right _ r.isLt
    _ = g.hRes * g.vRes := Nat.mul_comm _ _⟩

def pixels (w : Nat → Edge g) : Nat → Nat
  | 0 => 0
  | n + 1 => if w n = .pixel then pixels w n + 1 else pixels w n

/-! ### The generator in the composition -/

/-- The generator takes the pixel clocks alone. -/
theorem hdmiCtrl_run? {fb : Dpram (g.hRes * g.vRes) 8} {w : Nat → Edge g} {n : Nat} {s : Display g}
    (h : run? edge? (reset fb) w n = some s) : s.hdmiCtrl = after g (pixels w n) := by
  induction n generalizing s with
  | zero =>
    cases h
    rfl
  | succ n ih =>
    obtain ⟨u, hu, hs⟩ := run?_succ.mp h
    have hprev := ih hu
    unfold pixels
    cases hw : w n with
    | pixel =>
      rw [hw, edge?_pixel] at hs
      obtain ⟨_, rfl⟩ := hs
      rw [if_pos rfl, after_succ]
      exact congrArg (HdmiControler.edge g) hprev
    | portA addr data =>
      rw [hw, edge?_portA] at hs
      subst hs
      rw [if_neg (by simp), hprev]

/-- The address of port B is never out of range, so no run fails. -/
theorem run?_display (fb : Dpram (g.hRes * g.vRes) 8) (w : Nat → Edge g) (n : Nat) :
    ∃ s, run? edge? (reset fb) w n = some s ∧ Synced g s.hdmiCtrl := by
  refine run?_isSome (P := fun s : Display g => Synced g s.hdmiCtrl) (s := reset fb) synced_reset (fun s n hs => ?_) n
  cases w n with
  | pixel => exact ⟨_, edge?_pixel.mpr ⟨hs.address_lt, rfl⟩, hs.edge⟩
  | portA addr data => exact ⟨_, edge?_portA.mpr rfl, hs⟩

/-! ### The shown cell -/

theorem address_eq_cell {s : HdmiControler} (hs : Synced g s) (hh : g.HInside s.rHCount) (hv : g.VInside s.rVCount) :
    ∃ c : Fin g.hRes, ∃ r : Fin g.vRes, s.rHCount = g.hStart + 1 + c ∧ s.rVCount = g.vStart + 1 + r ∧
      s.rPixelAddress = cell c r := by
  obtain ⟨hx, hxlt, -⟩ := passed_of_inside hh
  obtain ⟨hy, hylt, -⟩ := passed_of_inside hv
  refine ⟨⟨_, hxlt⟩, ⟨_, hylt⟩, hx.symm, hy.symm, ?_⟩
  rw [(hs.address_of_active hh hv).1]
  exact (before_of_inside hh hv).1

theorem shown_cell {s t : Display g} (hs : Synced g s.hdmiCtrl) (h : s.edge? .pixel = some t)
    (hde : t.hdmiCtrl.oHdmiDe = true) :
    ∃ c : Fin g.hRes, ∃ r : Fin g.vRes, t.hdmiCtrl.rHCount = g.hStart + 2 + c ∧ t.hdmiCtrl.rVCount = g.vStart + 1 + r ∧
      t.uFrameBuffer.oQB = s.uFrameBuffer.ram (cell c r) := by
  obtain ⟨hlt, rfl⟩ := edge?_pixel.mp h
  have hflags : s.hdmiCtrl.rHActive = true ∧ s.hdmiCtrl.rVActive = true := by
    simpa [oHdmiDe_edge] using hde
  obtain ⟨hh, hv⟩ := hs.active_iff.mp hflags
  obtain ⟨c, r, hx, hy, haddr⟩ := address_eq_cell hs hh hv
  have hne : s.hdmiCtrl.rHCount ≠ g.hTotal := by
    have horder := g.h_order
    have hend := hh.2
    change s.hdmiCtrl.rHCount ≤ g.hEnd at hend
    omega
  refine ⟨c, r, ?_, ?_, ?_⟩
  · simp only [rHCount_edge, if_neg hne]
    omega
  · simp only [rVCount_edge, if_neg hne]
    exact hy
  · simp only [haddr]

theorem de_after_iff {m : Nat} : (after g m).oHdmiDe = true ↔ ∃ c : Fin g.hRes, ∃ r : Fin g.vRes,
    m % frameClocks g = (g.vStart + 1 + r) * g.lineClocks + (g.hStart + 2 + c) := by
  rw [oHdmiDe_after, decide_eq_true_eq]
  constructor
  · rintro ⟨hcol, hrow⟩
    obtain ⟨hx, hxlt, -⟩ := passed_of_inside hcol
    obtain ⟨hy, hylt, -⟩ := passed_of_inside hrow
    refine ⟨⟨_, hxlt⟩, ⟨_, hylt⟩, ?_⟩
    change _ = (g.vStart + 1 + passed _ _ _) * g.lineClocks + (g.hStart + 1 + 1 + passed _ _ _)
    rw [hx, hy, frameClocks, Nat.mod_mul, Nat.mul_comm, Nat.add_comm]
  · rintro ⟨c, r, hm⟩
    have hh := g.h_order
    have hv := g.v_order
    have hc := c.isLt
    have hr := r.isLt
    have hhend : g.hEnd = g.hStart + g.hRes := rfl
    have hvend : g.vEnd = g.vStart + g.vRes := rfl
    have hframe : (m - m % frameClocks g) % frameClocks g = 0 := Nat.sub_mod_eq_zero_of_mod_eq (Nat.mod_mod _ _).symm
    have hle := Nat.mod_le m (frameClocks g)
    have hl : g.vStart + 1 + r < g.frameLines := by
      rw [g.frameLines_eq]
      omega
    have hk : g.hStart + 2 + c < g.lineClocks := by
      rw [g.lineClocks_eq]
      omega
    obtain ⟨hcol, hrow⟩ := column_of_frame g hframe hl hk
    have hsum : m - m % frameClocks g + (g.vStart + 1 + r) * g.lineClocks + (g.hStart + 2 + c) = m := by omega
    rw [hsum] at hcol hrow
    rw [hcol, hrow]
    unfold DataColumn Inside Generics.VInside Inside
    omega

/-- After every pixel clock that leaves the enable high, the colour is that of the cell of the current pixel
    at that edge, and the enabled clocks of a frame show every pixel once, in scan order. No run fails. -/
theorem scan_out (g : Generics) (fb : Dpram (g.hRes * g.vRes) 8) (w : Nat → Edge g) (n : Nat) :
    ∃ s, run? edge? (reset fb) w n = some s ∧ (w n = .pixel → ∃ t, s.edge? .pixel = some t ∧
      (t.hdmiCtrl.oHdmiDe = true → ∃ c : Fin g.hRes, ∃ r : Fin g.vRes,
        t.hdmiCtrl.rHCount = g.hStart + 2 + c ∧ t.hdmiCtrl.rVCount = g.vStart + 1 + r ∧
        oHdmiTxD t.uFrameBuffer.oQB =
          if s.uFrameBuffer.ram (cell c r) = 0xFF#8 then BitVec.allOnes 24 else 0) ∧
      (t.hdmiCtrl.oHdmiDe = true ↔ ∃ c : Fin g.hRes, ∃ r : Fin g.vRes,
        pixels w (n + 1) % frameClocks g = (g.vStart + 1 + r) * g.lineClocks + (g.hStart + 2 + c))) := by
  obtain ⟨s, hs, hsync⟩ := run?_display fb w n
  refine ⟨s, hs, fun hw => ?_⟩
  have hedge := edge?_pixel.mpr ⟨hsync.address_lt, rfl⟩
  refine ⟨_, hedge, fun hde => ?_, ?_⟩
  · obtain ⟨c, r, hx, hy, hq⟩ := shown_cell hsync hedge hde
    exact ⟨c, r, hx, hy, by rw [hq, oHdmiTxD]⟩
  · have hrun := hdmiCtrl_run? (run?_succ.mpr ⟨s, hs, by rw [hw]; exact hedge⟩)
    rw [hrun, de_after_iff]

end EcranMagique.Display
