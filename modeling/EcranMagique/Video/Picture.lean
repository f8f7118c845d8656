import EcranMagique.Drawing.FrameBuffer
import EcranMagique.Lib.LastWrite
import EcranMagique.Video.ScanOut

/-! The picture. The edges of the two clocks come in any order; whatever it is, as long as port A is not clocked with an
    address out of range, each enabled pixel shows what the drawing side last did to its cell, and once a sweep has
    completed this is where the pen has been since.

    The pixel clock is counted from where the generator leaves its reset, which the PLL gives it. -/

namespace EcranMagique
open Clocked LastWrite

namespace Telecran

inductive Edge where
  | clk50 (i : EncoderPins)
  | clk27
  deriving DecidableEq, Repr

def edge? (s : Telecran) : Edge → Option Telecran
  | .clk50 i => s.edge50? i
  | .clk27 => s.edge27?

/-- What an edge of either clock does to the drawing side. -/
def tick (d : Drawing) : Edge → Drawing
  | .clk50 i => d.edge i
  | .clk27 => d

/-- The write that an edge makes through port A. -/
def write (d : Drawing) : Edge → Option (Fin memSize × BitVec 8)
  | .clk50 _ => if h : d.sMuxAddrA < memSize then some (⟨d.sMuxAddrA, h⟩, d.sMuxDataA) else none
  | .clk27 => none

def pixelClocks (w : Nat → Edge) : Nat → Nat
  | 0 => 0
  | n + 1 => if w n = .clk27 then pixelClocks w n + 1 else pixelClocks w n

/-! ### An edge -/

section Step
variable {s t : Telecran}

theorem edge27?_eq_some : s.edge27? = some t ↔ ∃ h : s.hdmiCtrl.rPixelAddress < memSize,
    t = ⟨s.drawing, ⟨s.uFrameBuffer.ram, s.uFrameBuffer.oQA, s.uFrameBuffer.ram ⟨s.hdmiCtrl.rPixelAddress, h⟩⟩,
      s.hdmiCtrl.edge Generics.default⟩ := by
  simp only [edge27?, Option.map_eq_some_iff, Display.edge?_pixel, display]
  constructor
  · rintro ⟨d, ⟨h, rfl⟩, rfl⟩
    exact ⟨h, rfl⟩
  · rintro ⟨h, rfl⟩
    exact ⟨_, ⟨h, rfl⟩, rfl⟩

theorem drawing_edge? {e : Edge} (h : s.edge? e = some t) : t.drawing = tick s.drawing e := by
  cases e with
  | clk50 i => exact drawing_edge50? h
  | clk27 =>
    obtain ⟨_, rfl⟩ := edge27?_eq_some.mp h
    rfl

theorem ram_edge? {e : Edge} (h : s.edge? e = some t) :
    t.uFrameBuffer.ram = store s.uFrameBuffer.ram (write s.drawing e) := by
  cases e with
  | clk50 i =>
    obtain ⟨hlt, rfl⟩ := edge50?_eq_some.mp h
    simp only [write, hlt, dite_true, store]
  | clk27 =>
    obtain ⟨_, rfl⟩ := edge27?_eq_some.mp h
    rfl

theorem Cleared.edge? {e : Edge} (hs : s.Cleared) (h : s.edge? e = some t) : t.Cleared := by
  cases e with
  | clk50 i => exact hs.edge h
  | clk27 =>
    obtain ⟨_, rfl⟩ := edge27?_eq_some.mp h
    exact hs

end Step

/-! ### A run -/

/-- The drawing side before edge `j`. -/
def drawingAt (w : Nat → Edge) (j : Nat) : Drawing := run tick Drawing.reset w j

def writeAt (w : Nat → Edge) (j : Nat) : Option (Fin memSize × BitVec 8) := write (drawingAt w j) (w j)

/-- No edge of the 50 MHz clock finds the address of port A outside the memory. -/
def InRange (w : Nat → Edge) (n : Nat) : Prop := ∀ j < n, ∀ i, w j = .clk50 i → (drawingAt w j).sMuxAddrA < memSize

section Run
variable {fb : Dpram memSize 8} {s : Telecran} {w : Nat → Edge} {n : Nat}

theorem drawing_run (h : run? edge? (reset fb) w n = some s) : s.drawing = drawingAt w n :=
  run?_map (f := Telecran.drawing) (g := id) (fun _ _ _ h => drawing_edge? h) h

theorem ram_run (h : run? edge? (reset fb) w n = some s) : s.uFrameBuffer.ram = run store fb.ram (writeAt w) n := by
  induction n generalizing s with
  | zero =>
    cases h
    rfl
  | succ n ih =>
    obtain ⟨u, hu, hs⟩ := run?_succ.mp h
    rw [ram_edge? hs, ih hu, drawing_run hu, run_succ]
    rfl

theorem hdmiCtrl_run (h : run? edge? (reset fb) w n = some s) :
    s.hdmiCtrl = HdmiControler.after Generics.default (pixelClocks w n) := by
  induction n generalizing s with
  | zero =>
    cases h
    rfl
  | succ n ih =>
    obtain ⟨u, hu, hs⟩ := run?_succ.mp h
    have hprev := ih hu
    unfold pixelClocks
    cases hw : w n with
    | clk50 i =>
      rw [hw] at hs
      obtain ⟨_, rfl⟩ := edge50?_eq_some.mp hs
      rw [if_neg (by simp)]
      exact hprev
    | clk27 =>
      rw [hw] at hs
      obtain ⟨_, rfl⟩ := edge27?_eq_some.mp hs
      rw [if_pos rfl, HdmiControler.after_succ, ← hprev]

theorem cleared_run (h : run? edge? (reset fb) w n = some s) : s.Cleared :=
  run?_invariant h (fun hact => by cases hact) fun _ _ _ hs h => hs.edge? h

end Run

/-! ### A pixel -/

section Pixel
variable {fb : Dpram memSize 8} {s : Telecran} {w : Nat → Edge} {n : Nat}

def cell (c : Fin 720) (r : Fin 480) : Fin memSize := Display.cell (g := Generics.default) c r

/-- The place of a pixel among the clocks of a frame. -/
def pixelClock (c : Fin 720) (r : Fin 480) : Nat :=
  (Generics.default.vStart + 1 + r) * Generics.default.lineClocks + (Generics.default.hStart + 2 + c)

theorem counts_of_place {m : Nat} {c : Fin 720} {r : Fin 480}
    (h : m % HdmiControler.frameClocks Generics.default = pixelClock c r) :
    m % Generics.default.lineClocks = Generics.default.hStart + 2 + c ∧
    m / Generics.default.lineClocks % Generics.default.frameLines = Generics.default.vStart + 1 + r := by
  have hframe : m % 450450 = (35 + 1 + r.val) * 858 + (119 + 2 + c.val) := h
  change m % 858 = 119 + 2 + c.val ∧ m / 858 % 525 = 35 + 1 + r.val
  have hc := c.isLt
  have hr := r.isLt
  omega

/-- A pixel edge never fails. The enable is high in the places of the pixels, each of which reads its cell. -/
theorem pixel_edge (h : run? edge? (reset fb) w n = some s) : ∃ t, s.edge27? = some t ∧
    (t.hdmiCtrl.oHdmiDe = true ↔
      ∃ c r, (pixelClocks w n + 1) % HdmiControler.frameClocks Generics.default = pixelClock c r) ∧
    ∀ c r, (pixelClocks w n + 1) % HdmiControler.frameClocks Generics.default = pixelClock c r →
      t.uFrameBuffer.oQB = s.uFrameBuffer.ram (cell c r) := by
  have hctrl := hdmiCtrl_run h
  have hsync : HdmiControler.Synced Generics.default s.hdmiCtrl := hctrl ▸ HdmiControler.synced_after _ _
  have hafter : s.hdmiCtrl.edge Generics.default = HdmiControler.after Generics.default (pixelClocks w n + 1) := by
    rw [hctrl, HdmiControler.after_succ]
  refine ⟨_, edge27?_eq_some.mpr ⟨hsync.address_lt, rfl⟩, ?_, fun c r hplace => ?_⟩
  · rw [hafter]
    exact Display.de_after_iff
  · have hde : (s.hdmiCtrl.edge Generics.default).oHdmiDe = true := by
      rw [hafter]
      exact Display.de_after_iff.mpr ⟨c, r, hplace⟩
    have hedge : s.display.edge? .pixel = some _ := Display.edge?_pixel.mpr ⟨hsync.address_lt, rfl⟩
    obtain ⟨c', r', hx, hy, hq⟩ := Display.shown_cell hsync hedge hde
    obtain ⟨hcol, hrow⟩ := counts_of_place hplace
    change (s.hdmiCtrl.edge Generics.default).rHCount = _ at hx
    change (s.hdmiCtrl.edge Generics.default).rVCount = _ at hy
    rw [hafter, HdmiControler.rHCount_after, hcol] at hx
    rw [hafter, HdmiControler.rVCount_after, hrow] at hy
    obtain rfl : c' = c := Fin.ext (Nat.add_left_cancel hx).symm
    obtain rfl : r' = r := Fin.ext (Nat.add_left_cancel hy).symm
    exact hq

/-- A run fails only by an address of port A that is out of range. -/
theorem run?_isSome_iff : (∃ s, run? edge? (reset fb) w n = some s) ↔ InRange w n := by
  constructor
  · rintro ⟨s, hs⟩ j hj i hw
    obtain ⟨t, ht⟩ := run?_of_le hs (Nat.succ_le_of_lt hj)
    obtain ⟨u, hu, hedge⟩ := run?_succ.mp ht
    rw [hw] at hedge
    obtain ⟨hlt, -⟩ := edge50?_eq_some.mp hedge
    rwa [drawing_run hu] at hlt
  · intro hrange
    induction n with
    | zero => exact ⟨_, rfl⟩
    | succ n ih =>
      obtain ⟨s, hs⟩ := ih fun j hj => hrange j (Nat.lt_succ_of_lt hj)
      cases hw : w n with
      | clk50 i =>
        have hlt : s.drawing.sMuxAddrA < memSize := drawing_run hs ▸ hrange n (Nat.lt_succ_self n) i hw
        exact ⟨_, run?_succ.mpr ⟨s, hs, by rw [hw]; exact edge50?_eq_some.mpr ⟨hlt, rfl⟩⟩⟩
      | clk27 =>
        obtain ⟨t, ht, -⟩ := pixel_edge hs
        exact ⟨t, run?_succ.mpr ⟨s, hs, by rw [hw]; exact ht⟩⟩

end Pixel

/-! ### What has become of a cell -/

/-- Edge `j` is one of the 50 MHz clock with the pen on the cell and no sweep. -/
def PenAt (w : Nat → Edge) (j : Nat) (a : Fin memSize) : Prop :=
  (∃ i, w j = .clk50 i) ∧ (drawingAt w j).rEraseActive = false ∧ (drawingAt w j).penAddr = a

/-- Edge `j` is one of the 50 MHz clock with a sweep on the cell. -/
def SweepAt (w : Nat → Edge) (j : Nat) (a : Fin memSize) : Prop :=
  (∃ i, w j = .clk50 i) ∧ (drawingAt w j).rEraseActive = true ∧ (drawingAt w j).rEraseAddr = a

section Cell
variable {fb : Dpram memSize 8} {s : Telecran} {w : Nat → Edge} {j n : Nat} {a : Fin memSize}

theorem PenAt.write (h : PenAt w j a) : writeAt w j = some (a, 0xFF#8) := by
  obtain ⟨⟨i, hw⟩, hidle, hpen⟩ := h
  simp [writeAt, Telecran.write, hw, Drawing.sMuxAddrA, Drawing.sMuxDataA, hidle, hpen]

theorem SweepAt.write (h : SweepAt w j a) : writeAt w j = some (a, 0x00#8) := by
  obtain ⟨⟨i, hw⟩, hact, haddr⟩ := h
  simp [writeAt, Telecran.write, hw, Drawing.sMuxAddrA, Drawing.sMuxDataA, hact, haddr]

theorem pen_or_sweep {d : BitVec 8} (h : writeAt w j = some (a, d)) :
    PenAt w j a ∧ d = 0xFF#8 ∨ SweepAt w j a ∧ d = 0x00#8 := by
  unfold writeAt Telecran.write at h
  cases hw : w j with
  | clk27 =>
    rw [hw] at h
    cases h
  | clk50 i =>
    rw [hw] at h
    by_cases hlt : (drawingAt w j).sMuxAddrA < memSize
    · simp only [hlt, dite_true, Option.some.injEq, Prod.mk.injEq] at h
      obtain ⟨haddr, rfl⟩ := h
      have haddr := congrArg Fin.val haddr
      cases hact : (drawingAt w j).rEraseActive
      · exact Or.inl ⟨⟨⟨i, hw⟩, hact, by simpa [Drawing.sMuxAddrA, hact] using haddr⟩, by simp [Drawing.sMuxDataA, hact]⟩
      · exact Or.inr ⟨⟨⟨i, hw⟩, hact, by simpa [Drawing.sMuxAddrA, hact] using haddr⟩, by simp [Drawing.sMuxDataA, hact]⟩
    · simp only [hlt, dite_false, reduceCtorEq] at h

/-- A cell is lit when the pen has been on it and no sweep since, or when it was lit and there was no sweep. -/
theorem lit_iff (h : run? edge? (reset fb) w n = some s) (a : Fin memSize) : s.uFrameBuffer.ram a = 0xFF#8 ↔
    (∃ j < n, PenAt w j a ∧ ∀ i, j < i → i < n → ¬SweepAt w i a) ∨
    (∀ i < n, ¬SweepAt w i a) ∧ fb.ram a = 0xFF#8 := by
  rw [ram_run h]
  rcases last_or_untouched (writeAt w) 0 n a with ⟨j, d, -, hj, hwrite, hlast⟩ | huntouched
  · rw [run_last ⟨j, hj, hwrite, hlast⟩]
    rcases pen_or_sweep hwrite with ⟨hpen, rfl⟩ | ⟨hsweep, rfl⟩
    · exact iff_of_true rfl (Or.inl ⟨j, hj, hpen, fun i h1 h2 hs => hlast i h1 h2 _ hs.write⟩)
    · refine iff_of_false (by decide) ?_
      rintro (⟨i, hi, hpen, hnone⟩ | ⟨hnone, -⟩)
      · rcases Nat.lt_trichotomy i j with hlt | rfl | hgt
        · exact hnone j hlt hj hsweep
        · exact absurd (hpen.2.1.symm.trans hsweep.2.1) (by decide)
        · exact hlast i hgt hi _ hpen.write
      · exact hnone j hj hsweep
  · rw [run_untouched huntouched (Nat.zero_le n), run_zero]
    constructor
    · exact fun hlit => Or.inr ⟨fun i hi hs => huntouched i (Nat.zero_le i) hi _ hs.write, hlit⟩
    · rintro (⟨i, hi, hpen, -⟩ | ⟨-, hlit⟩)
      · exact absurd hpen.write (huntouched i (Nat.zero_le i) hi _)
      · exact hlit

/-- At a completed sweep every cell is dark. -/
theorem dark_at_sweep_end (h : run? edge? (reset fb) w n = some s) {k : Nat} (hk : k < n)
    (hact : (drawingAt w k).rEraseActive = true) (hidle : (drawingAt w (k + 1)).rEraseActive = false)
    (a : Fin memSize) : ∃ u, run? edge? (reset fb) w (k + 1) = some u ∧ u.uFrameBuffer.ram a = 0x00#8 := by
  obtain ⟨u, hu⟩ := run?_of_le h (Nat.succ_le_of_lt hk)
  obtain ⟨v, hv, hedge⟩ := run?_succ.mp hu
  refine ⟨u, hu, ?_⟩
  cases hw : w k with
  | clk50 i =>
    rw [hw] at hedge
    exact (cleared_run hv).blank hedge (drawing_run hv ▸ hact) (drawing_run hu ▸ hidle) a
  | clk27 =>
    -- An edge of the pixel clock ends no sweep.
    have hsame : drawingAt w (k + 1) = drawingAt w k := by
      rw [drawingAt, run_succ, hw]
      rfl
    rw [hsame, hact] at hidle
    cases hidle

/-- Since a sweep completed, and when none has started, the lit cells are those that the pen has been on. -/
theorem lit_since_iff (h : run? edge? (reset fb) w n = some s) {k : Nat} (hk : k < n)
    (hact : (drawingAt w k).rEraseActive = true) (hidle : ∀ j, k < j → j ≤ n → (drawingAt w j).rEraseActive = false)
    (a : Fin memSize) : s.uFrameBuffer.ram a = 0xFF#8 ↔ ∃ j, k < j ∧ j < n ∧ PenAt w j a := by
  obtain ⟨u, hu, hdark⟩ := dark_at_sweep_end h hk hact (hidle (k + 1) (Nat.lt_succ_self k) hk) a
  have hnot := mt (lit_iff hu a).mpr (by rw [hdark]; decide)
  have hnoSweep : ∀ i, k < i → i < n → ¬SweepAt w i a := fun i h1 h2 hs =>
    absurd ((hidle i h1 (Nat.le_of_lt h2)).symm.trans hs.2.1) (by decide)
  rw [lit_iff h]
  constructor
  · rintro (⟨j, hj, hpen, hnone⟩ | ⟨hnone, hlit⟩)
    · refine ⟨j, ?_, hj, hpen⟩
      by_contra hle
      exact hnot (Or.inl ⟨j, Nat.lt_succ_of_le (Nat.le_of_not_lt hle), hpen, fun i h1 h2 =>
        hnone i h1 (Nat.lt_of_lt_of_le h2 hk)⟩)
    · exact absurd (Or.inr ⟨fun i hi => hnone i (Nat.lt_of_lt_of_le hi hk), hlit⟩) hnot
  · rintro ⟨j, hkj, hjn, hpen⟩
    exact Or.inl ⟨j, hjn, hpen, fun i h1 h2 => hnoSweep i (Nat.lt_trans hkj h1) h2⟩

end Cell

/-! ### The picture -/

section Picture
variable {w : Nat → Edge} {n : Nat}

theorem white_iff {d : BitVec 8} : oHdmiTxD d = BitVec.allOnes 24 ↔ d = 0xFF#8 := by
  unfold oHdmiTxD
  split
  · rename_i h
    exact iff_of_true rfl h
  · rename_i h
    exact iff_of_false (by decide) h

/-- At every pixel clock, whatever the edges before it, as long as port A has stayed in range: the enable is high in the
    places of the 720 by 480 pixels, and the pixel there is white when the pen has been on its cell and no sweep since. -/
theorem picture (fb : Dpram memSize 8) (hrange : InRange w n) : ∃ s t, run? edge? (reset fb) w n = some s ∧ s.edge? .clk27 = some t ∧
    (t.hdmiCtrl.oHdmiDe = true ↔
      ∃ c r, (pixelClocks w n + 1) % HdmiControler.frameClocks Generics.default = pixelClock c r) ∧
    ∀ c r, (pixelClocks w n + 1) % HdmiControler.frameClocks Generics.default = pixelClock c r →
      (oHdmiTxD t.uFrameBuffer.oQB = BitVec.allOnes 24 ↔
        (∃ j < n, PenAt w j (cell c r) ∧ ∀ i, j < i → i < n → ¬SweepAt w i (cell c r)) ∨
        (∀ i < n, ¬SweepAt w i (cell c r)) ∧ fb.ram (cell c r) = 0xFF#8) := by
  obtain ⟨s, hs⟩ := run?_isSome_iff.mpr hrange
  obtain ⟨t, ht, hde, hq⟩ := pixel_edge hs
  refine ⟨s, t, hs, ht, hde, fun c r hplace => ?_⟩
  rw [white_iff, hq c r hplace]
  exact lit_iff hs (cell c r)

/-- When a sweep was last active at edge `k`, the white pixels are those that the pen has been on since. -/
theorem picture_since_sweep (fb : Dpram memSize 8) (hrange : InRange w n) {k : Nat} (hk : k < n) (hact : (drawingAt w k).rEraseActive = true)
    (hidle : ∀ j, k < j → j ≤ n → (drawingAt w j).rEraseActive = false) :
    ∃ s t, run? edge? (reset fb) w n = some s ∧ s.edge? .clk27 = some t ∧
      (t.hdmiCtrl.oHdmiDe = true ↔
        ∃ c r, (pixelClocks w n + 1) % HdmiControler.frameClocks Generics.default = pixelClock c r) ∧
      ∀ c r, (pixelClocks w n + 1) % HdmiControler.frameClocks Generics.default = pixelClock c r →
        (oHdmiTxD t.uFrameBuffer.oQB = BitVec.allOnes 24 ↔ ∃ j, k < j ∧ j < n ∧ PenAt w j (cell c r)) := by
  obtain ⟨s, hs⟩ := run?_isSome_iff.mpr hrange
  obtain ⟨t, ht, hde, hq⟩ := pixel_edge hs
  refine ⟨s, t, hs, ht, hde, fun c r hplace => ?_⟩
  rw [white_iff, hq c r hplace]
  exact lit_since_iff hs hk hact hidle (cell c r)

/-! ### One press, and the first pixels after it -/

/-- One press, for `k` edges of the 50 MHz clock, and then pixel clocks alone. -/
def pressThenScan (k n : Nat) : Edge := if n < k then .clk50 (onePress n) else .clk27

section PressThenScan
variable {k : Nat}

theorem drawingAt_pressThenScan (hn : n ≤ k) : drawingAt (pressThenScan k) n = run Drawing.edge Drawing.reset onePress n := by
  induction n with
  | zero => rfl
  | succ n ih =>
    rw [drawingAt, run_succ, run_succ, ← ih (Nat.le_of_succ_le hn), pressThenScan, if_pos (Nat.lt_of_succ_le hn)]
    rfl

theorem drawingAt_pressThenScan_end (hn : k ≤ n) :
    drawingAt (pressThenScan k) n = run Drawing.edge Drawing.reset onePress k := by
  induction n, hn using Nat.le_induction with
  | base => exact drawingAt_pressThenScan (Nat.le_refl k)
  | succ n hn ih =>
    rw [← ih, drawingAt, run_succ, pressThenScan, if_neg (Nat.not_lt.mpr hn)]
    rfl

theorem pixelClocks_pressThenScan (k n : Nat) : pixelClocks (pressThenScan k) n = n - k := by
  induction n with
  | zero => exact (Nat.zero_sub k).symm
  | succ n ih =>
    rw [pixelClocks, ih, pressThenScan]
    rcases Nat.lt_or_ge n k with hlt | hge
    · rw [if_pos hlt, if_neg (by simp)]
      omega
    · rw [if_neg (Nat.not_lt.mpr hge), if_pos rfl]
      omega

/-- The place of the pixel clock that follows the first `m`. -/
theorem place_pressThenScan (k m : Nat) : (pixelClocks (pressThenScan k) (k + m) + 1) %
    HdmiControler.frameClocks Generics.default = (m + 1) % HdmiControler.frameClocks Generics.default := by
  rw [pixelClocks_pressThenScan, Nat.add_sub_cancel_left]

theorem clk50_pressThenScan {i : EncoderPins} (h : pressThenScan k n = .clk50 i) : n < k := by
  by_contra hge
  rw [pressThenScan, if_neg hge] at h
  cases h

theorem penAddr_onePress (n : Nat) : (run Drawing.edge Drawing.reset onePress n).penAddr = 0 := by
  rw [Drawing.penAddr, encs_onePress]
  rfl

theorem inRange_pressThenScan (k n : Nat) : InRange (pressThenScan k) n := by
  intro j _ i hw
  rw [drawingAt_pressThenScan (Nat.le_of_lt (clk50_pressThenScan hw))]
  unfold Drawing.sMuxAddrA
  split
  · rename_i hact
    exact Drawing.eraseAddr_lt_of_sweeping hact
  · rw [penAddr_onePress]
    decide

end PressThenScan

/-- The pen has been on the first cell at the edge of the press, and its pixel is shown before the sweep begins. -/
theorem picture_pressThenScan : ∃ s t,
    run? edge? (reset ⟨fun _ => 0x00#8, 0, 0⟩) (pressThenScan 1) (1 + 31008) = some s ∧ s.edge? .clk27 = some t ∧
    t.hdmiCtrl.oHdmiDe = true ∧ oHdmiTxD t.uFrameBuffer.oQB = BitVec.allOnes 24 := by
  obtain ⟨s, t, hs, ht, hde, hwhite⟩ := picture ⟨fun _ => 0x00#8, 0, 0⟩ (inRange_pressThenScan 1 (1 + 31008))
  have hplace := (place_pressThenScan 1 31008).trans (by decide : _ = pixelClock 0 0)
  have hpen : PenAt (pressThenScan 1) 0 (cell 0 0) := ⟨⟨_, rfl⟩, rfl, rfl⟩
  refine ⟨s, t, hs, ht, hde.mpr ⟨0, 0, hplace⟩, (hwhite 0 0 hplace).mpr (Or.inl ⟨0, by decide, hpen, ?_⟩)⟩
  rintro i hi - ⟨⟨j, hw⟩, -⟩
  exact absurd (clk50_pressThenScan hw) (Nat.not_lt.mpr hi)

theorem idle_pressThenScan {j : Nat} (hj : memSize < j) :
    (drawingAt (pressThenScan (memSize + 2)) j).rEraseActive = false := by
  have hend : (run Drawing.edge Drawing.reset onePress (memSize + 1)).rEraseActive = false :=
    Drawing.sweep_ends rfl fun j h1 _ => onePress_high h1
  rcases Nat.lt_or_ge j (memSize + 2) with hlt | hge
  · obtain rfl : j = memSize + 1 := by omega
    rw [drawingAt_pressThenScan (Nat.le_succ _)]
    exact hend
  · rw [drawingAt_pressThenScan_end hge]
    exact (Drawing.edge_of_idle _ (onePress (memSize + 1)) (onePress_high (Nat.le_add_left 1 memSize)) hend).1

/-- A memory full of lit cells is swept. The pen is then on the first cell, and the pixel of the second is dark. -/
theorem picture_since_sweep_pressThenScan :
    (∃ s t, run? edge? (reset ⟨fun _ => 0xFF#8, 0, 0⟩) (pressThenScan (memSize + 2)) (memSize + 2 + 31008) = some s ∧
      s.edge? .clk27 = some t ∧ t.hdmiCtrl.oHdmiDe = true ∧ oHdmiTxD t.uFrameBuffer.oQB = BitVec.allOnes 24) ∧
    ∃ s t, run? edge? (reset ⟨fun _ => 0xFF#8, 0, 0⟩) (pressThenScan (memSize + 2)) (memSize + 2 + 31009) = some s ∧
      s.edge? .clk27 = some t ∧ t.hdmiCtrl.oHdmiDe = true ∧ oHdmiTxD t.uFrameBuffer.oQB ≠ BitVec.allOnes 24 := by
  have hact : (drawingAt (pressThenScan (memSize + 2)) memSize).rEraseActive = true := by
    rw [drawingAt_pressThenScan (Nat.le_add_right _ _)]
    exact (Drawing.sweep_at (s := Drawing.reset) (w := onePress) rfl (k := memSize - 1) (by decide)
      fun j h1 _ => onePress_high h1).1
  have hpen : PenAt (pressThenScan (memSize + 2)) (memSize + 1) (cell 0 0) := by
    refine ⟨⟨_, if_pos (Nat.lt_succ_self _)⟩, idle_pressThenScan (Nat.lt_succ_self _), ?_⟩
    rw [drawingAt_pressThenScan (Nat.le_succ _), penAddr_onePress]
    rfl
  constructor
  · obtain ⟨s, t, hs, ht, hde, hwhite⟩ := picture_since_sweep ⟨fun _ => 0xFF#8, 0, 0⟩
      (inRange_pressThenScan (memSize + 2) (memSize + 2 + 31008)) (by decide) hact fun j h1 _ => idle_pressThenScan h1
    have hplace := (place_pressThenScan (memSize + 2) 31008).trans (by decide : _ = pixelClock 0 0)
    exact ⟨s, t, hs, ht, hde.mpr ⟨0, 0, hplace⟩, (hwhite 0 0 hplace).mpr ⟨memSize + 1, by decide, by decide, hpen⟩⟩
  · obtain ⟨s, t, hs, ht, hde, hwhite⟩ := picture_since_sweep ⟨fun _ => 0xFF#8, 0, 0⟩
      (inRange_pressThenScan (memSize + 2) (memSize + 2 + 31009)) (by decide) hact fun j h1 _ => idle_pressThenScan h1
    have hplace := (place_pressThenScan (memSize + 2) 31009).trans (by decide : _ = pixelClock 1 0)
    refine ⟨s, t, hs, ht, hde.mpr ⟨1, 0, hplace⟩, fun hlit => ?_⟩
    obtain ⟨j, -, -, ⟨i, hw⟩, -, hpenj⟩ := (hwhite 1 0 hplace).mp hlit
    rw [drawingAt_pressThenScan (Nat.le_of_lt (clk50_pressThenScan hw)), penAddr_onePress] at hpenj
    cases hpenj

end Picture

end Telecran
end EcranMagique
