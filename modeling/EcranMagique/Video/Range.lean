import EcranMagique.Video.Synced

/-! The ranges of the video generator in every state that it can reach, with reset pulses at any moment. The
    address register has no bound of its own: it stays in the range of port B because it counts the active
    positions that the scan has passed, modulo their number in a frame. -/

namespace EcranMagique.HdmiControler
open Clocked Raster

/-- The processes of the pixel clock under any activation of `i_clk` and `i_rst_n`. -/
def activate (g : Generics) : HdmiControler → Activation Unit → HdmiControler := process reset fun s _ => edge g s

/-- The active positions among the first `n` of a frame in scan order: those at which both flags are set. -/
def activePositions (g : Generics) (n : Nat) : Nat :=
  (List.range n).countP fun k =>
    decide ((g.hStart < k % g.lineClocks ∧ k % g.lineClocks ≤ g.hEnd) ∧
      g.vStart < k / g.lineClocks ∧ k / g.lineClocks ≤ g.vEnd)

/-- What holds at every position, blanking included. -/
structure InRange (g : Generics) (s : HdmiControler) : Prop where
  hCount : s.rHCount ≤ g.hTotal
  vCount : s.rVCount ≤ g.vTotal
  hActive : s.rHActive = true ↔ g.hStart < s.rHCount ∧ s.rHCount ≤ g.hEnd
  vActive : s.rVActive = true ↔ g.vStart < s.rVCount ∧ s.rVCount ≤ g.vEnd
  subtractions : s.rHActive = true ∧ s.rVActive = true → g.hStart ≤ s.rHCount ∧ g.vStart ≤ s.rVCount
  address : s.rPixelAddress =
    activePositions g (s.rVCount * (g.hTotal + 1) + s.rHCount) % (g.hRes * g.vRes)
  address_lt : s.rPixelAddress < g.hRes * g.vRes

theorem activePositions_scan (g : Generics) (n : Nat) :
    activePositions g n = g.activeBefore (n % g.lineClocks) (n / g.lineClocks) := by
  have hwide : g.hStart + g.hRes + 1 < g.lineClocks := Nat.succ_lt_succ g.h_order.2.2.2
  exact countP_before hwide n

theorem activePositions_eq {g : Generics} {x : Nat} (hx : x ≤ g.hTotal) (y : Nat) :
    activePositions g (y * (g.hTotal + 1) + x) = g.activeBefore x y := by
  have hlt := Generics.lt_lineClocks hx
  rw [← g.lineClocks_eq, activePositions_scan, Nat.mul_add_mod_of_lt hlt, line_div hlt]

section Reachable
variable (g : Generics) (acts : Nat → Activation Unit) (n : Nat)

theorem synced_activate : Synced g (run (activate g) reset acts n) :=
  run_invariant synced_reset (process_keeps synced_reset fun _ _ hs => hs.edge) n

/-- The counters, the flags and the address of every state that the generator reaches. -/
theorem in_range : InRange g (run (activate g) reset acts n) := by
  have hs := synced_activate g acts n
  generalize run (activate g) reset acts n = s at hs
  refine ⟨hs.hCount, hs.vCount, ?_, ?_, fun hact => ?_, ?_, hs.address_lt⟩
  · rw [hs.hActive, decide_eq_true_eq, Generics.hInside_iff]
  · rw [hs.vActive, decide_eq_true_eq, Generics.vInside_iff]
  · obtain ⟨hcol, -, hrow, -⟩ := hs.counts_of_active hact.1 hact.2
    exact ⟨Nat.le_of_lt hcol, Nat.le_of_lt hrow⟩
  · rw [activePositions_eq hs.hCount, hs.address]

end Reachable

end EcranMagique.HdmiControler
