import EcranMagique.HdmiControler
import EcranMagique.Lib.Raster

/-! The registers of the video generator at every position of the frame. The flags are set and cleared on
    equality with one count, and the address is only ever incremented or zeroed at one corner; from the
    reset on they nevertheless tell where the counters are. -/

namespace EcranMagique
open Clocked Raster

namespace Generics
variable (g : Generics)

def lineClocks : Nat := g.hSync + g.hFp + g.hRes + g.hBp + 1

def frameLines : Nat := g.vSync + g.vFp + g.vRes + g.vBp + 1

theorem lineClocks_eq : g.lineClocks = g.hTotal + 1 := rfl

theorem frameLines_eq : g.frameLines = g.vTotal + 1 := rfl

theorem lineClocks_pos : 0 < g.lineClocks := Nat.succ_pos _

theorem frameLines_pos : 0 < g.frameLines := Nat.succ_pos _

theorem lt_lineClocks {g : Generics} {h : Nat} (hc : h ≤ g.hTotal) : h < g.lineClocks := Nat.lt_succ_of_le hc

theorem lt_frameLines {g : Generics} {v : Nat} (hc : v ≤ g.vTotal) : v < g.frameLines := Nat.lt_succ_of_le hc

theorem h_order : 0 < g.hSync ∧ g.hSync < g.hStart ∧ g.hStart < g.hEnd ∧ g.hEnd < g.hTotal := by
  have h1 := g.hSync_pos
  have h2 := g.hFp_pos
  have h3 := g.hRes_pos
  have h4 := g.hBp_pos
  unfold hTotal hEnd hStart
  omega

theorem v_order : 0 < g.vSync ∧ g.vSync < g.vStart ∧ g.vStart < g.vEnd ∧ g.vEnd < g.vTotal := by
  have h1 := g.vSync_pos
  have h2 := g.vFp_pos
  have h3 := g.vRes_pos
  have h4 := g.vBp_pos
  unfold vTotal vEnd vStart
  omega

/-- The column is one of the active ones: the counts from `h_start + 1` to `h_end`. -/
def HInside (h : Nat) : Prop := Inside g.hStart g.hRes h

/-- The line is one of the active ones: the counts from `v_start + 1` to `v_end`. -/
def VInside (v : Nat) : Prop := Inside g.vStart g.vRes v

instance (h : Nat) : Decidable (g.HInside h) := inferInstanceAs (Decidable (Inside _ _ _))

instance (v : Nat) : Decidable (g.VInside v) := inferInstanceAs (Decidable (Inside _ _ _))

theorem hInside_iff {h : Nat} : g.HInside h ↔ g.hStart < h ∧ h ≤ g.hEnd := Iff.rfl

theorem vInside_iff {v : Nat} : g.VInside v ↔ g.vStart < v ∧ v ≤ g.vEnd := Iff.rfl

def activeBefore (h v : Nat) : Nat := before g.hStart g.hRes g.vStart g.vRes h v

end Generics

namespace HdmiControler
variable {g : Generics} {s : HdmiControler}

/-- What the registers tell of the position of the counters. -/
structure Synced (g : Generics) (s : HdmiControler) : Prop where
  hCount : s.rHCount ≤ g.hTotal
  vCount : s.rVCount ≤ g.vTotal
  hActive : s.rHActive = decide (g.HInside s.rHCount)
  vActive : s.rVActive = decide (g.VInside s.rVCount)
  address : s.rPixelAddress = g.activeBefore s.rHCount s.rVCount % (g.hRes * g.vRes)

theorem synced_reset : Synced g reset where
  hCount := Nat.zero_le _
  vCount := Nat.zero_le _
  hActive := by simp [reset, Generics.hInside_iff]
  vActive := by simp [reset, Generics.vInside_iff]
  address := by simp [reset, Generics.activeBefore, before, passed_zero]

/-! ### What an edge keeps of each register -/

theorem counts_edge (g : Generics) (s : HdmiControler) :
    ((edge g s).rHCount, (edge g s).rVCount) = next g.lineClocks g.frameLines (s.rHCount, s.rVCount) := by
  rw [rHCount_edge, rVCount_edge, next, g.lineClocks_eq, g.frameLines_eq]
  simp only [Nat.add_right_cancel_iff]
  split <;> rfl

/-- An edge passes one more active position when it leaves one, modulo the frame's count of them. -/
theorem activeBefore_edge (g : Generics) (s : HdmiControler) :
    g.activeBefore (edge g s).rHCount (edge g s).rVCount % (g.hRes * g.vRes) =
      (g.activeBefore s.rHCount s.rVCount + if g.HInside s.rHCount ∧ g.VInside s.rVCount then 1 else 0) %
        (g.hRes * g.vRes) := by
  have hx : g.hStart + g.hRes + 1 < g.lineClocks := Nat.succ_lt_succ g.h_order.2.2.2
  have hy : g.vStart + g.vRes + 1 < g.frameLines := Nat.succ_lt_succ g.v_order.2.2.2
  have hnext := before_next (x := s.rHCount) (y := s.rVCount) (w := g.hRes) (h := g.vRes) hx hy
  rw [← counts_edge g s, Nat.mul_comm g.vRes] at hnext
  exact hnext

theorem rHCount_edge_le (hc : s.rHCount ≤ g.hTotal) : (edge g s).rHCount ≤ g.hTotal := by
  rw [rHCount_edge]
  split <;> omega

theorem rVCount_edge_le (hc : s.rVCount ≤ g.vTotal) : (edge g s).rVCount ≤ g.vTotal := by
  rw [rVCount_edge]
  split
  · split <;> omega
  · exact hc

/-- The flag of the columns is set where the active zone starts, and told by the column from then on. -/
theorem hActive_edge (hc : s.rHCount ≤ g.hTotal)
    (h : s.rHCount = g.hStart ∨ s.rHActive = decide (g.HInside s.rHCount)) :
    (edge g s).rHActive = decide (g.HInside (edge g s).rHCount) := by
  rw [rHActive_edge, rHCount_edge]
  exact inside_succ g.hRes_pos g.h_order.2.2.2 hc h

/-- The flag of the lines is assigned at the end of a line. -/
theorem vActive_edge (hc : s.rVCount ≤ g.vTotal)
    (h : (s.rHCount = g.hTotal ∧ s.rVCount = g.vStart) ∨ s.rVActive = decide (g.VInside s.rVCount)) :
    (edge g s).rVActive = decide (g.VInside (edge g s).rVCount) := by
  rw [rVActive_edge, rVCount_edge]
  by_cases hend : s.rHCount = g.hTotal
  · rw [if_pos hend, if_pos hend]
    exact inside_succ g.vRes_pos g.v_order.2.2.2 hc (h.imp_left And.right)
  · rw [if_neg hend, if_neg hend]
    exact h.resolve_left fun hset => hend hset.1

/-- `HS` is low in the first `h_sync + 1` columns. -/
theorem hs_edge (hc : s.rHCount ≤ g.hTotal) : (edge g s).oHdmiHs = decide (g.hSync + 1 ≤ (edge g s).rHCount) := by
  have h := g.h_order
  rw [oHdmiHs_edge, rHCount_edge, decide_eq_decide]
  rcases Nat.lt_or_eq_of_le hc with hlt | hend
  · rw [if_neg (Nat.ne_of_lt hlt)]
    omega
  · rw [if_pos hend]
    omega

/-- `VS` is low in the first `v_sync + 1` lines. It is assigned at the end of a line. -/
theorem vs_edge (hc : s.rVCount ≤ g.vTotal)
    (h : s.rHCount = g.hTotal ∨ s.oHdmiVs = decide (g.vSync + 1 ≤ s.rVCount)) :
    (edge g s).oHdmiVs = decide (g.vSync + 1 ≤ (edge g s).rVCount) := by
  have hv := g.v_order
  rw [oHdmiVs_edge, rVCount_edge]
  by_cases hend : s.rHCount = g.hTotal
  · rw [if_pos hend, if_pos hend, decide_eq_decide]
    rcases Nat.lt_or_eq_of_le hc with hlt | hlast
    · rw [if_neg (Nat.ne_of_lt hlt)]
      omega
    · rw [if_pos hlast]
      omega
  · rw [if_neg hend, if_neg hend]
    exact h.resolve_left hend

namespace Synced

theorem active_iff (hs : Synced g s) :
    (s.rHActive = true ∧ s.rVActive = true) ↔ g.HInside s.rHCount ∧ g.VInside s.rVCount := by
  rw [hs.hActive, hs.vActive, decide_eq_true_eq, decide_eq_true_eq]

/-- Where the coordinates and the address are computed, both counts are in the active zone, so the
    subtractions are not negative. -/
theorem counts_of_active (hs : Synced g s) (hh : s.rHActive = true) (hv : s.rVActive = true) :
    g.hStart < s.rHCount ∧ s.rHCount ≤ g.hEnd ∧ g.vStart < s.rVCount ∧ s.rVCount ≤ g.vEnd := by
  obtain ⟨h1, h2⟩ := hs.active_iff.mp ⟨hh, hv⟩
  exact ⟨h1.1, h1.2, h2.1, h2.2⟩

theorem address_of_active (hs : Synced g s) (hh : g.HInside s.rHCount) (hv : g.VInside s.rVCount) :
    s.rPixelAddress = g.activeBefore s.rHCount s.rVCount ∧ s.rPixelAddress < g.hRes * g.vRes := by
  have hlt := (before_of_inside hh hv).2
  rw [Nat.mul_comm] at hlt
  have haddr := hs.address
  rw [Generics.activeBefore, Nat.mod_eq_of_lt hlt] at haddr
  exact ⟨haddr, haddr ▸ hlt⟩

theorem address_lt (hs : Synced g s) : s.rPixelAddress < g.hRes * g.vRes := by
  rw [hs.address]
  exact Nat.mod_lt _ (Nat.mul_pos g.hRes_pos g.vRes_pos)

/-- The corner at which the address is zeroed is the last active position. -/
theorem address_edge (hs : Synced g s) : (edge g s).rPixelAddress =
    (g.activeBefore s.rHCount s.rVCount + if g.HInside s.rHCount ∧ g.VInside s.rVCount then 1 else 0) %
      (g.hRes * g.vRes) := by
  rw [rPixelAddress_edge]
  by_cases hin : g.HInside s.rHCount ∧ g.VInside s.rVCount
  · obtain ⟨haddr, hlt⟩ := hs.address_of_active hin.1 hin.2
    rw [if_pos (hs.active_iff.mpr hin), if_pos hin, ← haddr]
    have hlast := before_last_iff hin.1 hin.2
    rw [Generics.activeBefore] at haddr
    rw [← haddr, Nat.mul_comm] at hlast
    split
    · rename_i hcorner
      rw [hlast.mpr hcorner, Nat.mod_self]
    · rename_i hcorner
      have hne : s.rPixelAddress + 1 ≠ g.hRes * g.vRes := fun h => hcorner (hlast.mp h)
      rw [Nat.mod_eq_of_lt (by omega)]
  · rw [if_neg (fun h => hin (hs.active_iff.mp h)), if_neg hin, Nat.add_zero]
    exact hs.address

theorem edge (hs : Synced g s) : Synced g (edge g s) where
  hCount := rHCount_edge_le hs.hCount
  vCount := rVCount_edge_le hs.vCount
  hActive := hActive_edge hs.hCount (Or.inr hs.hActive)
  vActive := vActive_edge hs.vCount (Or.inr hs.vActive)
  address := by rw [hs.address_edge, activeBefore_edge]

end Synced

end HdmiControler
end EcranMagique
