import EcranMagique.Video.Timing

/-! The video generator from any registers. The counters alone never lose their way, and every other register
    is set anew at some position of the frame and told by the position from then on: the flag of the columns
    at `h_start`, that of the lines and `VS` at the end of a line, `DE` from the flags, and the address at the
    last active position, where both flags have to be right already. -/

namespace EcranMagique.HdmiControler
open Clocked Raster

/-! ### The steady video -/

/-- What all the registers but the coordinates tell of the position of the counters. -/
structure Steady (g : Generics) (s : HdmiControler) : Prop extends Synced g s where
  hs : s.oHdmiHs = decide (g.hSync + 1 ≤ s.rHCount)
  vs : s.oHdmiVs = decide (g.vSync + 1 ≤ s.rVCount)
  de : s.oHdmiDe = decide (DataColumn g s.rHCount ∧ g.VInside s.rVCount)

structure SameVideo (s t : HdmiControler) : Prop where
  rHActive : s.rHActive = t.rHActive
  rVActive : s.rVActive = t.rVActive
  oHdmiHs : s.oHdmiHs = t.oHdmiHs
  oHdmiVs : s.oHdmiVs = t.oHdmiVs
  oHdmiDe : s.oHdmiDe = t.oHdmiDe
  rPixelAddress : s.rPixelAddress = t.rPixelAddress

theorem Steady.sameVideo {g : Generics} {s t : HdmiControler} (hs : Steady g s) (ht : Steady g t)
    (hcol : s.rHCount = t.rHCount) (hrow : s.rVCount = t.rVCount) : SameVideo s t where
  rHActive := by rw [hs.hActive, ht.hActive, hcol]
  rVActive := by rw [hs.vActive, ht.vActive, hrow]
  oHdmiHs := by rw [hs.hs, ht.hs, hcol]
  oHdmiVs := by rw [hs.vs, ht.vs, hrow]
  oHdmiDe := by rw [hs.de, ht.de, hcol, hrow]
  rPixelAddress := by rw [hs.address, ht.address, hcol, hrow]

theorem steady_after {g : Generics} {n : Nat} (hn : g.lineClocks ≤ n) : Steady g (after g n) where
  toSynced := synced_after g n
  hs := by rw [rHCount_after, oHdmiHs_after g (Nat.le_trans g.lineClocks_pos hn)]
  vs := by rw [rVCount_after, oHdmiVs_after g hn]
  de := by rw [rHCount_after, rVCount_after, oHdmiDe_after]

/-- The edge in the last active position zeroes the address, as far as both flags are set there. -/
theorem synced_of_corner {g : Generics} {s : HdmiControler} (hcol : s.rHCount = g.hEnd) (hrow : s.rVCount = g.vEnd)
    (hh : s.rHActive = decide (g.HInside s.rHCount)) (hv : s.rVActive = decide (g.VInside s.rVCount)) :
    Synced g (edge g s) := by
  have h := g.h_order
  have v := g.v_order
  have hinh : g.HInside s.rHCount := g.hInside_iff.mpr (by omega)
  have hinv : g.VInside s.rVCount := g.vInside_iff.mpr (by omega)
  have hc : s.rHCount ≤ g.hTotal := by omega
  have hd : s.rVCount ≤ g.vTotal := by omega
  refine ⟨rHCount_edge_le hc, rVCount_edge_le hd, hActive_edge hc (Or.inr hh), vActive_edge hd (Or.inr hv), ?_⟩
  have hzero : (edge g s).rPixelAddress = 0 := by
    rw [rPixelAddress_edge, hh, hv, if_pos ⟨decide_eq_true hinh, decide_eq_true hinv⟩, if_pos ⟨hcol, hrow⟩]
  have hlast : g.activeBefore s.rHCount s.rVCount + 1 = g.hRes * g.vRes := by
    rw [Nat.mul_comm]
    exact (before_last_iff hinh hinv).mpr ⟨hcol, hrow⟩
  have hnext := activeBefore_edge g s
  rw [if_pos ⟨hinh, hinv⟩, hlast, Nat.mod_self] at hnext
  rw [hzero, hnext]

/-! ### The run from any registers -/

section AfterFrom
variable {g : Generics} {s : HdmiControler} (hh : s.rHCount ≤ g.hTotal) (hv : s.rVCount ≤ g.vTotal)

include hh in
theorem rHCount_afterFrom_le (n : Nat) : (afterFrom g s n).rHCount ≤ g.hTotal :=
  run_invariant (P := fun s : HdmiControler => s.rHCount ≤ g.hTotal) hh (fun _ _ => rHCount_edge_le) n

include hv in
theorem rVCount_afterFrom_le (n : Nat) : (afterFrom g s n).rVCount ≤ g.vTotal :=
  run_invariant (P := fun s : HdmiControler => s.rVCount ≤ g.vTotal) hv (fun _ _ => rVCount_edge_le) n

include hh hv

theorem visits {x y : Nat} (hx : x ≤ g.hTotal) (hy : y ≤ g.vTotal) (m : Nat) :
    ∃ k, m ≤ k ∧ k < m + frameClocks g ∧ (afterFrom g s k).rHCount = x ∧ (afterFrom g s k).rVCount = y := by
  obtain ⟨k, h1, h2, hk⟩ := exists_position (Generics.lt_lineClocks hx) (Generics.lt_frameLines hy)
    (s.rVCount * g.lineClocks + s.rHCount + m)
  obtain ⟨j, rfl⟩ := Nat.exists_eq_add_of_le (Nat.le_trans (Nat.le_add_right _ m) h1)
  have hcounts := counts_afterFrom hh hv j
  rw [hk, Prod.mk.injEq] at hcounts
  exact ⟨j, by omega, by unfold frameClocks; omega, hcounts⟩

theorem visits_column {x : Nat} (hx : x ≤ g.hTotal) : ∃ k, k < g.lineClocks ∧ (afterFrom g s k).rHCount = x := by
  obtain ⟨k, h1, h2, hk⟩ := exists_mod (Generics.lt_lineClocks hx) (s.rVCount * g.lineClocks + s.rHCount)
  obtain ⟨j, rfl⟩ := Nat.exists_eq_add_of_le h1
  have hcol := congrArg Prod.fst (counts_afterFrom hh hv j)
  exact ⟨j, by omega, hcol.trans hk⟩

/-! ### The stages of the recovery -/

theorem hActive_afterFrom {n : Nat} (hn : g.lineClocks ≤ n) :
    (afterFrom g s n).rHActive = decide (g.HInside (afterFrom g s n).rHCount) := by
  have h := g.h_order
  obtain ⟨k, hk, hcol⟩ := visits_column hh hv (x := g.hStart) (by omega)
  exact run_settles (P := fun s : HdmiControler => s.rHActive = decide (g.HInside s.rHCount))
    (Q := fun s : HdmiControler => s.rHCount = g.hStart)
    hcol (fun m _ => hActive_edge (rHCount_afterFrom_le hh m)) (by omega)

theorem vActive_afterFrom {n : Nat} (hn : frameClocks g ≤ n) :
    (afterFrom g s n).rVActive = decide (g.VInside (afterFrom g s n).rVCount) := by
  have h := g.v_order
  obtain ⟨k, -, hk, hcorner⟩ := visits hh hv (x := g.hTotal) (y := g.vStart) (Nat.le_refl _) (by omega) 0
  exact run_settles (P := fun s : HdmiControler => s.rVActive = decide (g.VInside s.rVCount))
    (Q := fun s : HdmiControler => s.rHCount = g.hTotal ∧ s.rVCount = g.vStart)
    hcorner (fun m _ => vActive_edge (rVCount_afterFrom_le hv m)) (by omega)

theorem oHdmiVs_afterFrom {n : Nat} (hn : g.lineClocks ≤ n) :
    (afterFrom g s n).oHdmiVs = decide (g.vSync + 1 ≤ (afterFrom g s n).rVCount) := by
  obtain ⟨k, hk, hcol⟩ := visits_column hh hv (Nat.le_refl g.hTotal)
  exact run_settles (P := fun s : HdmiControler => s.oHdmiVs = decide (g.vSync + 1 ≤ s.rVCount))
    (Q := fun s : HdmiControler => s.rHCount = g.hTotal)
    hcol (fun m _ => vs_edge (rVCount_afterFrom_le hv m)) (by omega)

/-- The address waits for the flags of a whole frame, and for the last active position of the next. -/
theorem synced_afterFrom {n : Nat} (hn : 2 * frameClocks g ≤ n) : Synced g (afterFrom g s n) := by
  have h := g.h_order
  have v := g.v_order
  have hle := lineClocks_le_frameClocks g
  obtain ⟨k, hk, hk', hcorner⟩ := visits hh hv (x := g.hEnd) (y := g.vEnd) (by omega) (by omega) (frameClocks g)
  refine run_settles (P := Synced g) (Q := fun s : HdmiControler => s.rHCount = g.hEnd ∧ s.rVCount = g.vEnd) hcorner
    (fun m hm hor => ?_) (show k < n by omega)
  rcases hor with ⟨hcol, hrow⟩ | hsynced
  · exact synced_of_corner hcol hrow (hActive_afterFrom hh hv (by omega)) (vActive_afterFrom hh hv (by omega))
  · exact hsynced.edge

theorem steady_afterFrom {n : Nat} (hn : 2 * frameClocks g ≤ n) : Steady g (afterFrom g s n) := by
  have hpos := g.lineClocks_pos
  have hle := lineClocks_le_frameClocks g
  obtain ⟨m, rfl⟩ : ∃ m, n = m + 1 := ⟨n - 1, by omega⟩
  have hc := rHCount_afterFrom_le hh m
  refine ⟨synced_afterFrom hh hv hn, hs_edge hc, oHdmiVs_afterFrom hh hv (by omega), ?_⟩
  exact de_edge hc (hActive_afterFrom hh hv (by omega)) (vActive_afterFrom hh hv (by omega))

end AfterFrom

/-- From any registers with counts in range, whatever the flags, the outputs and the address hold: after two
    frames the video is for ever that of the run from the reset, in its second and later frames, where the
    counters are the same; and that run does come by there. -/
theorem video_recovers (g : Generics) (s : HdmiControler) (hh : s.rHCount ≤ g.hTotal) (hv : s.rVCount ≤ g.vTotal)
    (n : Nat) (hn : 2 * ((g.hTotal + 1) * (g.vTotal + 1)) ≤ n) :
    (∃ m, (g.hTotal + 1) * (g.vTotal + 1) ≤ m ∧
      (after g m).rHCount = (afterFrom g s n).rHCount ∧ (after g m).rVCount = (afterFrom g s n).rVCount) ∧
    ∀ m, (g.hTotal + 1) * (g.vTotal + 1) ≤ m →
      (after g m).rHCount = (afterFrom g s n).rHCount → (after g m).rVCount = (afterFrom g s n).rVCount →
      SameVideo (afterFrom g s n) (after g m) := by
  have hsteady := steady_afterFrom hh hv (g := g) hn
  refine ⟨?_, fun m hm hcol hrow => ?_⟩
  · obtain ⟨k, hk, -, hcounts⟩ := visits (s := reset) (Nat.zero_le g.hTotal) (Nat.zero_le g.vTotal)
      hsteady.hCount hsteady.vCount (frameClocks g)
    exact ⟨k, hk, after_eq g k ▸ hcounts⟩
  · have hline : g.lineClocks ≤ m := Nat.le_trans (lineClocks_le_frameClocks g) hm
    exact hsteady.sameVideo (steady_after hline) hcol.symm hrow.symm

/-- Nine active pixels in a raster of thirteen lines of thirteen columns. -/
def ninePixels : Generics where
  hRes := 3
  vRes := 3
  hSync := 3
  hFp := 3
  hBp := 3
  vSync := 3
  vFp := 3
  vBp := 3

/-- In column 2 of line 3, with flags, syncs and an address that no frame has there. -/
def lost : HdmiControler where
  rHCount := 2
  oHdmiHs := true
  rHActive := true
  rVCount := 3
  oHdmiVs := true
  rVActive := true
  oHdmiDe := true
  oPixelEn := false
  rPixelAddress := 3
  oXCounter := 0
  oYCounter := 0

theorem video_recovers_lost : SameVideo (afterFrom ninePixels lost 338) (after ninePixels 210) :=
  (video_recovers ninePixels lost (by decide) (by decide) 338 (by decide)).2 210 (by decide)
    (by decide +kernel) (by decide +kernel)

end EcranMagique.HdmiControler
