import EcranMagique.Drawing.Erase

/-! The frame buffer is the drawing: once a sweep has run to completion, a cell is lit exactly when the
    pen has been on it since. While a sweep is active the cells below its address are clear and the pen
    writes nothing, so the sweep leaves no cell lit when it completes. -/

namespace EcranMagique
open Clocked

namespace Telecran

/-- While a sweep is active, its address is in range and the cells below it are clear. -/
def Cleared (s : Telecran) : Prop :=
  s.drawing.rEraseActive = true →
    s.drawing.rEraseAddr < memSize ∧ ∀ a, a.val < s.drawing.rEraseAddr → s.uFrameBuffer.ram a = 0x00#8

def Blank (s : Telecran) : Prop := ∀ a, s.uFrameBuffer.ram a = 0x00#8

theorem ram_edge50? {s t : Telecran} {i : EncoderPins} (h : s.edge50? i = some t) (a : Fin memSize) :
    t.uFrameBuffer.ram a =
      if a.val = s.drawing.sMuxAddrA then s.drawing.sMuxDataA else s.uFrameBuffer.ram a := by
  obtain ⟨hlt, rfl⟩ := edge50?_eq_some.mp h
  simp only [Function.update_apply, Fin.ext_iff]

theorem drawing_edge50? {s t : Telecran} {i : EncoderPins} (h : s.edge50? i = some t) :
    t.drawing = s.drawing.edge i := by
  obtain ⟨_, rfl⟩ := edge50?_eq_some.mp h
  rfl

theorem ram_of_sweeping {s t : Telecran} {i : EncoderPins} (h : s.edge50? i = some t)
    (hact : s.drawing.rEraseActive = true) (a : Fin memSize) :
    t.uFrameBuffer.ram a = if a.val = s.drawing.rEraseAddr then 0x00#8 else s.uFrameBuffer.ram a := by
  rw [ram_edge50? h]
  simp only [Drawing.sMuxAddrA, Drawing.sMuxDataA, hact, ite_true]

theorem ram_of_idle {s t : Telecran} {i : EncoderPins} (h : s.edge50? i = some t)
    (hact : s.drawing.rEraseActive = false) (a : Fin memSize) :
    t.uFrameBuffer.ram a = if a.val = s.drawing.penAddr then 0xFF#8 else s.uFrameBuffer.ram a := by
  rw [ram_edge50? h]
  simp only [Drawing.sMuxAddrA, Drawing.sMuxDataA, hact, Bool.false_eq_true, ite_false]

theorem Cleared.edge {s t : Telecran} {i : EncoderPins} (hs : s.Cleared) (h : s.edge50? i = some t) :
    t.Cleared := by
  intro hact
  have hd := drawing_edge50? h
  rw [hd] at hact ⊢
  rcases s.drawing.edge_cases i with ⟨-, -, ha⟩ | ⟨-, hact', hne, -, ha⟩ | ⟨-, -, -, hidle, -⟩ | ⟨-, -, hidle, -⟩
  · rw [ha]
    exact ⟨by decide, fun a hlt => absurd hlt (Nat.not_lt_zero _)⟩
  · obtain ⟨hlt, hclear⟩ := hs hact'
    rw [ha]
    refine ⟨by omega, fun a hlt' => ?_⟩
    rw [ram_of_sweeping h hact']
    split
    · rfl
    · exact hclear a (by omega)
  · rw [hidle] at hact
    cases hact
  · rw [hidle] at hact
    cases hact

theorem Cleared.blank {s t : Telecran} {i : EncoderPins} (hs : s.Cleared) (h : s.edge50? i = some t)
    (hact : s.drawing.rEraseActive = true) (hidle : t.drawing.rEraseActive = false) : t.Blank := by
  intro a
  obtain ⟨-, hclear⟩ := hs hact
  rw [drawing_edge50? h] at hidle
  rcases s.drawing.edge_cases i with ⟨-, ha, -⟩ | ⟨-, -, -, ha, -⟩ | ⟨-, -, heq, -, -⟩ | ⟨-, hidle', -, -⟩
  · rw [ha] at hidle
    cases hidle
  · rw [ha] at hidle
    cases hidle
  · rw [ram_of_sweeping h hact]
    split
    · rfl
    · exact hclear a (by have := a.isLt; omega)
  · rw [hidle'] at hact
    cases hact

end Telecran

/-! ### Runs -/

def SweepEnds (d : Drawing) (w : Nat → EncoderPins) (k : Nat) : Prop :=
  (run Drawing.edge d w k).rEraseActive = true ∧ (run Drawing.edge d w (k + 1)).rEraseActive = false

/-- The cells on which the pen was at the edges after `k` and before `n` that no sweep was active at. -/
def Visited (d : Drawing) (w : Nat → EncoderPins) (k n : Nat) (a : Nat) : Prop :=
  ∃ j, k < j ∧ j < n ∧ (run Drawing.edge d w j).rEraseActive = false ∧ a = (run Drawing.edge d w j).penAddr

section Runs
variable {s t : Telecran} {w : Nat → EncoderPins} {n : Nat}

/-- Since the last sweep completed no other has started, when none is active now. -/
theorem idle_since {d : Drawing} {k : Nat} (hidle : (run Drawing.edge d w n).rEraseActive = false)
    (hlast : ∀ j, k < j → j < n → ¬SweepEnds d w j) :
    ∀ j, k < j → j ≤ n → (run Drawing.edge d w j).rEraseActive = false := by
  intro j hkj hjn
  -- Backwards from `n`: an active sweep before an idle state would have ended there.
  induction hm : n - j generalizing j with
  | zero =>
    obtain rfl : j = n := by omega
    exact hidle
  | succ m ih =>
    have hnext := ih (j + 1) (by omega) (by omega) (by omega)
    by_contra hact
    exact hlast j hkj (by omega) ⟨by simpa using hact, hnext⟩

theorem cleared_run? (hs : s.Cleared) (h : run? Telecran.edge50? s w n = some t) : t.Cleared :=
  run?_invariant h hs fun _ _ _ hs h => hs.edge h

/-- From a blank frame buffer, as long as no sweep is active, the lit cells are those that the pen visits. -/
theorem ram_since {k : Nat} (hk : k < n) (h : run? Telecran.edge50? s w n = some t)
    (hblank : ∀ u, run? Telecran.edge50? s w (k + 1) = some u → u.Blank)
    (hidle : ∀ j, k < j → j < n → (run Drawing.edge s.drawing w j).rEraseActive = false) (a : Fin memSize) :
    (Visited s.drawing w k n a → t.uFrameBuffer.ram a = 0xFF#8) ∧
      (¬Visited s.drawing w k n a → t.uFrameBuffer.ram a = 0x00#8) := by
  obtain ⟨m, rfl⟩ : ∃ m, n = k + 1 + m := ⟨n - (k + 1), by omega⟩
  induction m generalizing t with
  | zero =>
    refine ⟨?_, fun _ => hblank t h a⟩
    rintro ⟨j, h1, h2, -⟩
    omega
  | succ m ih =>
    rw [← Nat.add_assoc] at h
    obtain ⟨u, hu, ht⟩ := run?_succ.mp h
    have hdu := Telecran.drawing_run? hu
    have hidle' := hidle (k + 1 + m) (by omega) (by omega)
    have hu' := hidle'
    rw [← hdu] at hu'
    obtain ⟨hlit, hdark⟩ := ih (by omega) hu fun j h1 h2 => hidle j h1 (by omega)
    have hram := Telecran.ram_of_idle ht hu' a
    rw [hdu] at hram
    by_cases hpen : a.val = (run Drawing.edge s.drawing w (k + 1 + m)).penAddr
    · rw [if_pos hpen] at hram
      exact ⟨fun _ => hram, fun hnot => absurd ⟨k + 1 + m, by omega, by omega, hidle', hpen⟩ hnot⟩
    · rw [if_neg hpen] at hram
      rw [hram]
      refine ⟨?_, fun hnot => hdark fun ⟨j, h1, h2, h3⟩ => hnot ⟨j, h1, by omega, h3⟩⟩
      rintro ⟨j, h1, h2, h3, h4⟩
      rcases Nat.lt_succ_iff_lt_or_eq.mp (show j < k + 1 + m + 1 by omega) with hj | rfl
      · exact hlit ⟨j, h1, hj, h3, h4⟩
      · exact absurd h4 hpen

end Runs

namespace Telecran

/-- Once a sweep has completed, and while none is active, a cell holds `x"FF"` when the pen has been on it
    since the last completion and `x"00"` otherwise. The run starts with no sweep active, from any frame
    buffer, and its port A addresses are in range, or it would have failed. -/
theorem frameBuffer_refines {s t : Telecran} {w : Nat → EncoderPins} {n k : Nat}
    (start : s.drawing.rEraseActive = false) (h : run? edge50? s w n = some t)
    (idle : t.drawing.rEraseActive = false) (hk : k < n) (ends : SweepEnds s.drawing w k)
    (last : ∀ j, k < j → j < n → ¬SweepEnds s.drawing w j) (a : Fin memSize) :
    (Visited s.drawing w k n a → t.uFrameBuffer.ram a = 0xFF#8) ∧
      (¬Visited s.drawing w k n a → t.uFrameBuffer.ram a = 0x00#8) := by
  have hcleared : s.Cleared := fun hact => by
    rw [start] at hact
    cases hact
  rw [drawing_run? h] at idle
  refine ram_since hk h (fun u hu => ?_) (fun j h1 h2 => idle_since idle last j h1 (by omega)) a
  obtain ⟨v, hv, hedge⟩ := run?_succ.mp hu
  have hact := ends.1
  have hidle := ends.2
  rw [← drawing_run? hv] at hact
  rw [← drawing_run? hu] at hidle
  exact (cleared_run? hcleared hv).blank hedge hact hidle

/-! ### One press out of the reset -/

theorem edge_onePress (n : Nat) : EncoderManager.reset.edge (onePress n) = EncoderManager.reset := by
  unfold onePress
  cases n != 0 <;> decide

theorem encs_onePress (n : Nat) : (run Drawing.edge Drawing.reset onePress n).encs = EncoderManager.reset := by
  induction n with
  | zero => rfl
  | succ n ih => rw [run_succ, Drawing.encs_edge, ih, edge_onePress]

def AtRest (s : Telecran) : Prop := s.drawing.encs = EncoderManager.reset ∧ s.drawing.rEraseAddr < memSize

theorem AtRest.edge50? {s : Telecran} (h : AtRest s) (n : Nat) : ∃ t, s.edge50? (onePress n) = some t ∧ AtRest t := by
  obtain ⟨hencs, haddr⟩ := h
  have hmux : s.drawing.sMuxAddrA < memSize := by
    unfold Drawing.sMuxAddrA Drawing.penAddr
    split
    · exact haddr
    · rw [hencs]
      decide
  refine ⟨_, edge50?_eq_some.mpr ⟨hmux, rfl⟩, ?_, ?_⟩
  · rw [Drawing.encs_edge, hencs, edge_onePress]
  · rcases s.drawing.edge_cases (onePress n) with ⟨-, -, ha⟩ | ⟨-, -, hne, -, ha⟩ | ⟨-, -, -, -, ha⟩ | ⟨-, -, -, ha⟩ <;>
      rw [ha] <;> omega

theorem run?_onePress (fb : Dpram memSize 8) (n : Nat) :
    ∃ t, run? Telecran.edge50? (reset fb) onePress n = some t := by
  have hrest : AtRest (reset fb) := ⟨rfl, (by decide : 0 < memSize)⟩
  obtain ⟨t, ht, -⟩ := run?_isSome hrest (fun _ n hs => hs.edge50? n) n
  exact ⟨t, ht⟩

/-- One press out of the reset, from a frame buffer full of lit cells: the edge after the sweep lights the
    cell of the pen, and the others are dark. -/
theorem frameBuffer_refines_onePress :
    ∃ t, run? edge50? (reset ⟨fun _ => 0xFF#8, 0, 0⟩) onePress (memSize + 1 + 1) = some t ∧
      t.uFrameBuffer.ram ⟨0, by decide⟩ = 0xFF#8 ∧ t.uFrameBuffer.ram ⟨1, by decide⟩ = 0x00#8 := by
  obtain ⟨t, ht⟩ := run?_onePress ⟨fun _ => 0xFF#8, 0, 0⟩ (memSize + 1 + 1)
  generalize hs : reset ⟨fun _ => 0xFF#8, 0, 0⟩ = s at ht
  have hd : s.drawing = Drawing.reset := by rw [← hs, reset]
  have hlast := Drawing.sweep_at (s := s.drawing) (w := onePress) rfl (k := memSize - 1) (by decide)
    fun j h1 _ => onePress_high h1
  have hend : (run Drawing.edge s.drawing onePress (memSize + 1)).rEraseActive = false :=
    Drawing.sweep_ends rfl fun j h1 _ => onePress_high h1
  have hpen : (run Drawing.edge s.drawing onePress (memSize + 1)).penAddr = 0 := by
    rw [hd, Drawing.penAddr, encs_onePress]
    rfl
  have hidle : t.drawing.rEraseActive = false := by
    rw [drawing_run? ht, run_succ (memSize + 1)]
    exact (Drawing.edge_of_idle _ (onePress (memSize + 1)) (onePress_high (by decide)) hend).1
  have h := frameBuffer_refines (by rw [hd, Drawing.reset]) ht hidle (k := memSize) (by decide) ⟨hlast.1, hend⟩
    fun j h1 h2 hj => by
      obtain rfl : j = memSize + 1 := by omega
      rw [SweepEnds, hend] at hj
      cases hj.1
  refine ⟨t, ht, (h _).1 ⟨memSize + 1, by decide, by decide, hend, hpen.symm⟩, (h _).2 ?_⟩
  rintro ⟨j, h1, h2, -, hj⟩
  obtain rfl : j = memSize + 1 := by omega
  rw [hpen] at hj
  cases hj

end Telecran
end EcranMagique
