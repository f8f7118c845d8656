import EcranMagique.Lib.Waveform
import EcranMagique.Video.Synced

/-! The waveforms of the video generator from the reset on. The counters at clock `n` are the digits of `n`
    to the bases `lineClocks` and `frameLines`, so every registered output is a comparison of `n`: `HS`
    one edge after the column, `VS` one line after the line, `DE` two edges after the column. -/

namespace EcranMagique.HdmiControler
open Clocked Raster Waveform

/-! ### The data enable -/

/-- The enabled clocks of a line are those of its active columns, one clock later. -/
def DataColumn (g : Generics) (h : Nat) : Prop := Inside (g.hStart + 1) g.hRes h

instance (g : Generics) (h : Nat) : Decidable (DataColumn g h) := inferInstanceAs (Decidable (Inside _ _ _))

theorem dataColumn_edge {g : Generics} {s : HdmiControler} (hc : s.rHCount ≤ g.hTotal) :
    DataColumn g (edge g s).rHCount ↔ g.HInside s.rHCount := by
  have h := g.h_order
  have hend : g.hEnd = g.hStart + g.hRes := rfl
  rw [rHCount_edge, Generics.hInside_iff]
  unfold DataColumn Inside
  rcases Nat.lt_or_eq_of_le hc with hlt | hlast
  · rw [if_neg (Nat.ne_of_lt hlt)]
    omega
  · rw [if_pos hlast]
    omega

/-- An edge sets `DE` one clock after the flags. No flag is set in the last column. -/
theorem de_edge {g : Generics} {s : HdmiControler} (hc : s.rHCount ≤ g.hTotal)
    (hh : s.rHActive = decide (g.HInside s.rHCount)) (hv : s.rVActive = decide (g.VInside s.rVCount)) :
    (edge g s).oHdmiDe = decide (DataColumn g (edge g s).rHCount ∧ g.VInside (edge g s).rVCount) := by
  have h := g.h_order
  rw [oHdmiDe_edge, hh, hv, ← Bool.decide_and, decide_eq_decide, dataColumn_edge hc, rVCount_edge]
  refine and_congr_right fun hin => ?_
  rw [Generics.hInside_iff] at hin
  rw [if_neg (show s.rHCount ≠ g.hTotal by omega)]

/-! ### Runs -/

def afterFrom (g : Generics) (s : HdmiControler) (n : Nat) : HdmiControler :=
  run (fun s (_ : Unit) => edge g s) s (fun _ => ()) n

/-- The counters run on from where they were, whatever the other registers held. -/
theorem counts_afterFrom {g : Generics} {s : HdmiControler} (hh : s.rHCount ≤ g.hTotal) (hv : s.rVCount ≤ g.vTotal)
    (n : Nat) : ((afterFrom g s n).rHCount, (afterFrom g s n).rVCount) =
      position g.lineClocks g.frameLines (s.rVCount * g.lineClocks + s.rHCount + n) := by
  rw [← run_next (Generics.lt_lineClocks hh) (Generics.lt_frameLines hv) (fun _ : Nat => ()) n]
  exact run_map (f := fun s : HdmiControler => (s.rHCount, s.rVCount)) (g := id) (fun s _ => counts_edge g s) n

/-- The registers `n` pixel clocks after the reset is released. -/
def after (g : Generics) (n : Nat) : HdmiControler :=
  run (fun s (_ : Unit) => edge g s) reset (fun _ => ()) n

section After
variable (g : Generics) (n : Nat)

theorem after_succ : after g (n + 1) = edge g (after g n) := rfl

theorem synced_after : Synced g (after g n) := run_invariant synced_reset (fun _ _ hs => hs.edge) n

theorem after_eq : after g n = afterFrom g reset n := rfl

theorem counts_after : ((after g n).rHCount, (after g n).rVCount) = position g.lineClocks g.frameLines n := by
  have hstart : reset.rVCount * g.lineClocks + reset.rHCount + n = n := by simp [reset]
  rw [after_eq, counts_afterFrom (Nat.zero_le _) (Nat.zero_le _), hstart]

theorem rHCount_after : (after g n).rHCount = n % g.lineClocks := congrArg Prod.fst (counts_after g n)

theorem rVCount_after : (after g n).rVCount = n / g.lineClocks % g.frameLines := congrArg Prod.snd (counts_after g n)

/-! ### The outputs at clock `n` -/

theorem column_succ : (n + 1) % g.lineClocks = if n % g.lineClocks = g.hTotal then 0 else n % g.lineClocks + 1 := by
  rw [(succ_div_mod g.lineClocks_pos).2, g.lineClocks_eq]
  simp only [Nat.add_right_cancel_iff]

theorem line_succ : (n + 1) / g.lineClocks =
    if n % g.lineClocks = g.hTotal then n / g.lineClocks + 1 else n / g.lineClocks := by
  rw [(succ_div_mod g.lineClocks_pos).1, g.lineClocks_eq]
  simp only [Nat.add_right_cancel_iff]

theorem oHdmiHs_after {n : Nat} (hn : 1 ≤ n) :
    (after g n).oHdmiHs = decide (g.hSync + 1 ≤ n % g.lineClocks) := by
  obtain ⟨m, rfl⟩ : ∃ m, n = m + 1 := ⟨n - 1, by omega⟩
  rw [after_succ, hs_edge (synced_after g m).hCount, ← after_succ, rHCount_after]

/-- `VS` is low in the first `v_sync + 1` lines, from the end of the first line on. -/
theorem oHdmiVs_after {n : Nat} (hn : g.lineClocks ≤ n) :
    (after g n).oHdmiVs = decide (g.vSync + 1 ≤ n / g.lineClocks % g.frameLines) := by
  have hlast : (after g g.hTotal).rHCount = g.hTotal := by
    rw [rHCount_after]
    exact Nat.mod_eq_of_lt (Nat.lt_succ_self g.hTotal)
  rw [← rVCount_after]
  exact run_settles (P := fun s : HdmiControler => s.oHdmiVs = decide (g.vSync + 1 ≤ s.rVCount))
    (Q := fun s : HdmiControler => s.rHCount = g.hTotal) hlast (fun m _ => vs_edge (synced_after g m).vCount) hn

theorem oHdmiDe_after : (after g n).oHdmiDe =
    decide (DataColumn g (n % g.lineClocks) ∧ g.VInside (n / g.lineClocks % g.frameLines)) := by
  cases n with
  | zero =>
    rw [Nat.zero_mod]
    simp [after, reset, DataColumn, Inside]
  | succ n =>
    have hs := synced_after g n
    rw [after_succ, de_edge hs.hCount hs.hActive hs.vActive, ← after_succ, rHCount_after, rVCount_after]

end After

/-! ### The frame -/

def hs (g : Generics) (n : Nat) : Bool := (after g n).oHdmiHs

def vs (g : Generics) (n : Nat) : Bool := (after g n).oHdmiVs

def de (g : Generics) (n : Nat) : Bool := (after g n).oHdmiDe

def frameClocks (g : Generics) : Nat := g.lineClocks * g.frameLines

/-- In the line that starts at clock `b`, `DE` is high for exactly `h_res` consecutive clocks, which start
    `h_fp + 1` clocks after the rise of `HS` and end `h_bp - 1` clocks before its fall at the end of the line. -/
def ActiveLine (g : Generics) (b : Nat) : Prop :=
  ∃ r, b ≤ r ∧ RisesAt (hs g) r ∧
    (∀ k < g.lineClocks, de g (b + k) = true ↔ r + g.hFp + 1 ≤ b + k ∧ b + k < r + g.hFp + 1 + g.hRes) ∧
    r + g.hFp + 1 + g.hRes + (g.hBp - 1) = b + g.lineClocks ∧ FallsAt (hs g) (b + g.lineClocks)

def BlankLine (g : Generics) (b : Nat) : Prop := ∀ k < g.lineClocks, de g (b + k) = false

/-- The waveforms from the second frame on. The lines of a frame start where `HS` falls, and the frames where
    `VS` falls. -/
structure FrameTiming (g : Generics) : Prop where
  hs_train : PulseTrain (hs g) (frameClocks g) (g.hSync + 1) g.lineClocks
  vs_train : PulseTrain (vs g) (frameClocks g) ((g.vSync + 1) * g.lineClocks) (frameClocks g)
  vs_changes : ∀ n, frameClocks g ≤ n → vs g n ≠ vs g (n - 1) → FallsAt (hs g) n
  de_lines : ∀ b, frameClocks g ≤ b → FallsAt (vs g) b → ∃ l₀, l₀ + g.vRes ≤ g.frameLines ∧
    ∀ l < g.frameLines, FallsAt (hs g) (b + l * g.lineClocks) ∧
      (l₀ ≤ l ∧ l < l₀ + g.vRes → ActiveLine g (b + l * g.lineClocks)) ∧
      (¬(l₀ ≤ l ∧ l < l₀ + g.vRes) → BlankLine g (b + l * g.lineClocks))
  de_synced : ∀ n, frameClocks g ≤ n → de g n = true → hs g n = true ∧ vs g n = true

section Frame
variable (g : Generics)

theorem lineClocks_le_frameClocks : g.lineClocks ≤ frameClocks g := Nat.le_mul_of_pos_right _ g.frameLines_pos

theorem two_le_lineClocks : 2 ≤ g.lineClocks := by
  have h1 := g.hSync_pos
  have h2 := g.hFp_pos
  unfold Generics.lineClocks
  omega

theorem hSync_lt_lineClocks : g.hSync + 1 < g.lineClocks := by
  have h := g.h_order
  rw [g.lineClocks_eq]
  omega

theorem vSync_lt_frameLines : g.vSync + 1 < g.frameLines := by
  have h := g.v_order
  rw [g.frameLines_eq]
  omega

theorem vs_eq {n : Nat} (hn : g.lineClocks ≤ n) :
    vs g n = decide ((g.vSync + 1) * g.lineClocks ≤ n % (g.lineClocks * g.frameLines)) := by
  rw [vs, oHdmiVs_after g hn, decide_eq_decide, ← Nat.mod_mul_right_div_self, Nat.le_div_iff_mul_le g.lineClocks_pos]

theorem hs_train : PulseTrain (hs g) (frameClocks g) (g.hSync + 1) g.lineClocks := by
  have h2 := two_le_lineClocks g
  have hle := lineClocks_le_frameClocks g
  exact PulseTrain.of_count (Nat.succ_pos _) (hSync_lt_lineClocks g) (by omega) (Nat.dvd_mul_right _ _)
    fun n hn => oHdmiHs_after g (by omega)

theorem vs_low_lt : (g.vSync + 1) * g.lineClocks < frameClocks g := by
  rw [Nat.mul_comm]
  exact Nat.mul_lt_mul_of_pos_left (vSync_lt_frameLines g) g.lineClocks_pos

theorem two_lines_le : 2 * g.lineClocks ≤ frameClocks g := by
  have hv := vSync_lt_frameLines g
  rw [Nat.mul_comm]
  exact Nat.mul_le_mul_left _ (by omega)

theorem vs_train : PulseTrain (vs g) (frameClocks g) ((g.vSync + 1) * g.lineClocks) (frameClocks g) := by
  have hpos := g.lineClocks_pos
  have hle := two_lines_le g
  exact PulseTrain.of_count (Nat.mul_pos (Nat.succ_pos _) hpos) (vs_low_lt g) (by omega) (Nat.dvd_refl _)
    fun n hn => vs_eq g (by omega)

theorem hs_falls_iff {n : Nat} (hn : 2 ≤ n) : FallsAt (hs g) n ↔ n % g.lineClocks = 0 :=
  fallsAt_iff (Nat.succ_pos _) (hSync_lt_lineClocks g) (by omega) fun m hm => oHdmiHs_after g (by omega)

theorem vs_falls_iff {n : Nat} (hn : frameClocks g ≤ n) : FallsAt (vs g) n ↔ n % frameClocks g = 0 := by
  have hpos := g.lineClocks_pos
  have hle := two_lines_le g
  exact fallsAt_iff (Nat.mul_pos (Nat.succ_pos _) hpos) (vs_low_lt g) (by omega) fun m hm => vs_eq g (by omega)

theorem vs_changes {n : Nat} (hn : frameClocks g ≤ n) (hne : vs g n ≠ vs g (n - 1)) : FallsAt (hs g) n := by
  have h2 := two_le_lineClocks g
  have hle := two_lines_le g
  obtain ⟨m, rfl⟩ : ∃ m, n = m + 1 := ⟨n - 1, by omega⟩
  rw [hs_falls_iff g (by omega), column_succ]
  rw [Nat.add_sub_cancel, vs, vs, after_succ, oHdmiVs_edge, rHCount_after] at hne
  by_contra hmid
  rw [if_neg fun h => hmid (if_pos h)] at hne
  exact hne rfl

theorem column_of_frame {b l k : Nat} (hb : b % frameClocks g = 0) (hl : l < g.frameLines) (hk : k < g.lineClocks) :
    (b + l * g.lineClocks + k) % g.lineClocks = k ∧
      (b + l * g.lineClocks + k) / g.lineClocks % g.frameLines = l := by
  obtain ⟨q, rfl⟩ := Nat.dvd_of_mod_eq_zero hb
  have hsum : frameClocks g * q + l * g.lineClocks + k = (g.frameLines * q + l) * g.lineClocks + k := by
    rw [frameClocks, Nat.mul_assoc, Nat.mul_comm g.lineClocks, Nat.add_mul]
  have hpos := position_line (H := g.lineClocks) (V := g.frameLines) (q := g.frameLines * q + l) hk
  rw [← hsum, Nat.mul_add_mod, Nat.mod_eq_of_lt hl] at hpos
  exact ⟨congrArg Prod.fst hpos, congrArg Prod.snd hpos⟩

theorem de_of_frame {b l k : Nat} (hb : b % frameClocks g = 0) (hl : l < g.frameLines) (hk : k < g.lineClocks) :
    de g (b + l * g.lineClocks + k) = true ↔ DataColumn g k ∧ g.VInside l := by
  obtain ⟨h1, h2⟩ := column_of_frame g hb hl hk
  rw [de, oHdmiDe_after, h1, h2, decide_eq_true_eq]

theorem hs_falls_of_line {b l : Nat} (hb : frameClocks g ≤ b) (hmod : b % frameClocks g = 0) :
    FallsAt (hs g) (b + l * g.lineClocks) := by
  have h2 := two_le_lineClocks g
  have hle := two_lines_le g
  rw [hs_falls_iff g (by omega), Nat.add_mul_mod_self_right]
  exact Nat.mod_eq_zero_of_dvd (Nat.dvd_trans (Nat.dvd_mul_right _ _) (Nat.dvd_of_mod_eq_zero hmod))

theorem active_line {b l : Nat} (hb : frameClocks g ≤ b) (hmod : b % frameClocks g = 0) (hl : l < g.frameLines)
    (hin : g.VInside l) : ActiveLine g (b + l * g.lineClocks) := by
  have hpos := g.lineClocks_pos
  have hbp := g.hBp_pos
  have hlt := hSync_lt_lineClocks g
  have hle := lineClocks_le_frameClocks g
  have hH : g.lineClocks = g.hSync + g.hFp + g.hRes + g.hBp + 1 := rfl
  have hs_at : ∀ k < g.lineClocks, hs g (b + l * g.lineClocks + k) = decide (g.hSync + 1 ≤ k) := fun k hk => by
    rw [hs, oHdmiHs_after g (by omega), (column_of_frame g hmod hl hk).1]
  refine ⟨b + l * g.lineClocks + (g.hSync + 1), by omega, ⟨?_, ?_⟩, fun k hk => ?_, by omega, ?_⟩
  · rw [← Nat.add_assoc, Nat.add_sub_cancel, hs_at _ (by omega)]
    simp
  · rw [hs_at _ hlt]
    simp
  · rw [de_of_frame g hmod hl hk]
    have hstart : g.hStart = g.hSync + g.hFp := rfl
    unfold DataColumn Inside
    simp only [hin, and_true]
    omega
  · rw [Nat.add_assoc, ← Nat.succ_mul]
    exact hs_falls_of_line g hb hmod

end Frame

theorem frame_timing (g : Generics) : FrameTiming g where
  hs_train := hs_train g
  vs_train := vs_train g
  vs_changes _ hn := vs_changes g hn
  de_lines b hb hfall := by
    have hmod := (vs_falls_iff g hb).mp hfall
    have hv := g.v_order
    have hend : g.vEnd = g.vStart + g.vRes := rfl
    have hV := g.frameLines_eq
    refine ⟨g.vStart + 1, by omega, fun l hl => ⟨hs_falls_of_line g hb hmod, fun hin => ?_, fun hout k hk => ?_⟩⟩
    · exact active_line g hb hmod hl (g.vInside_iff.mpr (by omega))
    · rw [Bool.eq_false_iff, ne_eq, de_of_frame g hmod hl hk, Generics.vInside_iff]
      omega
  de_synced n hn hde := by
    have hle := lineClocks_le_frameClocks g
    have hpos := g.lineClocks_pos
    have hh := g.h_order
    have hv := g.v_order
    rw [de, oHdmiDe_after, decide_eq_true_eq] at hde
    obtain ⟨hcol, hrow⟩ := hde
    rw [hs, vs, oHdmiHs_after g (by omega), oHdmiVs_after g (by omega), decide_eq_true_eq, decide_eq_true_eq]
    unfold DataColumn Inside at hcol
    rw [Generics.vInside_iff] at hrow
    omega

end EcranMagique.HdmiControler
