import EcranMagique.Video.Timing

/-! The coordinates of the current pixel. They are computed from the counts while the flags are set, and a
    flag is set one count after the comparison with the start of the zone; so the subtraction of the start
    numbers the pixels of a line, and the lines of a frame, from `1`. -/

namespace EcranMagique.HdmiControler
open Clocked Raster

section
variable (g : Generics) (n : Nat)

/-- The number of enabled clocks before clock `n` in its line. -/
def columnOf : Nat := (List.range (n % g.lineClocks)).countP fun k => de g (n / g.lineClocks * g.lineClocks + k)

/-- The number of lines with an enabled clock before the line of clock `n` in its frame. -/
def rowOf : Nat :=
  (List.range (n / g.lineClocks % g.frameLines)).countP fun l =>
    (List.range g.lineClocks).any fun k =>
      de g ((n / g.lineClocks / g.frameLines * g.frameLines + l) * g.lineClocks + k)

/-- At every enabled clock the coordinates are the number of the pixel in its line and of the line in its
    frame, counted from `0`. -/
def RasterCoordinates : Prop :=
  ∀ n, de g n = true → (after g n).oXCounter = columnOf g n ∧ (after g n).oYCounter = rowOf g n

end

section
variable {g : Generics}

theorem de_line {q k : Nat} (hk : k < g.lineClocks) :
    de g (q * g.lineClocks + k) = decide (DataColumn g k ∧ g.VInside (q % g.frameLines)) := by
  have hpos := position_line (V := g.frameLines) (q := q) hk
  have h1 := congrArg Prod.fst hpos
  have h2 := congrArg Prod.snd hpos
  simp only [position] at h1 h2
  rw [de, oHdmiDe_after, h1, h2]

theorem columnOf_eq {n : Nat} (hde : de g n = true) : g.hStart + 2 + columnOf g n = n % g.lineClocks := by
  have hlt := Nat.mod_lt n g.lineClocks_pos
  have hin := hde
  rw [de, oHdmiDe_after, decide_eq_true_eq] at hin
  have hcount : columnOf g n = passed (g.hStart + 1) g.hRes (n % g.lineClocks) := by
    rw [columnOf, ← countP_inside]
    refine List.countP_congr fun k hk => ?_
    have hk' := List.mem_range.mp hk
    rw [de_line (by omega), decide_eq_true_eq, decide_eq_true_eq]
    exact and_iff_left hin.2
  rw [hcount]
  exact (passed_of_inside hin.1).1

theorem rowOf_eq {n : Nat} (hde : de g n = true) :
    g.vStart + 1 + rowOf g n = n / g.lineClocks % g.frameLines := by
  have hlt := Nat.mod_lt (n / g.lineClocks) g.frameLines_pos
  have hin := hde
  rw [de, oHdmiDe_after, decide_eq_true_eq] at hin
  have hcount : rowOf g n = passed g.vStart g.vRes (n / g.lineClocks % g.frameLines) := by
    rw [rowOf, ← countP_inside]
    refine List.countP_congr fun l hl => ?_
    have hl' := List.mem_range.mp hl
    have hline : (n / g.lineClocks / g.frameLines * g.frameLines + l) % g.frameLines = l := by
      rw [Nat.mul_add_mod_self_right, Nat.mod_eq_of_lt (by omega)]
    rw [List.any_eq_true, decide_eq_true_eq]
    constructor
    · rintro ⟨k, hk, hdek⟩
      rw [de_line (List.mem_range.mp hk), decide_eq_true_eq, hline] at hdek
      exact hdek.2
    · intro hrow
      -- The column of clock `n` is enabled in that line too.
      have hcol := Nat.mod_lt n g.lineClocks_pos
      refine ⟨n % g.lineClocks, List.mem_range.mpr hcol, ?_⟩
      rw [de_line hcol, decide_eq_true_eq, hline]
      exact ⟨hin.1, hrow⟩
  rw [hcount]
  exact (passed_of_inside hin.2).1

theorem counters_of_de {n : Nat} (hde : de g n = true) :
    g.hStart + 1 + (after g n).oXCounter = n % g.lineClocks ∧
      g.vStart + (after g n).oYCounter = n / g.lineClocks % g.frameLines := by
  cases n with
  | zero => cases hde
  | succ m =>
    rw [de, after_succ, oHdmiDe_edge, Bool.and_eq_true] at hde
    have hs := synced_after g m
    have h := g.h_order
    obtain ⟨hlo, hhi, vlo, -⟩ := hs.counts_of_active hde.1 hde.2
    rw [after_succ, oXCounter_edge, oYCounter_edge, if_pos hde, if_pos hde, column_succ, line_succ]
    rw [rHCount_after] at hlo hhi ⊢
    rw [rVCount_after] at vlo ⊢
    rw [if_neg (by omega), if_neg (by omega)]
    omega

end

/-- For no generics are the coordinates those of the raster: at every enabled clock both are one more. -/
theorem coordinates_from_one (g : Generics) : ¬RasterCoordinates g ∧
    ∀ n, de g n = true → (after g n).oXCounter = columnOf g n + 1 ∧ (after g n).oYCounter = rowOf g n + 1 := by
  have hone : ∀ n, de g n = true →
      (after g n).oXCounter = columnOf g n + 1 ∧ (after g n).oYCounter = rowOf g n + 1 := fun n hde => by
    have hx := columnOf_eq hde
    have hy := rowOf_eq hde
    obtain ⟨hx', hy'⟩ := counters_of_de hde
    omega
  refine ⟨fun hraster => ?_, hone⟩
  -- The first pixel of the first active line is enabled.
  have h := g.h_order
  have hv := g.v_order
  have hend : g.hEnd = g.hStart + g.hRes := rfl
  have hfirst : de g ((g.vStart + 1) * g.lineClocks + (g.hStart + 2)) = true := by
    rw [de_line (by rw [g.lineClocks_eq]; omega), decide_eq_true_eq,
      Nat.mod_eq_of_lt (by rw [g.frameLines_eq]; omega), Generics.vInside_iff]
    unfold DataColumn Inside
    omega
  have h1 := (hraster _ hfirst).1
  have h2 := (hone _ hfirst).1
  omega

/-- With all generics `1` the first enabled clock is clock `19`, and its coordinates are `(1, 1)`. -/
theorem coordinates_of_ones : ¬∀ g, RasterCoordinates g := fun h =>
  absurd (h ⟨1, 1, 1, 1, 1, 1, 1, 1, by decide, by decide, by decide, by decide, by decide, by decide, by decide,
    by decide⟩ 19 (by decide)) (by decide)

end EcranMagique.HdmiControler
