import EcranMagique.Encoder.Tracking
import Mathlib.Data.List.Count
import Mathlib.Data.Prod.Basic

/-! Two runs with the channels exchanged. The conditions of the two branches are mirror images, but on a
    simultaneous fall of both channels both hold, and the increment is tested first. Everywhere else the
    decoded movements are opposite, so the displacements of the two runs add up to two steps for every
    simultaneous fall. -/

namespace EcranMagique.EncoderManager
open Clocked Quadrature

/-! ### The decoder -/

def DoubleFall (p q : Phase) : Prop := p = (true, true) ∧ q = (false, false)

instance (p q : Phase) : Decidable (DoubleFall p q) := inferInstanceAs (Decidable (_ ∧ _))

/-- The movement decoded from the exchanged channels is the opposite one, but for the simultaneous fall. -/
theorem decode_swap (p q : Phase) :
    decode p.swap q.swap + decode p q = if DoubleFall p q then 2 else 0 := by
  obtain ⟨a, b⟩ := p
  obtain ⟨a', b'⟩ := q
  cases a <;> cases b <;> cases a' <;> cases b' <;> decide

/-- The edge from `e` finds the coordinate at the limit that it would move past. -/
def Saturates (d : Side) (e : EncoderManager) : Prop :=
  (incBranch (syncA d e) (syncB d e) = true ∧ (coord d e).toNat = cMaxCoord) ∨
  (incBranch (syncA d e) (syncB d e) = false ∧ decBranch (syncA d e) (syncB d e) = true ∧ (coord d e).toNat = 0)

instance (d : Side) (e : EncoderManager) : Decidable (Saturates d e) := inferInstanceAs (Decidable (_ ∨ _))

theorem coord_edge_of_free {d : Side} {e : EncoderManager} (free : ¬Saturates d e) (i : EncoderPins) :
    ((coord d (edge e i)).toNat : Int) =
      (coord d e).toNat + decode (previous (syncA d e) (syncB d e)) (current (syncA d e) (syncB d e)) := by
  have hc := toNat_le_cMaxCoord (coord d e)
  unfold Saturates at free
  rw [coord_edge]
  rcases nextCoord_cases (syncA d e) (syncB d e) (coord d e) with ⟨hi, h⟩ | ⟨hi, hd, h⟩ | ⟨hi, hd, h⟩
  · have hmax : (coord d e).toNat ≠ cMaxCoord := fun hm => free (Or.inl ⟨hi, hm⟩)
    rw [h, decode_of_incBranch hi]
    omega
  · have hmin : (coord d e).toNat ≠ 0 := fun hm => free (Or.inr ⟨hi, hd, hm⟩)
    rw [h, decode_of_decBranch hi hd]
    omega
  · rw [h, decode_of_no_branch hi hd, Int.add_zero]

/-! ### Displacements -/

section Displacement
variable (d : Side) (s : EncoderManager) (w : Nat → EncoderPins) (n : Nat)

def displacement : Int := ((coord d (run edge s w n)).toNat : Int) - (coord d s).toNat

theorem displacement_zero : displacement d s w 0 = 0 := Int.sub_self _

theorem displacement_succ {d : Side} {s : EncoderManager} {w : Nat → EncoderPins} {n : Nat}
    (free : ¬Saturates d (run edge s w n)) :
    displacement d s w (n + 1) = displacement d s w n + decode (stream d s w n) (stream d s w (n + 1)) := by
  have hedge := coord_edge_of_free free (w n)
  rw [previous_stream, current_stream] at hedge
  unfold displacement
  rw [run_succ, hedge]
  omega

def doubleFalls : Nat :=
  (List.range n).countP fun m => decide (DoubleFall (stream d s w m) (stream d s w (m + 1)))

theorem doubleFalls_succ : doubleFalls d s w (n + 1) =
    doubleFalls d s w n + if DoubleFall (stream d s w n) (stream d s w (n + 1)) then 1 else 0 := by
  unfold doubleFalls
  rw [List.range_succ, List.countP_append, List.countP_singleton]
  simp only [decide_eq_true_eq]

theorem doubleFalls_eq_zero : doubleFalls d s w n = 0 ↔
    ∀ m < n, ¬DoubleFall (stream d s w m) (stream d s w (m + 1)) := by
  unfold doubleFalls
  simp only [List.countP_eq_zero, List.mem_range, decide_eq_true_eq]

end Displacement

/-! ### Exchanged channels -/

/-- The second run starts at the same coordinate, with the synchronisers and the whole input stream of
    the axis those of the first with the channels exchanged. -/
structure Exchanged (d : Side) (s s' : EncoderManager) (w w' : Nat → EncoderPins) : Prop where
  start : coord d s' = coord d s
  swapA : syncA d s' = syncB d s
  swapB : syncB d s' = syncA d s
  pins : ∀ n, d.channels (w' n) = (d.channels (w n)).swap

section Exchange
variable {d : Side} {s s' : EncoderManager} {w w' : Nat → EncoderPins}

theorem stream_of_exchanged (h : Exchanged d s s' w w') :
    ∀ n, stream d s' w' n = (stream d s w n).swap
  | 0 => by
    rw [stream, stream, h.swapA, h.swapB]
    rfl
  | 1 => by
    rw [stream, stream, h.swapA, h.swapB]
    rfl
  | n + 2 => h.pins n

/-- Every simultaneous fall takes the exchanged run two steps off the opposite of the first. -/
theorem displacement_add (h : Exchanged d s s' w w') {n : Nat}
    (free : ∀ m < n, ¬Saturates d (run edge s w m) ∧ ¬Saturates d (run edge s' w' m)) :
    displacement d s' w' n + displacement d s w n = 2 * (doubleFalls d s w n : Int) := by
  induction n with
  | zero =>
    rw [displacement_zero, displacement_zero]
    rfl
  | succ n ih =>
    have hn := ih fun m hm => free m (Nat.lt_succ_of_lt hm)
    obtain ⟨hfree, hfree'⟩ := free n (Nat.lt_succ_self n)
    have hswap := decode_swap (stream d s w n) (stream d s w (n + 1))
    rw [displacement_succ hfree, displacement_succ hfree', stream_of_exchanged h, stream_of_exchanged h,
      doubleFalls_succ]
    by_cases hfall : DoubleFall (stream d s w n) (stream d s w (n + 1))
    · rw [if_pos hfall] at hswap ⊢
      omega
    · rw [if_neg hfall] at hswap ⊢
      omega

/-- Runs that do not saturate move opposite ways for as long as no edge decodes a simultaneous fall. -/
theorem opposite_iff (h : Exchanged d s s' w w') {n : Nat}
    (free : ∀ m < n, ¬Saturates d (run edge s w m) ∧ ¬Saturates d (run edge s' w' m)) :
    (∀ m ≤ n, displacement d s' w' m = -displacement d s w m) ↔
      ∀ m < n, ¬DoubleFall (stream d s w m) (stream d s w (m + 1)) := by
  have hadd : ∀ m ≤ n, displacement d s' w' m + displacement d s w m = 2 * (doubleFalls d s w m : Int) :=
    fun m hm => displacement_add h fun i hi => free i (by omega)
  rw [← doubleFalls_eq_zero]
  constructor
  · intro hopp
    have := hadd n (Nat.le_refl n)
    have := hopp n (Nat.le_refl n)
    omega
  · intro hzero m hm
    have hm0 : doubleFalls d s w m = 0 := by
      rw [doubleFalls_eq_zero] at hzero ⊢
      exact fun i hi => hzero i (by omega)
    have := hadd m hm
    omega

end Exchange

/-- The left axis at the middle of its range, both channels having rested at the levels `p`. -/
def resting (p : Phase) : EncoderManager where
  rCoordX := 500
  rCoordY := 0
  rASyncLeft := shift (shift 0 p.1) p.1
  rBSyncLeft := shift (shift 0 p.2) p.2
  rASyncRight := 0
  rBSyncRight := 0

/-- The pins while the left encoder stays at the levels `p` and nothing else happens. -/
def held (p : Phase) : EncoderPins := ⟨p.1, p.2, true, false, false, true⟩

theorem opposite_iff_forward :
    displacement .left (resting (false, false)) (fun n => held (phase (n + 1)).swap) 3 =
      -displacement .left (resting (false, false)) (fun n => held (phase (n + 1))) 3 :=
  (opposite_iff ⟨rfl, rfl, rfl, fun _ => rfl⟩ (by decide)).mpr (by decide) 3 (Nat.le_refl 3)

/-- Both channels fall at once: either run takes the step forward. -/
theorem opposite_of_doubleFall : ¬ ∀ (d : Side) (s s' : EncoderManager) (w w' : Nat → EncoderPins) (n : Nat),
    Exchanged d s s' w w' →
    (∀ m < n, ¬Saturates d (run edge s w m) ∧ ¬Saturates d (run edge s' w' m)) →
    displacement d s' w' n = -displacement d s w n := fun h =>
  absurd (h .left (resting (true, true)) (resting (true, true)) (fun _ => held (false, false))
    (fun _ => held (false, false)) 2 ⟨rfl, rfl, rfl, fun _ => rfl⟩ (by decide)) (by decide)

end EcranMagique.EncoderManager
