import EcranMagique.Lib.Hysteresis
import EcranMagique.Nios.Start

/-! The detection of the turn is a trigger with hysteresis on the `z` of the successful reads. Which
    iterations wipe is read off the LED writes of the iteration, and told from the history of the samples. Past its start
    `main` is this loop, so that these are the wipes of its laps. -/

namespace EcranMagique.Nios
open Clocked Hysteresis

/-! ### Samples -/

def Succeeds (r : Reply 6) : Prop := r.status = i2cSuccess

instance (r : Reply 6) : Decidable (Succeeds r) := inferInstanceAs (Decidable (_ = _))

/-- A failed read, or a sample between the thresholds. -/
def Noise (r : Reply 6) : Prop := Succeeds r → -200 ≤ z r ∧ z r ≤ 200

def sample (r : Reply 6) : Option Int := if Succeeds r then some (z r) else none

theorem mem_sample {r : Reply 6} {x : Int} : x ∈ sample r ↔ Succeeds r ∧ z r = x := by
  unfold sample
  split <;> simp_all

theorem low_sample {r : Reply 6} : Low zFlipNegTh (sample r) ↔ Succeeds r ∧ z r < -200 := by
  constructor
  · rintro ⟨x, hx, hlt⟩
    obtain ⟨hr, rfl⟩ := mem_sample.mp hx
    exact ⟨hr, hlt⟩
  · rintro ⟨hr, hlt⟩
    exact ⟨z r, mem_sample.mpr ⟨hr, rfl⟩, hlt⟩

theorem high_sample {r : Reply 6} : High zFlipPosTh (sample r) ↔ Succeeds r ∧ 200 < z r := by
  constructor
  · rintro ⟨x, hx, hlt⟩
    obtain ⟨hr, rfl⟩ := mem_sample.mp hx
    exact ⟨hr, hlt⟩
  · rintro ⟨hr, hlt⟩
    exact ⟨z r, mem_sample.mpr ⟨hr, rfl⟩, hlt⟩

theorem Noise.neutral {r : Reply 6} (h : Noise r) : Neutral zFlipNegTh zFlipPosTh (sample r) := by
  intro x hx
  obtain ⟨hr, rfl⟩ := mem_sample.mp hx
  exact h hr

theorem thresholds_le : zFlipNegTh ≤ zFlipPosTh := by decide

/-! ### An iteration -/

theorem isFlipped_measure (s : Nios) (r : Reply 6) :
    (measure s r).1.isFlipped = next zFlipNegTh zFlipPosTh s.isFlipped (sample r) := by
  unfold measure sample
  by_cases hr : r.status = i2cSuccess
  · simp only [hr, if_true, Succeeds, next, detect, int16_toInt, z, gt_iff_lt]
    split_ifs <;> rfl
  · simp only [hr, if_false, Succeeds, next]

/-- The wipe is longer than all else that an iteration does. -/
theorem not_wipe_of_short {l : List Effect} (h : l.length < 28) : ¬wipeAnimation <:+: l := fun hin => by
  have hlen : wipeAnimation.length = 28 := by decide
  have := hin.length_le
  omega

theorem wipe_measure_iff (s : Nios) (r : Reply 6) :
    wipeAnimation <:+: (measure s r).2 ↔ s.isFlipped = false ∧ Low zFlipNegTh (sample r) := by
  rw [low_sample]
  unfold measure
  by_cases hr : r.status = i2cSuccess
  · simp only [hr, if_true, Succeeds, true_and, detect, int16_toInt]
    by_cases hset : s.isFlipped = false ∧ ofBytes (r.rx 4) (r.rx 5) < zFlipNegTh
    · rw [if_pos hset]
      exact iff_of_true ⟨[_], _, rfl⟩ hset
    · rw [if_neg hset]
      refine iff_of_false (not_wipe_of_short ?_) hset
      split_ifs <;> simp
  · simp only [hr, if_false, Succeeds, false_and, and_false, iff_false]
    exact not_wipe_of_short (by simp)

/-! ### The loop -/

/-- The variables before iteration `i` of the measuring loop, which starts with `is_flipped = 0`. -/
def looped (s : Nios) (w : Nat → Reply 6) (i : Nat) : Nios :=
  run (fun s r => (measure s r).1) { s with isFlipped := false } w i

def WipesAt (s : Nios) (w : Nat → Reply 6) (i : Nat) : Prop := wipeAnimation <:+: (measure (looped s w i) (w i)).2

section Loop
variable {s : Nios} {w w' : Nat → Reply 6}

theorem isFlipped_looped (i : Nat) :
    (looped s w i).isFlipped = run (next zFlipNegTh zFlipPosTh) false (fun k => sample (w k)) i :=
  run_map (f := Nios.isFlipped) isFlipped_measure i

theorem wipesAt_iff {i : Nat} : WipesAt s w i ↔ Fires zFlipNegTh zFlipPosTh (fun k => sample (w k)) i := by
  rw [WipesAt, wipe_measure_iff, isFlipped_looped, Fires]

theorem setSince_sample {i j : Nat} : SetSince zFlipNegTh zFlipPosTh (fun k => sample (w k)) i j ↔
    j < i ∧ (Succeeds (w j) ∧ z (w j) < -200) ∧ ∀ k, j < k → k < i → Succeeds (w k) → z (w k) ≤ 200 := by
  simp only [SetSince, low_sample, high_sample, not_and, not_lt]

end Loop

/-- Which iterations wipe, whatever the variables when the loop is entered: those whose sample is low with
    no low sample before that no high one has followed. Noise plays no part in it, and there is a high sample
    between two wipes. -/
theorem flip_detection (s : Nios) (w : Nat → Reply 6) :
    (∀ i, WipesAt s w i ↔ (Succeeds (w i) ∧ z (w i) < -200) ∧
      ¬∃ j < i, (Succeeds (w j) ∧ z (w j) < -200) ∧ ∀ k, j < k → k < i → Succeeds (w k) → z (w k) ≤ 200) ∧
    (∀ w' e n, Inserted Noise e n w w' → ∀ i < n, (WipesAt s w' (e i) ↔ WipesAt s w i)) ∧
    (∀ i j, i < j → WipesAt s w i → WipesAt s w j → ∃ k, i < k ∧ k < j ∧ Succeeds (w k) ∧ 200 < z (w k)) := by
  refine ⟨fun i => ?_, fun w' e n hins i hi => ?_, fun i j hij hwi hwj => ?_⟩
  · rw [wipesAt_iff, Hysteresis.fires_iff thresholds_le, low_sample]
    simp only [setSince_sample]
  · rw [wipesAt_iff, wipesAt_iff]
    exact (hins.map fun _ => Noise.neutral).fires_iff thresholds_le hi
  · obtain ⟨k, h1, h2, hhigh⟩ := Fires.high_between thresholds_le hij (wipesAt_iff.mp hwi) (wipesAt_iff.mp hwj)
    exact ⟨k, h1, h2, high_sample.mp hhigh⟩

/-! ### The laps of `main` -/

section Main
variable {bus : Bus}

/-- Once the accelerometer has been identified, `main` is the measuring loop on the replies of its bus. -/
theorem main_looped (hp : Probed bus) (n : Nat) : (main bus n).2.1 = looped (startUp bus).2.1 bus.data n := by
  induction n with
  | zero =>
    have hclear : (startUp bus).2.1.isFlipped = false := by
      unfold startUp
      dsimp only
      split_ifs <;> rfl
    rw [looped, run_zero, ← hclear]
    rfl
  | succ n ih =>
    rw [variables_main, startUp_measuring_iff.mpr hp, ih]
    rfl

/-- The laps of `main` that wipe. The error loops flash, and never wipe. -/
theorem wipe_lapDone_iff {k : Nat} :
    wipeAnimation <:+: lapDone bus k ↔ Probed bus ∧ WipesAt (startUp bus).2.1 bus.data k := by
  by_cases hp : Probed bus
  · rw [lapDone, loop_main, startUp_measuring_iff.mpr hp, main_looped hp]
    exact (and_iff_right hp).symm
  · obtain ⟨v, us, hlap, -⟩ := lapDone_of_not_probed hp k
    rw [hlap]
    exact iff_of_false (not_wipe_of_short (by simp [flash])) fun h => hp h.1

end Main

end EcranMagique.Nios
