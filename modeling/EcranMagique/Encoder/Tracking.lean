import EcranMagique.EncoderManager

/-! What the coordinates are after any stream of samples.

    The synchronisers delay the samples by one edge: after `n + 1` edges an axis has walked the movements
    decoded between the first `n` samples, saturated at both ends. The first of them is decoded against
    the reset value `00` of the synchronisers. On a stream that never changes both channels at once the
    movements are the increments of a function of the angle, so the walk cannot drift. -/

namespace EcranMagique.EncoderManager
open Clocked Quadrature SatWalk

/-! ### The synchronisers -/

/-- The samples that an axis decodes: those in its synchronisers at the start, then the levels at every edge. -/
def stream (d : Side) (s : EncoderManager) (w : Nat → EncoderPins) : Nat → Phase
  | 0 => previous (syncA d s) (syncB d s)
  | 1 => current (syncA d s) (syncB d s)
  | n + 2 => d.channels (w n)

section Stream
variable (d : Side) (s : EncoderManager) (w : Nat → EncoderPins) (n : Nat)

theorem current_stream :
    current (syncA d (run edge s w n)) (syncB d (run edge s w n)) = stream d s w (n + 1) := by
  cases n with
  | zero => rfl
  | succ n =>
    rw [run_succ, syncA_edge, syncB_edge]
    exact current_shift _ _ (d.channels (w n))

theorem previous_stream :
    previous (syncA d (run edge s w n)) (syncB d (run edge s w n)) = stream d s w n := by
  cases n with
  | zero => rfl
  | succ n => rw [run_succ, syncA_edge, syncB_edge, previous_shift, current_stream]

end Stream

/-- The samples of an axis: the reset value of its synchronisers, then the levels at every edge. -/
def samples (d : Side) (w : Nat → EncoderPins) : Nat → Phase
  | 0 => (false, false)
  | n + 1 => d.channels (w n)

section Synchronisers
variable (d : Side) (w : Nat → EncoderPins) (n : Nat)

theorem stream_reset : stream d reset w (n + 1) = samples d w n := by
  cases n with
  | zero =>
    change current (syncA d reset) (syncB d reset) = (false, false)
    cases d <;> decide
  | succ n => rfl

theorem current_run :
    current (syncA d (run edge reset w n)) (syncB d (run edge reset w n)) = samples d w n := by
  rw [current_stream, stream_reset]

theorem previous_run :
    previous (syncA d (run edge reset w (n + 1))) (syncB d (run edge reset w (n + 1))) = samples d w n := by
  rw [previous_stream, stream_reset]

/-- The movement that the edge after sample `n + 1` decodes. -/
def movement (d : Side) (w : Nat → EncoderPins) (n : Nat) : Int := decode (samples d w n) (samples d w (n + 1))

/-- Every coordinate is the saturated walk of the decoded movements, one edge late. -/
theorem coord_run :
    ((coord d (run edge reset w (n + 1))).toNat : Int) = walk 0 (cMaxCoord : Int) 0 (movement d w) n := by
  induction n with
  | zero =>
    rw [run_succ, run_zero, coord_edge, walk_zero]
    cases d <;> decide
  | succ n ih =>
    rw [run_succ, coord_edge, toNat_nextCoord, ih, previous_run, current_run, walk_succ, movement]

end Synchronisers

theorem coord_congr {d : Side} {w w' : Nat → EncoderPins} {n : Nat}
    (h : ∀ i < n, d.channels (w' i) = d.channels (w i)) :
    coord d (run edge reset w' n) = coord d (run edge reset w n) := by
  cases n with
  | zero => rfl
  | succ n =>
    have hs : ∀ i ≤ n, samples d w' i = samples d w i := fun i hi => by
      cases i with
      | zero => rfl
      | succ i => exact h i (by omega)
    have hm : ∀ i < n, movement d w' i = movement d w i := fun i hi => by
      rw [movement, movement, hs i (by omega), hs (i + 1) (by omega)]
    apply BitVec.eq_of_toNat_eq
    have := coord_run d w n
    rw [← walk_congr hm, ← coord_run d w' n] at this
    omega

/-! ### Legal streams -/

/-- The coordinate that belongs to `P` quarter turns: two steps a turn, both made next to phase `00`. -/
def halfSteps (P : Int) : Int := 2 * (P / 4) + if P % 4 = 0 then 0 else 1

theorem decode_phase {P : Int} {q : Phase} (h : Legal (phase P) q) :
    decode (phase P) q = halfSteps (P + quarterTurn (phase P) q) - halfSteps P := by
  obtain ⟨a, b⟩ := q
  rcases mod_four_cases P with hP | hP | hP | hP
  all_goals
    cases a <;> cases b <;> simp [phase, quarterTurn, Legal, next, decode, halfSteps, hP] at h ⊢ <;> omega

theorem movement_of_legal {d : Side} {w : Nat → EncoderPins} {n : Nat}
    (h : ∀ i ≤ n, Legal (samples d w i) (samples d w (i + 1))) :
    movement d w n = halfSteps (position (samples d w) (n + 1)) - halfSteps (position (samples d w) n) := by
  have hphase : phase (position (samples d w) n) = samples d w n :=
    phase_position rfl fun i hi => h i (Nat.le_of_lt hi)
  have hl := h n (Nat.le_refl n)
  rw [← hphase] at hl
  rw [movement, position, ← hphase, decode_phase hl]

section Legal
variable {d : Side} {w : Nat → EncoderPins} {n : Nat}

theorem coord_eq_walk (legal : ∀ i < n, Legal (samples d w i) (samples d w (i + 1))) :
    ((coord d (run edge reset w (n + 1))).toNat : Int) =
      walk 0 1023 0 (fun i =>
        halfSteps (position (samples d w) (i + 1)) - halfSteps (position (samples d w) i)) n := by
  rw [coord_run]
  exact walk_congr fun i hi => movement_of_legal fun j hj => legal j (by omega)

theorem coord_eq_halfSteps (legal : ∀ i < n, Legal (samples d w i) (samples d w (i + 1)))
    (range : ∀ i ≤ n, 0 ≤ halfSteps (position (samples d w) i) ∧ halfSteps (position (samples d w) i) ≤ 1023) :
    ((coord d (run edge reset w (n + 1))).toNat : Int) = halfSteps (position (samples d w) n) := by
  rw [coord_eq_walk legal]
  exact walk_of_mem (f := fun i => halfSteps (position (samples d w) i)) range

end Legal

/-- On a legal stream a coordinate is the saturated walk of the half steps, it is their number as long
    as that stays in range, and the other encoder does not matter. -/
theorem coord_tracks (d : Side) (w : Nat → EncoderPins) (n : Nat)
    (legal : ∀ i < n, Legal (samples d w i) (samples d w (i + 1))) :
    ((coord d (run edge reset w (n + 1))).toNat : Int) =
        walk 0 1023 0 (fun i =>
          halfSteps (position (samples d w) (i + 1)) - halfSteps (position (samples d w) i)) n ∧
    ((∀ i ≤ n, 0 ≤ halfSteps (position (samples d w) i) ∧ halfSteps (position (samples d w) i) ≤ 1023) →
      ((coord d (run edge reset w (n + 1))).toNat : Int) = halfSteps (position (samples d w) n)) ∧
    ∀ m w', (∀ i < m, d.channels (w' i) = d.channels (w i)) →
      coord d (run edge reset w' m) = coord d (run edge reset w m) :=
  ⟨coord_eq_walk legal, coord_eq_halfSteps legal, fun _ _ h => coord_congr h⟩

/-! ### A steady rotation -/

/-- The pins while the encoder of one axis makes a quarter turn forward at every edge, the other rests
    at `00` and no button is pressed. -/
def forward (d : Side) (n : Nat) : EncoderPins :=
  let p : Phase := phase (n + 1)
  match d with
  | .left => ⟨p.1, p.2, true, false, false, true⟩
  | .right => ⟨false, false, true, p.1, p.2, true⟩

theorem samples_forward (d : Side) (n : Nat) : samples d (forward d) n = phase n := by
  cases n with
  | zero => rfl
  | succ n => cases d <;> rfl

theorem legal_phase (n : Nat) : Legal (phase n) (phase (n + 1)) ∧ quarterTurn (phase n) (phase (n + 1)) = 1 := by
  have hsucc : ((n : Int) + 1) % 4 = ((n : Int) % 4 + 1) % 4 := by omega
  rcases mod_four_cases n with h | h | h | h <;> simp [phase, hsucc, h, Legal, quarterTurn, next]

theorem legal_forward (d : Side) (n : Nat) : Legal (samples d (forward d) n) (samples d (forward d) (n + 1)) := by
  rw [samples_forward, samples_forward]
  exact_mod_cast (legal_phase n).1

theorem position_forward (d : Side) (n : Nat) : position (samples d (forward d)) n = n := by
  induction n with
  | zero => rfl
  | succ n ih =>
    have hq := (legal_phase n).2
    rw [position, ih, samples_forward, samples_forward]
    push_cast
    rw [hq]

/-- A steady rotation draws the half steps of its angle until the end of the range. -/
theorem coord_forward (d : Side) {n : Nat} (h : n ≤ 2045) :
    (coord d (run edge reset (forward d) (n + 1))).toNat = n / 4 * 2 + if n % 4 = 0 then 0 else 1 := by
  have range : ∀ i ≤ n, 0 ≤ halfSteps i ∧ halfSteps i ≤ 1023 := fun i hi => by
    unfold halfSteps
    split <;> omega
  have hn := coord_eq_halfSteps (d := d) (w := forward d) (n := n) (fun i _ => legal_forward d i)
    (fun i hi => by rw [position_forward]; exact range i hi)
  rw [position_forward] at hn
  unfold halfSteps at hn
  split at hn <;> split <;> omega

theorem coord_forward_other {d e : Side} (h : d ≠ e) (n : Nat) :
    coord e (run edge reset (forward d) n) = 0 := by
  have hrest : ∀ i, e.channels (forward d i) = (false, false) := fun i => by
    cases d <;> cases e <;> first | exact absurd rfl h | rfl
  have hs : ∀ i, samples e (forward d) i = (false, false) := fun i => by
    cases i with
    | zero => rfl
    | succ i => exact hrest i
  cases n with
  | zero => exact coord_reset e
  | succ n =>
    have hzero : ∀ i < n, movement e (forward d) i = 0 := fun i _ => by
      rw [movement, hs, hs]
      decide
    have := coord_run e (forward d) n
    rw [walk_of_zero (Int.le_refl 0) (by decide) hzero] at this
    apply BitVec.eq_of_toNat_eq
    change (coord e (run edge reset (forward d) (n + 1))).toNat = 0
    omega

theorem coord_tracks_forward :
    ((coord .left (run edge reset (forward .left) 7)).toNat : Int) =
      halfSteps (position (samples .left (forward .left)) 6) :=
  (coord_tracks .left (forward .left) 6 (by decide)).2.1 (by decide)

/-! ### The first sample -/

/-- The step made when the first sample is compared with the reset value `00`: a channel `A` that rests
    high next to a low `B` looks like a rising edge. The step back that the phase `01` gives is lost in
    the saturation at `0`. -/
def restStep (p : Phase) : Int := if p = (true, false) then 1 else 0

theorem satAdd_decode_reset (p : Phase) : satAdd 0 1023 0 (decode (false, false) p) = restStep p := by
  obtain ⟨a, b⟩ := p
  cases a <;> cases b <;> decide

@[simp] theorem decode_self (p : Phase) : decode p p = 0 := by
  obtain ⟨a, b⟩ := p
  cases a <;> cases b <;> decide

/-- After the first sample a coordinate walks the movements between the samples, from `1` where the
    encoder rested at `10` and from `0` where it rested elsewhere; it stays there if it is not turned. -/
theorem coord_from_rest (d : Side) (w : Nat → EncoderPins) (n : Nat) :
    ((coord d (run edge reset w (n + 2))).toNat : Int) =
        walk 0 1023 (restStep (samples d w 1))
          (fun i => decode (samples d w (i + 1)) (samples d w (i + 2))) n ∧
    ((∀ i ≤ n, samples d w (i + 1) = samples d w 1) →
      ((coord d (run edge reset w (n + 2))).toNat : Int) = restStep (samples d w 1)) := by
  have hfirst : walk 0 (cMaxCoord : Int) 0 (movement d w) 1 = restStep (samples d w 1) :=
    satAdd_decode_reset (samples d w 1)
  have hwalk : ((coord d (run edge reset w (n + 2))).toNat : Int) =
      walk 0 1023 (restStep (samples d w 1))
        (fun i => decode (samples d w (i + 1)) (samples d w (i + 2))) n := by
    rw [coord_run d w (n + 1), Nat.add_comm n 1, walk_add, hfirst]
    exact walk_congr fun i _ => by rw [movement, Nat.add_comm 1 i]
  refine ⟨hwalk, fun hrest => ?_⟩
  rw [hwalk]
  have hbounds : 0 ≤ restStep (samples d w 1) ∧ restStep (samples d w 1) ≤ 1023 := by
    unfold restStep
    split <;> omega
  refine walk_of_zero hbounds.1 hbounds.2 fun i hi => ?_
  rw [hrest i (by omega), hrest (i + 1) (by omega), decode_self]

/-- The left encoder resting at `10` from the reset on draws one step to the right. -/
theorem phantom_step : ¬ ∀ (d : Side) (w : Nat → EncoderPins) (n : Nat),
    ((coord d (run edge reset w (n + 2))).toNat : Int) =
      walk 0 1023 0 (fun i => decode (samples d w (i + 1)) (samples d w (i + 2))) n := fun h =>
  absurd (h .left (fun _ => ⟨true, false, true, false, false, true⟩) 0) (by decide)

end EcranMagique.EncoderManager
