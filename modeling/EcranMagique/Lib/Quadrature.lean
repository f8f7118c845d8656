import Mathlib.Tactic.Common
import Mathlib.Data.Int.Basic

/-! The quadrature code: two channels that turn through the cycle `00 → 10 → 11 → 01 → 00`.

    A legal stream of samples, in which no two channels change at once, determines the number of quarter
    turns made since its first sample, and the sample is a function of that number. -/

namespace Quadrature

abbrev Phase := Bool × Bool

def Legal (p q : Phase) : Prop := p.1 = q.1 ∨ p.2 = q.2

instance (p q : Phase) : Decidable (Legal p q) := inferInstanceAs (Decidable (_ ∨ _))

def next : Phase → Phase
  | (a, b) => (!b, a)

/-- The quarter turn from `p` to `q`: `1` forward, `-1` backward, `0` when there is none. -/
def quarterTurn (p q : Phase) : Int :=
  if q = p then 0 else if q = next p then 1 else if p = next q then -1 else 0

def phase (P : Int) : Phase :=
  if P % 4 = 0 then (false, false)
  else if P % 4 = 1 then (true, false)
  else if P % 4 = 2 then (true, true)
  else (false, true)

theorem mod_four_cases (P : Int) : P % 4 = 0 ∨ P % 4 = 1 ∨ P % 4 = 2 ∨ P % 4 = 3 := by omega

theorem phase_add_one (P : Int) : phase (P + 1) = next (phase P) := by
  have hsucc : (P + 1) % 4 = (P % 4 + 1) % 4 := by omega
  unfold phase
  rw [hsucc]
  rcases mod_four_cases P with hP | hP | hP | hP
  all_goals
    rw [hP]
    rfl

theorem next_injective {p q : Phase} (h : next p = next q) : p = q := by
  obtain ⟨hb, ha⟩ := Prod.mk.inj h
  exact Prod.ext ha (Bool.not_inj hb)

theorem Legal.cases {p q : Phase} (h : Legal p q) : q = p ∨ q = next p ∨ p = next q := by
  obtain ⟨a, b⟩ := p
  obtain ⟨c, d⟩ := q
  revert h
  cases a <;> cases b <;> cases c <;> cases d <;> decide

theorem quarterTurn_self (p : Phase) : quarterTurn p p = 0 := if_pos rfl

theorem quarterTurn_next (p : Phase) : quarterTurn p (next p) = 1 := by
  obtain ⟨a, b⟩ := p
  cases a <;> cases b <;> rfl

theorem quarterTurn_of_next (q : Phase) : quarterTurn (next q) q = -1 := by
  obtain ⟨a, b⟩ := q
  cases a <;> cases b <;> rfl

/-- A legal transition is the quarter turn that it counts as. -/
theorem phase_add_quarterTurn {P : Int} {q : Phase} (h : Legal (phase P) q) :
    phase (P + quarterTurn (phase P) q) = q := by
  rcases h.cases with rfl | rfl | hback
  · rw [quarterTurn_self, Int.add_zero]
  · rw [quarterTurn_next, phase_add_one]
  · rw [hback, quarterTurn_of_next]
    apply next_injective
    rw [← phase_add_one, Int.neg_add_cancel_right, hback]

/-- The quarter turns made up to sample `n` of the stream `s`. -/
def position (s : Nat → Phase) : Nat → Int
  | 0 => 0
  | n + 1 => position s n + quarterTurn (s n) (s (n + 1))

theorem phase_position {s : Nat → Phase} (h0 : s 0 = (false, false)) {n : Nat}
    (h : ∀ i < n, Legal (s i) (s (i + 1))) : phase (position s n) = s n := by
  induction n with
  | zero => exact h0.symm
  | succ n ih =>
    have hn := ih fun i hi => h i (Nat.lt_succ_of_lt hi)
    have hl := h n (Nat.lt_succ_self n)
    rw [← hn] at hl
    rw [position, ← hn, phase_add_quarterTurn hl]

end Quadrature
