import EcranMagique.Lib.Clocked
import EcranMagique.Lib.Quadrature
import EcranMagique.Lib.SatWalk
import Mathlib.Algebra.Group.Int.Defs

/-! The encoder manager (`encoder_manager.vhd`): two quadrature encoders move two saturated coordinates.

    Every input passes a register of two stages, `sync(0)` for the current level and `sync(1)` for the
    previous one; the coordinates are updated from the levels that these registers held before the edge.
    The pins are two-valued: metavalues of `std_logic` are not modelled. -/

namespace EcranMagique

abbrev cCoordWidth : Nat := 10

/-- The coordinate at which both axes saturate (`C_MAX_COORD`). -/
def cMaxCoord : Nat := 1023

/-- The encoder inputs, and the push buttons that the positions do not use. -/
structure EncoderPins where
  iLeftChA : Bool
  iLeftChB : Bool
  iLeftPb : Bool
  iRightChA : Bool
  iRightChB : Bool
  iRightPb : Bool
  deriving DecidableEq, Inhabited, Repr

structure EncoderManager where
  rCoordX : BitVec cCoordWidth
  rCoordY : BitVec cCoordWidth
  rASyncLeft : BitVec 2
  rBSyncLeft : BitVec 2
  rASyncRight : BitVec 2
  rBSyncRight : BitVec 2
  deriving DecidableEq, Repr

namespace EncoderManager
open Quadrature SatWalk

def reset : EncoderManager where
  rCoordX := 0
  rCoordY := 0
  rASyncLeft := 0
  rBSyncLeft := 0
  rASyncRight := 0
  rBSyncRight := 0

/-- `r(0) & i`: the synchroniser moves its current level to the previous one and samples the pin. -/
def shift (r : BitVec 2) (i : Bool) : BitVec 2 := (r.setWidth 1).concat i

/-- `v_A_rising`, `v_B_rising` of a synchroniser. -/
def vRising (r : BitVec 2) : Bool := r[0] && !r[1]

/-- `v_A_falling`, `v_B_falling` of a synchroniser. -/
def vFalling (r : BitVec 2) : Bool := !r[0] && r[1]

def incBranch (a b : BitVec 2) : Bool := (vRising a && !b[0]) || (vFalling b && !a[0])

/-- The condition of the decrement branch, which is tested after the increment branch. -/
def decBranch (a b : BitVec 2) : Bool := (vRising b && !a[0]) || (vFalling a && !b[0])

def nextCoord (a b : BitVec 2) (c : BitVec cCoordWidth) : BitVec cCoordWidth :=
  if incBranch a b = true then
    if c.toNat < cMaxCoord then c + 1 else c
  else if decBranch a b = true then
    if 0 < c.toNat then c - 1 else c
  else c

def edge (s : EncoderManager) (i : EncoderPins) : EncoderManager where
  rASyncLeft := shift s.rASyncLeft i.iLeftChA
  rBSyncLeft := shift s.rBSyncLeft i.iLeftChB
  rASyncRight := shift s.rASyncRight i.iRightChA
  rBSyncRight := shift s.rBSyncRight i.iRightChB
  rCoordX := nextCoord s.rASyncLeft s.rBSyncLeft s.rCoordX
  rCoordY := nextCoord s.rASyncRight s.rBSyncRight s.rCoordY

/-! ### What an edge does to a coordinate -/

def decode (p q : Phase) : Int :=
  if (!p.1 && q.1 && !q.2) || (p.2 && !q.2 && !q.1) then 1
  else if (!p.2 && q.2 && !q.1) || (p.1 && !q.1 && !q.2) then -1
  else 0

def current (a b : BitVec 2) : Phase := (a[0], b[0])

def previous (a b : BitVec 2) : Phase := (a[1], b[1])

@[simp] theorem current_shift (a b : BitVec 2) (p : Phase) : current (shift a p.1) (shift b p.2) = p := by
  simp [current, shift]

@[simp] theorem previous_shift (a b : BitVec 2) (i j : Bool) : previous (shift a i) (shift b j) = current a b := by
  simp [previous, current, shift]

theorem decode_of_incBranch {a b : BitVec 2} (h : incBranch a b = true) :
    decode (previous a b) (current a b) = 1 := by
  simp only [incBranch, vRising, vFalling] at h
  simp only [decode, previous, current]
  grind

theorem decode_of_decBranch {a b : BitVec 2} (hi : incBranch a b = false) (hd : decBranch a b = true) :
    decode (previous a b) (current a b) = -1 := by
  simp only [incBranch, decBranch, vRising, vFalling] at hi hd
  simp only [decode, previous, current]
  grind

theorem decode_of_no_branch {a b : BitVec 2} (hi : incBranch a b = false) (hd : decBranch a b = false) :
    decode (previous a b) (current a b) = 0 := by
  simp only [incBranch, decBranch, vRising, vFalling] at hi hd
  simp only [decode, previous, current]
  grind

/-- A coordinate is within `0 .. C_MAX_COORD`: its width allows no more. -/
theorem toNat_le_cMaxCoord (c : BitVec cCoordWidth) : c.toNat ≤ cMaxCoord := by
  have h : c.toNat < 2 ^ 10 := c.isLt
  simp only [cMaxCoord]
  omega

theorem toNat_add_one {c : BitVec cCoordWidth} (h : c.toNat < cMaxCoord) : (c + 1).toNat = c.toNat + 1 := by
  have hadd : (c + 1).toNat = (c.toNat + 1) % 2 ^ 10 := BitVec.toNat_add c 1
  simp only [cMaxCoord] at h
  omega

theorem toNat_sub_one {c : BitVec cCoordWidth} (h : 0 < c.toNat) : (c - 1).toNat = c.toNat - 1 := by
  have hsub : (c - 1).toNat = (2 ^ 10 - 1 + c.toNat) % 2 ^ 10 := BitVec.toNat_sub c 1
  have hc : c.toNat < 2 ^ 10 := c.isLt
  omega

theorem nextCoord_cases (a b : BitVec 2) (c : BitVec cCoordWidth) :
    (incBranch a b = true ∧ (nextCoord a b c).toNat = min cMaxCoord (c.toNat + 1)) ∨
    (incBranch a b = false ∧ decBranch a b = true ∧ (nextCoord a b c).toNat = c.toNat - 1) ∨
    (incBranch a b = false ∧ decBranch a b = false ∧ (nextCoord a b c).toNat = c.toNat) := by
  have hc := toNat_le_cMaxCoord c
  unfold nextCoord
  cases hi : incBranch a b
  · cases hd : decBranch a b
    · simp
    · simp only [Bool.false_eq_true, ite_false, ite_true, false_and, true_and, false_or, Bool.true_eq_false, or_false]
      split
      · rename_i hpos
        exact toNat_sub_one hpos
      · omega
  · simp only [ite_true, true_and, Bool.true_eq_false, false_and, or_false]
    split
    · rename_i hlt
      rw [toNat_add_one hlt]
      omega
    · omega

theorem toNat_nextCoord (a b : BitVec 2) (c : BitVec cCoordWidth) :
    ((nextCoord a b c).toNat : Int) =
      satAdd 0 (cMaxCoord : Int) (c.toNat : Int) (decode (previous a b) (current a b)) := by
  have hc := toNat_le_cMaxCoord c
  unfold satAdd
  rcases nextCoord_cases a b c with ⟨hi, h⟩ | ⟨hi, hd, h⟩ | ⟨hi, hd, h⟩
  · rw [h, decode_of_incBranch hi]
    omega
  · rw [h, decode_of_decBranch hi hd]
    omega
  · rw [h, decode_of_no_branch hi hd]
    omega

/-! ### The two axes -/

/-- The encoder of an axis: the left one moves `X`, the right one `Y`. -/
inductive Side where
  | left
  | right
  deriving DecidableEq, Repr

def Side.channels : Side → EncoderPins → Phase
  | .left, i => (i.iLeftChA, i.iLeftChB)
  | .right, i => (i.iRightChA, i.iRightChB)

def coord : Side → EncoderManager → BitVec cCoordWidth
  | .left, s => s.rCoordX
  | .right, s => s.rCoordY

def syncA : Side → EncoderManager → BitVec 2
  | .left, s => s.rASyncLeft
  | .right, s => s.rASyncRight

def syncB : Side → EncoderManager → BitVec 2
  | .left, s => s.rBSyncLeft
  | .right, s => s.rBSyncRight

@[simp] theorem coord_reset (d : Side) : coord d reset = 0 := by cases d <;> rfl

@[simp] theorem coord_edge (d : Side) (s : EncoderManager) (i : EncoderPins) :
    coord d (edge s i) = nextCoord (syncA d s) (syncB d s) (coord d s) := by cases d <;> rfl

@[simp] theorem syncA_edge (d : Side) (s : EncoderManager) (i : EncoderPins) :
    syncA d (edge s i) = shift (syncA d s) (d.channels i).1 := by cases d <;> rfl

@[simp] theorem syncB_edge (d : Side) (s : EncoderManager) (i : EncoderPins) :
    syncB d (edge s i) = shift (syncB d s) (d.channels i).2 := by cases d <;> rfl

end EncoderManager
end EcranMagique
