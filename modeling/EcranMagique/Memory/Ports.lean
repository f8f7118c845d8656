import EcranMagique.Dpram
import EcranMagique.Lib.LastWrite

/-! The two ports of the memory together. Their clocks are independent, so their edges may come in any order; the array
    is one store all the same, and each port holds the word of its last access. -/

namespace EcranMagique.Dpram
open Clocked LastWrite

variable {memSize dataWidth : Nat}

inductive Port where
  | a
  | b
  deriving DecidableEq, Repr

/-- What a port has at its pins when its clock rises. -/
structure Access (dataWidth : Nat) where
  port : Port
  iWe : Bool
  iAddr : Nat
  iData : BitVec dataWidth
  deriving DecidableEq, Repr

def edge? (m : Dpram memSize dataWidth) (x : Access dataWidth) : Option (Dpram memSize dataWidth) :=
  match x.port with
  | .a => m.portA x.iWe x.iAddr x.iData
  | .b => m.portB x.iWe x.iAddr x.iData

def oQ (m : Dpram memSize dataWidth) : Port → BitVec dataWidth
  | .a => m.oQA
  | .b => m.oQB

/-- The cell that an access writes, and the word. -/
def Access.write (memSize : Nat) (x : Access dataWidth) : Option (Fin memSize × BitVec dataWidth) :=
  if h : x.iAddr < memSize ∧ x.iWe = true then some (⟨x.iAddr, h.1⟩, x.iData) else none

section Edge
variable {m t : Dpram memSize dataWidth} {x : Access dataWidth}

theorem access_eq (ram : Fin memSize → BitVec dataWidth) (x : Access dataWidth) (h : x.iAddr < memSize) :
    access ram x.iWe ⟨x.iAddr, h⟩ x.iData = (store ram (x.write memSize), store ram (x.write memSize) ⟨x.iAddr, h⟩) := by
  cases hwe : x.iWe <;> simp [access, Access.write, store, h, hwe]

theorem edge?_of_lt (hlt : x.iAddr < memSize) : m.edge? x = some
    (match x.port with
    | .a => ⟨store m.ram (x.write memSize), store m.ram (x.write memSize) ⟨x.iAddr, hlt⟩, m.oQB⟩
    | .b => ⟨store m.ram (x.write memSize), m.oQA, store m.ram (x.write memSize) ⟨x.iAddr, hlt⟩⟩) := by
  cases hp : x.port <;> simp [edge?, hp, portA, portB, hlt, access_eq]

theorem edge?_of_not_lt (hlt : ¬ x.iAddr < memSize) : m.edge? x = none := by
  cases hp : x.port <;> simp [edge?, hp, portA, portB, hlt]

/-- Either port does the same thing, to the same array, and leaves the word that the other holds. -/
theorem edge?_eq_some (h : m.edge? x = some t) : ∃ hlt : x.iAddr < memSize, t.ram = store m.ram (x.write memSize) ∧
    t.oQ x.port = t.ram ⟨x.iAddr, hlt⟩ ∧ ∀ p, p ≠ x.port → t.oQ p = m.oQ p := by
  by_cases hlt : x.iAddr < memSize
  · rw [edge?_of_lt hlt] at h
    refine ⟨hlt, ?_⟩
    cases hp : x.port <;> rw [hp] at h <;> cases h
    · refine ⟨rfl, rfl, fun p hne => ?_⟩
      cases p
      · exact absurd rfl hne
      · rfl
    · refine ⟨rfl, rfl, fun p hne => ?_⟩
      cases p
      · rfl
      · exact absurd rfl hne
  · rw [edge?_of_not_lt hlt] at h
    cases h

end Edge

section Run
variable {m t : Dpram memSize dataWidth} {w : Nat → Access dataWidth} {n : Nat}

theorem ram_run? (h : run? edge? m w n = some t) : t.ram = run store m.ram (fun j => (w j).write memSize) n :=
  run?_map (f := Dpram.ram) (g := fun x => x.write memSize) (fun _ _ _ h => (edge?_eq_some h).choose_spec.1) h

/-- A port keeps its word at the edges of the other. -/
theorem oQ_run? {p : Port} {u : Dpram memSize dataWidth} {j : Nat} (hu : run? edge? m w j = some u)
    (h : run? edge? m w n = some t) (hj : j ≤ n) (hother : ∀ i, j ≤ i → i < n → (w i).port ≠ p) : t.oQ p = u.oQ p := by
  induction hj generalizing t with
  | refl => rw [Option.some.inj (h.symm.trans hu)]
  | @step n hj ih =>
    obtain ⟨v, hv, ht⟩ := run?_succ.mp h
    obtain ⟨-, -, -, hkeep⟩ := edge?_eq_some ht
    rw [hkeep p (Ne.symm (hother n hj (Nat.lt_succ_self n))), ih hv fun i h1 h2 => hother i h1 (Nat.lt_succ_of_lt h2)]

/-- A port holds the word that its last access found in the cell, or put there: that of the last write to the cell,
    through either port, or the first word of the cell when there was none. -/
theorem port_holds_last_word {p : Port} {j : Nat} (h : run? edge? m w n = some t) (hj : j < n) (hport : (w j).port = p)
    (hlast : ∀ i, j < i → i < n → (w i).port ≠ p) :
    ∃ hlt : (w j).iAddr < memSize,
      (∀ d, Last (fun i => (w i).write memSize) (j + 1) ⟨(w j).iAddr, hlt⟩ d → t.oQ p = d) ∧
      (Untouched (fun i => (w i).write memSize) 0 (j + 1) ⟨(w j).iAddr, hlt⟩ → t.oQ p = m.ram ⟨(w j).iAddr, hlt⟩) := by
  obtain ⟨v, hv⟩ := run?_of_le h (Nat.succ_le_of_lt hj)
  obtain ⟨u, hu, hedge⟩ := run?_succ.mp hv
  obtain ⟨hlt, -, hq, -⟩ := edge?_eq_some hedge
  have hkeep : t.oQ p = v.ram ⟨(w j).iAddr, hlt⟩ := by
    rw [oQ_run? hv h hj hlast, ← hq, hport]
  rw [hkeep, ram_run? hv]
  exact ⟨hlt, fun d hd => run_last hd, fun huntouched => run_untouched huntouched (Nat.zero_le _)⟩

end Run

/-- A word written through port A, then a read of it through port B, and other accesses of port A. -/
def writeThenRead : Nat → Access 8
  | 0 => ⟨.a, true, 1, 0xFF⟩
  | 1 => ⟨.b, false, 1, 0⟩
  | _ => ⟨.a, true, 0, 0x0F⟩

theorem port_holds_last_word_writeThenRead :
    ∃ t : Dpram 3 8, ∃ hlt : (writeThenRead 1).iAddr < 3,
      (∀ d, Last (fun i => (writeThenRead i).write 3) (1 + 1) ⟨(writeThenRead 1).iAddr, hlt⟩ d → t.oQ .b = d) ∧
      (Untouched (fun i => (writeThenRead i).write 3) 0 (1 + 1) ⟨(writeThenRead 1).iAddr, hlt⟩ → t.oQ .b = 0#8) := by
  have hlast : ∀ i, 1 < i → i < 3 → (writeThenRead i).port ≠ .b := fun i h1 h2 => by
    obtain rfl : i = 2 := Nat.le_antisymm (Nat.le_of_lt_succ h2) h1
    decide
  exact ⟨_, port_holds_last_word (m := ⟨fun _ => 0#8, 0, 0⟩) (n := 3) rfl (Nat.lt_succ_of_lt (Nat.lt_succ_self 1)) rfl hlast⟩

end EcranMagique.Dpram
