import EcranMagique.Lib.Prescaler

/-! The two exercises on the LEDs of the board (`Led .txt`, `chenillard.txt`): both count the clock down and let a
    register take a step at each pulse, the state of a blink or the index of a running light. -/

namespace EcranMagique
open Clocked Prescaler

/-- `v_counter` and `r_toggle_en` of both entities, with the register that the pulse drives. -/
structure TutoFpga (α : Type) where
  vCounter : Nat
  rToggleEn : Bool
  r : α
  deriving DecidableEq, Repr

namespace TutoFpga
variable {α : Type}

def reset (a : α) : TutoFpga α := ⟨0, false, a⟩

/-- Both processes at a rising edge. -/
def edge (cMaxCount : Nat) (next : α → α) (s : TutoFpga α) (_ : Unit) : TutoFpga α where
  vCounter := if s.vCounter = cMaxCount - 1 then 0 else s.vCounter + 1
  rToggleEn := s.vCounter = cMaxCount - 1
  r := if s.rToggleEn = true then next s.r else s.r

def prescaled (s : TutoFpga α) : Prescaled α := ⟨s.vCounter, s.rToggleEn, s.r⟩

/-- Whatever the clock and the reset do, the register has taken a step for each period since the last reset. -/
theorem run_r {cMaxCount : Nat} (hpos : 0 < cMaxCount) (next : α → α) (a : α) (acts : Nat → Activation Unit) (n : Nat) :
    (run (process (reset a) (edge cMaxCount next)) (reset a) acts n).r =
      next^[((sinceReset acts n).length - 1) / cMaxCount] a := by
  have hmap : ∀ w k, prescaled (run (edge cMaxCount next) (reset a) w k) =
      run (fun s (_ : Unit) => step cMaxCount next s) ⟨0, false, a⟩ (fun _ => ()) k :=
    fun w k => run_map (f := prescaled) (g := fun _ => ()) (fun _ _ => rfl) k
  rw [run_process, foldl_eq_run _ ()]
  exact (congrArg Prescaled.state (hmap _ _)).trans (congrArg Prescaled.state (run_step hpos _ _))

end TutoFpga

/-! ### The blink -/

namespace Led

def cMaxCount : Nat := 50000000

def reset : TutoFpga Bool := TutoFpga.reset false

def edge : TutoFpga Bool → Unit → TutoFpga Bool := TutoFpga.edge cMaxCount not

def oLeds (s : TutoFpga Bool) : BitVec 10 := BitVec.fill 10 s.r

theorem iterate_not (m : Nat) : not^[m] false = decide (m % 2 = 1) := by
  induction m with
  | zero => rfl
  | succ m ih =>
    have hflip : (m + 1) % 2 = 1 ↔ ¬m % 2 = 1 := by omega
    rw [Function.iterate_succ_apply', ih, decide_eq_decide.mpr hflip, decide_not]

/-- Whatever the clock and the reset do, the LEDs are lit in every other period since the last reset. -/
theorem oLeds_blink (acts : Nat → Activation Unit) (n : Nat) : oLeds (run (process reset edge) reset acts n) =
    BitVec.fill 10 (((sinceReset acts n).length - 1) / cMaxCount % 2 = 1) := by
  rw [oLeds, ← iterate_not]
  exact congrArg _ (TutoFpga.run_r (by decide) not false acts n)

end Led

/-! ### The running light -/

namespace Chenillard

def cMaxCount : Nat := 5000000

def reset : TutoFpga (BitVec 4) := TutoFpga.reset 0

def rLedIndex (i : BitVec 4) : BitVec 4 := if i = 9 then 0 else i + 1

def edge : TutoFpga (BitVec 4) → Unit → TutoFpga (BitVec 4) := TutoFpga.edge cMaxCount rLedIndex

def sLedOutput (i : BitVec 4) : BitVec 10 :=
  match i.toNat with
  | 0 => 0b0000000001
  | 1 => 0b0000000010
  | 2 => 0b0000000100
  | 3 => 0b0000001000
  | 4 => 0b0000010000
  | 5 => 0b0000100000
  | 6 => 0b0001000000
  | 7 => 0b0010000000
  | 8 => 0b0100000000
  | 9 => 0b1000000000
  | _ => 0

def oLeds (s : TutoFpga (BitVec 4)) : BitVec 10 := sLedOutput s.r

/-- The index wraps around after the last LED. -/
theorem iterate_rLedIndex (m : Nat) : rLedIndex^[m] 0 = BitVec.ofNat 4 (m % 10) := by
  induction m with
  | zero => rfl
  | succ m ih =>
    have hnext : ∀ k < 10, rLedIndex (BitVec.ofNat 4 k) = BitVec.ofNat 4 ((k + 1) % 10) := by decide
    rw [Function.iterate_succ_apply', ih, hnext _ (Nat.mod_lt m (by decide)), Nat.mod_add_mod]

theorem sLedOutput_ofNat {k : Nat} (hk : k < 10) : sLedOutput (BitVec.ofNat 4 k) = 1#10 <<< k := by
  have h : ∀ k < 10, sLedOutput (BitVec.ofNat 4 k) = 1#10 <<< k := by decide
  exact h k hk

/-- Whatever the clock and the reset do, one LED is lit, and which one counts the periods since the last reset. -/
theorem oLeds_run (acts : Nat → Activation Unit) (n : Nat) : oLeds (run (process reset edge) reset acts n) =
    1#10 <<< (((sinceReset acts n).length - 1) / cMaxCount % 10) := by
  have hr := TutoFpga.run_r (by decide : 0 < cMaxCount) rLedIndex 0 acts n
  rw [← sLedOutput_ofNat (Nat.mod_lt _ (by decide)), ← iterate_rLedIndex]
  exact congrArg sLedOutput hr

end Chenillard
end EcranMagique
