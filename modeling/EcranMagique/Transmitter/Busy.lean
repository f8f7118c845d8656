import EcranMagique.I2cHdmiConfig

/-! How long a message takes. While the writer is busy with one, the clocks that remain are a function of its state,
    each clock makes them one fewer whatever the bus answers, and `END_OK` rises when none remain. -/

namespace EcranMagique
open Clocked

namespace I2cWriteWdata

/-- The clocks until the message is finished. -/
def remaining (s : I2cWriteWdata) : Nat :=
  match s.st with
  | 1#8 => 113
  | 2#8 => 36 * (2 - s.byte.toNat) + 4 * (8 - s.cnt.toNat) + 8
  | 3#8 => 36 * (2 - s.byte.toNat) + 4 * (8 - s.cnt.toNat) + 7
  | 4#8 => 36 * (2 - s.byte.toNat) + 4 * (8 - s.cnt.toNat) + 6
  | 5#8 => 36 * (2 - s.byte.toNat) + 4 * (9 - s.cnt.toNat) + 5
  | 6#8 => 4
  | 7#8 => 3
  | 8#8 => 2
  | 9#8 => 1
  | _ => 0

/-- The states of a message: the count of bits is that of the byte under way, which is one of three. -/
inductive Busy (s : I2cWriteWdata) : Prop
  | start (st : s.st = 1) (cnt : s.cnt = 0) (byte : s.byte = 0)
  | low (st : s.st = 2 ∨ s.st = 3 ∨ s.st = 4) (cnt : s.cnt.toNat ≤ 8) (byte : s.byte.toNat ≤ 2)
  | high (st : s.st = 5) (pos : 1 ≤ s.cnt.toNat) (cnt : s.cnt.toNat ≤ 9) (byte : s.byte.toNat ≤ 2)
  | stop (st : s.st = 6 ∨ s.st = 7 ∨ s.st = 8 ∨ s.st = 9)

section Edge
variable {s : I2cWriteWdata} {i : WriterPins}

theorem remaining_fall (h : s.st = 2) : s.remaining = 36 * (2 - s.byte.toNat) + 4 * (8 - s.cnt.toNat) + 8 := by
  simp [remaining, h]

theorem remaining_rise (h : s.st = 4) : s.remaining = 36 * (2 - s.byte.toNat) + 4 * (8 - s.cnt.toNat) + 6 := by
  simp [remaining, h]

theorem remaining_high (h : s.st = 5) : s.remaining = 36 * (2 - s.byte.toNat) + 4 * (9 - s.cnt.toNat) + 5 := by
  simp [remaining, h]

theorem toNat_ne_nine (hcnt : s.cnt.toNat ≤ 9) (h : s.cnt ≠ 9) : s.cnt.toNat ≤ 8 := by
  have hne : s.cnt.toNat ≠ 9 := fun heq => h (BitVec.eq_of_toNat_eq heq)
  omega

theorem busy_endBit (hst : s.st = 5) (hpos : 1 ≤ s.cnt.toNat) (hcnt : s.cnt.toNat ≤ 9) (hbyte : s.byte.toNat ≤ 2)
    (hnum : i.byteNum = 2) :
    (endBit s i).Busy ∧ (endBit s i).remaining + 1 = s.remaining ∧ (endBit s i).endOk = s.endOk := by
  by_cases h9 : s.cnt = 9
  · have hcases : s.byte = 0#8 ∨ s.byte = 1#8 ∨ s.byte = 2#8 := by
      have : s.byte.toNat = 0 ∨ s.byte.toNat = 1 ∨ s.byte.toNat = 2 := by omega
      exact this.imp BitVec.eq_of_toNat_eq (Or.imp BitVec.eq_of_toNat_eq BitVec.eq_of_toNat_eq)
    rcases hcases with h | h | h
    · rw [endBit_first h9 h (by simp [hnum])]
      exact ⟨.low (.inl rfl) (by simp) (by simp), by simp [remaining, hst, h, h9], rfl⟩
    · rw [endBit_second h9 h (by simp [hnum])]
      exact ⟨.low (.inl rfl) (by simp) (by simp), by simp [remaining, hst, h, h9], rfl⟩
    · rw [endBit_last h9 (by simp [h, hnum])]
      exact ⟨.stop (.inl rfl), by simp [remaining, hst, h, h9], rfl⟩
  · have hle := toNat_ne_nine hcnt h9
    rw [endBit_more h9]
    refine ⟨.low (.inl rfl) hle hbyte, ?_, rfl⟩
    rw [remaining_high hst, remaining_fall rfl]
    dsimp only
    omega

theorem toNat_succ_cnt (hcnt : s.cnt.toNat ≤ 8) : (s.cnt + 1).toNat = s.cnt.toNat + 1 := by
  rw [BitVec.toNat_add]
  simp
  omega

theorem busy_edge (h : s.Busy) (hnum : i.byteNum = 2) (hmore : 1 < s.remaining) :
    (s.edge i).Busy ∧ (s.edge i).remaining + 1 = s.remaining ∧ (s.edge i).endOk = s.endOk := by
  cases h with
  | start hst hcnt hbyte =>
    rw [edge_start hst]
    exact ⟨.low (.inl rfl) (by simp [hcnt]) (by simp [hbyte]), by simp [remaining, hst, hcnt, hbyte], rfl⟩
  | low hst hcnt hbyte =>
    rcases hst with hst | hst | hst
    · rw [edge_fall hst]
      exact ⟨.low (.inr (.inl rfl)) hcnt hbyte, by simp [remaining, hst], rfl⟩
    · rw [edge_shift hst]
      exact ⟨.low (.inr (.inr rfl)) hcnt hbyte, by simp [remaining, hst], rfl⟩
    · have hsucc := toNat_succ_cnt hcnt
      rw [edge_rise hst]
      refine ⟨.high rfl ?_ ?_ hbyte, ?_, rfl⟩
      · exact hsucc ▸ Nat.le_add_left 1 _
      · exact hsucc ▸ Nat.succ_le_succ hcnt
      · rw [remaining_high rfl, remaining_rise hst, hsucc]
        dsimp only
        omega
  | high hst hpos hcnt hbyte =>
    rw [edge_end_bit hst]
    exact busy_endBit hst hpos hcnt hbyte hnum
  | stop hst =>
    rcases hst with hst | hst | hst | hst
    · rw [edge_stop_fall hst]
      exact ⟨.stop (.inr (.inl rfl)), by simp [remaining, hst], rfl⟩
    · rw [edge_stop_rise hst]
      exact ⟨.stop (.inr (.inr (.inl rfl))), by simp [remaining, hst], rfl⟩
    · rw [edge_stop hst]
      exact ⟨.stop (.inr (.inr (.inr rfl))), by simp [remaining, hst], rfl⟩
    · simp [remaining, hst] at hmore

end Edge

/-- Over any run from a busy state each clock counts the message down, until its last. -/
theorem busy_run {s : I2cWriteWdata} {w : Nat → WriterPins} (h : s.Busy) (hnum : ∀ n, (w n).byteNum = 2) {k : Nat}
    (hk : k < s.remaining) :
    (run edge s w k).Busy ∧ (run edge s w k).remaining + k = s.remaining ∧ (run edge s w k).endOk = s.endOk := by
  induction k with
  | zero => exact ⟨h, rfl, rfl⟩
  | succ k ih =>
    obtain ⟨hbusy, hrem, hend⟩ := ih (Nat.lt_of_succ_lt hk)
    obtain ⟨hbusy', hrem', hend'⟩ := busy_edge hbusy (hnum k) (by omega)
    exact ⟨hbusy', by rw [run_succ]; omega, hend'.trans hend⟩

end I2cWriteWdata
end EcranMagique
