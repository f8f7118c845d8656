import EcranMagique.Transmitter.Schedule

/-! After the table. `GO` stays low, so the writer repeats the last message for ever, every 115 clocks; an interrupt
    starts the table again under the message that is then on the bus. -/

namespace EcranMagique
open Clocked TwoWire

namespace ConfigBus

/-- Ready, with the last message launched once more. -/
def Resending (log : List (List Byte)) (s : ConfigBus) : Prop :=
  (∃ a, s.wire = Wire.launched a log) ∧ Holds s.conf lutSize 0 false (lutSize - 1) true

theorem Completed.resending {log : List (List Byte)} {s : ConfigBus} (h : Completed true log s) : Resending log s := h

section Resend
variable {log : List (List Byte)} {s : ConfigBus} {w : Nat → ConfigPins}

theorem held_run {c : ConfigBus} (h : Holds c.conf lutSize 0 false (lutSize - 1) true) {n : Nat}
    (hint : ∀ k < n, (w k).hdmiTxInt = true) : Holds (run edge c w n).conf lutSize 0 false (lutSize - 1) true := by
  induction n with
  | zero => exact h
  | succ n ih =>
    have hfinish := (ih fun k hk => hint k (Nat.lt_succ_of_lt hk)).finish (i := w n)
    rw [hint n (Nat.lt_succ_self n)] at hfinish
    exact hfinish

theorem resend_period (h : Resending log s) (hint : ∀ k < 115, (w k).hdmiTxInt = true) (hob : Obedient s w) :
    Resending (log ++ [message w (lutSize - 1) 0]) (run edge s w 115) := by
  obtain ⟨⟨a, hwire⟩, hheld⟩ := h
  have hheld' : ∀ n ≤ 115, Holds (run edge s w n).conf lutSize 0 false (lutSize - 1) true := fun n hn =>
    held_run hheld fun k hk => hint k (by omega)
  obtain ⟨a, h113⟩ := sent_of_launched hwire hob hheld.mI2cData (hheld' 36 (by decide)).mI2cData
    (hheld' 72 (by decide)).mI2cData
  have h114 := wire_edge_freed h113 (hob 113) (hheld' 113 (by decide)).mI2cGo
  exact ⟨⟨a, wire_edge_armed h114 (hob 114)⟩, hheld' 115 (Nat.le_refl _)⟩

/-- The messages of the repetition. -/
def repeated (w : Nat → ConfigPins) (j : Nat) : List (List Byte) :=
  (List.range j).map fun i => message w (lutSize - 1) (115 * i)

theorem resend_run (h : Resending log s) (hob : Obedient s w) {j : Nat}
    (hint : ∀ k < 115 * j, (w k).hdmiTxInt = true) : Resending (log ++ repeated w j) (run edge s w (115 * j)) := by
  induction j with
  | zero => simpa [repeated] using h
  | succ j ih =>
    have hperiod := resend_period (ih fun k hk => hint k (by omega)) (fun k hk => hint (115 * j + k) (by omega))
      (hob.drop (115 * j))
    rw [message_drop] at hperiod
    rw [Nat.mul_succ, run_add, repeated, List.range_succ, List.map_append, ← List.append_assoc]
    exact hperiod

end Resend

/-! ### An interrupt -/

section Interrupt
variable {log : List (List Byte)} {s : ConfigBus} {w : Nat → ConfigPins} {p : Nat}

/-- The entry that `I2C_DATA` holds `n` clocks after the launch, when the interrupt comes at clock `p`. -/
def loaded (p n : Nat) : Nat := if p + 2 ≤ n then 0 else lutSize - 1

/-- One clock to go back to entry 0, one to load it; from then on the automaton waits for the message under way. -/
theorem interrupted_run (h : Resending log s) (hint : ∀ k < p, (w k).hdmiTxInt = true) (hlow : (w p).hdmiTxInt = false)
    {n : Nat} (hn : n ≤ 113) :
    (run edge s w n).conf.mI2cData = word (loaded p n) ∧ (p + 2 ≤ n → Waiting 0 (run edge s w n)) := by
  obtain ⟨⟨a, hwire⟩, hheld⟩ := h
  have hp1 : Holds (run edge s w (p + 1)).conf 0 0 false (lutSize - 1) true := by
    have hfinish := (held_run hheld hint).finish (i := w p)
    rw [hlow] at hfinish
    exact hfinish
  have hp2 : Waiting 0 (run edge s w (p + 2)) := hp1.load (by decide)
  have hwait : ∀ d, p + 2 + d ≤ 113 → Waiting 0 (run edge s w (p + 2 + d)) := by
    intro d
    induction d with
    | zero => exact fun _ => hp2
    | succ d ih =>
      exact fun hd => (ih (by omega)).wait (by decide) (endOk_of_launched (n := p + 2 + d) hwire (by omega))
  have hlate : p + 2 ≤ n → Waiting 0 (run edge s w n) := fun hle => by
    have hsum : p + 2 + (n - (p + 2)) = n := Nat.add_sub_cancel' hle
    exact hsum ▸ hwait (n - (p + 2)) (by omega)
  refine ⟨?_, hlate⟩
  unfold loaded
  split
  · rename_i hle
    exact (hlate hle).mI2cData
  · rename_i hgt
    rcases Nat.lt_or_ge p n with hlt | hge
    · rw [show n = p + 1 by omega]
      exact hp1.mI2cData
    · exact (held_run hheld fun k hk => hint k (by omega)).mI2cData

/-- Where the table goes on after the message that an interrupt falls in. -/
def resumed (w : Nat → ConfigPins) : Nat := if accepted w 0 = true then 1 else 0

/-- The message under way takes each of its bytes from the entry loaded when the byte begins; its
    acknowledges are taken for those of entry 0. -/
theorem restarted (h : Resending log s) (hp : p + 2 ≤ 113) (hint : ∀ k < p, (w k).hdmiTxInt = true)
    (hlow : (w p).hdmiTxInt = false) (hob : Obedient s w) :
    Launched (resumed w) (log ++ [torn w (loaded p 36) (loaded p 72) 0])
      (run edge s w 116) := by
  obtain ⟨⟨a, hwire⟩, hheld⟩ := h
  have hrun : ∀ n ≤ 113, _ := fun n => interrupted_run ⟨⟨a, hwire⟩, hheld⟩ hint hlow (n := n)
  obtain ⟨a, h113⟩ := sent_of_launched hwire hob hheld.mI2cData (hrun 36 (by decide)).1
    (hrun 72 (by decide)).1
  have hwait := (hrun 113 (Nat.le_refl _)).2 hp
  have hob3 := hob.drop 113
  rw [show 116 = 113 + 3 from rfl, run_add, resumed]
  cases hacc : accepted w 0 <;> rw [hacc] at h113
  · exact (turn_refused (by decide) hwait h113 hob3).2.2
  · obtain ⟨-, hc2, hw3⟩ := turn_accepted (by decide) hwait h113 hob3
    exact ⟨⟨a, hw3⟩, Or.inl (hc2.load (by decide))⟩

end Interrupt

/-! ### After the table -/

section Results
variable {c : Config} {rx : Receiver} {s : ConfigBus} {w : Nat → ConfigPins} {log : List (List Byte)}

/-- Without interrupts the table is followed by its last message for ever, whatever the device answers, and the automaton
    stays ready at every clock. -/
theorem last_message_repeated (hrx : rx.message = none) (hob : Obedient (start c rx) w) {j : Nat}
    (hdone : Completes w 4 1 j) (hint : ∀ n, 4 + 116 * j + 115 ≤ n → (w n).hdmiTxInt = true) :
    ∃ log, (log = rx.log ∨ log = rx.log ++ [[]]) ∧
      (∀ m, (run edge (start c rx) w (4 + 116 * (j + 1) + 115 * m)).rx =
        ⟨⟨true, true⟩, none, log ++ sent w 4 1 (j + 1) ++ repeated (fun n => w (4 + 116 * (j + 1) + n)) m⟩) ∧
      ∀ n, (run edge (start c rx) w (4 + 116 * (j + 1) + n)).conf.ready = true := by
  obtain ⟨log, hlog, hstart, -⟩ := launched_start hrx hob
  have hcompleted := completed_run hstart hob hdone
  rw [hint _ (Nat.le_refl _)] at hcompleted
  refine ⟨log, hlog, fun m => ?_, fun n => ?_⟩
  · obtain ⟨⟨a, hwire⟩, -⟩ := resend_run (j := m) hcompleted.resending (hob.drop _) fun k _ => hint _ (by omega)
    rw [run_add]
    exact congrArg Wire.rx hwire
  · have hheld := held_run (n := n) (w := fun k => w (4 + 116 * (j + 1) + k)) hcompleted.2 fun k _ => hint _ (by omega)
    rw [run_add]
    exact hheld.ready

theorem last_message_repeated_answered :
    ∃ log, (log = (default : Receiver).log ∨ log = (default : Receiver).log ++ [[]]) ∧
      (∀ m, (run edge (start default default) answered (4 + 116 * (29 + 1) + 115 * m)).rx =
        ⟨⟨true, true⟩, none,
          log ++ sent answered 4 1 (29 + 1) ++ repeated (fun n => answered (4 + 116 * (29 + 1) + n)) m⟩) ∧
      ∀ n, (run edge (start default default) answered (4 + 116 * (29 + 1) + n)).conf.ready = true :=
  last_message_repeated rfl answered_acknowledges.obedient (answered_acknowledges.completes rfl) fun _ _ => rfl

/-- The configuration that is ready, with the lines released. -/
def idleReady : ConfigBus :=
  ⟨{ mI2cData := word (lutSize - 1), mI2cGo := false, lutIndex := 31, mSetupSt := 0, ready := true,
     u0 := (Wire.launched 0 []).wr }, (Wire.launched 0 []).rx⟩

theorem idleReady_resending : Resending [] idleReady := ⟨⟨0, rfl⟩, ⟨rfl, rfl, rfl, rfl, rfl⟩⟩

/-- Released lines, and an interrupt at clock 40. -/
def interrupted (n : Nat) : ConfigPins := ⟨n != 40, true⟩

theorem interrupted_high (k : Nat) (hk : k < 40) : (interrupted k).hdmiTxInt = true := by
  simp [interrupted]
  omega

/-- An interrupt during a message: it is one of the table, or has the register of the last entry and the value of the
    first, and the table follows. -/
theorem table_after_interrupt {p : Nat} (h : Resending log s) (hp : p + 2 ≤ 113)
    (hint : ∀ k < p, (w k).hdmiTxInt = true) (hlow : (w p).hdmiTxInt = false) (hob : Obedient s w) :
    ∀ j, entry w 116 (resumed w) j < lutSize →
      (run edge s w (116 + 116 * j)).rx =
        ⟨⟨true, true⟩, none, log ++ [torn w (loaded p 36) (loaded p 72) 0] ++ sent w 116 (resumed w) j⟩ := by
  intro j hj
  obtain ⟨⟨a, hwire⟩, -⟩ := launched_run (restarted h hp hint hlow hob) hob hj
  exact congrArg Wire.rx hwire

theorem table_after_interrupt_released :
    (run edge idleReady interrupted (116 + 116 * 2)).rx =
      ⟨⟨true, true⟩, none, [] ++ [torn interrupted (loaded 40 36) (loaded 40 72) 0] ++
        sent interrupted 116 (resumed interrupted) 2⟩ :=
  table_after_interrupt idleReady_resending (by decide) interrupted_high rfl (obedient_of_released fun _ => rfl) 2
    (by decide)

theorem lutData_ne_torn (lutIndex : BitVec 6) : lutData lutIndex ≠ 0xFA03#16 := by
  revert lutIndex
  decide

/-- An interrupt in the middle of a message has the device write 0x03, the value of entry 0, into register 0xFA. -/
theorem interrupt_tears_message {p : Nat} (h : Resending log s) (hfirst : 35 ≤ p) (hlast : p ≤ 70)
    (hint : ∀ k < p, (w k).hdmiTxInt = true) (hlow : (w p).hdmiTxInt = false) (hob : Obedient s w) :
    ∃ a₀ a₁ a₂, (run edge s w 113).rx.log = log ++ [[⟨0x72#8, a₀⟩, ⟨0xFA#8, a₁⟩, ⟨0x03#8, a₂⟩]] ∧
      ∀ lutIndex, lutData lutIndex ≠ 0xFA#8 ++ 0x03#8 := by
  obtain ⟨⟨a, hwire⟩, hheld⟩ := h
  have h36 : loaded p 36 = lutSize - 1 := if_neg (by omega)
  have h72 : loaded p 72 = 0 := if_pos (by omega)
  have hrun : ∀ n ≤ 113, _ := fun n => interrupted_run ⟨⟨a, hwire⟩, hheld⟩ hint hlow (n := n)
  obtain ⟨a, h113⟩ := sent_of_launched hwire hob hheld.mI2cData (hrun 36 (by decide)).1 (hrun 72 (by decide)).1
  rw [h36, h72] at h113
  exact ⟨_, _, _, congrArg (·.rx.log) h113, lutData_ne_torn⟩

theorem interrupt_tears_message_released :
    ∃ a₀ a₁ a₂, (run edge idleReady interrupted 113).rx.log =
        [] ++ [[⟨0x72#8, a₀⟩, ⟨0xFA#8, a₁⟩, ⟨0x03#8, a₂⟩]] ∧ ∀ lutIndex, lutData lutIndex ≠ 0xFA#8 ++ 0x03#8 :=
  interrupt_tears_message (p := 40) idleReady_resending (by decide) (by decide) interrupted_high rfl
    (obedient_of_released fun _ => rfl)

end Results

end ConfigBus
end EcranMagique
