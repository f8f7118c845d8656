import EcranMagique.Transmitter.Setup

/-! The whole configuration. From the reset the entries of the table after the first go out in order, each until its
    three bytes are acknowledged, and the automaton is ready when the last one is. -/

namespace EcranMagique
open Clocked TwoWire

namespace ConfigBus

/-- The configuration out of reset, whatever its other registers hold. -/
def start (c : Config) (rx : Receiver) : ConfigBus := ⟨c.reset, rx⟩

/-! ### Out of reset -/

section Start
variable {c : Config} {rx : Receiver} {w : Nat → ConfigPins}

theorem wire_start_one : (run edge (start c rx) w 1).wire =
    ⟨{ sdao := true, sclo := true, endOk := true, st := 0, cnt := 0, byte := 0, ackOk := false, a := c.u0.a },
      rx.see ((start c rx).wire.lines (w 0).i2cSdat)⟩ := by
  have hwr : (start c rx).wire.wr.edge ((start c rx).conf.u0Pins (w 0)) =
      { sdao := true, sclo := true, endOk := true, st := 0, cnt := 0, byte := 0, ackOk := false, a := c.u0.a } := by
    rw [I2cController.edge, I2cWriteWdata.edge_init rfl]
    rfl
  rw [run_succ, run_zero, wire_edge, Wire.edge, hwr]
  rfl

/-- The lines are released at the first clock. The receiver may take that for a STOP. -/
theorem rx_start_two (hrx : rx.message = none) (hob : Obedient (start c rx) w) :
    ∃ log, (log = rx.log ∨ log = rx.log ++ [[]]) ∧ (run edge (start c rx) w 2).rx = ⟨⟨true, true⟩, none, log⟩ := by
  have hobeys := hob 1
  rw [wire_start_one] at hobeys
  have hrx2 : (run edge (start c rx) w 2).rx =
      (rx.see ((start c rx).wire.lines (w 0).i2cSdat)).see ((run edge (start c rx) w 1).wire.lines (w 1).i2cSdat) := rfl
  have hlines : (run edge (start c rx) w 1).wire.lines (w 1).i2cSdat = ⟨(w 1).i2cSdat, true⟩ := by
    rw [wire_start_one]
    rfl
  rw [hrx2, hlines]
  generalize (start c rx).wire.lines (w 0).i2cSdat = l at hobeys ⊢
  rcases rx.see_outside l hrx with ⟨hnone, hlog⟩ | ⟨rfl, hsome, hlog⟩
  · have hi : (w 1).i2cSdat = true := hobeys.released rfl (by simp [Receiver.ninth, hnone])
    rw [hi]
    rcases (rx.see l).see_outside ⟨true, true⟩ hnone with ⟨hnone', hlog'⟩ | ⟨h, -⟩
    · exact ⟨_, Or.inl (hlog'.trans hlog), by rw [← hnone']; rfl⟩
    · exact absurd h (by decide)
  · have hi : (w 1).i2cSdat = true := hobeys.released rfl (by simp [Receiver.ninth, hsome, Receiver.see_last])
    rw [hi, Receiver.see_stop _ (Receiver.see_last _ _)]
    exact ⟨_, Or.inr rfl, by simp [Receiver.ended, hsome, hlog]⟩

/-- The first entry is never sent: the automaton takes the idle `END_OK` of the writer for its completion. -/
theorem launched_start (hrx : rx.message = none) (hob : Obedient (start c rx) w) :
    ∃ log, (log = rx.log ∨ log = rx.log ++ [[]]) ∧ Launched 1 log (run edge (start c rx) w 4) ∧
      ∀ n < 4, (run edge (start c rx) w n).conf.ready = false := by
  obtain ⟨log, hlog, hrx2⟩ := rx_start_two hrx hob
  have hc1 : Holds (run edge (start c rx) w 1).conf 0 1 true 0 false := Holds.of_load rfl rfl (Nat.zero_lt_succ 30)
  have hw1 : (run edge (start c rx) w 1).wire = _ := wire_start_one
  have hc2 : Holds (run edge (start c rx) w 2).conf 0 2 false 0 false :=
    hc1.acked (by decide) (congrArg (·.wr.endOk) hw1) (congrArg (·.wr.ackOk) hw1)
  have hw2 : (run edge (start c rx) w 2).wire = Wire.finished false c.u0.a log := by
    have hwr : (run edge (start c rx) w 2).wire.wr = (Wire.finished false c.u0.a log).wr := by
      rw [run_succ, wire_edge, hw1]
      simp [Wire.edge, Wire.finished, I2cController.edge, I2cWriteWdata.edge_init, I2cController.wrdPins,
        Config.u0Pins, hc1.mI2cGo]
    exact congrArg₂ Wire.mk hwr hrx2
  have hw3 : (run edge (start c rx) w 3).wire = Wire.armed false c.u0.a log :=
    wire_edge_freed hw2 (hob 2) hc2.mI2cGo
  have hc3 : Holds (run edge (start c rx) w 3).conf 1 0 false 0 false := hc2.next (by decide)
  refine ⟨log, hlog, ⟨⟨_, wire_edge_armed hw3 (hob 3)⟩, Or.inl (hc3.load (by decide))⟩, fun n hn => ?_⟩
  rcases n with _ | _ | _ | _ | n
  · rfl
  · exact hc1.ready
  · exact hc2.ready
  · exact hc3.ready
  · exact absurd hn (Nat.not_lt.mpr (Nat.le_add_left 4 n))

end Start

/-! ### The messages of a run -/

section Run
variable (w : Nat → ConfigPins) (t k : Nat)

/-- The entry that message `j` carries, when entry `k` is launched at `t`. -/
def entry (j : Nat) : Nat := Retry.item (fun j => accepted w (t + 116 * j)) k j

/-- The first `j` messages, as their receiver has them. -/
def sent (j : Nat) : List (List Byte) := (List.range j).map fun i => message w (entry w t k i) (t + 116 * i)

/-- The message by which the table is completed: the last entry, accepted. -/
def Completes (j : Nat) : Prop := entry w t k j = lutSize - 1 ∧ accepted w (t + 116 * j) = true

end Run

section Run
variable {s : ConfigBus} {w : Nat → ConfigPins} {t k : Nat} {log : List (List Byte)} {j : Nat}

theorem message_drop (m k : Nat) : message (fun n => w (m + n)) k 0 = message w k m := by
  simp [message, torn]

theorem accepted_drop (m : Nat) : accepted (fun n => w (m + n)) 0 = accepted w m := by
  simp [accepted]

theorem sent_succ : sent w t k (j + 1) = sent w t k j ++ [message w (entry w t k j) (t + 116 * j)] := by
  simp [sent, List.range_succ]

theorem Completes.entry_lt (h : Completes w t k j) : entry w t k j < lutSize := by
  rw [h.1]
  decide

theorem Completes.lutSize_le (h : Completes w t k j) {i : Nat} (hi : j < i) : lutSize ≤ entry w t k i := by
  have hnext : entry w t k (j + 1) = entry w t k j + 1 := Retry.item_accepted h.2
  have hmono : entry w t k (j + 1) ≤ entry w t k i := Retry.item_mono hi
  rwa [hnext, h.1] at hmono

theorem launched_run (h : Launched k log (run edge s w t)) (hob : Obedient s w)
    (hj : entry w t k j < lutSize) : Launched (entry w t k j) (log ++ sent w t k j) (run edge s w (t + 116 * j)) := by
  induction j with
  | zero => simpa [sent, entry] using h
  | succ j ih =>
    have hlt : entry w t k j < lutSize := Nat.lt_of_le_of_lt (Retry.item_mono (Nat.le_succ j)) hj
    have hob' := hob.drop (t + 116 * j)
    rw [show t + 116 * (j + 1) = t + 116 * j + 116 by omega, run_add, sent_succ, ← List.append_assoc, ← message_drop]
    cases hacc : accepted w (t + 116 * j)
    · have hentry : entry w t k (j + 1) = entry w t k j := Retry.item_refused hacc
      rw [hentry]
      exact period_refused (ih hlt) hlt hob' ((accepted_drop _).trans hacc)
    · have hentry : entry w t k (j + 1) = entry w t k j + 1 := Retry.item_accepted hacc
      rw [hentry] at hj ⊢
      exact period_accepted (ih hlt) hj hob' ((accepted_drop _).trans hacc)

theorem not_ready_run (h : Launched k log (run edge s w t)) (hob : Obedient s w)
    (hj : entry w t k j < lutSize) {n : Nat} (ht : t ≤ n) (hn : n < t + 116 * (j + 1)) :
    (run edge s w n).conf.ready = false := by
  -- The message under way at `n`, and the clock of it.
  have hi : (n - t) / 116 ≤ j := by omega
  have hlt := Nat.lt_of_le_of_lt (Retry.item_mono hi) hj
  have hn' : n = t + 116 * ((n - t) / 116) + (n - t) % 116 := by omega
  rw [hn', run_add]
  exact period_not_ready (launched_run h hob hlt) hlt (hob.drop _) (Nat.mod_lt _ (by omega))

theorem completed_run (h : Launched k log (run edge s w t)) (hob : Obedient s w) (hdone : Completes w t k j) :
    Completed (w (t + 116 * j + 115)).hdmiTxInt (log ++ sent w t k (j + 1)) (run edge s w (t + 116 * (j + 1))) := by
  have hlaunched := launched_run h hob hdone.entry_lt
  rw [hdone.1] at hlaunched
  have hlast := period_last hlaunched (hob.drop _) ((accepted_drop _).trans hdone.2)
  rw [show t + 116 * (j + 1) = t + 116 * j + 116 by omega, run_add, sent_succ, ← List.append_assoc, hdone.1,
    ← message_drop]
  exact hlast

/-- The entries of the accepted messages, up to the one that completes the table. -/
theorem accepted_entries (hdone : Completes w t k j) :
    ((List.range (j + 1)).filter fun i => accepted w (t + 116 * i)).map (entry w t k) =
      List.range' k (lutSize - k) := by
  have hnext : entry w t k (j + 1) = entry w t k j + 1 := Retry.item_accepted hdone.2
  have hitems : ((List.range (j + 1)).filter fun i => accepted w (t + 116 * i)).map (entry w t k) =
      List.range' k (entry w t k (j + 1) - k) := Retry.accepted_items
  rwa [hnext, hdone.1] at hitems

/-- A ready automaton has completed the table. -/
theorem completes_of_ready (h : Launched k log (run edge s w t)) (hob : Obedient s w) (hk : k < lutSize)
    {n : Nat} (ht : t ≤ n) (hready : (run edge s w n).conf.ready = true) :
    ∃ j, t + 116 * (j + 1) ≤ n ∧ Completes w t k j := by
  have hpast : lutSize - 1 < entry w t k ((n - t) / 116) := by
    by_contra hle
    have hlt : entry w t k ((n - t) / 116) < lutSize := Nat.lt_of_le_pred (by decide) (Nat.le_of_not_lt hle)
    rw [not_ready_run h hob hlt ht (by omega)] at hready
    cases hready
  obtain ⟨j, hj, hentry, hacc⟩ := Retry.accepted_of_lt (Nat.le_pred_of_lt hk) hpast
  exact ⟨j, by omega, hentry, hacc⟩

/-- When no entry is refused for ever, the table is completed. -/
theorem exists_completes (hk : k < lutSize)
    (hlive : ∀ j, entry w t k j < lutSize → ∃ i, j ≤ i ∧ accepted w (t + 116 * i) = true) : ∃ j, Completes w t k j := by
  have hsize : k + (lutSize - k) = lutSize := Nat.add_sub_cancel' (Nat.le_of_lt hk)
  obtain ⟨j, hj⟩ : ∃ j, entry w t k j = k + (lutSize - k) := Retry.reaches fun j hlt => hlive j (hsize ▸ hlt)
  have hpast : lutSize - 1 < entry w t k j := by
    rw [hj, hsize]
    decide
  obtain ⟨i, -, hentry, hacc⟩ := Retry.accepted_of_lt (Nat.le_pred_of_lt hk) hpast
  exact ⟨i, hentry, hacc⟩

end Run

/-! ### With a device that acknowledges -/

/-- A device that holds SDA low in every acknowledge clock, and otherwise leaves it. -/
def Acknowledges (s : ConfigBus) (w : Nat → ConfigPins) : Prop := ∀ n, (w n).i2cSdat = !(run edge s w n).rx.ninth

section Acknowledges
variable {c : Config} {rx : Receiver} {w : Nat → ConfigPins}

def reply (hdmiTxInt : Nat → Bool) (n : Nat) (s : ConfigBus) : ConfigPins := ⟨hdmiTxInt n, !s.rx.ninth⟩

/-- The pins with such a device, and any interrupts. -/
def answering (s : ConfigBus) (hdmiTxInt : Nat → Bool) (n : Nat) : ConfigPins :=
  reply hdmiTxInt n (driven edge (reply hdmiTxInt) s n)

theorem answering_acknowledges (s : ConfigBus) (hdmiTxInt : Nat → Bool) : Acknowledges s (answering s hdmiTxInt) := by
  intro n
  have hrun : run edge s (answering s hdmiTxInt) n = driven edge (reply hdmiTxInt) s n :=
    run_driven edge (reply hdmiTxInt) s n
  rw [hrun]
  rfl

theorem Acknowledges.obedient {s : ConfigBus} (h : Acknowledges s w) : Obedient s w := by
  intro k _ hlow
  have hans := h k
  rw [hlow] at hans
  exact (Bool.not_eq_eq_eq_not.mp hans.symm :)

theorem Acknowledges.accepted {k : Nat} {log : List (List Byte)} {m : Nat} (h : Acknowledges (start c rx) w)
    (hl : Launched k log (run edge (start c rx) w m)) : accepted w m = true := by
  have hob := (h.obedient.drop m).wire
  obtain ⟨⟨a, hwire⟩, -⟩ := hl
  rw [hwire] at hob
  obtain ⟨h36, h72, h108⟩ := Wire.ninth_frame hob
  simp only [← hwire, ← wire_run, ← run_add] at h36 h72 h108
  have hans : ∀ n, (run edge (start c rx) w (m + n)).rx.ninth = true → (w (m + n)).i2cSdat = false := fun n hn => by
    rw [h (m + n), hn]
    rfl
  simp [ConfigBus.accepted, hans 36 h36, hans 72 h72, hans 108 h108]

theorem Acknowledges.entry (h : Acknowledges (start c rx) w) (hrx : rx.message = none) {j : Nat}
    (hj : j < lutSize - 1) : entry w 4 1 j = j + 1 ∧ ConfigBus.accepted w (4 + 116 * j) = true := by
  obtain ⟨log, -, hstart, -⟩ := launched_start hrx h.obedient
  have hlast : lutSize - 1 + 1 = lutSize := rfl
  induction j with
  | zero => exact ⟨rfl, h.accepted hstart⟩
  | succ j ih =>
    obtain ⟨hentry, hacc⟩ := ih (Nat.lt_of_succ_lt hj)
    have hnext : ConfigBus.entry w 4 1 (j + 1) = ConfigBus.entry w 4 1 j + 1 := Retry.item_accepted hacc
    rw [hentry] at hnext
    exact ⟨hnext, h.accepted (launched_run hstart h.obedient (by omega))⟩

theorem Acknowledges.completes (h : Acknowledges (start c rx) w) (hrx : rx.message = none) : Completes w 4 1 29 :=
  h.entry hrx (by decide)

end Acknowledges

/-- The pins of a device that acknowledges, on the bus of a configuration that is all zeros. -/
def answered : Nat → ConfigPins := answering (start default default) fun _ => true

theorem answered_acknowledges : Acknowledges (start default default) answered := answering_acknowledges _ _

/-! ### The configuration after a reset -/

section Results
variable {c : Config} {rx : Receiver} {w : Nat → ConfigPins}

theorem not_ready_before (hrx : rx.message = none) (hob : Obedient (start c rx) w) {j : Nat}
    (hj : entry w 4 1 j < lutSize) {n : Nat} (hn : n < 4 + 116 * (j + 1)) :
    (run edge (start c rx) w n).conf.ready = false := by
  obtain ⟨log, -, hstart, hnot⟩ := launched_start hrx hob
  rcases Nat.lt_or_ge n 4 with hlt | hge
  · exact hnot n hlt
  · exact not_ready_run hstart hob hj hge hn

theorem Acknowledges.ready (h : Acknowledges (start c rx) w) (hrx : rx.message = none) :
    (run edge (start c rx) w (4 + 116 * 30)).conf.ready = true ∧
    ∀ n < 4 + 116 * 30, (run edge (start c rx) w n).conf.ready = false := by
  obtain ⟨log, -, hstart, -⟩ := launched_start hrx h.obedient
  have hdone := h.completes hrx
  exact ⟨(completed_run hstart h.obedient hdone).2.ready, fun n => not_ready_before hrx h.obedient hdone.entry_lt⟩

/-- The automaton is ready once every entry after the first has been acknowledged, in order, and not before. -/
theorem ready_after_table (hrx : rx.message = none) (hob : Obedient (start c rx) w) {n : Nat}
    (hready : (run edge (start c rx) w n).conf.ready = true) :
    ∃ j, 4 + 116 * (j + 1) ≤ n ∧
      (∀ m < 4 + 116 * (j + 1), (run edge (start c rx) w m).conf.ready = false) ∧
      (run edge (start c rx) w (4 + 116 * (j + 1))).conf.ready = true ∧
      ((List.range (j + 1)).filter fun i => accepted w (4 + 116 * i)).map (entry w 4 1) =
        List.range' 1 (lutSize - 1) := by
  obtain ⟨log, -, hstart, hnot⟩ := launched_start hrx hob
  have hn : 4 ≤ n := by
    by_contra hlt
    rw [hnot n (Nat.lt_of_not_le hlt)] at hready
    cases hready
  obtain ⟨j, hj, hdone⟩ := completes_of_ready hstart hob (by decide) hn hready
  exact ⟨j, hj, fun m => not_ready_before hrx hob hdone.entry_lt, (completed_run hstart hob hdone).2.ready,
    accepted_entries hdone⟩

theorem ready_after_table_answered :
    ∃ j, 4 + 116 * (j + 1) ≤ 4 + 116 * 30 ∧
      (∀ m < 4 + 116 * (j + 1), (run edge (start default default) answered m).conf.ready = false) ∧
      (run edge (start default default) answered (4 + 116 * (j + 1))).conf.ready = true ∧
      ((List.range (j + 1)).filter fun i => accepted answered (4 + 116 * i)).map (entry answered 4 1) =
        List.range' 1 (lutSize - 1) :=
  ready_after_table rfl answered_acknowledges.obedient (answered_acknowledges.ready rfl).1

/-- When no entry is refused for ever, the automaton becomes ready. -/
theorem ready_of_no_refusal_for_ever (hrx : rx.message = none) (hob : Obedient (start c rx) w)
    (hlive : ∀ j, entry w 4 1 j < lutSize → ∃ i, j ≤ i ∧ accepted w (4 + 116 * i) = true) :
    ∃ n, (run edge (start c rx) w n).conf.ready = true := by
  obtain ⟨log, -, hstart, -⟩ := launched_start hrx hob
  obtain ⟨j, hdone⟩ := exists_completes (by decide) hlive
  exact ⟨_, (completed_run hstart hob hdone).2.ready⟩

theorem answered_never_refuses (j : Nat) (hj : entry answered 4 1 j < lutSize) :
    ∃ i, j ≤ i ∧ accepted answered (4 + 116 * i) = true := by
  have h := answered_acknowledges
  rcases Nat.lt_or_ge 29 j with hgt | hle
  · exact absurd hj (Nat.not_lt.mpr ((h.completes rfl).lutSize_le hgt))
  · exact ⟨j, Nat.le_refl j, (h.entry rfl (Nat.lt_succ_of_le hle)).2⟩

theorem ready_of_no_refusal_answered : ∃ n, (run edge (start default default) answered n).conf.ready = true :=
  ready_of_no_refusal_for_ever rfl answered_acknowledges.obedient answered_never_refuses

end Results

end ConfigBus
end EcranMagique
