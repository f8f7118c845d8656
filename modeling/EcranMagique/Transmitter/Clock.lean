import EcranMagique.Transmitter.Schedule

/-! The control clock. It turns over every 2501 edges of the 50 MHz clock, so that the automata run on the pins as they
    are at every 5002nd. -/

namespace EcranMagique
open Clocked TwoWire

namespace I2cHdmiConfig

/-- The pins as the rising edges of the control clock find them. -/
def sampled (w : Nat → ConfigPins) (k : Nat) : ConfigPins := w (2500 + 5002 * k)

/-- The rising edges of the control clock in `n` edges of the 50 MHz clock. -/
def ctrlEdges (n : Nat) : Nat := (n + 2501) / 5002

section Edge
variable {s : I2cHdmiConfig} {i : ConfigPins}

theorem edge_count (h : s.mI2cClkDiv.toNat < 2500) : s.edge i = { s with mI2cClkDiv := s.mI2cClkDiv + 1 } := by
  have hdivide : s.divide = { s with mI2cClkDiv := s.mI2cClkDiv + 1 } := if_pos h
  rw [edge, hdivide, if_neg (by simp)]

theorem divide_turn (h : ¬ s.mI2cClkDiv.toNat < 2500) :
    s.divide = { s with mI2cClkDiv := 0, mI2cCtrlClk := !s.mI2cCtrlClk } := if_neg h

theorem edge_rise (h : ¬ s.mI2cClkDiv.toNat < 2500) (hclk : s.mI2cCtrlClk = false) :
    s.edge i = ⟨0, true, s.config.edge i⟩ := by
  simp [edge, divide_turn h, hclk]

theorem edge_fall (h : ¬ s.mI2cClkDiv.toNat < 2500) (hclk : s.mI2cCtrlClk = true) :
    s.edge i = ⟨0, false, s.config⟩ := by
  simp [edge, divide_turn h, hclk]

end Edge

/-- After `n` edges of the 50 MHz clock from the configuration `c`. -/
structure Divided (c : Config) (w : Nat → ConfigPins) (n : Nat) (s : I2cHdmiConfig) : Prop where
  div : s.mI2cClkDiv.toNat = n % 2501
  clk : s.mI2cCtrlClk = decide (n / 2501 % 2 = 1)
  config : s.config = run Config.edge c (sampled w) (ctrlEdges n)

section Divided
variable {c : Config} {w : Nat → ConfigPins} {n : Nat} {s : I2cHdmiConfig}

theorem ctrlEdges_succ (h : ¬ (n % 2501 = 2500 ∧ n / 2501 % 2 = 0)) : ctrlEdges (n + 1) = ctrlEdges n := by
  simp only [ctrlEdges]
  omega

theorem ctrlEdges_rise (h : n % 2501 = 2500) (hclk : n / 2501 % 2 = 0) :
    ctrlEdges (n + 1) = ctrlEdges n + 1 ∧ n = 2500 + 5002 * ctrlEdges n := by
  simp only [ctrlEdges]
  omega

theorem Divided.edge (h : Divided c w n s) : Divided c w (n + 1) (s.edge (w n)) := by
  obtain ⟨hdiv, hclk, hconfig⟩ := h
  by_cases hlt : n % 2501 < 2500
  · have hsame : (n + 1) / 2501 = n / 2501 := by omega
    rw [edge_count (hdiv ▸ hlt)]
    refine ⟨?_, ?_, ?_⟩
    · have hone : (1 : BitVec 16).toNat = 1 := rfl
      simp only [BitVec.toNat_add, hdiv, hone]
      omega
    · simp only [hclk, hsame]
    · rw [ctrlEdges_succ (by omega)]
      exact hconfig
  · have hlast : n % 2501 = 2500 := by omega
    have hnext : (n + 1) / 2501 = n / 2501 + 1 := by omega
    have hzero : (0 : BitVec 16).toNat = (n + 1) % 2501 := by
      have hone : (0 : BitVec 16).toNat = 0 := rfl
      omega
    rcases Nat.mod_two_eq_zero_or_one (n / 2501) with heven | hodd
    · rw [edge_rise (hdiv ▸ hlt) (by simp [hclk, heven])]
      refine ⟨hzero, ?_, ?_⟩
      · simp only [hnext, true_eq_decide_iff]
        omega
      · obtain ⟨hsucc, hn⟩ := ctrlEdges_rise hlast heven
        rw [hsucc, run_succ, ← hconfig, sampled, ← hn]
    · rw [edge_fall (hdiv ▸ hlt) (by simp [hclk, hodd])]
      refine ⟨hzero, ?_, ?_⟩
      · simp only [hnext, false_eq_decide_iff]
        omega
      · rw [ctrlEdges_succ (by omega)]
        exact hconfig

end Divided

theorem divided_run (s : I2cHdmiConfig) (w : Nat → ConfigPins) (n : Nat) :
    Divided s.config.reset w n (run edge s.reset w n) := by
  induction n with
  | zero => exact ⟨rfl, rfl, rfl⟩
  | succ n ih => exact ih.edge

/-- The configuration on the 50 MHz clock is the one on the control clock, with a receiver on its bus. -/
theorem config_run (s : I2cHdmiConfig) (rx : Receiver) (w : Nat → ConfigPins) (n : Nat) :
    (run edge s.reset w n).config = (run ConfigBus.edge (ConfigBus.start s.config rx) (sampled w) (ctrlEdges n)).conf := by
  rw [(divided_run s w n).config]
  have hconf : ∀ (t : ConfigBus) (i : ConfigPins), (t.edge i).conf = t.conf.edge i := fun _ _ => rfl
  exact (run_map (f := ConfigBus.conf) (g := id) (s := ConfigBus.start s.config rx) hconf (ctrlEdges n)).symm

/-- On the 50 MHz clock the automata take a step at every 5002nd edge, on the pins as that edge finds them. With a device
    that acknowledges, the table is written in 348 ms: 30 messages of 116 control clocks. -/
theorem ready_on_time (s : I2cHdmiConfig) (rx : Receiver) (w : Nat → ConfigPins) :
    (∀ n, (run edge s.reset w n).config =
      (run ConfigBus.edge (ConfigBus.start s.config rx) (sampled w) (ctrlEdges n)).conf) ∧
    (rx.message = none → ConfigBus.Acknowledges (ConfigBus.start s.config rx) (sampled w) →
      (∀ n < 17424467, (run edge s.reset w n).config.ready = false) ∧
      (run edge s.reset w 17424467).config.ready = true) := by
  refine ⟨config_run s rx w, fun hrx h => ?_⟩
  obtain ⟨hready, hnot⟩ := h.ready hrx
  constructor
  · intro n hn
    rw [config_run s rx]
    exact hnot (ctrlEdges n) (by simp only [ctrlEdges]; omega)
  · rw [config_run s rx]
    exact hready

/-- The pins of a device that acknowledges, on the 50 MHz clock. -/
def slowAnswers (n : Nat) : ConfigPins := ConfigBus.answered (n / 5002)

theorem sampled_slowAnswers : sampled slowAnswers = ConfigBus.answered := by
  funext k
  have hk : (2500 + 5002 * k) / 5002 = k := by omega
  rw [sampled, slowAnswers, hk]

theorem ready_on_time_answered :
    (∀ n < 17424467, (run edge (reset default) slowAnswers n).config.ready = false) ∧
    (run edge (reset default) slowAnswers 17424467).config.ready = true :=
  (ready_on_time default default slowAnswers).2 rfl (sampled_slowAnswers ▸ ConfigBus.answered_acknowledges)

end I2cHdmiConfig
end EcranMagique
