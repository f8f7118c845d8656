import EcranMagique.Lib.Retry
import EcranMagique.Transmitter.Frame

/-! The automaton that writes the register table. It launches one message every 116 control clocks, goes on to the
    next entry when the three bytes are acknowledged, and sends the same entry again when they are not. -/

namespace EcranMagique
open Clocked TwoWire

/-- The configuration, and a receiver on its bus. -/
structure ConfigBus where
  conf : Config
  rx : Receiver
  deriving DecidableEq, Repr

namespace ConfigBus

def wire (s : ConfigBus) : Wire := ⟨s.conf.u0, s.rx⟩

def edge (s : ConfigBus) (i : ConfigPins) : ConfigBus :=
  ⟨s.conf.edge i, s.rx.see (s.wire.lines i.i2cSdat)⟩

theorem wire_edge (s : ConfigBus) (i : ConfigPins) : (s.edge i).wire = s.wire.edge (s.conf.u0Pins i) := rfl

/-- What the controller is given at each edge of a run. -/
def u0Wave (s : ConfigBus) (w : Nat → ConfigPins) (k : Nat) : ControllerPins := (run edge s w k).conf.u0Pins (w k)

theorem wire_run (s : ConfigBus) (w : Nat → ConfigPins) (n : Nat) :
    (run edge s w n).wire = run Wire.edge s.wire (u0Wave s w) n :=
  run_component (f := ConfigBus.wire) (g := fun s i => s.conf.u0Pins i) wire_edge n

/-- The other devices keep to the protocol during a run. -/
def Obedient (s : ConfigBus) (w : Nat → ConfigPins) : Prop :=
  ∀ k, (run edge s w k).wire.Obeys (w k).i2cSdat

section Obedient
variable {s : ConfigBus} {w : Nat → ConfigPins}

theorem Obedient.drop (h : Obedient s w) (m : Nat) : Obedient (run edge s w m) fun k => w (m + k) := by
  intro k
  rw [← run_add]
  exact h (m + k)

theorem obedient_of_released (h : ∀ n, (w n).i2cSdat = true) : Obedient s w := by
  intro k _ hlow
  rw [h k] at hlow
  cases hlow

theorem Obedient.wire (h : Obedient s w) : Wire.Obedient s.wire (u0Wave s w) := by
  intro k
  rw [← wire_run]
  exact h k

end Obedient

/-! ### An entry of the table -/

def word (k : Nat) : BitVec 24 := 0x72#8 ++ lutData (BitVec.ofNat 6 k)

def register (k : Nat) : BitVec 8 := (lutData (BitVec.ofNat 6 k)).extractLsb' 8 8

def value (k : Nat) : BitVec 8 := (lutData (BitVec.ofNat 6 k)).extractLsb' 0 8

theorem payload_word (k : Nat) : Wire.payload (word k) 0 = 0x72#8 ∧ Wire.payload (word k) 1 = register k ∧
    Wire.payload (word k) 2 = value k :=
  ⟨BitVec.extractLsb'_append_eq_left, BitVec.extractLsb'_append_eq_of_add_le (by decide),
    BitVec.extractLsb'_append_eq_of_add_le (by decide)⟩

/-- A message launched at `t`, with its acknowledges, when its register is that of entry `k` and its value that of
    entry `k'`. -/
def torn (w : Nat → ConfigPins) (k k' t : Nat) : List Byte :=
  [⟨0x72#8, !(w (t + 36)).i2cSdat⟩, ⟨register k, !(w (t + 72)).i2cSdat⟩, ⟨value k', !(w (t + 108)).i2cSdat⟩]

/-- The message of entry `k`. -/
def message (w : Nat → ConfigPins) (k t : Nat) : List Byte := torn w k k t

def accepted (w : Nat → ConfigPins) (t : Nat) : Bool :=
  !(w (t + 36)).i2cSdat && !(w (t + 72)).i2cSdat && !(w (t + 108)).i2cSdat

theorem refused_torn (w : Nat → ConfigPins) (k k' t : Nat) : Wire.refused (torn w k k' t) = !accepted w t := by
  simp [Wire.refused, torn, accepted, Bool.or_assoc]

/-! ### A message, whatever the automaton does -/

section Message
variable {a : BitVec 9} {log : List (List Byte)} {s : ConfigBus} {w : Nat → ConfigPins}

theorem endOk_of_launched (hwire : s.wire = Wire.launched a log) {n : Nat} (hn : n < 113) :
    (run edge s w n).conf.u0.endOk = false := by
  have hwr : (run edge s w n).conf.u0 = (run Wire.edge s.wire (u0Wave s w) n).wr := congrArg Wire.wr (wire_run s w n)
  rw [hwr, hwire]
  exact Wire.endOk_of_launched hn

/-- When the message is finished its receiver has the bytes that `I2C_DATA` held as each began. -/
theorem sent_of_launched (hwire : s.wire = Wire.launched a log) (hob : Obedient s w) {k₀ k k' : Nat}
    (h0 : s.conf.mI2cData = word k₀) (h36 : (run edge s w 36).conf.mI2cData = word k)
    (h72 : (run edge s w 72).conf.mI2cData = word k') :
    ∃ a, (run edge s w 113).wire = Wire.finished (!accepted w 0) a (log ++ [torn w k k' 0]) := by
  have hob' := hob.wire
  rw [hwire] at hob'
  have hframe : Wire.frame (u0Wave s w) = torn w k k' 0 := by
    simp only [Wire.frame, u0Wave, Config.u0Pins, run_zero, h0, h36, h72, payload_word, torn, Nat.zero_add]
  have hrun := Wire.run_frame hob'
  rw [← hwire, ← wire_run, hframe, refused_torn] at hrun
  exact ⟨_, hrun⟩

end Message

/-! ### The automaton -/

/-- What the automaton holds: `I2C_DATA` is that of `entry`. -/
structure Holds (c : Config) (lutIndex : Nat) (mSetupSt : BitVec 4) (mI2cGo : Bool) (entry : Nat) (ready : Bool) :
    Prop where
  lutIndex : c.lutIndex = BitVec.ofNat 6 lutIndex
  mSetupSt : c.mSetupSt = mSetupSt
  mI2cGo : c.mI2cGo = mI2cGo
  mI2cData : c.mI2cData = word entry
  ready : c.ready = ready

namespace Holds
variable {c : Config} {k entry : Nat} {go ready : Bool} {i : ConfigPins} {st : BitVec 4}

theorem toNat_lutIndex (h : Holds c k st go entry ready) (hk : k ≤ lutSize) : c.lutIndex.toNat = k := by
  simp only [lutSize] at hk
  rw [h.lutIndex, BitVec.toNat_ofNat]
  omega

theorem lt_lutSize (h : Holds c k st go entry ready) (hk : k < lutSize) : c.lutIndex.toNat < lutSize := by
  rwa [h.toNat_lutIndex (Nat.le_of_lt hk)]

theorem of_load (hidx : c.lutIndex = BitVec.ofNat 6 k) (hst : c.mSetupSt = 0) (hk : c.lutIndex.toNat < lutSize) :
    Holds (c.edge i) k 1 true k false := by
  have hset := Config.setup_load (i := i) hk hst
  constructor <;> simp [Config.edge, hset, hidx, word]

theorem load (h : Holds c k 0 go entry ready) (hk : k < lutSize) : Holds (c.edge i) k 1 true k false :=
  of_load h.lutIndex h.mSetupSt (h.lt_lutSize hk)

theorem wait (h : Holds c k 1 go entry ready) (hk : k < lutSize) (hend : c.u0.endOk = false) :
    Holds (c.edge i) k 1 go entry false := by
  have hset := Config.setup_wait (i := i) (h.lt_lutSize hk) h.mSetupSt hend
  constructor <;> simp [Config.edge, hset, h.lutIndex, h.mSetupSt, h.mI2cGo, h.mI2cData]

theorem acked (h : Holds c k 1 go entry ready) (hk : k < lutSize) (hend : c.u0.endOk = true)
    (hack : c.u0.ackOk = false) : Holds (c.edge i) k 2 false entry false := by
  have hset := Config.setup_acked (i := i) (h.lt_lutSize hk) h.mSetupSt hend hack
  constructor <;> simp [Config.edge, hset, h.lutIndex, h.mI2cData]

theorem refused (h : Holds c k 1 go entry ready) (hk : k < lutSize) (hend : c.u0.endOk = true)
    (hack : c.u0.ackOk = true) : Holds (c.edge i) k 0 false entry false := by
  have hset := Config.setup_refused (i := i) (h.lt_lutSize hk) h.mSetupSt hend hack
  constructor <;> simp [Config.edge, hset, h.lutIndex, h.mI2cData]

theorem next (h : Holds c k 2 go entry ready) (hk : k < lutSize) : Holds (c.edge i) (k + 1) 0 go entry false := by
  have hset := Config.setup_next (i := i) (h.lt_lutSize hk) h.mSetupSt
  constructor <;> simp [Config.edge, hset, h.lutIndex, h.mI2cGo, h.mI2cData, BitVec.ofNat_add]

/-- After the last entry the automaton is ready, until the transmitter interrupts. -/
theorem finish (h : Holds c lutSize st go entry ready) :
    Holds (c.edge i) (if i.hdmiTxInt = false then 0 else lutSize) st go entry true := by
  have hset := Config.setup_ready (i := i) (s := c) (by rw [h.toNat_lutIndex (Nat.le_refl _)]; exact Nat.lt_irrefl _)
  constructor <;> simp [Config.edge, hset, h.lutIndex, h.mSetupSt, h.mI2cGo, h.mI2cData]
  split <;> rfl

end Holds

/-- The automaton waits for `END` with entry `k`. -/
def Waiting (k : Nat) (s : ConfigBus) : Prop := Holds s.conf k 1 true k false

/-- The writer launches entry `k`. After a refusal the automaton is one clock behind. -/
def Launched (k : Nat) (log : List (List Byte)) (s : ConfigBus) : Prop :=
  (∃ a, s.wire = Wire.launched a log) ∧ (Waiting k s ∨ ∃ go, Holds s.conf k 0 go k false)

section Entry
variable {k : Nat} {log : List (List Byte)} {s : ConfigBus} {w : Nat → ConfigPins}

theorem Launched.waiting (h : Launched k log s) (hk : k < lutSize) {n : Nat} (hn : n < 113) :
    Waiting k (run edge s w (n + 1)) := by
  obtain ⟨⟨a, hwire⟩, hconf⟩ := h
  induction n with
  | zero =>
    rcases hconf with hwait | ⟨go, hload⟩
    · exact hwait.wait hk (endOk_of_launched (w := w) hwire hn)
    · exact hload.load hk
  | succ n ih => exact (ih (by omega)).wait hk (endOk_of_launched hwire hn)

theorem Launched.mI2cData (h : Launched k log s) : s.conf.mI2cData = word k := by
  rcases h.2 with hwait | ⟨go, hload⟩
  · exact hwait.mI2cData
  · exact hload.mI2cData

/-- When the message is finished its receiver has the entry. -/
theorem Launched.sent (h : Launched k log s) (hk : k < lutSize) (hob : Obedient s w) :
    ∃ a, (run edge s w 113).wire = Wire.finished (!accepted w 0) a (log ++ [message w k 0]) := by
  obtain ⟨a, hwire⟩ := h.1
  exact sent_of_launched hwire hob h.mI2cData (h.waiting hk (by decide)).mI2cData (h.waiting hk (by decide)).mI2cData

end Entry

/-! ### From one message to the next -/

section Turn
variable {k : Nat} {ackOk : Bool} {a : BitVec 9} {log : List (List Byte)} {s : ConfigBus} {i : ConfigPins}

theorem wire_edge_held (hwire : s.wire = Wire.finished ackOk a log) (hob : s.wire.Obeys i.i2cSdat)
    (hgo : s.conf.mI2cGo = true) : (s.edge i).wire = Wire.finished ackOk a log := by
  rw [hwire] at hob
  rw [wire_edge, hwire]
  exact Wire.edge_finished_held (hob.released rfl rfl) hgo

theorem wire_edge_freed (hwire : s.wire = Wire.finished ackOk a log) (hob : s.wire.Obeys i.i2cSdat)
    (hgo : s.conf.mI2cGo = false) : (s.edge i).wire = Wire.armed ackOk a log := by
  rw [hwire] at hob
  rw [wire_edge, hwire]
  exact Wire.edge_finished (hob.released rfl rfl) hgo

theorem wire_edge_armed (hwire : s.wire = Wire.armed ackOk a log) (hob : s.wire.Obeys i.i2cSdat) :
    (s.edge i).wire = Wire.launched a log := by
  rw [hwire] at hob
  rw [wire_edge, hwire]
  exact Wire.edge_armed (hob.released rfl rfl)

variable {w : Nat → ConfigPins}

/-- A refused message: the automaton takes the old `END` for that of its new request, and falls one clock behind. -/
theorem turn_refused (hk : k < lutSize) (hwait : Waiting k s) (hwire : s.wire = Wire.finished true a log)
    (hob : Obedient s w) :
    (run edge s w 1).conf.ready = false ∧ (run edge s w 2).conf.ready = false ∧ Launched k log (run edge s w 3) := by
  have hw1 : (run edge s w 1).wire = Wire.finished true a log := wire_edge_held hwire (hob 0) hwait.mI2cGo
  have hc1 : Holds (run edge s w 1).conf k 0 false k false :=
    hwait.refused hk (congrArg (·.wr.endOk) hwire) (congrArg (·.wr.ackOk) hwire)
  have hw2 : (run edge s w 2).wire = Wire.armed true a log := wire_edge_freed hw1 (hob 1) hc1.mI2cGo
  have hc2 : Holds (run edge s w 2).conf k 1 true k false := hc1.load hk
  have hw3 : (run edge s w 3).wire = Wire.launched a log := wire_edge_armed hw2 (hob 2)
  have hc3 : Holds (run edge s w 3).conf k 0 false k false :=
    hc2.refused hk (congrArg (·.wr.endOk) hw2) (congrArg (·.wr.ackOk) hw2)
  exact ⟨hc1.ready, hc2.ready, ⟨a, hw3⟩, Or.inr ⟨false, hc3⟩⟩

/-- An accepted message: two clocks later the automaton holds the next entry, and one more launches what follows. -/
theorem turn_accepted (hk : k < lutSize) (hwait : Waiting k s) (hwire : s.wire = Wire.finished false a log)
    (hob : Obedient s w) :
    (run edge s w 1).conf.ready = false ∧ Holds (run edge s w 2).conf (k + 1) 0 false k false ∧
    (run edge s w 3).wire = Wire.launched a log := by
  have hw1 : (run edge s w 1).wire = Wire.finished false a log := wire_edge_held hwire (hob 0) hwait.mI2cGo
  have hc1 : Holds (run edge s w 1).conf k 2 false k false :=
    hwait.acked hk (congrArg (·.wr.endOk) hwire) (congrArg (·.wr.ackOk) hwire)
  have hw2 : (run edge s w 2).wire = Wire.armed false a log := wire_edge_freed hw1 (hob 1) hc1.mI2cGo
  have hc2 : Holds (run edge s w 2).conf (k + 1) 0 false k false := hc1.next hk
  exact ⟨hc1.ready, hc2, wire_edge_armed hw2 (hob 2)⟩

end Turn

/-! ### An entry to the next -/

/-- The table is written. The writer launches the last entry once more. -/
def Completed (hdmiTxInt : Bool) (log : List (List Byte)) (s : ConfigBus) : Prop :=
  (∃ a, s.wire = Wire.launched a log) ∧
  Holds s.conf (if hdmiTxInt = false then 0 else lutSize) 0 false (lutSize - 1) true

section Period
variable {k : Nat} {log : List (List Byte)} {s : ConfigBus} {w : Nat → ConfigPins}

theorem period_refused (h : Launched k log s) (hk : k < lutSize) (hob : Obedient s w)
    (hacc : accepted w 0 = false) : Launched k (log ++ [message w k 0]) (run edge s w 116) := by
  obtain ⟨a, hwire⟩ := h.sent hk hob
  rw [hacc] at hwire
  rw [show 116 = 113 + 3 from rfl, run_add]
  exact (turn_refused hk (h.waiting hk (by omega)) hwire (hob.drop 113)).2.2

theorem period_accepted (h : Launched k log s) (hk : k + 1 < lutSize) (hob : Obedient s w)
    (hacc : accepted w 0 = true) : Launched (k + 1) (log ++ [message w k 0]) (run edge s w 116) := by
  have hk' : k < lutSize := Nat.lt_of_succ_lt hk
  obtain ⟨a, hwire⟩ := h.sent hk' hob
  rw [hacc] at hwire
  obtain ⟨-, hc2, hw3⟩ := turn_accepted hk' (h.waiting hk' (by omega)) hwire (hob.drop 113)
  rw [show 116 = 113 + 3 from rfl, run_add]
  exact ⟨⟨a, hw3⟩, Or.inl (hc2.load hk)⟩

theorem period_last (h : Launched (lutSize - 1) log s) (hob : Obedient s w) (hacc : accepted w 0 = true) :
    Completed (w 115).hdmiTxInt (log ++ [message w (lutSize - 1) 0]) (run edge s w 116) := by
  have hk : lutSize - 1 < lutSize := by decide
  obtain ⟨a, hwire⟩ := h.sent hk hob
  rw [hacc] at hwire
  obtain ⟨-, hc2, hw3⟩ := turn_accepted hk (h.waiting hk (by omega)) hwire (hob.drop 113)
  rw [show 116 = 113 + 3 from rfl, run_add]
  exact ⟨⟨a, hw3⟩, hc2.finish⟩

/-- Until the entry is accepted for the last time the automaton is not ready. -/
theorem period_not_ready (h : Launched k log s) (hk : k < lutSize) (hob : Obedient s w) {n : Nat} (hn : n < 116) :
    (run edge s w n).conf.ready = false := by
  rcases Nat.lt_or_ge n 114 with hlt | hge
  · cases n with
    | zero =>
      rcases h.2 with hwait | ⟨go, hload⟩
      · exact hwait.ready
      · exact hload.ready
    | succ n => exact (h.waiting hk (by omega)).ready
  · obtain ⟨a, hwire⟩ := h.sent hk hob
    have hob3 := hob.drop 113
    have hturn : (run edge s w 114).conf.ready = false ∧ (run edge s w 115).conf.ready = false := by
      rw [show 114 = 113 + 1 from rfl, show 115 = 113 + 2 from rfl, run_add, run_add]
      cases hacc : accepted w 0 <;> rw [hacc] at hwire
      · have hturn := turn_refused hk (h.waiting hk (by omega)) hwire hob3
        exact ⟨hturn.1, hturn.2.1⟩
      · have hturn := turn_accepted hk (h.waiting hk (by omega)) hwire hob3
        exact ⟨hturn.1, hturn.2.1.ready⟩
    rcases Nat.lt_succ_iff_lt_or_eq.mp hn with h' | rfl
    · rw [show n = 114 by omega]
      exact hturn.1
    · exact hturn.2

end Period

end ConfigBus
end EcranMagique
