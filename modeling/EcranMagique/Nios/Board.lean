import EcranMagique.AvalonI2c.Setup
import EcranMagique.AvalonI2c.Retry
import EcranMagique.Nios.Flip

/-! The application on its board: the transactions of `main` are those of the driver on the core, from its reset on. What
    the variables hold is what the accelerometer has put on the bus, and so is what makes a lap wipe. -/

namespace EcranMagique

/-- What a transaction reports and leaves in its buffer. -/
def Reply.result {n : Nat} (r : Reply n) : Status × List (BitVec 8) := (r.status, List.ofFn r.rx)

namespace Nios
open AvalonI2c AvalonI2c.Core Registers.Device

/-- The instance that the system generates. -/
def i2c0 : Dev where
  masterTargetAddress := 0
  ipFreqInHz := 50000000
  addressMode10Bit := false

/-! ### The helpers on the driver -/

namespace Board

def i2cWriteReg (dev : Dev) (reg val : BitVec 8) : Io Status := AvalonI2c.masterTx dev [reg, val]

def i2cReadReg (fuel : Nat) (dev : Dev) (reg val : BitVec 8) : Io (Status × List (BitVec 8)) :=
  AvalonI2c.masterTxRx fuel dev [reg] [val]

def i2cReadMulti (fuel : Nat) (dev : Dev) (startReg : BitVec 8) (rx : List (BitVec 8)) : Io (Status × List (BitVec 8)) :=
  AvalonI2c.masterTxRx fuel dev [startReg] rx

end Board

/-- The replies are those of the driver on a core, which is in `core k` after `k` transactions; `dev` is what the
    initialisation has left. What the buffers hold before a read is free, but for that of the identifier. -/
structure Serves (fuel : Nat) (bus : Bus) (dev : Dev) (laps : Nat) (core : Nat → Core) : Prop where
  boot : ∃ cfg, device.exec (init i2c0 cfg) Core.reset dev (core 0)
  devid : bus.device = true →
    device.exec (Board.i2cReadReg fuel (masterTargetSet dev adxl345Addr) regDevid 0) (core 0) bus.devid.result (core 1)
  dataFormat : Probed bus →
    device.exec (Board.i2cWriteReg (masterTargetSet dev adxl345Addr) regDataFormat 0x08) (core 1) bus.dataFormat (core 2)
  powerCtl : Probed bus →
    device.exec (Board.i2cWriteReg (masterTargetSet dev adxl345Addr) regPowerCtl 0x08) (core 2) bus.powerCtl (core 3)
  data : Probed bus → ∀ n < laps, ∃ rx : List (BitVec 8), rx.length = 6 ∧
    device.exec (Board.i2cReadMulti fuel (masterTargetSet dev adxl345Addr) regDatax0 rx) (core (n + 3)) (bus.data n).result
      (core (n + 4))

/-- The transactions in their order, by what they report. -/
def reported (bus : Bus) : Nat → Status
  | 0 => bus.devid.status
  | 1 => bus.dataFormat
  | 2 => bus.powerCtl
  | n + 3 => (bus.data n).status

def InTime (bus : Bus) (n : Nat) : Prop := ∀ k < n, reported bus k ≠ i2cTimeout

/-- The variables hold the sample. -/
structure Holds (rx : Fin 6 → BitVec 8) (s : Nios) : Prop where
  x : s.gX = int16 (rx 1) (rx 0)
  y : s.gY = int16 (rx 3) (rx 2)
  z : s.gZ = int16 (rx 5) (rx 4)
  idx : s.gIdx = yToLedIndex s.gY

/-- Read `k` of the samples has succeeded, and none has since, of the first `n`. -/
structure LastRead (bus : Bus) (n k : Nat) : Prop where
  lt : k < n
  succeeded : (bus.data k).status = i2cSuccess
  last : ∀ i, k < i → i < n → (bus.data i).status ≠ i2cSuccess

/-- No sample has come yet. -/
structure Blank (s : Nios) : Prop where
  x : s.gX = 0
  y : s.gY = 0
  z : s.gZ = 0
  idx : s.gIdx = 0

/-- The last message on the bus selects the register `reg` of the accelerometer and reads `bytes` from there on, with all
    that the master sends in it acknowledged; or the arbitration was lost in it. -/
def ReadFrom (reg : BitVec 8) (bytes : List (BitVec 8)) (s : Core) : Prop := s.arblostDet = true ∨
  s.Last (⟨.addr, 0xA6⟩ :: ⟨.tx, reg⟩ :: ⟨.addr, 0xA7⟩ :: bytes.map fun b => ⟨.rx, b⟩)

/-! ### The transactions -/

/-- The accelerometer, as the driver knows it. -/
def adxl345 : Dev where
  masterTargetAddress := adxl345Addr
  ipFreqInHz := 50000000
  addressMode10Bit := false

section Transactions
variable {fuel n : Nat} {reg val : BitVec 8} {rx : List (BitVec 8)} {s t : Core} {status : Status}

theorem init_exec {cfg : MasterConfig} {dev : Dev} (h : device.exec (init i2c0 cfg) Core.reset dev t) :
    masterTargetSet dev adxl345Addr = adxl345 ∧ t.Calm := by
  have hreset : Core.reset.Calm := ⟨rfl, rfl, rfl, Or.inr (Or.inr rfl)⟩
  obtain ⟨rfl, hconfigured⟩ := wp_exec (init_spec i2c0 cfg _ hreset) h
  exact ⟨rfl, hconfigured.calm⟩

theorem read_exec {r : Reply n} (hn : 0 < n) (hfuel : n < fuel) (hrx : rx.length = n) (hs : s.Calm)
    (h : device.exec (Board.i2cReadMulti fuel adxl345 reg rx) s r.result t) :
    Ended (ReadFrom reg (List.ofFn r.rx)) r.status t := by
  have hne : rx ≠ [] := fun hnil => absurd (hrx ▸ hn) (by simp [hnil])
  have hspec : device.wp (Board.i2cReadMulti fuel adxl345 reg rx) _ s :=
    masterTxRx_spec rfl (List.cons_ne_nil reg []) hne (hrx ▸ hfuel) s hs
  exact (wp_exec hspec h).2.mono Or.inr

theorem write_exec (hs : s.Calm) (h : device.exec (Board.i2cWriteReg adxl345 reg val) s status t) :
    Ended (Last [⟨.addr, 0xA6⟩, ⟨.tx, reg⟩, ⟨.tx, val⟩]) status t :=
  wp_exec (masterTx_spec rfl (List.cons_ne_nil reg [val]) s hs) h

end Transactions

/-! ### The variables -/

section Variables
variable {bus : Bus} {s : Nios} {r : Reply 6}

theorem holds_measure (h : r.status = i2cSuccess) : Holds r.rx (measure s r).1 := by
  simp only [measure, h, if_true]
  exact ⟨rfl, rfl, rfl, rfl⟩

theorem measure_failed (h : r.status ≠ i2cSuccess) : (measure s r).1 = { s with gI2cStatus := r.status } := by
  simp only [measure, h, if_false]

theorem blank_startUp (bus : Bus) : Blank (startUp bus).2.1 := by
  unfold startUp
  dsimp only
  split_ifs <;> exact ⟨rfl, rfl, rfl, rfl⟩

/-- The error loops read no sample. -/
theorem blank_of_not_probed (hp : ¬Probed bus) (n : Nat) : Blank (main bus n).2.1 := by
  induction n with
  | zero => exact blank_startUp bus
  | succ n ih =>
    rw [variables_main]
    cases hloop : (startUp bus).1 with
    | noDevice => exact ih
    | badDevid => exact ih
    | measuring => exact absurd (startUp_measuring_iff.mp hloop) hp

/-- The variables hold the sample of the last read that has succeeded, and are blank when there is none. -/
theorem holds_or_blank (bus : Bus) (n : Nat) :
    Blank (main bus n).2.1 ∧ (Probed bus → ∀ k < n, (bus.data k).status ≠ i2cSuccess) ∨
    Probed bus ∧ ∃ k, LastRead bus n k ∧ Holds (bus.data k).rx (main bus n).2.1 := by
  by_cases hp : Probed bus
  · induction n with
    | zero => exact Or.inl ⟨blank_startUp bus, fun _ k hk => absurd hk (Nat.not_lt_zero k)⟩
    | succ n ih =>
      rw [variables_main, startUp_measuring_iff.mpr hp, lap]
      by_cases hok : (bus.data n).status = i2cSuccess
      · refine Or.inr ⟨hp, n, ⟨Nat.lt_succ_self n, hok, fun i h1 h2 => ?_⟩, holds_measure hok⟩
        exact absurd (Nat.le_of_lt_succ h2) (Nat.not_le.mpr h1)
      · rw [measure_failed hok]
        rcases ih with ⟨h, hnone⟩ | ⟨-, k, hlast, h⟩
        · refine Or.inl ⟨⟨h.x, h.y, h.z, h.idx⟩, fun _ k hk => ?_⟩
          rcases Nat.lt_succ_iff_lt_or_eq.mp hk with hlt | rfl
          · exact hnone hp k hlt
          · exact hok
        · refine Or.inr ⟨hp, k, ⟨Nat.lt_succ_of_lt hlast.lt, hlast.succeeded, fun i h1 h2 => ?_⟩, h.x, h.y, h.z, h.idx⟩
          rcases Nat.lt_succ_iff_lt_or_eq.mp h2 with hlt | rfl
          · exact hlast.last i h1 hlt
          · exact hok
  · exact Or.inl ⟨blank_of_not_probed hp n, fun h => absurd h hp⟩

end Variables

/-! ### The board -/

section Board
variable {fuel laps n : Nat} {bus : Bus} {dev : Dev} {core : Nat → Core}

theorem Serves.target (h : Serves fuel bus dev laps core) : masterTargetSet dev adxl345Addr = adxl345 ∧ (core 0).Calm := by
  obtain ⟨cfg, hboot⟩ := h.boot
  exact init_exec hboot

/-- While nothing has run out of time, each transaction starts from a calm core. -/
theorem Serves.calm (h : Serves fuel bus dev laps core) (hfuel : 6 < fuel) (hp : Probed bus) (hn : n ≤ laps + 3)
    (htime : InTime bus n) : (core n).Calm := by
  induction n with
  | zero => exact h.target.2
  | succ n ih =>
    have hcalm := ih (by omega) fun k hk => htime k (by omega)
    have hlate := htime n (Nat.lt_succ_self n)
    obtain ⟨htarget, -⟩ := h.target
    rcases n with _ | _ | _ | k
    · have hrun := h.devid hp.1
      rw [htarget] at hrun
      exact (read_exec (n := 1) (by decide) (by omega) rfl hcalm hrun).calm hlate
    · have hrun := h.dataFormat hp
      rw [htarget] at hrun
      exact (write_exec hcalm hrun).calm hlate
    · have hrun := h.powerCtl hp
      rw [htarget] at hrun
      exact (write_exec hcalm hrun).calm hlate
    · obtain ⟨rx, hrx, hrun⟩ := h.data hp k (by omega)
      rw [htarget] at hrun
      exact (read_exec (by decide) hfuel hrx hcalm hrun).calm hlate

/-- A read that succeeds gives what the accelerometer has sent. -/
theorem Serves.read_on_bus (h : Serves fuel bus dev laps core) (hfuel : 6 < fuel) (hp : Probed bus) {k : Nat} (hk : k < laps)
    (htime : InTime bus (k + 3)) (hok : (bus.data k).status = i2cSuccess) :
    ReadFrom regDatax0 (List.ofFn (bus.data k).rx) (core (k + 4)) := by
  have hstart := h.calm hfuel hp (n := k + 3) (by omega) htime
  obtain ⟨rx, hrx, hrun⟩ := h.data hp k hk
  rw [h.target.1] at hrun
  exact ((read_exec (by decide) hfuel hrx hstart hrun).success_or hok).elim Or.inl id

/-- While no transaction runs out of time, the sample that the variables hold is that of the last read to succeed, which
    the accelerometer, once its identifier had been read, has sent after the register of the first byte had been
    selected. -/
theorem Serves.sample_on_bus (h : Serves fuel bus dev laps core) (hfuel : 6 < fuel) (hn : n ≤ laps) (htime : InTime bus (n + 3)) :
    Blank (main bus n).2.1 ∧ (Probed bus → ∀ k < n, (bus.data k).status ≠ i2cSuccess) ∨
    ReadFrom regDevid [0xE5] (core 1) ∧
      ∃ k, LastRead bus n k ∧ ∃ rx, ReadFrom regDatax0 (List.ofFn rx) (core (k + 4)) ∧ Holds rx (main bus n).2.1 := by
  obtain ⟨htarget, hcalm⟩ := h.target
  rcases holds_or_blank bus n with hblank | ⟨hp, k, hlast, hholds⟩
  · exact Or.inl hblank
  · have hk := hlast.lt
    refine Or.inr ⟨?_, k, hlast, (bus.data k).rx, ?_, hholds⟩
    · have hrun := h.devid hp.1
      rw [htarget] at hrun
      have hread := (read_exec (n := 1) (by decide) (by omega) rfl hcalm hrun).success_or hp.2.1
      have hvalue : List.ofFn bus.devid.rx = [0xE5] := by simp [hp.2.2]
      rw [hvalue] at hread
      exact hread.elim Or.inl id
    · exact h.read_on_bus hfuel hp (by omega) (fun i hi => htime i (by omega)) hlast.succeeded

/-- While no transaction runs out of time, a lap wipes only if the accelerometer has just sent that the board is turned
    over, and if it has sent since the last wipe that the board was back. -/
theorem Serves.wipe_on_bus (h : Serves fuel bus dev laps core) (hfuel : 6 < fuel) (hn : n < laps) (htime : InTime bus (n + 3))
    (hwipe : wipeAnimation <:+: lapDone bus n) :
    (∃ rx : Fin 6 → BitVec 8, ReadFrom regDatax0 (List.ofFn rx) (core (n + 4)) ∧ ofBytes (rx 4) (rx 5) < -200) ∧
    ∀ m < n, wipeAnimation <:+: lapDone bus m → ∃ k, m < k ∧ k < n ∧ ∃ rx : Fin 6 → BitVec 8,
      ReadFrom regDatax0 (List.ofFn rx) (core (k + 4)) ∧ 200 < ofBytes (rx 4) (rx 5) := by
  obtain ⟨hp, hfires⟩ := wipe_lapDone_iff.mp hwipe
  rw [wipesAt_iff] at hfires
  obtain ⟨hok, hlow⟩ := low_sample.mp hfires.2
  refine ⟨⟨_, h.read_on_bus hfuel hp hn htime hok, hlow⟩, fun m hm hwipe' => ?_⟩
  obtain ⟨k, hmk, hkn, hhigh⟩ := (wipesAt_iff.mp (wipe_lapDone_iff.mp hwipe').2).high_between thresholds_le hm hfires
  obtain ⟨hok', hback⟩ := high_sample.mp hhigh
  exact ⟨k, hmk, hkn, _, h.read_on_bus hfuel hp (by omega) (fun i hi => htime i (by omega)) hok', hback⟩

end Board

/-! ### A board on which all goes well -/

namespace Flat

/-- An accelerometer that lies flat: `z` is 256, the others are 0. -/
def answer (items : List Item) : BitVec 8 :=
  if ⟨.tx, regDevid⟩ ∈ items then 0xE5
  else if (received items).length = 5 then 1 else 0

def bus : Bus where
  device := true
  devid := ⟨i2cSuccess, fun _ => 0xE5⟩
  dataFormat := i2cSuccess
  powerCtl := i2cSuccess
  data _ := ⟨i2cSuccess, ![0, 0, 0, 0, 0, 1]⟩

def messages : List (List Item) :=
  [[⟨.addr, 0xA6⟩, ⟨.tx, regDevid⟩, ⟨.addr, 0xA7⟩, ⟨.rx, 0xE5⟩],
    [⟨.addr, 0xA6⟩, ⟨.tx, regDataFormat⟩, ⟨.tx, 0x08⟩],
    [⟨.addr, 0xA6⟩, ⟨.tx, regPowerCtl⟩, ⟨.tx, 0x08⟩],
    [⟨.addr, 0xA6⟩, ⟨.tx, regDatax0⟩, ⟨.addr, 0xA7⟩, ⟨.rx, 0⟩, ⟨.rx, 0⟩, ⟨.rx, 0⟩, ⟨.rx, 0⟩, ⟨.rx, 0⟩, ⟨.rx, 1⟩]]

def core (n : Nat) : Core :=
  { Core.reset with
    ctrl := 0x3C
    sclLow := 190
    sclHigh := 310
    sdaHold := 95
    log := (messages.take n).map fun items => ⟨items, true⟩ }

theorem serves : Serves 7 bus { i2c0 with addressMode10Bit := false } 1 core where
  boot := ⟨⟨true, true, 0, 0, 0⟩, exec_of_runs answer 3 (by decide +kernel)⟩
  devid _ := exec_of_runs answer 3 (by decide +kernel)
  dataFormat _ := exec_of_runs answer 3 (by decide +kernel)
  powerCtl _ := exec_of_runs answer 3 (by decide +kernel)
  data _ n hn := by
    obtain rfl := Nat.lt_one_iff.mp hn
    exact ⟨List.replicate 6 0, rfl, exec_of_runs answer 3 (by decide +kernel)⟩

theorem probed : Probed bus := ⟨rfl, rfl, rfl⟩

theorem inTime : InTime bus 4 := by
  unfold InTime
  decide

end Flat

theorem flat_sample_on_bus :
    Blank (main Flat.bus 1).2.1 ∧ (Probed Flat.bus → ∀ k < 1, (Flat.bus.data k).status ≠ i2cSuccess) ∨
    ReadFrom regDevid [0xE5] (Flat.core 1) ∧
      ∃ k, LastRead Flat.bus 1 k ∧
        ∃ rx, ReadFrom regDatax0 (List.ofFn rx) (Flat.core (k + 4)) ∧ Holds rx (main Flat.bus 1).2.1 :=
  Serves.sample_on_bus (n := 1) Flat.serves (by decide) (by decide) Flat.inTime

/-! ### A board that is turned over twice -/

namespace Turned

/-- The last byte of sample `n`: `z` is -256, but 256 in the second sample. -/
def hi (n : Nat) : BitVec 8 := if n = 1 then 1 else 0xFF

def answer (hi : BitVec 8) (items : List Item) : BitVec 8 := if (received items).length = 5 then hi else 0

def bus : Bus := { Flat.bus with data := fun n => ⟨i2cSuccess, ![0, 0, 0, 0, 0, hi n]⟩ }

def exchange (hi : BitVec 8) : List Item :=
  [⟨.addr, 0xA6⟩, ⟨.tx, regDatax0⟩, ⟨.addr, 0xA7⟩, ⟨.rx, 0⟩, ⟨.rx, 0⟩, ⟨.rx, 0⟩, ⟨.rx, 0⟩, ⟨.rx, 0⟩, ⟨.rx, hi⟩]

def core (n : Nat) : Core :=
  { Flat.core (min n 3) with
    log := (Flat.core (min n 3)).log ++ (List.range (n - 3)).map fun k => ⟨exchange (hi k), true⟩ }

theorem core_start {n : Nat} (hn : n ≤ 3) : core n = Flat.core n := by
  simp only [core, Nat.min_eq_left hn, Nat.sub_eq_zero_of_le hn, List.range_zero, List.map_nil, List.append_nil]

theorem serves : Serves 7 bus { i2c0 with addressMode10Bit := false } 3 core where
  boot := by
    rw [core_start (by decide)]
    exact Flat.serves.boot
  devid := by
    rw [core_start (by decide), core_start (by decide)]
    exact Flat.serves.devid
  dataFormat _ := by
    rw [core_start (by decide), core_start (by decide)]
    exact Flat.serves.dataFormat Flat.probed
  powerCtl _ := by
    rw [core_start (by decide), core_start (by decide)]
    exact Flat.serves.powerCtl Flat.probed
  data _ n hn := by
    refine ⟨List.replicate 6 0, rfl, ?_⟩
    rcases n with _ | _ | _ | n
    · exact exec_of_runs (answer 0xFF) 3 (by decide +kernel)
    · exact exec_of_runs (answer 1) 3 (by decide +kernel)
    · exact exec_of_runs (answer 0xFF) 3 (by decide +kernel)
    · exact absurd hn (by omega)

theorem inTime : InTime bus 5 := by
  unfold InTime
  decide

theorem wipes : wipeAnimation <:+: lapDone bus 0 ∧ wipeAnimation <:+: lapDone bus 2 := by
  decide +kernel

end Turned

theorem turned_wipe_on_bus :
    (∃ rx : Fin 6 → BitVec 8, ReadFrom regDatax0 (List.ofFn rx) (Turned.core 6) ∧ ofBytes (rx 4) (rx 5) < -200) ∧
    ∃ k, 0 < k ∧ k < 2 ∧ ∃ rx : Fin 6 → BitVec 8,
      ReadFrom regDatax0 (List.ofFn rx) (Turned.core (k + 4)) ∧ 200 < ofBytes (rx 4) (rx 5) := by
  obtain ⟨hlow, hback⟩ := Serves.wipe_on_bus (n := 2) Turned.serves (by decide) (by decide) Turned.inTime Turned.wipes.2
  exact ⟨hlow, hback 0 (by decide) Turned.wipes.1⟩

end Nios
end EcranMagique
