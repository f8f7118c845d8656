import EcranMagique.Lib.Clocked

/-! The configuration of the HDMI transmitter: the writer of one message (`I2C_WRITE_WDATA.v`), the
    open-drain pin around it (`I2C_Controller.v`), and the automaton that writes the register table
    (`I2C_HDMI_Config.v`), all on a control clock divided from the 50 MHz clock. -/

namespace EcranMagique

/-! ### `I2C_WRITE_WDATA.v` -/

structure WriterPins where
  go : Bool
  regData : BitVec 16
  slaveAddress : BitVec 8
  sdai : Bool
  byteNum : BitVec 8
  deriving DecidableEq, Repr

structure I2cWriteWdata where
  sdao : Bool
  sclo : Bool
  endOk : Bool
  st : BitVec 8
  cnt : BitVec 8
  byte : BitVec 8
  ackOk : Bool
  a : BitVec 9
  deriving DecidableEq, Repr, Inhabited

namespace I2cWriteWdata

/-- The reset gives a value to `ST` only. -/
def reset (s : I2cWriteWdata) : I2cWriteWdata := { s with st := 0 }

/-- State 5, at the end of a bit. After the ninth it samples the acknowledge, and goes on to the next byte or
    to the stop. -/
def endBit (s : I2cWriteWdata) (i : WriterPins) : I2cWriteWdata :=
  if s.cnt = 9 then
    let t : I2cWriteWdata := { s with sclo := false, ackOk := if i.sdai = true then true else s.ackOk }
    if s.byte = i.byteNum then { t with st := 6 }
    else
      let t : I2cWriteWdata := { t with cnt := 0, st := 2 }
      if s.byte = 0 then { t with byte := 1, a := i.regData.extractLsb' 8 8 ++ 1#1 }
      else if s.byte = 1 then { t with byte := 2, a := i.regData.extractLsb' 0 8 ++ 1#1 }
      else t
  else { s with sclo := false, st := 2 }

/-- One rising edge of `PT_CK`. -/
def edge (s : I2cWriteWdata) (i : WriterPins) : I2cWriteWdata :=
  match s.st with
  | 0#8 =>
    { s with
      sdao := true, sclo := true, ackOk := false, cnt := 0, endOk := true, byte := 0
      st := if i.go = true then 30 else s.st }
  | 1#8 => { s with st := 2, sdao := false, sclo := true, a := i.slaveAddress ++ 1#1 }
  | 2#8 => { s with st := 3, sdao := false, sclo := false }
  | 3#8 => { s with st := 4, sdao := s.a.msb, a := s.a <<< 1 }
  | 4#8 => { s with st := 5, sclo := true, cnt := s.cnt + 1 }
  | 5#8 => endBit s i
  | 6#8 => { s with st := 7, sdao := false, sclo := false }
  | 7#8 => { s with st := 8, sdao := false, sclo := true }
  | 8#8 => { s with st := 9, sdao := true, sclo := true }
  | 9#8 => { s with st := 30, sdao := true, sclo := true, cnt := 0, endOk := true, byte := 0 }
  | 30#8 => if i.go = false then { s with st := 31 } else s
  | 31#8 => { s with endOk := false, ackOk := false, st := 1 }
  | _ => s

section Edge
variable {s : I2cWriteWdata} {i : WriterPins}

theorem edge_init (h : s.st = 0) : s.edge i =
    { s with
      sdao := true, sclo := true, ackOk := false, cnt := 0, endOk := true, byte := 0
      st := if i.go = true then 30 else 0 } := by
  simp [edge, h]

theorem edge_start (h : s.st = 1) :
    s.edge i = { s with st := 2, sdao := false, sclo := true, a := i.slaveAddress ++ 1#1 } := by
  simp [edge, h]

theorem edge_fall (h : s.st = 2) : s.edge i = { s with st := 3, sdao := false, sclo := false } := by
  simp [edge, h]

theorem edge_shift (h : s.st = 3) : s.edge i = { s with st := 4, sdao := s.a.msb, a := s.a <<< 1 } := by
  simp [edge, h]

theorem edge_rise (h : s.st = 4) : s.edge i = { s with st := 5, sclo := true, cnt := s.cnt + 1 } := by
  simp [edge, h]

theorem edge_end_bit (h : s.st = 5) : s.edge i = endBit s i := by
  simp [edge, h]

theorem endBit_more (h : s.cnt ≠ 9) : endBit s i = { s with sclo := false, st := 2 } := if_neg h

theorem endBit_first (h : s.cnt = 9) (hbyte : s.byte = 0#8) (hnum : i.byteNum ≠ 0#8) : endBit s i =
    { s with
      sclo := false, ackOk := i.sdai || s.ackOk, cnt := 0, st := 2, byte := 1
      a := i.regData.extractLsb' 8 8 ++ 1#1 } := by
  simp [endBit, h, hbyte, Ne.symm hnum]

theorem endBit_second (h : s.cnt = 9) (hbyte : s.byte = 1#8) (hnum : i.byteNum ≠ 1#8) : endBit s i =
    { s with
      sclo := false, ackOk := i.sdai || s.ackOk, cnt := 0, st := 2, byte := 2
      a := i.regData.extractLsb' 0 8 ++ 1#1 } := by
  simp [endBit, h, hbyte, Ne.symm hnum]

theorem endBit_last (h : s.cnt = 9) (hbyte : s.byte = i.byteNum) :
    endBit s i = { s with sclo := false, ackOk := i.sdai || s.ackOk, st := 6 } := by
  simp [endBit, h, hbyte]

theorem edge_stop_fall (h : s.st = 6) : s.edge i = { s with st := 7, sdao := false, sclo := false } := by
  simp [edge, h]

theorem edge_stop_rise (h : s.st = 7) : s.edge i = { s with st := 8, sdao := false, sclo := true } := by
  simp [edge, h]

theorem edge_stop (h : s.st = 8) : s.edge i = { s with st := 9, sdao := true, sclo := true } := by
  simp [edge, h]

theorem edge_done (h : s.st = 9) : s.edge i =
    { s with st := 30, sdao := true, sclo := true, cnt := 0, endOk := true, byte := 0 } := by
  simp [edge, h]

theorem edge_wait (h : s.st = 30) (hgo : i.go = true) : s.edge i = s := by
  simp [edge, h, hgo]

theorem edge_released (h : s.st = 30) (hgo : i.go = false) : s.edge i = { s with st := 31 } := by
  simp [edge, h, hgo]

theorem edge_launch (h : s.st = 31) : s.edge i = { s with endOk := false, ackOk := false, st := 1 } := by
  simp [edge, h]

end Edge

end I2cWriteWdata

/-! ### `I2C_Controller.v` -/

structure ControllerPins where
  i2cData : BitVec 24
  go : Bool
  i2cSdat : Bool
  deriving DecidableEq, Repr

/-- The controller is its writer: the rest is wiring. -/
abbrev I2cController := I2cWriteWdata

namespace I2cController

/-- The level of SDA: low when the writer pulls it low, and else what the other devices make of it. -/
def i2cSdat (s : I2cController) (other : Bool) : Bool := if s.sdao = true then other else false

def wrdPins (s : I2cController) (i : ControllerPins) : WriterPins where
  go := i.go
  regData := i.i2cData.extractLsb' 0 16
  slaveAddress := i.i2cData.extractLsb' 16 8
  sdai := s.i2cSdat i.i2cSdat
  byteNum := 2

/-- One rising edge of `CLOCK`. -/
def edge (s : I2cController) (i : ControllerPins) : I2cController := I2cWriteWdata.edge s (s.wrdPins i)

end I2cController

/-! ### `I2C_HDMI_Config.v` -/

def lutSize : Nat := 31

/-- The register table: in each word the register, then its value. -/
def lut : Vector (BitVec 16) lutSize := #v[
  0x9803, 0x0100, 0x0218, 0x0300, 0x1470, 0x1520, 0x1630, 0x1846, 0x4080, 0x4110, 0x49A8, 0x5510, 0x5608, 0x96F6,
  0x7307, 0x761f, 0x9803, 0x9902, 0x9ae0, 0x9c30, 0x9d61, 0xa2a4, 0xa3a4, 0xa504, 0xab40, 0xaf16, 0xba60, 0xd1ff,
  0xde10, 0xe460, 0xfa7d]

def lutData (lutIndex : BitVec 6) : BitVec 16 := (lut[lutIndex.toNat]?).getD 0x9803

structure ConfigPins where
  hdmiTxInt : Bool
  i2cSdat : Bool
  deriving DecidableEq, Repr

/-- The registers of the control clock. -/
structure Config where
  mI2cData : BitVec 24
  mI2cGo : Bool
  lutIndex : BitVec 6
  mSetupSt : BitVec 4
  ready : Bool
  u0 : I2cController
  deriving DecidableEq, Repr, Inhabited

namespace Config

def reset (s : Config) : Config where
  mI2cData := s.mI2cData
  mI2cGo := false
  lutIndex := 0
  mSetupSt := 0
  ready := false
  u0 := s.u0.reset

def u0Pins (s : Config) (i : ConfigPins) : ControllerPins := ⟨s.mI2cData, s.mI2cGo, i.i2cSdat⟩

/-- The configuration automaton, which reads `END` and `ACK` of the controller. -/
def setup (s : Config) (i : ConfigPins) : Config :=
  if s.lutIndex.toNat < lutSize then
    let t : Config := { s with ready := false }
    match s.mSetupSt with
    | 0#4 => { t with mI2cData := 0x72#8 ++ lutData s.lutIndex, mI2cGo := true, mSetupSt := 1 }
    | 1#4 =>
      if s.u0.endOk = true then { t with mSetupSt := if s.u0.ackOk = false then 2 else 0, mI2cGo := false }
      else t
    | 2#4 => { t with lutIndex := s.lutIndex + 1, mSetupSt := 0 }
    | _ => t
  else { s with ready := true, lutIndex := if i.hdmiTxInt = false then 0 else s.lutIndex }

/-- One rising edge of `mI2C_CTRL_CLK`: both automata read the registers as they were before it. -/
def edge (s : Config) (i : ConfigPins) : Config := { s.setup i with u0 := s.u0.edge (s.u0Pins i) }

section Setup
variable {s : Config} {i : ConfigPins}

theorem setup_load (hidx : s.lutIndex.toNat < lutSize) (h : s.mSetupSt = 0) : s.setup i =
    { s with ready := false, mI2cData := 0x72#8 ++ lutData s.lutIndex, mI2cGo := true, mSetupSt := 1 } := by
  simp [setup, hidx, h]

theorem setup_wait (hidx : s.lutIndex.toNat < lutSize) (h : s.mSetupSt = 1) (hend : s.u0.endOk = false) :
    s.setup i = { s with ready := false } := by
  simp [setup, hidx, h, hend]

theorem setup_acked (hidx : s.lutIndex.toNat < lutSize) (h : s.mSetupSt = 1) (hend : s.u0.endOk = true)
    (hack : s.u0.ackOk = false) : s.setup i = { s with ready := false, mSetupSt := 2, mI2cGo := false } := by
  simp [setup, hidx, h, hend, hack]

theorem setup_refused (hidx : s.lutIndex.toNat < lutSize) (h : s.mSetupSt = 1) (hend : s.u0.endOk = true)
    (hack : s.u0.ackOk = true) : s.setup i = { s with ready := false, mSetupSt := 0, mI2cGo := false } := by
  simp [setup, hidx, h, hend, hack]

theorem setup_next (hidx : s.lutIndex.toNat < lutSize) (h : s.mSetupSt = 2) :
    s.setup i = { s with ready := false, lutIndex := s.lutIndex + 1, mSetupSt := 0 } := by
  simp [setup, hidx, h]

theorem setup_ready (hidx : ¬ s.lutIndex.toNat < lutSize) :
    s.setup i = { s with ready := true, lutIndex := if i.hdmiTxInt = false then 0 else s.lutIndex } := by
  simp [setup, hidx]

end Setup

end Config

/-! ### The control clock -/

structure I2cHdmiConfig where
  mI2cClkDiv : BitVec 16
  mI2cCtrlClk : Bool
  config : Config
  deriving DecidableEq, Repr, Inhabited

namespace I2cHdmiConfig

def clkFreq : Nat := 50000000

def i2cFreq : Nat := 20000

def reset (s : I2cHdmiConfig) : I2cHdmiConfig := ⟨0, false, s.config.reset⟩

/-- The divider, without what its clock drives. -/
def divide (s : I2cHdmiConfig) : I2cHdmiConfig :=
  if s.mI2cClkDiv.toNat < clkFreq / i2cFreq then { s with mI2cClkDiv := s.mI2cClkDiv + 1 }
  else { s with mI2cClkDiv := 0, mI2cCtrlClk := !s.mI2cCtrlClk }

/-- One rising edge of `iCLK`, with the edge of the control clock that it may cause. -/
def edge (s : I2cHdmiConfig) (i : ConfigPins) : I2cHdmiConfig :=
  if s.mI2cCtrlClk = false ∧ s.divide.mI2cCtrlClk = true then { s.divide with config := s.config.edge i }
  else s.divide

end I2cHdmiConfig
end EcranMagique
