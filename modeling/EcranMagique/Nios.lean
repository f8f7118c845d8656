import Mathlib.Data.Fin.VecNotation
import Mathlib.Tactic.Common

/-! The application of the Nios V processor (`main.c`): a bubble level on the LEDs, and a wipe when the
    accelerometer says that the board has been turned over.

    The accelerometer and the I2C driver are the outside: what a transaction reports and leaves in its buffer
    is an input, and what the program writes, sends and waits for is its trace of effects. -/

namespace EcranMagique

/-! ### The outside -/

abbrev Status := BitVec 32

def i2cSuccess : Status := 0

/-- What a transaction reports, and the `n` bytes that its buffer holds afterwards. -/
structure Reply (n : Nat) where
  status : Status
  rx : Fin n → BitVec 8

/-- What the program does to the outside: transactions with what they reported, writes to the LED port,
    waits in microseconds. -/
inductive Effect where
  | i2cOpen (found : Bool)
  | targetSet (addr : BitVec 32)
  | masterTx (buf : List (BitVec 8)) (status : Status)
  | masterTxRx (buf : List (BitVec 8)) (n : Nat) (status : Status)
  | iowr (v : BitVec 32)
  | usleep (us : Nat)
  deriving DecidableEq, Repr

/-- The outside of a run of `main`: whether the device opens, and how the transactions end. -/
structure Bus where
  device : Bool
  devid : Reply 1
  dataFormat : Status
  powerCtl : Status
  data : Nat → Reply 6

/-- The globals of the program, and the local `is_flipped` of `main`. -/
structure Nios where
  gX : BitVec 16 := 0
  gY : BitVec 16 := 0
  gZ : BitVec 16 := 0
  gIdx : Int := 0
  gDevid : BitVec 8 := 0
  gI2cStatus : Status := i2cSuccess
  isFlipped : Bool := false
  deriving DecidableEq, Repr

namespace Nios

/-! ### Settings -/

def nLeds : Nat := 10

def adxl345Addr : BitVec 32 := 0x53

def regDevid : BitVec 8 := 0x00
def regPowerCtl : BitVec 8 := 0x2D
def regDataFormat : BitVec 8 := 0x31
def regDatax0 : BitVec 8 := 0x32

def zFlipNegTh : Int := -200
def zFlipPosTh : Int := 200

/-! ### LEDs -/

def allLeds : BitVec 32 := (1#32 <<< nLeds) - 1#32

/-- The LEDs are active high: `LEDS_ACTIVE_LOW` is `0`. -/
def ledsApplyPolarity (v : BitVec 32) : BitVec 32 := v &&& allLeds

def ledsWrite (v : BitVec 32) : Effect := .iowr (ledsApplyPolarity v)

def flash (v : BitVec 32) (us : Nat) : List Effect := [ledsWrite v, .usleep us, ledsWrite 0, .usleep us]

/-- The LEDs go out from the left, then all of them flash twice. -/
def wipeAnimation : List Effect :=
  ((List.range nLeds).flatMap fun i =>
    [ledsWrite (allLeds &&& ~~~((1#32 <<< (i + 1)) - 1#32)), .usleep 50000]) ++
  (List.replicate 2 (flash allLeds 80000)).flatten

/-- The LED of the bubble. The products stay far below the range of `int32_t`, and the quotient is truncated. -/
def yToLedIndex (y : BitVec 16) : Int :=
  let min : Int := -256
  let max : Int := 256
  if y.toInt ≤ min then 0
  else if max ≤ y.toInt then nLeds - 1
  else
    let num := (y.toInt - min) * (nLeds - 1)
    let den := max - min
    let idx := num.tdiv den
    let idx := if idx < 0 then 0 else idx
    if (nLeds : Int) - 1 < idx then nLeds - 1 else idx

def level (idx : Int) : BitVec 32 := 1#32 <<< idx.toNat

/-! ### The I2C helpers -/

def i2cWriteReg (reg val : BitVec 8) (status : Status) : Effect := .masterTx [reg, val] status

def i2cReadReg (reg : BitVec 8) (reply : Reply 1) : Effect := .masterTxRx [reg] 1 reply.status

def i2cReadMulti {n : Nat} (startReg : BitVec 8) (reply : Reply n) : Effect := .masterTxRx [startReg] n reply.status

/-- `(int16_t)((hi << 8) | lo)`: the bytes are promoted to `int`, and the conversion keeps the low half. -/
def int16 (hi lo : BitVec 8) : BitVec 16 := ((hi.setWidth 32 <<< 8) ||| lo.setWidth 32).setWidth 16

/-! ### The loops of `main` -/

def detect (isFlipped : Bool) (z : BitVec 16) : Bool × List Effect :=
  if isFlipped = false ∧ z.toInt < zFlipNegTh then (true, wipeAnimation)
  else if isFlipped = true ∧ z.toInt > zFlipPosTh then (false, [])
  else (isFlipped, [])

def measure (s : Nios) (r : Reply 6) : Nios × List Effect :=
  let s := { s with gI2cStatus := r.status }
  if s.gI2cStatus = i2cSuccess then
    let s := { s with
      gX := int16 (r.rx 1) (r.rx 0)
      gY := int16 (r.rx 3) (r.rx 2)
      gZ := int16 (r.rx 5) (r.rx 4) }
    let (isFlipped, shown) := detect s.isFlipped s.gZ
    let s := { s with isFlipped := isFlipped, gIdx := yToLedIndex s.gY }
    (s, i2cReadMulti regDatax0 r :: (shown ++ [ledsWrite (level s.gIdx), .usleep 30000]))
  else (s, [i2cReadMulti regDatax0 r, ledsWrite 0, .usleep 30000])

inductive Loop where
  | noDevice
  | badDevid
  | measuring
  deriving DecidableEq, Repr

/-- What `main` does before its endless loop. The results of the two configuration writes are dropped. -/
def startUp (bus : Bus) : Loop × Nios × List Effect :=
  let s : Nios := {}
  if bus.device = false then (.noDevice, s, [.i2cOpen false])
  else
    let probed := [.i2cOpen true, .targetSet adxl345Addr, i2cReadReg regDevid bus.devid]
    let s := { s with gI2cStatus := bus.devid.status, gDevid := bus.devid.rx 0 }
    if s.gI2cStatus ≠ i2cSuccess ∨ s.gDevid ≠ 0xE5#8 then (.badDevid, s, probed)
    else (.measuring, { s with isFlipped := false }, probed ++
      [i2cWriteReg regDataFormat 0x08 bus.dataFormat, i2cWriteReg regPowerCtl 0x08 bus.powerCtl, .usleep 10000])

/-- The device opens, and its identifier is read and right: `main` goes on to the configuration. -/
def Probed (bus : Bus) : Prop := bus.device = true ∧ bus.devid.status = i2cSuccess ∧ bus.devid.rx 0 = 0xE5#8

def lap : Loop → Nios → Reply 6 → Nios × List Effect
  | .noDevice, s, _ => (s, flash allLeds 200000)
  | .badDevid, s, _ => (s, flash ((1#32 <<< 0) ||| (1#32 <<< (nLeds - 1))) 150000)
  | .measuring, s, r => measure s r

/-- The loop that `main` is in after `n` iterations of it, its variables, and all that it has done. -/
def main (bus : Bus) : Nat → Loop × Nios × List Effect
  | 0 => startUp bus
  | n + 1 =>
    let (loop, s, done) := main bus n
    let (s, more) := lap loop s (bus.data n)
    (loop, s, done ++ more)

/-! ### The bytes of a sample -/

/-- A pair of bytes in little-endian two's complement. -/
def ofBytes (lo hi : BitVec 8) : Int := ((lo.toNat + 256 * hi.toNat : Nat) : Int).bmod 65536

/-- What the last two bytes of a read decode to. -/
def z (r : Reply 6) : Int := ofBytes (r.rx 4) (r.rx 5)

theorem int16_toNat (hi lo : BitVec 8) : (int16 hi lo).toNat = lo.toNat + 256 * hi.toNat := by
  have hlo := lo.isLt
  have hhi := hi.isLt
  have hor : hi.toNat <<< 8 ||| lo.toNat = lo.toNat + 256 * hi.toNat := by
    rw [← Nat.shiftLeft_add_eq_or_of_lt hlo, Nat.shiftLeft_eq]
    omega
  have hshift : hi.toNat <<< 8 < 2 ^ 32 := by
    rw [Nat.shiftLeft_eq]
    omega
  have hbyte : ∀ b : BitVec 8, b.toNat % 2 ^ 32 = b.toNat := fun b => Nat.mod_eq_of_lt (by have := b.isLt; omega)
  rw [int16, BitVec.toNat_setWidth, BitVec.toNat_or, BitVec.toNat_shiftLeft, BitVec.toNat_setWidth, BitVec.toNat_setWidth,
    hbyte, hbyte, Nat.mod_eq_of_lt hshift, hor]
  exact Nat.mod_eq_of_lt (by omega)

theorem int16_toInt (hi lo : BitVec 8) : (int16 hi lo).toInt = ofBytes lo hi := by
  rw [BitVec.toInt_eq_toNat_bmod, int16_toNat]
  rfl

theorem yToLedIndex_range (y : BitVec 16) : 0 ≤ yToLedIndex y ∧ yToLedIndex y < nLeds := by
  unfold yToLedIndex nLeds
  dsimp only
  split_ifs <;> omega

end Nios
end EcranMagique
