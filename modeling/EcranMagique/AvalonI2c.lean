import Mathlib.Tactic.Ring
import EcranMagique.Lib.Registers
import EcranMagique.Nios

/-! The I2C driver of the Nios V processor (`altera_avalon_i2c.c`): a master transaction is a sequence of commands that
    the driver writes into a FIFO, and of bytes that it reads from another, while it polls the flags of the core. -/

namespace EcranMagique

def i2cTimeout : Status := -2
def i2cRange : Status := -4
def i2cNackErr : Status := -5
def i2cArbLostErr : Status := -6
def i2cBusy : Status := -7

namespace AvalonI2c
open Registers

/-- The registers that the driver reaches, but for the level of the command FIFO. -/
inductive Reg where
  | tfrCmd
  | rxData
  | ctrl
  | iser
  | isr
  | status
  | rxDataFifoLvl
  | sclLow
  | sclHigh
  | sdaHold
  deriving DecidableEq, Repr

abbrev Io := Prog Reg (BitVec 32)

/-- What the driver reads of its device structure without interrupts. -/
structure Dev where
  masterTargetAddress : BitVec 32
  ipFreqInHz : BitVec 32
  addressMode10Bit : Bool
  deriving DecidableEq, Repr

/-- A speed is standard or fast, an address has 7 bits or 10. -/
structure MasterConfig where
  addressMode10Bit : Bool
  speedFast : Bool
  sclHcnt : BitVec 16
  sclLcnt : BitVec 16
  sdaCnt : BitVec 16
  deriving DecidableEq, Repr

def ctrlEnMsk : BitVec 32 := 1#32 <<< 0
def ctrlBusSpeedOfst : Nat := 1
def ctrlBusSpeedMsk : BitVec 32 := 1#32 <<< ctrlBusSpeedOfst
def ctrlTfrCmdFifoThdOfst : Nat := 2
def ctrlTfrCmdFifoThdMsk : BitVec 32 := 3#32 <<< ctrlTfrCmdFifoThdOfst
def ctrlRxDataFifoThdOfst : Nat := 4
def ctrlRxDataFifoThdMsk : BitVec 32 := 3#32 <<< ctrlRxDataFifoThdOfst
def isrTxReadyMsk : BitVec 32 := 1#32 <<< 0
def isrRxReadyMsk : BitVec 32 := 1#32 <<< 1
def isrNackDetMsk : BitVec 32 := 1#32 <<< 2
def isrArblostDetMsk : BitVec 32 := 1#32 <<< 3
def isrRxOverMsk : BitVec 32 := 1#32 <<< 4
def isrAllintsMsk : BitVec 32 := isrRxOverMsk ||| isrArblostDetMsk ||| isrNackDetMsk ||| isrRxReadyMsk ||| isrTxReadyMsk
def isrAllClearableIntsMsk : BitVec 32 := isrRxOverMsk ||| isrArblostDetMsk ||| isrNackDetMsk
def statusCoreStatusMsk : BitVec 32 := 1#32 <<< 0
def tfrCmdStaOfst : Nat := 9
def tfrCmdStoOfst : Nat := 8
def targetAddrMask10Bit : BitVec 32 := 0x7800

/-! ### Polls -/

/-- The reads that a `timeout` of 32 bits allows: it is decremented before it is compared with zero. -/
def reads (timeout : BitVec 32) : Nat := if timeout = 0 then 2 ^ 32 else timeout.toNat

/-- `timeout<10`, with `n` reads left. -/
def late (n : Nat) : Bool := n % 2 ^ 32 < 10

def sleepUs : Nat := 10000

/-- `while (again) { if (timeout<10) alt_busy_sleep(10000); if (--timeout == 0) ... }`: whether it ended in time. -/
def pollWhile (r : Reg) (again : BitVec 32 → Bool) (timeout : BitVec 32) : Io Bool :=
  Prog.poll r again late sleepUs (reads timeout)

/-! ### The core -/

def iormwCtrl (data mask : BitVec 32) : Io Unit := do
  let v ← Prog.get .ctrl
  Prog.put .ctrl ((v &&& ~~~mask) ||| (data &&& mask))

def enable : Io Status := do
  let v ← Prog.get .ctrl
  if v &&& ctrlEnMsk ≠ 0 then pure i2cBusy
  else
    iormwCtrl ctrlEnMsk ctrlEnMsk
    pure i2cSuccess

def disable : Io Unit := iormwCtrl 0 ctrlEnMsk

def intClear (mask : BitVec 32) : Io Unit := Prog.put .isr mask

def enabledIntsGet : Io (BitVec 32) := do
  let v ← Prog.get .iser
  pure (v &&& isrAllintsMsk)

def intDisable (mask : BitVec 32) : Io Unit := do
  let enabledInts ← enabledIntsGet
  Prog.put .iser (isrAllintsMsk &&& (enabledInts &&& ~~~mask))

def tfrCmdFifoThresholdSet (threshold : BitVec 32) : Io Unit :=
  iormwCtrl (threshold <<< ctrlTfrCmdFifoThdOfst) ctrlTfrCmdFifoThdMsk

def rxFifoThresholdSet (threshold : BitVec 32) : Io Unit :=
  iormwCtrl (threshold <<< ctrlRxDataFifoThdOfst) ctrlRxDataFifoThdMsk

def isBusy (v : BitVec 32) : Bool := v &&& statusCoreStatusMsk ≠ 0

def checkNack (status : Status) : Io Status := do
  let v ← Prog.get .isr
  pure (if v &&& isrNackDetMsk ≠ 0 then i2cNackErr else status)

def checkArblost (status : Status) : Io Status := do
  let v ← Prog.get .isr
  pure (if v &&& isrArblostDetMsk ≠ 0 then i2cArbLostErr else status)

/-! ### Speed -/

def diffLcntHcnt : BitVec 32 := 60
def ssMaxHz : BitVec 32 := 100000
def ssMinHz : BitVec 32 := 1
def fsMaxHz : BitVec 32 := 400000
def fsMinHz : BitVec 32 := 100000

/-- The counts are computed in 32 bits and kept in 16. -/
def masterConfigSpeedSet (dev : Dev) (cfg : MasterConfig) (speedInHz : BitVec 32) : Status × MasterConfig :=
  if speedInHz > fsMaxHz ∨ speedInHz < ssMinHz ∨ speedInHz = 0 then (i2cRange, cfg)
  else
    let sclLcnt := dev.ipFreqInHz / (speedInHz <<< 1)
    let sclHcnt := sclLcnt + diffLcntHcnt
    let sclLcnt := sclLcnt - diffLcntHcnt
    (i2cSuccess, { cfg with
      speedFast := speedInHz > fsMinHz
      sclLcnt := sclLcnt.setWidth 16
      sclHcnt := sclHcnt.setWidth 16
      sdaCnt := (sclLcnt - sclLcnt / 2).setWidth 16 })

def masterConfigSet (dev : Dev) (cfg : MasterConfig) : Io Dev := do
  iormwCtrl ((BitVec.ofBool cfg.speedFast).setWidth 32 <<< ctrlBusSpeedOfst) ctrlBusSpeedMsk
  Prog.put .sclHigh (cfg.sclHcnt.setWidth 32)
  Prog.put .sclLow (cfg.sclLcnt.setWidth 32)
  Prog.put .sdaHold (cfg.sdaCnt.setWidth 32)
  pure { dev with addressMode10Bit := cfg.addressMode10Bit }

def masterConfigGet (dev : Dev) : Io MasterConfig := do
  let ctrl ← Prog.get .ctrl
  let sclHigh ← Prog.get .sclHigh
  let sclLow ← Prog.get .sclLow
  let sdaHold ← Prog.get .sdaHold
  pure {
    addressMode10Bit := dev.addressMode10Bit
    speedFast := (ctrl &&& ctrlBusSpeedMsk) >>> ctrlBusSpeedOfst ≠ 0
    sclHcnt := sclHigh.setWidth 16
    sclLcnt := sclLow.setWidth 16
    sdaCnt := sdaHold.setWidth 16 }

def tfrCmdFifoNotFull : BitVec 32 := 3
def rxDataFifoFull : BitVec 32 := 3

/-- `cfg` is what the stack holds; the speed is one that sets all of its counts. -/
def init (dev : Dev) (cfg : MasterConfig) : Io Dev := do
  disable
  intDisable isrAllintsMsk
  intClear isrAllClearableIntsMsk
  tfrCmdFifoThresholdSet tfrCmdFifoNotFull
  rxFifoThresholdSet rxDataFifoFull
  let (_, cfg) := masterConfigSpeedSet dev { cfg with speedFast := false, addressMode10Bit := false } ssMaxHz
  masterConfigSet dev cfg

def masterTargetSet (dev : Dev) (targetAddr : BitVec 32) : Dev := { dev with masterTargetAddress := targetAddr }

/-! ### Commands -/

def command (val : BitVec 8) (issueRestart issueStop : Bool) : BitVec 32 :=
  val.setWidth 32 ||| ((BitVec.ofBool issueRestart).setWidth 32 <<< tfrCmdStaOfst) |||
    ((BitVec.ofBool issueStop).setWidth 32 <<< tfrCmdStoOfst)

def cmdWrite (val : BitVec 8) (issueRestart issueStop : Bool) : Io Status := do
  if ← pollWhile .isr (fun v => v &&& isrTxReadyMsk = 0) 10000 then
    Prog.put .tfrCmd (command val issueRestart issueStop)
    let status ← checkNack i2cSuccess
    checkArblost status
  else pure i2cTimeout

/-- A 10 bit address takes two commands, and the status of the first is dropped. -/
def sendAddress (dev : Dev) (rwBit : BitVec 32) (issueRestart : Bool) : Io Status := do
  if dev.addressMode10Bit = true then
    let _ ← cmdWrite (((((dev.masterTargetAddress ||| targetAddrMask10Bit) >>> 7) &&& 0xfe) ||| rwBit).setWidth 8)
      issueRestart false
    cmdWrite ((dev.masterTargetAddress &&& 0xff).setWidth 8) false false
  else cmdWrite (((dev.masterTargetAddress <<< 1) ||| rwBit).setWidth 8) issueRestart false

/-! ### Bytes -/

def store (buffer : List (BitVec 8)) (i : Nat) (b : BitVec 8) : Io (List (BitVec 8)) :=
  if i < buffer.length then pure (buffer.set i b) else .fail

/-- Reads what there is, up to `maxBytesToRead` bytes unless that is zero, into `buffer` from `start` on. Nothing in
    the code bounds the loop, whose iterations `fuel` counts. -/
def rxReadAvailable (maxBytesToRead start : Nat) : Nat → List (BitVec 8) → Nat → Io (List (BitVec 8) × Nat)
  | 0, _, _ => .fail
  | fuel + 1, buffer, bytesRead => do
    let lvl ← Prog.get .rxDataFifoLvl
    if lvl = 0 then pure (buffer, bytesRead)
    else
      let v ← Prog.get .rxData
      let buffer ← store buffer (start + bytesRead) (v.setWidth 8)
      if bytesRead + 1 = maxBytesToRead ∧ maxBytesToRead ≠ 0 then pure (buffer, bytesRead + 1)
      else rxReadAvailable maxBytesToRead start fuel buffer (bytesRead + 1)

/-- Reads a byte all the same when none has come in time. -/
def rxRead (buffer : List (BitVec 8)) (i : Nat) : Io (Status × List (BitVec 8)) := do
  let ok ← pollWhile .rxDataFifoLvl (fun v => v = 0) 100000
  let v ← Prog.get .rxData
  let buffer ← store buffer i (v.setWidth 8)
  pure (if ok = true then i2cSuccess else i2cTimeout, buffer)

/-! ### Transactions -/

/-- A transaction that does not go on from another enables the core and clears its flags. -/
def begin (issueRestart : Bool) : Io Status := do
  if issueRestart = true then pure i2cSuccess
  else
    let status ← enable
    if status ≠ i2cSuccess then pure status
    else
      intClear isrAllClearableIntsMsk
      pure i2cSuccess

/-- The end of a transaction: waits until the core is idle, `size * 10000` reads at most, and disables it. -/
def finish (size : Nat) (status : Status) : Io Status := do
  let ok ← pollWhile .status isBusy (BitVec.ofNat 32 (size * 10000))
  let status ← checkNack (if ok = true then status else i2cTimeout)
  disable
  pure status

/-- The bytes of a transmission, the last one with `issueStop`. -/
def sendBytes (issueStop : Bool) : List (BitVec 8) → Io Status
  | [] => pure i2cSuccess
  | [b] => cmdWrite b false issueStop
  | b :: rest => do
    let status ← cmdWrite b false false
    if status = i2cSuccess then sendBytes issueStop rest else pure status

def masterTransmit (dev : Dev) (buffer : List (BitVec 8)) (issueRestart issueStop : Bool) : Io Status := do
  if buffer.length = 0 then pure i2cSuccess
  else
    let status ← begin issueRestart
    if status ≠ i2cSuccess then pure status
    else
      let status ← sendAddress dev 0 issueRestart
      let status ← (if status = i2cSuccess then sendBytes issueStop buffer else pure status)
      if issueStop = true ∨ status ≠ i2cSuccess then finish buffer.length status else pure status

/-- The commands of the bytes to read, the last one with `issueStop`; what has come is read after each of the others. -/
def readCommands (fuel : Nat) (issueStop : Bool) :
    Nat → List (BitVec 8) → Nat → Io (Status × List (BitVec 8) × Nat)
  | 0, buffer, bytesRead => do
    let status ← cmdWrite 0 false issueStop
    pure (status, buffer, bytesRead)
  | left + 1, buffer, bytesRead => do
    let status ← cmdWrite 0 false false
    if status = i2cSuccess then
      let (buffer, more) ← rxReadAvailable 0 bytesRead fuel buffer 0
      readCommands fuel issueStop left buffer (bytesRead + more)
    else pure (status, buffer, bytesRead)

/-- The bytes that are still to come, `left` of them, into `buffer` from `i` on. -/
def readRest : Nat → List (BitVec 8) → Nat → Io (Status × List (BitVec 8))
  | 0, buffer, _ => pure (i2cSuccess, buffer)
  | left + 1, buffer, i => do
    let (status, buffer) ← rxRead buffer i
    if status = i2cSuccess then readRest left buffer (i + 1) else pure (status, buffer)

def masterReceive (fuel : Nat) (dev : Dev) (buffer : List (BitVec 8)) (issueRestart issueStop : Bool) :
    Io (Status × List (BitVec 8)) := do
  if buffer.length = 0 then pure (i2cSuccess, buffer)
  else
    let status ← begin issueRestart
    if status ≠ i2cSuccess then pure (status, buffer)
    else
      let status ← sendAddress dev 1 issueRestart
      let (status, buffer, bytesRead) ←
        (if status = i2cSuccess then readCommands fuel issueStop (buffer.length - 1) buffer 0
        else pure (status, buffer, 0))
      let (status, buffer) ←
        (if status = i2cSuccess then readRest (buffer.length - bytesRead) buffer bytesRead else pure (status, buffer))
      if issueStop = true ∨ status ≠ i2cSuccess then
        let status ← finish buffer.length status
        pure (status, buffer)
      else pure (status, buffer)

/-! ### Retries -/

/-- The results after which a transaction is attempted again. -/
def again (status : Status) : Bool := status = i2cArbLostErr ∨ status = i2cNackErr ∨ status = i2cBusy

def retries : Nat := 10000

def masterTx (dev : Dev) (buffer : List (BitVec 8)) : Io Status :=
  Prog.retry again late sleepUs (fun _ => masterTransmit dev buffer false true) retries 0

def masterRx (fuel : Nat) (dev : Dev) (buffer : List (BitVec 8)) : Io (Status × List (BitVec 8)) :=
  Prog.retry (fun r => again r.1) late sleepUs (fun r => masterReceive fuel dev r.2 false true) retries (0, buffer)

/-- A transmission without a stop, and a reception that goes on from it. -/
def txRx (fuel : Nat) (dev : Dev) (txbuffer rxbuffer : List (BitVec 8)) : Io (Status × List (BitVec 8)) := do
  let status ← masterTransmit dev txbuffer false false
  if again status = true then pure (status, rxbuffer) else masterReceive fuel dev rxbuffer true true

def masterTxRx (fuel : Nat) (dev : Dev) (txbuffer rxbuffer : List (BitVec 8)) : Io (Status × List (BitVec 8)) :=
  Prog.retry (fun r => again r.1) late sleepUs (fun r => txRx fuel dev txbuffer r.2) retries (0, rxbuffer)

end AvalonI2c
end EcranMagique
