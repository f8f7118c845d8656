import EcranMagique.AvalonI2c

/-! The I2C core as the driver sees it (`altera_avalon_i2c.v`): its registers (`altera_avalon_i2c_csr.v`), its two FIFOs,
    and its master automaton (`altera_avalon_i2c_mstfsm.v`) from one command to the next. How long the core takes, what
    the slaves answer and whether the arbitration is lost are free: they are the moves that the core makes by itself. -/

namespace EcranMagique.AvalonI2c
open Registers

def fifoDepth : Nat := 4

/-- What a byte on the bus is: an address that follows a START, a byte of the master, a byte of the slave. -/
inductive Role where
  | addr
  | tx
  | rx
  deriving DecidableEq, Repr

structure Item where
  role : Role
  byte : BitVec 8
  deriving DecidableEq, Repr

/-- The bytes between two STOPs, and whether each of those of the master has been acknowledged; one that has not is the
    last, and is left out. -/
structure Message where
  items : List Item := []
  acked : Bool := true
  deriving DecidableEq, Repr

/-- The states of the master automaton in which it waits: `shift` is `GEN_7BIT_ADDR`, `TX_BYTE` or `RX_BYTE` with the
    command at work; `GEN_START`, `POP_TX_FIFO` and `GEN_RESTART_7BIT` only lead to another. -/
inductive Fsm where
  | idle
  | preIdle
  | preStart
  | busHold
  | genStop
  | shift (role : Role) (tfrCmd : BitVec 10)
  deriving DecidableEq, Repr

/-- `dir` is `sent_7bit_addr` and `rw_cmd`: the direction of the last address of the message, if there is one. `message`
    and `log` are what has been on the bus. -/
structure Core where
  ctrl : BitVec 6
  iser : BitVec 5
  rxOver : Bool
  arblostDet : Bool
  nackDet : Bool
  sclLow : BitVec 16
  sclHigh : BitVec 16
  sdaHold : BitVec 16
  txfifo : List (BitVec 10)
  rxfifo : List (BitVec 8)
  fsm : Fsm
  dir : Option Bool
  message : Message
  log : List Message
  deriving DecidableEq, Repr

namespace Core

def reset : Core where
  ctrl := 0
  iser := 0
  rxOver := false
  arblostDet := false
  nackDet := false
  sclLow := 1
  sclHigh := 1
  sdaHold := 1
  txfifo := []
  rxfifo := []
  fsm := .idle
  dir := none
  message := {}
  log := []

/-! ### Registers -/

def enables (v : BitVec 6) : Bool := v.getLsbD 0

def ctrlEn (s : Core) : Bool := enables s.ctrl

def txfifoThd (s : Core) : Nat :=
  match (s.ctrl.extractLsb' 2 2).toNat with
  | 0 => 0
  | 1 => fifoDepth / 4
  | 2 => fifoDepth / 2
  | _ => fifoDepth - 1

def rxfifoThd (s : Core) : Nat :=
  match (s.ctrl.extractLsb' 4 2).toNat with
  | 0 => 1
  | 1 => fifoDepth / 4
  | 2 => fifoDepth / 2
  | _ => fifoDepth

/-- The ready flag of the command FIFO is masked while the core is disabled. -/
def txReadyMask (s : Core) : Bool := s.txfifo.length ≤ s.txfifoThd && s.ctrlEn

def rxReady (s : Core) : Bool := s.rxfifoThd ≤ s.rxfifo.length

def isr (s : Core) : BitVec 32 :=
  (BitVec.ofBool s.rxOver ++ BitVec.ofBool s.arblostDet ++ BitVec.ofBool s.nackDet ++ BitVec.ofBool s.rxReady ++
    BitVec.ofBool s.txReadyMask).setWidth 32

def idleState (s : Core) : Bool := s.fsm = .idle || s.fsm = .preIdle

/-- Both FIFOs are held empty while an abort is flagged. -/
def flushTxfifo (s : Core) : Bool := s.arblostDet || s.nackDet

/-- What a read finds. The memory of an empty FIFO still holds an old byte. -/
def read (s : Core) (old : BitVec 8) : Reg → BitVec 32 × Core
  | .tfrCmd => (0, s)
  | .rxData =>
    match s.rxfifo with
    | [] => (old.setWidth 32, s)
    | b :: rest => (b.setWidth 32, { s with rxfifo := rest })
  | .ctrl => (s.ctrl.setWidth 32, s)
  | .iser => (s.iser.setWidth 32, s)
  | .isr => (s.isr, s)
  | .status => (if s.idleState = true then 0 else 1, s)
  | .rxDataFifoLvl => (BitVec.ofNat 32 s.rxfifo.length, s)
  | .sclLow => (s.sclLow.setWidth 32, s)
  | .sclHigh => (s.sclHigh.setWidth 32, s)
  | .sdaHold => (s.sdaHold.setWidth 32, s)

/-- A command written to a full FIFO, or to one that is flushed, is lost. One that is not takes the automaton out of
    `PRE_IDLE`. -/
def putTxfifo (s : Core) (w : BitVec 10) : Core :=
  if s.flushTxfifo = true ∨ fifoDepth ≤ s.txfifo.length then s
  else { s with txfifo := s.txfifo ++ [w], fsm := if s.fsm = .preIdle then .preStart else s.fsm }

/-- The automaton leaves `IDLE` when the core becomes enabled, and `PRE_IDLE` for it when the core is disabled. -/
def writeCtrl (s : Core) (v : BitVec 6) : Core :=
  { s with
    ctrl := v
    fsm :=
      match s.fsm with
      | .idle => if enables v = true ∧ s.ctrlEn = false then .preStart else .idle
      | .preIdle => if enables v = true then .preIdle else .idle
      | fsm => fsm }

/-- The abort flags are cleared by writing a one. -/
def writeIsr (s : Core) (v : BitVec 32) : Core :=
  { s with
    rxOver := s.rxOver && !(v.getLsbD 4)
    arblostDet := s.arblostDet && !(v.getLsbD 3)
    nackDet := s.nackDet && !(v.getLsbD 2) }

def write (s : Core) (v : BitVec 32) : Reg → Core
  | .tfrCmd => s.putTxfifo (v.setWidth 10)
  | .ctrl => s.writeCtrl (v.setWidth 6)
  | .iser => { s with iser := v.setWidth 5 }
  | .isr => s.writeIsr v
  | .sclLow => { s with sclLow := v.setWidth 16 }
  | .sclHigh => { s with sclHigh := v.setWidth 16 }
  | .sdaHold => { s with sdaHold := v.setWidth 16 }
  | .rxData | .status | .rxDataFifoLvl => s

/-! ### Moves -/

inductive Move where
  | start
  | pop
  | ack
  | noAck
  | data (b : BitVec 8)
  | arbLost
  | stopDone
  deriving DecidableEq, Repr

def stopCmd (w : BitVec 10) : Bool := w.getLsbD 8
def restartCmd (w : BitVec 10) : Bool := w.getLsbD 9
def rwCmd (w : BitVec 10) : Bool := w.getLsbD 0

/-- A command after a restart, or the first one, is an address; the direction says what the others are. -/
def role (dir : Option Bool) (w : BitVec 10) : Role :=
  match dir with
  | none => .addr
  | some rw => if restartCmd w = true then .addr else if rw = true then .rx else .tx

def turn (dir : Option Bool) (w : BitVec 10) : Option Bool := if role dir w = .addr then some (rwCmd w) else dir

/-- Where the automaton rests when it has nothing to send. -/
def rest (s : Core) : Fsm := if s.ctrlEn = true then .preIdle else .idle

def take (s : Core) : Option Core :=
  match s.txfifo with
  | [] => none
  | w :: txfifo => some { s with txfifo := txfifo, fsm := .shift (role s.dir w) w }

def shifted (s : Core) (role : Role) (w : BitVec 10) (byte : BitVec 8) : Core :=
  { s with
    message := { s.message with items := s.message.items ++ [⟨role, byte⟩] }
    dir := turn s.dir w
    fsm := if role ≠ .addr ∧ stopCmd w = true then .genStop else .busHold }

def pushRxfifo (s : Core) (b : BitVec 8) : Core :=
  if s.flushTxfifo = true then s
  else if fifoDepth ≤ s.rxfifo.length then { s with rxOver := true }
  else { s with rxfifo := s.rxfifo ++ [b] }

def move? (s : Core) : Move → Option Core
  | .start =>
    if s.fsm = .preStart ∧ s.flushTxfifo = false then { s with message := {}, dir := none }.take else none
  | .pop => if s.fsm = .busHold then s.take else none
  | .ack =>
    match s.fsm with
    | .shift .rx _ => none
    | .shift role w => some (s.shifted role w (w.setWidth 8))
    | _ => none
  | .noAck =>
    match s.fsm with
    | .shift .rx _ => none
    | .shift _ _ => some { s with
        nackDet := true
        txfifo := []
        rxfifo := []
        message := { s.message with acked := false }
        fsm := .genStop }
    | _ => none
  | .data b =>
    match s.fsm with
    | .shift .rx w => some ((s.pushRxfifo b).shifted .rx w b)
    | _ => none
  | .arbLost =>
    match s.fsm with
    | .shift _ _ | .busHold | .genStop => some { s with
        arblostDet := true
        txfifo := []
        rxfifo := []
        message := {}
        fsm := s.rest }
    | _ => none
  | .stopDone =>
    if s.fsm = .genStop then some { s with
      log := s.log ++ [s.message]
      message := {}
      dir := none
      fsm := if s.txfifo = [] then s.rest else .preStart }
    else none

/-- The core, on a bus where anything may happen. -/
def device : Device Reg (BitVec 32) Core where
  moves s t := ∃ m, s.move? m = some t
  reads s r v t := ∃ old, s.read old r = (v, t)
  writes s r v t := s.write v r = t
  exists_reads _ _ := ⟨_, _, 0, rfl⟩
  exists_writes _ _ _ := ⟨_, rfl⟩

/-- What the core does on a bus where every byte of the master is acknowledged and nothing gets lost; `answer` is the
    next byte of the slave. -/
def prompt (answer : List Item → BitVec 8) (s : Core) : Move :=
  match s.fsm with
  | .preStart => .start
  | .shift .rx _ => .data (answer s.message.items)
  | .shift _ _ => .ack
  | .genStop => .stopDone
  | _ => .pop

/-- At most `n` of these moves, until the core has to wait for the driver. -/
def settle (answer : List Item → BitVec 8) : Nat → Core → Core
  | 0, s => s
  | n + 1, s =>
    match s.move? (prompt answer s) with
    | none => s
    | some t => settle answer n t

theorem settle_moves (answer : List Item → BitVec 8) (n : Nat) (s : Core) :
    Relation.ReflTransGen device.moves s (settle answer n s) := by
  induction n generalizing s with
  | zero => exact .refl
  | succ n ih =>
    rw [settle]
    split
    · exact .refl
    · rename_i t hmove
      exact .head ⟨_, hmove⟩ (ih t)

/-- A run of the driver on such a bus. -/
def runs {α : Type} (answer : List Item → BitVec 8) (n : Nat) (p : Io α) (s : Core) : Option (α × Core) :=
  Device.run (settle answer n) (fun s r => s.read 0 r) (fun s r v => s.write v r) p s

theorem exec_of_runs {α : Type} (answer : List Item → BitVec 8) (n : Nat) {p : Io α} {s t : Core} {a : α}
    (h : runs answer n p s = some (a, t)) : device.exec p s a t :=
  Device.exec_of_run (settle_moves answer n) (fun _ _ => ⟨0, rfl⟩) (fun _ _ _ => rfl) h

/-! ### What an access finds -/

section Access
variable {s : Core}

theorem isr_txReady : s.isr &&& isrTxReadyMsk = 0 ↔ s.txReadyMask = false := by
  simp only [isr]
  cases s.rxOver <;> cases s.arblostDet <;> cases s.nackDet <;> cases s.rxReady <;> cases s.txReadyMask <;> decide

theorem isr_nackDet : s.isr &&& isrNackDetMsk ≠ 0 ↔ s.nackDet = true := by
  simp only [isr]
  cases s.rxOver <;> cases s.arblostDet <;> cases s.nackDet <;> cases s.rxReady <;> cases s.txReadyMask <;> decide

theorem isr_arblostDet : s.isr &&& isrArblostDetMsk ≠ 0 ↔ s.arblostDet = true := by
  simp only [isr]
  cases s.rxOver <;> cases s.arblostDet <;> cases s.nackDet <;> cases s.rxReady <;> cases s.txReadyMask <;> decide

theorem status_busy : isBusy (if s.idleState = true then 0 else 1) = !s.idleState := by
  cases s.idleState <;> decide

theorem isr_clear : s.writeIsr isrAllClearableIntsMsk = { s with rxOver := false, arblostDet := false, nackDet := false } := by
  have h4 : isrAllClearableIntsMsk.getLsbD 4 = true := by decide
  have h3 : isrAllClearableIntsMsk.getLsbD 3 = true := by decide
  have h2 : isrAllClearableIntsMsk.getLsbD 2 = true := by decide
  simp [writeIsr, h4, h3, h2]

theorem txfifoThd_lt (s : Core) : s.txfifoThd < fifoDepth := by
  unfold txfifoThd
  split <;> decide

/-- A command FIFO that says that it is ready has room, whatever its threshold. -/
theorem room_of_txReady (h : s.txReadyMask = true) : s.txfifo.length < fifoDepth ∧ s.ctrlEn = true := by
  simp only [txReadyMask, Bool.and_eq_true, decide_eq_true_eq] at h
  exact ⟨Nat.lt_of_le_of_lt h.1 s.txfifoThd_lt, h.2⟩

theorem ctrl_enabled (v : BitVec 6) : v.setWidth 32 &&& ctrlEnMsk ≠ 0 ↔ enables v = true := by
  revert v
  decide

theorem ctrl_enable (v : BitVec 6) :
    enables (((v.setWidth 32 &&& ~~~ctrlEnMsk) ||| (ctrlEnMsk &&& ctrlEnMsk)).setWidth 6) = true := by
  revert v
  decide

theorem ctrl_disable (v : BitVec 6) : enables (((v.setWidth 32 &&& ~~~ctrlEnMsk) ||| (0 &&& ctrlEnMsk)).setWidth 6) = false := by
  revert v
  decide

end Access

end Core
end EcranMagique.AvalonI2c
