import EcranMagique.AvalonI2c.Command

/-! The end of a transaction, and the transactions that only send. A transmission that reports success has put its
    whole message on the bus, unless the arbitration was lost. -/

namespace EcranMagique.AvalonI2c
open Registers Registers.Device EcranMagique.AvalonI2c.Core

/-! ### The end of a transaction -/

/-- The message is over, with what `Q` says. -/
structure Core.Over (Q : Core → Prop) (s : Core) : Prop where
  enabled : s.ctrlEn = true
  unflagged : s.flushTxfifo = false
  fsm : s.fsm = .preIdle
  txfifo : s.txfifo = []
  rxfifo : s.rxfifo = []
  holds : Q s

/-- What is known when the wait is over, and then when the flag has been read too. -/
inductive Closing (Q : Core → Prop) (lost : Core → Prop) : Status → Core → Prop where
  | lost {s : Core} (hen : s.ctrlEn = true) (hflushed : s.Flushed) (h : lost s) : Closing Q lost i2cSuccess s
  | finished {s : Core} (h : s.Over Q) : Closing Q lost i2cSuccess s
  | failed {s : Core} {status : Status} (h : Failed status s) : Closing Q lost status s

section Finish
variable {P Q lost : Core → Prop} {s t : Core} {status : Status}

theorem Core.Over.no_step (hs : s.Over Q) : ¬Step s t := by
  intro h
  have hfsm := hs.fsm
  cases h with
  | start _ _ hpre => rw [hfsm] at hpre; cases hpre
  | pop _ _ hhold => rw [hfsm] at hhold; cases hhold
  | sent _ _ hshift => rw [hfsm] at hshift; cases hshift
  | received _ _ hshift => rw [hfsm] at hshift; cases hshift
  | refused _ _ hshift => rw [hfsm] at hshift; cases hshift
  | lost hactive => simp [hfsm] at hactive
  | stopped hstop => rw [hfsm] at hstop; cases hstop

theorem Core.Over.writeCtrl (hs : s.Over Q) {v : BitVec 6} (hc : enables v = false) : (s.writeCtrl v).Calm :=
  ⟨hc, hs.txfifo, hs.rxfifo, Parked.writeCtrl (Or.inr (Or.inr (idleState_iff.mpr (Or.inr hs.fsm)))) v⟩

theorem Core.Step.arblostDet (h : Step s t) (hs : s.arblostDet = true) : t.arblostDet = true := by
  cases h with
  | received w b hfsm =>
    simp only [shifted, pushRxfifo]
    split
    · exact hs
    · split <;> exact hs
  | lost => rfl
  | _ => exact hs

theorem Closing.stable (hlost : ∀ s t, Step s t → lost s → lost t) (status : Status) :
    device.Stable (Closing Q lost status) := fun s t hmove hs => by
  obtain ⟨m, hm⟩ := hmove
  have hstep := step_of_move hm
  cases hs with
  | lost hen hflushed h =>
    refine .lost ?_ (hflushed.step hstep) (hlost s t hstep h)
    rw [ctrlEn, hstep.ctrl]
    exact hen
  | finished h => exact absurd hstep h.no_step
  | failed h => exact .failed (h.step hstep)

theorem wait_spec (hP : device.Stable P) (hover : ∀ s, P s → s.idleState = true →
    s.ctrlEn = true ∧ s.Flushed ∨ s.Over Q) (timeout : BitVec 32) :
    device.Triple (Result P status) (pollWhile .status isBusy timeout) fun ok s =>
      if ok = true then Closing Q (fun _ => True) status s else Result P status s := by
  refine Triple.poll (Result.stable hP status) (fun u v t hu hread => ?_) _
  obtain ⟨_, hread⟩ := hread
  cases hread
  rw [status_busy]
  cases hidle : u.idleState
  · exact hu
  · change Closing Q (fun _ => True) status u
    rcases hu with ⟨rfl, h⟩ | h
    · rcases hover u h hidle with ⟨hen, hflushed⟩ | hover
      · exact .lost hen hflushed trivial
      · exact .finished hover
    · exact .failed h

theorem Closing.checkNack_spec : device.Triple (Closing Q (fun _ => True) status) (checkNack status) fun status' s =>
    (status' = i2cSuccess → status = i2cSuccess) ∧ Closing Q (fun s => s.arblostDet = true) status' s := by
  have hstable := Closing.stable (Q := Q) (fun _ _ _ (_ : True) => trivial) status
  refine Triple.bind (R := fun v s => Closing Q (fun _ => True) status s ∧ v = s.isr) ?_ fun v => ?_
  · exact getIsr_spec hstable fun s hs => ⟨hs, rfl⟩
  · refine Triple.ret fun s hs => ?_
    obtain ⟨hs, rfl⟩ := hs
    split
    · rename_i hv
      have hflag : s.flushTxfifo = true := by simp [flushTxfifo, isr_nackDet.mp hv]
      refine ⟨fun h => absurd h (by decide), ?_⟩
      cases hs with
      | lost hen hflushed _ => exact .failed (.aborted (Or.inl rfl) hen hflushed)
      | finished h => exact absurd (h.unflagged.symm.trans hflag) (by decide)
      | failed h =>
        obtain ⟨cmds, popped, -, hgoing⟩ := h.going
        exact .failed (.aborted (Or.inl rfl) hgoing.enabled (hgoing.sound hflag))
    · rename_i hv
      have hnack : s.nackDet = false := by simpa using mt isr_nackDet.mpr hv
      refine ⟨id, ?_⟩
      cases hs with
      | lost hen hflushed _ => exact .lost hen hflushed (by simpa [flushTxfifo, hnack] using hflushed.flag)
      | finished h => exact .finished h
      | failed h => exact .failed h

/-- After the wait and the last look at the flag the core is disabled. A transaction that has failed stays failed. -/
theorem finish_spec (hP : device.Stable P) (hgoing : ∀ s, P s → ∃ cmds popped, StopsLast cmds ∧ s.Going cmds popped)
    (hover : ∀ s, P s → s.idleState = true → s.ctrlEn = true ∧ s.Flushed ∨ s.Over Q)
    (hQ : ∀ s v, Q s → Q (s.writeCtrl v)) (size : Nat) :
    device.Triple (Result P status) (finish size status) fun status' s =>
      (status' = i2cSuccess → status = i2cSuccess) ∧ Ended Q status' s := by
  refine Triple.bind (wait_spec hP hover _) fun ok => ?_
  refine Triple.bind (R := fun status' s => (status' = i2cSuccess → status = i2cSuccess) ∧
    Closing Q (fun s => s.arblostDet = true) status' s) ?_ fun status' => ?_
  · refine Closing.checkNack_spec.conseq (fun s hs => ?_) fun status' s hs => ⟨fun h => ?_, hs.2⟩
    · cases ok with
      | true => simpa using hs
      | false =>
        simp only [Bool.false_eq_true, if_false] at hs ⊢
        refine .failed ?_
        rcases hs with ⟨-, h⟩ | h
        · obtain ⟨cmds, popped, hlast, hgoing⟩ := hgoing s h
          exact .late cmds popped hlast hgoing
        · obtain ⟨cmds, popped, hlast, hgoing⟩ := h.going
          exact .late cmds popped hlast hgoing
    · cases ok with
      | true => exact hs.1 h
      | false =>
      have hlate : i2cTimeout ≠ i2cSuccess := by decide
      exact absurd (hs.1 h) hlate
  · refine Triple.bind (R := fun _ s => (status' = i2cSuccess → status = i2cSuccess) ∧ Ended Q status' s) ?_ fun _ =>
      Triple.ret fun s hs => hs
    by_cases hkeep : status' = i2cSuccess → status = i2cSuccess
    · refine (disable_spec (Closing.stable (fun _ _ hstep h => hstep.arblostDet h) status') fun s v hs hc => ⟨hkeep, ?_⟩).conseq
        (fun s hs => hs.2) fun _ _ h => h
      cases hs with
      | lost hen hflushed h => exact .success (hflushed.writeCtrl hc) (Or.inl h)
      | finished h => exact .success (h.writeCtrl hc) (Or.inr (hQ s v h.holds))
      | failed h =>
        cases h with
        | late cmds popped hlast hgoing => exact .late ⟨hc, hgoing.sound.writeCtrl v⟩
        | aborted hstatus hen hflushed => exact .failed hstatus (hflushed.writeCtrl hc)
    · exact fun s hs => absurd hs.1 hkeep

/-- The end of a transaction that has failed. -/
theorem finish_failed (hne : status ≠ i2cSuccess) (size : Nat) :
    device.Triple (Failed status) (finish size status) fun status' s => status' ≠ i2cSuccess ∧ Ended Q status' s := by
  have h : device.Triple (Result (fun _ => False) status) (finish size status) _ :=
    finish_spec (Q := fun _ => False) (fun _ _ _ h => h) (fun _ h => h.elim) (fun _ h => h.elim) (fun _ _ h => h) size
  exact h.conseq (fun s hs => Or.inr hs) fun status' s hs => ⟨mt hs.1 hne, hs.2.mono False.elim⟩

end Finish

/-! ### Sending -/

/-- The first byte of a message. -/
def addressByte (dev : Dev) (rwBit : BitVec 32) : BitVec 8 := ((dev.masterTargetAddress <<< 1) ||| rwBit).setWidth 8

/-- The commands of the bytes of a transmission. -/
def byteWords (issueStop : Bool) : List (BitVec 8) → List (BitVec 10)
  | [] => []
  | [b] => [word b false issueStop]
  | b :: rest => word b false false :: byteWords issueStop rest

def transmission (dev : Dev) (bytes : List (BitVec 8)) : List Item :=
  ⟨.addr, addressByte dev 0⟩ :: bytes.map fun b => ⟨.tx, b⟩

section Send
variable {dev : Dev} {cmds : List (BitVec 10)} {popped bytes : List (BitVec 8)} {w : BitVec 10} {s : Core}

theorem Core.Open.snoc (hopen : Open cmds) (hw : stopCmd w = false) : Open (cmds ++ [w]) := by
  intro v hv
  rcases List.mem_append.mp hv with h | h
  · exact hopen v h
  · obtain rfl := List.mem_singleton.mp h
    exact hw

theorem sendAddress_spec (hdev : dev.addressMode10Bit = false) (hopen : Open cmds) (rwBit : BitVec 32)
    (issueRestart : Bool) : device.Triple (Going cmds popped) (sendAddress dev rwBit issueRestart)
      (Result (Going (cmds ++ [word (addressByte dev rwBit) issueRestart false]) popped)) := by
  unfold sendAddress
  rw [if_neg (by simp [hdev])]
  exact cmdWrite_spec hopen (addressByte dev rwBit) issueRestart false

theorem sendBytes_spec (issueStop : Bool) (hopen : Open cmds) (hbytes : bytes ≠ []) :
    device.Triple (Going cmds popped) (sendBytes issueStop bytes)
      (Result (Going (cmds ++ byteWords issueStop bytes) popped)) := by
  induction bytes generalizing cmds with
  | nil => exact absurd rfl hbytes
  | cons b rest ih =>
    cases rest with
    | nil => exact cmdWrite_spec hopen b false issueStop
    | cons c rest =>
      refine Triple.bind (cmdWrite_spec hopen b false false) fun status => Triple.ite (fun hok => ?_) fun hfail => ?_
      · have hrest := ih (hopen.snoc (word_stop b false false)) (by simp)
        rw [List.append_assoc] at hrest
        refine hrest.conseq (fun s hs => ?_) fun _ _ h => h
        rcases hs with ⟨-, h⟩ | h
        · exact h
        · exact absurd hok h.ne_success
      · refine Triple.ret fun s hs => ?_
        rcases hs with ⟨hok, -⟩ | h
        · exact absurd hok hfail
        · exact Or.inr h

/-- What an idle core has done of the commands, when the driver has read all that they ask for. -/
theorem Core.Going.over (hs : s.Going cmds popped) (hne : cmds ≠ []) (hall : popped.length = asked none cmds)
    (hidle : s.idleState = true) : s.ctrlEn = true ∧ s.Flushed ∨
      s.Over fun s => ∃ items, s.Delivered cmds items ∧ received items = popped := by
  rw [idleState_iff] at hidle
  rcases hs.message with hflushed | ⟨hflush, htransit⟩
  · exact Or.inl ⟨hs.enabled, hflushed⟩
  · cases htransit with
    | waiting hfsm => simp [hne] at hfsm; rcases hfsm with h | h <;> simp [h] at hidle
    | shifting _ _ hfsm => simp [hfsm] at hidle
    | holding _ hfsm => simp [hfsm] at hidle
    | stopping hfsm => simp [hfsm] at hidle
    | done items hfsm hdelivered htx hbytes hstop =>
      have hlen := hdelivered.2.received_length
      have heq : popped ++ s.rxfifo = received items := hbytes.eq_of_length_le (by simp [hlen, hall])
      have hrx : s.rxfifo = [] := by
        have h := congrArg List.length heq
        rw [List.length_append, hlen, hall] at h
        exact List.length_eq_zero_iff.mp (Nat.add_eq_left.mp h)
      rw [hrx, List.append_nil] at heq
      exact Or.inr ⟨hs.enabled, hflush, hfsm, htx, hrx, items, hdelivered, heq.symm⟩

end Send

/-! ### The message of a transmission -/

section Spelling
variable {dir : Option Bool} {ws vs : List (BitVec 10)} {items : List Item}

theorem Core.Spells.split (h : Spells dir (ws ++ vs) items) :
    ∃ a b, items = a ++ b ∧ Spells dir ws a ∧ Spells (ws.foldl turn dir) vs b := by
  induction ws generalizing dir items with
  | nil => exact ⟨[], items, rfl, rfl, h⟩
  | cons w ws ih =>
    cases items with
    | nil => exact h.elim
    | cons i items =>
      obtain ⟨hi, hbyte, hrest⟩ := h
      obtain ⟨a, b, rfl, ha, hb⟩ := ih hrest
      exact ⟨i :: a, b, rfl, ⟨hi, hbyte, ha⟩, hb⟩

theorem addressByte_write (dev : Dev) : (addressByte dev 0).getLsbD 0 = false := by
  simp [addressByte]

theorem addressByte_read (dev : Dev) : (addressByte dev 1).getLsbD 0 = true := by
  simp [addressByte]

theorem role_word (rw : Bool) (b : BitVec 8) (issueStop : Bool) :
    role (some rw) (word b false issueStop) = if rw = true then .rx else .tx := by
  simp [role, word_restart]

theorem turn_word (rw : Bool) (b : BitVec 8) (issueStop : Bool) : turn (some rw) (word b false issueStop) = some rw := by
  cases rw <;> simp [turn, role_word]

theorem byteWords_cons (issueStop : Bool) (b : BitVec 8) (rest : List (BitVec 8)) :
    ∃ stop, byteWords issueStop (b :: rest) = word b false stop :: byteWords issueStop rest := by
  cases rest with
  | nil => exact ⟨issueStop, rfl⟩
  | cons c rest => exact ⟨false, rfl⟩

theorem foldl_byteWords (issueStop rw : Bool) (bytes : List (BitVec 8)) :
    (byteWords issueStop bytes).foldl turn (some rw) = some rw := by
  induction bytes with
  | nil => rfl
  | cons b rest ih =>
    obtain ⟨stop, h⟩ := byteWords_cons issueStop b rest
    rw [h, List.foldl_cons, turn_word, ih]

theorem asked_byteWords (issueStop rw : Bool) (bytes : List (BitVec 8)) :
    asked (some rw) (byteWords issueStop bytes) = if rw = true then bytes.length else 0 := by
  induction bytes with
  | nil => cases rw <;> rfl
  | cons b rest ih =>
    obtain ⟨stop, h⟩ := byteWords_cons issueStop b rest
    rw [h, asked, turn_word, ih, role_word]
    cases rw
    · rfl
    · exact Nat.add_comm 1 rest.length

/-- None of the commands but the last stops. -/
theorem byteWords_snoc (issueStop : Bool) (init : List (BitVec 8)) (b : BitVec 8) :
    byteWords issueStop (init ++ [b]) = init.map (fun c => word c false false) ++ [word b false issueStop] := by
  induction init with
  | nil => rfl
  | cons c init ih =>
    rw [List.map_cons, List.cons_append, List.cons_append, ← ih]
    cases init <;> rfl

theorem open_byteWords (bytes : List (BitVec 8)) : Open (byteWords false bytes) := by
  rcases List.eq_nil_or_concat bytes with rfl | ⟨init, b, rfl⟩
  · exact fun _ hw => absurd hw List.not_mem_nil
  · rw [List.concat_eq_append, byteWords_snoc]
    intro w hw
    rcases List.mem_append.mp hw with h | h
    · obtain ⟨c, -, rfl⟩ := List.mem_map.mp h
      exact word_stop c false false
    · obtain rfl := List.mem_singleton.mp h
      exact word_stop b false false

theorem Core.Spells.bytes {issueStop : Bool} {bytes : List (BitVec 8)}
    (h : Spells (some false) (byteWords issueStop bytes) items) : items = bytes.map fun b => ⟨.tx, b⟩ := by
  induction bytes generalizing items with
  | nil => exact h
  | cons b rest ih =>
    obtain ⟨stop, hcons⟩ := byteWords_cons issueStop b rest
    rw [hcons] at h
    cases items with
    | nil => exact h.elim
    | cons i items =>
      obtain ⟨hi, hbyte, hrest⟩ := h
      obtain ⟨r, c⟩ := i
      rw [role_word] at hi
      obtain rfl : r = .tx := hi
      obtain rfl : c = b := (hbyte fun hrx => by cases hrx).trans (word_byte b false stop)
      rw [turn_word] at hrest
      rw [List.map_cons, ih hrest]

theorem Core.Spells.transmission {issueStop : Bool} {dev : Dev} {bytes : List (BitVec 8)}
    (h : Spells none (word (addressByte dev 0) false false :: byteWords issueStop bytes) items) :
    items = AvalonI2c.transmission dev bytes := by
  cases items with
  | nil => exact h.elim
  | cons i items =>
    obtain ⟨hi, hbyte, hrest⟩ := h
    obtain ⟨r, c⟩ := i
    obtain rfl : r = .addr := hi
    obtain rfl : c = addressByte dev 0 := (hbyte fun hrx => by cases hrx).trans (word_byte _ false false)
    have hturn : turn none (word (addressByte dev 0) false false) = some false := by
      rw [turn_addr rfl, word_rw, addressByte_write]
    rw [hturn] at hrest
    rw [hrest.bytes, AvalonI2c.transmission]

end Spelling

/-! ### A transmission -/

section Transmit
variable {dev : Dev} {buffer : List (BitVec 8)} {P : Core → Prop} {status : Status}

/-- What follows a step that may have failed. -/
theorem Triple.result {α : Type} {p q : Io α} {Q : α → Core → Prop} (hp : device.Triple P p Q)
    (hq : status ≠ i2cSuccess → device.Triple (Failed status) q Q) :
    device.Triple (Result P status) (if status = i2cSuccess then p else q) Q :=
  Triple.ite (fun hok => hp.conseq (fun s hs => by
      rcases hs with ⟨-, h⟩ | h
      · exact h
      · exact absurd hok h.ne_success) fun _ _ h => h)
    fun hfail => (hq hfail).conseq (fun s hs => by
      rcases hs with ⟨hok, -⟩ | h
      · exact absurd hok hfail
      · exact h) fun _ _ h => h

/-- The commands of a transmission, written one by one. -/
def transmitWords (dev : Dev) (issueStop : Bool) (buffer : List (BitVec 8)) : List (BitVec 10) :=
  word (addressByte dev 0) false false :: byteWords issueStop buffer

theorem open_transmitWords (dev : Dev) (buffer : List (BitVec 8)) : Open (transmitWords dev false buffer) := fun w hw => by
  rcases List.mem_cons.mp hw with rfl | hw
  · exact word_stop _ _ _
  · exact open_byteWords buffer w hw

theorem open_nil : Open [] := fun _ hw => absurd hw List.not_mem_nil

theorem transmitBytes_spec (hne : buffer ≠ []) (issueStop : Bool) :
    device.Triple (Result (Going [word (addressByte dev 0) false false] []) status)
      (if status = i2cSuccess then sendBytes issueStop buffer else pure status)
      (Result (Going (transmitWords dev issueStop buffer) [])) :=
  Triple.result (sendBytes_spec issueStop (open_nil.snoc (word_stop _ false false)) hne) fun _ =>
    Triple.ret fun _ hs => Or.inr hs

/-- A transmission that is not to stop leaves its commands to the next. -/
theorem masterTransmit_open (hdev : dev.addressMode10Bit = false) (hne : buffer ≠ []) :
    device.Triple Calm (masterTransmit dev buffer false false) fun status s =>
      status = i2cSuccess ∧ s.Going (transmitWords dev false buffer) [] ∨
      status ≠ i2cSuccess ∧ Ended (fun _ => False) status s := by
  unfold masterTransmit
  rw [if_neg (by simpa using hne)]
  refine Triple.bind begin_spec fun status => Triple.ite (fun hfail s hs => absurd hs.1 hfail) fun _ => ?_
  refine Triple.bind ((sendAddress_spec hdev open_nil 0 false).conseq (fun s hs => hs.2) fun _ _ h => h) fun status => ?_
  refine Triple.bind (transmitBytes_spec hne false) fun status => Triple.ite (fun hfail => ?_) fun hok => ?_
  · have hfail : status ≠ i2cSuccess := hfail.resolve_left (by decide)
    refine (finish_failed hfail buffer.length).conseq (fun s hs => ?_) fun _ _ h => Or.inr h
    rcases hs with ⟨hok, -⟩ | h
    · exact absurd hok hfail
    · exact h
  · refine Triple.ret fun s hs => Or.inl ?_
    rcases hs with h | h
    · exact h
    · exact absurd (Or.inr h.ne_success) hok

/-- The commands of a transmission that stops: the last one does, and it alone. -/
theorem stops_of_bytes {cmds : List (BitVec 10)} {buffer : List (BitVec 8)} (hopen : Open cmds) (hne : buffer ≠ []) :
    StopsLast (cmds ++ byteWords true buffer) ∧ ∃ w ∈ cmds ++ byteWords true buffer, stopCmd w = true := by
  rcases List.eq_nil_or_concat buffer with rfl | ⟨init, b, rfl⟩
  · exact absurd rfl hne
  · rw [List.concat_eq_append, byteWords_snoc, ← List.append_assoc]
    refine ⟨Open.snoc_stopsLast (fun w hw => ?_) _, word b false true, by simp, word_stop b false true⟩
    rcases List.mem_append.mp hw with h | h
    · exact hopen w h
    · obtain ⟨c, -, rfl⟩ := List.mem_map.mp h
      exact word_stop c false false

theorem asked_transmitWords (dev : Dev) (issueStop : Bool) (buffer : List (BitVec 8)) :
    asked none (transmitWords dev issueStop buffer) = 0 := by
  rw [transmitWords, asked, turn_addr rfl, word_rw, addressByte_write, asked_byteWords]
  rfl

/-- A transmission that reports success has put the address and the bytes on the bus, each acknowledged, and a stop;
    unless the arbitration was lost on the way. -/
theorem masterTransmit_spec (hdev : dev.addressMode10Bit = false) (hne : buffer ≠ []) :
    device.Triple Calm (masterTransmit dev buffer false true) (Ended (Last (transmission dev buffer))) := by
  unfold masterTransmit
  rw [if_neg (by simpa using hne)]
  refine Triple.bind begin_spec fun status => Triple.ite (fun hfail s hs => absurd hs.1 hfail) fun _ => ?_
  refine Triple.bind ((sendAddress_spec hdev open_nil 0 false).conseq (fun s hs => hs.2) fun _ _ h => h) fun status => ?_
  refine Triple.bind (transmitBytes_spec hne true) fun status => Triple.ite (fun _ => ?_) fun h => absurd (Or.inl rfl) h
  have hlast : StopsLast (transmitWords dev true buffer) :=
    (stops_of_bytes (open_nil.snoc (word_stop (addressByte dev 0) false false)) hne).1
  refine (finish_spec (going_stable _ hlast) (fun s hs => ⟨_, _, hlast, hs⟩)
    (fun s hs hidle => hs.over (List.cons_ne_nil _ _) ((List.length_nil).trans (asked_transmitWords dev true buffer).symm) hidle)
    (fun s v hs => hs) buffer.length).conseq (fun s hs => hs) fun status s hs => hs.2.mono ?_
  rintro ⟨items, ⟨hitems, hspells⟩, -⟩
  rw [← hspells.transmission]
  exact hitems

end Transmit

end EcranMagique.AvalonI2c
