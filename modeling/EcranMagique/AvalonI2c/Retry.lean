import EcranMagique.AvalonI2c.Receive

/-! The transactions of the application: attempts that are made again after a refusal, a lost arbitration or a busy
    core. What an attempt leaves to the next is a calm core. -/

namespace EcranMagique.AvalonI2c
open Registers Registers.Device EcranMagique.AvalonI2c.Core

section Again
variable {P Q : Core → Prop} {status : Status} {s : Core}

/-- But for a timeout, a transaction leaves the core calm. -/
theorem Ended.calm (h : Ended Q status s) (hlate : status ≠ i2cTimeout) : s.Calm := by
  cases h with
  | success hcalm => exact hcalm
  | failed _ hcalm => exact hcalm
  | late => exact absurd rfl hlate

theorem Ended.calm_of_again (h : Ended Q status s) (hagain : again status = true) : s.Calm :=
  h.calm fun hlate => absurd (hlate ▸ hagain) (by decide)

theorem Ended.success_or (h : Ended Q status s) (hok : status = i2cSuccess) : s.arblostDet = true ∨ Q s := by
  cases h with
  | success _ h => exact h
  | failed hstatus => rcases hstatus with rfl | rfl <;> exact absurd hok (by decide)
  | late => exact absurd hok (by decide)

theorem Ended.off (h : Ended Q status s) : s.Off := by
  cases h with
  | success hcalm => exact ⟨hcalm.disabled, hcalm.sound⟩
  | failed _ hcalm => exact ⟨hcalm.disabled, hcalm.sound⟩
  | late hoff => exact hoff

end Again

/-! ### A disabled core -/

section Off
variable {dev : Dev} {buffer : List (BitVec 8)} {fuel : Nat} {Q : Core → Prop}

/-- The ready flag is masked, so that no command is written to a disabled core. -/
theorem cmdWrite_off (val : BitVec 8) (issueRestart issueStop : Bool) :
    device.Triple Off (cmdWrite val issueRestart issueStop) fun status s => status = i2cTimeout ∧ s.Off := by
  refine Triple.bind (R := fun ok s => if ok = true then False else Off s) ?_ fun ok =>
    Triple.ite (fun hok => ?_) fun hok => Triple.ret fun s hs => ⟨rfl, by simpa [hok] using hs⟩
  · refine Triple.poll Off.stable (fun u v t hu hread => ?_) _
    obtain ⟨_, hread⟩ := hread
    cases hread
    have hready : u.isr &&& isrTxReadyMsk = 0 := isr_txReady.mpr (by simp [txReadyMask, hu.1])
    rw [if_pos (decide_eq_true hready)]
    exact hu
  · exact fun s hs => by simp [hok] at hs

theorem sendAddress_off (rwBit : BitVec 32) (issueRestart : Bool) :
    device.Triple Off (sendAddress dev rwBit issueRestart) fun status s => status = i2cTimeout ∧ s.Off := by
  unfold sendAddress
  refine Triple.ite (fun _ => ?_) fun _ => cmdWrite_off _ _ _
  exact Triple.bind (cmdWrite_off _ _ _) fun _ => (cmdWrite_off _ _ _).conseq (fun s hs => hs.2) fun _ _ h => h

theorem finish_off (size : Nat) :
    device.Triple Off (finish size i2cTimeout) fun status s => status ≠ i2cSuccess ∧ Ended Q status s := by
  refine Triple.bind (R := fun _ => Off) ?_ fun ok => ?_
  · refine (Triple.poll (R := Off) Off.stable (fun u v t hu hread => ?_) _).conseq (fun s hs => hs) fun ok s hs => ?_
    · obtain ⟨_, hread⟩ := hread
      cases hread
      split <;> exact hu
    · cases ok <;> exact hs
  · have hstatus : (if ok = true then i2cTimeout else i2cTimeout) = i2cTimeout := by cases ok <;> rfl
    rw [hstatus]
    refine Triple.bind (R := fun status s => s.Off ∧ (status = i2cTimeout ∨ status = i2cNackErr ∧ s.Flushed)) ?_ fun status => ?_
    · refine Triple.bind (getIsr_spec (R := fun v s => s.Off ∧ v = s.isr) Off.stable fun s hs => ⟨hs, rfl⟩) fun v =>
        Triple.ret fun s hs => ?_
      obtain ⟨hs, rfl⟩ := hs
      refine ⟨hs, ?_⟩
      split
      · rename_i hv
        exact Or.inr ⟨rfl, hs.2 (by simp [flushTxfifo, isr_nackDet.mp hv])⟩
      · exact Or.inl rfl
    · refine Triple.bind (R := fun _ s => status ≠ i2cSuccess ∧ Ended Q status s) ?_ fun _ => Triple.ret fun s hs => hs
      refine disable_spec (fun s t hmove hs => ?_) fun s v hs hc => ?_
      · refine ⟨Off.stable s t hmove hs.1, hs.2.imp_right fun h => ⟨h.1, ?_⟩⟩
        obtain ⟨m, hm⟩ := hmove
        exact h.2.step (step_of_move hm)
      · obtain ⟨hoff, rfl | ⟨rfl, hflushed⟩⟩ := hs
        · exact ⟨by decide, .late ⟨hc, hoff.2.writeCtrl v⟩⟩
        · exact ⟨by decide, .failed (Or.inl rfl) (hflushed.writeCtrl hc)⟩

/-- A reception that goes on from a transaction that is over cannot succeed: nothing has enabled the core. -/
theorem masterReceive_off (hne : buffer ≠ []) : device.Triple Off (masterReceive fuel dev buffer true true) fun r s =>
    r.2 = buffer ∧ r.1 ≠ i2cSuccess ∧ Ended Q r.1 s := by
  unfold masterReceive
  rw [if_neg (by simpa using hne)]
  refine Triple.bind (R := fun status s => status = i2cSuccess ∧ s.Off) (Triple.ret fun s hs => ⟨rfl, hs⟩) fun status =>
    Triple.ite (fun hfail s hs => absurd hs.1 hfail) fun _ => ?_
  refine Triple.bind ((sendAddress_off 1 true).conseq (fun s hs => hs.2) fun _ _ h => h) fun status => ?_
  refine Triple.bind (R := fun r s => r = (i2cTimeout, buffer, 0) ∧ s.Off) (Triple.ite (fun hok s hs => ?_) fun _ =>
    Triple.ret fun s hs => ⟨by rw [hs.1], hs.2⟩) ?_
  · exact absurd (hs.1.symm.trans hok) (by decide)
  · rintro ⟨status, stored, count⟩
    refine Triple.bind (R := fun r s => r = (i2cTimeout, buffer) ∧ s.Off) (Triple.ite (fun hok s hs => ?_) fun _ =>
      Triple.ret fun s hs => ?_) ?_
    · obtain ⟨heq, -⟩ := hs
      cases heq
      exact absurd hok (by decide)
    · obtain ⟨heq, hs⟩ := hs
      cases heq
      exact ⟨rfl, hs⟩
    · rintro ⟨status, stored⟩
      refine Triple.ite (fun _ s hs => ?_) fun h => absurd (Or.inl rfl) h
      obtain ⟨heq, hs⟩ := hs
      cases heq
      exact Triple.bind (finish_off buffer.length) (fun status => Triple.ret fun s hs => ⟨rfl, hs⟩) s hs

end Off

/-! ### The transactions -/

section Transactions
variable {dev : Dev} {buffer txbuffer rxbuffer : List (BitVec 8)} {fuel : Nat}

theorem retries_pos : 0 < retries := by decide

/-- From a calm core the write of some bytes comes to an end. It leaves the core disabled, and calm unless it has run out
    of time; when it reports success, the bytes have been on the bus, each acknowledged, or the arbitration was lost. -/
theorem masterTx_spec (hdev : dev.addressMode10Bit = false) (hne : buffer ≠ []) :
    device.Triple Calm (masterTx dev buffer) (Ended (Last (transmission dev buffer))) :=
  Triple.retry (P := fun _ => Calm) (fun _ => Calm.stable)
    (fun _ => (masterTransmit_spec hdev hne).conseq (fun _ hs => hs) fun _ _ h => ⟨h, h.calm_of_again⟩) retries_pos 0

/-- Attempts that each end, with a buffer that keeps its size, end together as the last of them does. -/
theorem retry_ended {attempt : List (BitVec 8) → Io (Status × List (BitVec 8))} {Q : List (BitVec 8) → Core → Prop}
    (h : ∀ stored : List (BitVec 8), stored.length = buffer.length → device.Triple Calm (attempt stored) fun r s =>
      r.2.length = stored.length ∧ Ended (Q r.2) r.1 s) :
    device.Triple Calm (Prog.retry (fun r => again r.1) late sleepUs (fun r => attempt r.2) retries (0, buffer)) fun r s =>
      r.2.length = buffer.length ∧ Ended (Q r.2) r.1 s := by
  refine (Triple.retry (P := fun (r : Status × List (BitVec 8)) s => r.2.length = buffer.length ∧ s.Calm)
    (fun r s t hmove hs => ⟨hs.1, Calm.stable s t hmove hs.2⟩) (fun r => ?_) retries_pos (0, buffer)).conseq
    (fun s hs => ⟨rfl, hs⟩) fun _ _ h => h
  rintro s ⟨hlen, hs⟩
  refine wp_mono (h r.2 hlen s hs) fun r t ht => ?_
  have hlen' := ht.1.trans hlen
  exact ⟨⟨hlen', ht.2⟩, fun hagain => ⟨hlen', ht.2.calm_of_again hagain⟩⟩

theorem ne_nil_of_length {stored : List (BitVec 8)} (hne : buffer ≠ []) (hlen : stored.length = buffer.length) :
    stored ≠ [] := fun hnil => hne (List.length_eq_zero_iff.mp (by rw [← hlen, hnil]; rfl))

/-- A reception that does not go on from a transmission is all of its message. -/
theorem masterReceive_alone (hdev : dev.addressMode10Bit = false) (hne : buffer ≠ []) (hfuel : buffer.length < fuel) :
    device.Triple Calm (masterReceive fuel dev buffer false true) fun r s =>
      r.2.length = buffer.length ∧ Ended (Last (reception dev r.2)) r.1 s := by
  refine (masterReceive_spec false hdev hne hfuel open_nil rfl rfl begin_spec).conseq (fun s hs => hs)
    fun r s hs => ⟨hs.1, hs.2.mono ?_⟩
  rintro ⟨items, hspells, hlast⟩
  obtain rfl : items = [] := hspells
  exact hlast

theorem masterRx_spec (hdev : dev.addressMode10Bit = false) (hne : buffer ≠ []) (hfuel : buffer.length < fuel) :
    device.Triple Calm (masterRx fuel dev buffer) fun r s =>
      r.2.length = buffer.length ∧ Ended (Last (reception dev r.2)) r.1 s :=
  retry_ended (Q := fun bytes => Last (reception dev bytes)) fun _ hlen =>
    masterReceive_alone hdev (ne_nil_of_length hne hlen) (hlen ▸ hfuel)

/-- An attempt to write some bytes and, after a restart, to read. One that fails leaves the read undone. -/
theorem txRx_spec (hdev : dev.addressMode10Bit = false) (htx : txbuffer ≠ []) (hrx : rxbuffer ≠ [])
    (hfuel : rxbuffer.length < fuel) : device.Triple Calm (txRx fuel dev txbuffer rxbuffer) fun r s =>
      r.2.length = rxbuffer.length ∧ Ended (Last (transmission dev txbuffer ++ reception dev r.2)) r.1 s := by
  refine Triple.bind (masterTransmit_open hdev htx) fun status => Triple.ite (fun hagain => ?_) fun hagain => ?_
  · refine Triple.ret fun s hs => ⟨rfl, ?_⟩
    rcases hs with ⟨rfl, -⟩ | ⟨-, h⟩
    · exact absurd hagain (by decide)
    · exact h.mono False.elim
  · rintro s (⟨-, hgoing⟩ | ⟨hfail, hended⟩)
    · have hopen := open_transmitWords dev txbuffer
      have hrole : role ((transmitWords dev false txbuffer).foldl turn none) (word (addressByte dev 1) true false) = .addr := by
        rw [transmitWords, List.foldl_cons, turn_addr rfl, word_rw, addressByte_write, foldl_byteWords]
        simp [role, word_restart]
      have h := masterReceive_spec (P := Going (transmitWords dev false txbuffer) []) true hdev hrx hfuel hopen
        (asked_transmitWords dev false txbuffer) hrole (Triple.ret fun s hs => ⟨rfl, hs⟩)
      refine wp_mono (h s hgoing) fun r t ht => ⟨ht.1, ht.2.mono ?_⟩
      rintro ⟨items, hspells, hlast⟩
      rw [← hspells.transmission]
      exact hlast
    · refine wp_mono (masterReceive_off (Q := fun _ => False) hrx s hended.off) fun r t ht => ?_
      exact ⟨by rw [ht.1], ht.2.2.mono False.elim⟩

/-- From a calm core the exchange of the application comes to an end, within its buffer. When it reports success, the
    message on the bus is the address and the bytes written, each acknowledged, then the address again and the bytes of
    the slave that are in the buffer; or the arbitration was lost. -/
theorem masterTxRx_spec (hdev : dev.addressMode10Bit = false) (htx : txbuffer ≠ []) (hrx : rxbuffer ≠ [])
    (hfuel : rxbuffer.length < fuel) : device.Triple Calm (masterTxRx fuel dev txbuffer rxbuffer) fun r s =>
      r.2.length = rxbuffer.length ∧ Ended (Last (transmission dev txbuffer ++ reception dev r.2)) r.1 s :=
  retry_ended (Q := fun bytes => Last (transmission dev txbuffer ++ reception dev bytes)) fun _ hlen =>
    txRx_spec hdev htx (ne_nil_of_length hrx hlen) (hlen ▸ hfuel)

end Transactions

/-! ### Requests -/

/-- A transaction that an application asks for; none of its buffers is empty. -/
inductive Request where
  | tx (buffer : List (BitVec 8)) (hne : buffer ≠ [])
  | rx (buffer : List (BitVec 8)) (hne : buffer ≠ [])
  | txRx (txbuffer rxbuffer : List (BitVec 8)) (htx : txbuffer ≠ []) (hrx : rxbuffer ≠ [])

namespace Request

def received : Request → List (BitVec 8)
  | .tx _ _ => []
  | .rx buffer _ => buffer
  | .txRx _ rxbuffer _ _ => rxbuffer

def run (fuel : Nat) (dev : Dev) : Request → Io (Status × List (BitVec 8))
  | .tx buffer _ => do
    let status ← masterTx dev buffer
    pure (status, [])
  | .rx buffer _ => masterRx fuel dev buffer
  | .txRx txbuffer rxbuffer _ _ => masterTxRx fuel dev txbuffer rxbuffer

/-- The message of a request, when the slave answers `bytes`. -/
def message (dev : Dev) (bytes : List (BitVec 8)) : Request → List Item
  | .tx buffer _ => transmission dev buffer
  | .rx _ _ => reception dev bytes
  | .txRx txbuffer _ _ _ => transmission dev txbuffer ++ reception dev bytes

end Request

/-- Whatever the bus does, and however often it refuses: a request on a calm core comes to an end, without an access
    outside its buffers. When it reports success its message is the last one on the bus, with all the bytes of the slave
    in the buffer and all those of the master acknowledged, or the arbitration was lost; when it reports a refusal or a
    lost arbitration the core is calm again; when it has run out of time the core is disabled. -/
theorem request_ended {dev : Dev} {fuel : Nat} (q : Request) (hdev : dev.addressMode10Bit = false)
    (hfuel : q.received.length < fuel) : device.Triple Calm (q.run fuel dev) fun r s =>
      r.2.length = q.received.length ∧ Ended (Last (q.message dev r.2)) r.1 s := by
  cases q with
  | tx buffer hne => exact Triple.bind (masterTx_spec hdev hne) fun status => Triple.ret fun s hs => ⟨rfl, hs⟩
  | rx buffer hne => exact masterRx_spec hdev hne hfuel
  | txRx txbuffer rxbuffer htx hrx => exact masterTxRx_spec hdev htx hrx hfuel

/-- The first word of the accelerometer's samples, after the write of its register. -/
theorem request_ended_datax0 :
    device.Triple Calm (Request.run 3 ⟨0x53, 50000000, false⟩ (.txRx [0x32] [0, 0] (by decide) (by decide))) fun r s =>
      r.2.length = 2 ∧ Ended (Last ([⟨.addr, 0xA6⟩, ⟨.tx, 0x32⟩] ++ ⟨.addr, 0xA7⟩ :: r.2.map fun b => ⟨.rx, b⟩)) r.1 s :=
  request_ended (.txRx [0x32] [0, 0] (by decide) (by decide)) rfl (by decide)

end EcranMagique.AvalonI2c
