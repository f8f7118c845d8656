import EcranMagique.AvalonI2c.Retry

/-! Transactions on a core that is not theirs. A core that is enabled has a message on its way, and every transaction
    leaves it as it is and reports that it is busy: of each attempt it sees one read of its control register. -/

namespace EcranMagique.AvalonI2c
open Registers Registers.Device EcranMagique.AvalonI2c.Core

/-- What is known of the core, when `n` reads of its control register are all the accesses that it has seen. -/
def Occupied (P : Core → Prop) (n : Nat) (s : Core × List (Access Reg)) : Prop :=
  P s.1 ∧ s.2 = List.replicate n (.read .ctrl)

/-! ### One attempt -/

section Attempt
variable {P : Core → Prop} {dev : Dev} {buffer txbuffer rxbuffer : List (BitVec 8)} {fuel n : Nat}

theorem Occupied.stable (hP : device.Stable P) (n : Nat) : device.recorded.Stable (Occupied P n) :=
  fun _ _ ⟨hmove, hrecord⟩ hs => ⟨hP _ _ hmove hs.1, hrecord.trans hs.2⟩

theorem enable_occupied (hP : device.Stable P) (hen : ∀ s, P s → s.ctrlEn = true) :
    device.recorded.Triple (Occupied P n) enable fun status s => status = i2cBusy ∧ Occupied P (n + 1) s := by
  refine Triple.bind (R := fun v s => v &&& ctrlEnMsk ≠ 0 ∧ Occupied P (n + 1) s) ?_ fun v =>
    Triple.ite (fun _ => ?_) fun hv => ?_
  · refine Triple.get (Occupied.stable hP n) fun u v t hu hread => ?_
    obtain ⟨t, l⟩ := t
    obtain ⟨⟨_, hread⟩, hrecord⟩ := hread
    cases hread
    exact ⟨(ctrl_enabled _).mpr (hen u.1 hu.1), hu.1, by rw [hrecord, hu.2, List.replicate_succ']⟩
  · exact Triple.ret fun s hs => ⟨rfl, hs.2⟩
  · exact fun s hs => absurd hs.1 hv

theorem begin_occupied (hP : device.Stable P) (hen : ∀ s, P s → s.ctrlEn = true) :
    device.recorded.Triple (Occupied P n) (begin false) fun status s => status = i2cBusy ∧ Occupied P (n + 1) s := by
  refine Triple.bind (enable_occupied hP hen) fun status => Triple.ite (fun _ => Triple.ret fun s hs => hs) fun hok s hs => ?_
  exact absurd hs.1 fun h => hok (h ▸ by decide)

theorem masterTransmit_occupied (hP : device.Stable P) (hen : ∀ s, P s → s.ctrlEn = true) (hne : buffer ≠ [])
    (issueStop : Bool) : device.recorded.Triple (Occupied P n) (masterTransmit dev buffer false issueStop)
      fun status s => status = i2cBusy ∧ Occupied P (n + 1) s := by
  unfold masterTransmit
  rw [if_neg (by simpa using hne)]
  refine Triple.bind (begin_occupied hP hen) fun status => Triple.ite (fun _ => Triple.ret fun s hs => hs) fun hok s hs => ?_
  exact absurd hs.1 fun h => hok (h ▸ by decide)

theorem masterReceive_occupied (hP : device.Stable P) (hen : ∀ s, P s → s.ctrlEn = true) (hne : buffer ≠ []) :
    device.recorded.Triple (Occupied P n) (masterReceive fuel dev buffer false true)
      fun r s => r = (i2cBusy, buffer) ∧ Occupied P (n + 1) s := by
  unfold masterReceive
  rw [if_neg (by simpa using hne)]
  refine Triple.bind (begin_occupied hP hen) fun status =>
    Triple.ite (fun _ => Triple.ret fun s hs => ⟨by rw [hs.1], hs.2⟩) fun hok s hs => ?_
  exact absurd hs.1 fun h => hok (h ▸ by decide)

theorem txRx_occupied (hP : device.Stable P) (hen : ∀ s, P s → s.ctrlEn = true) (hne : txbuffer ≠ []) :
    device.recorded.Triple (Occupied P n) (txRx fuel dev txbuffer rxbuffer)
      fun r s => r = (i2cBusy, rxbuffer) ∧ Occupied P (n + 1) s := by
  refine Triple.bind (masterTransmit_occupied hP hen hne false) fun status =>
    Triple.ite (fun _ => Triple.ret fun s hs => ⟨by rw [hs.1], hs.2⟩) fun hagain s hs => ?_
  exact absurd hs.1 fun h => hagain (h ▸ by decide)

/-! ### All the attempts -/

/-- Every attempt finds the core as the one before it, gives the same result, and is made again. `K` is what an attempt
    needs of the result before. -/
theorem retry_occupied {α : Type} {again : α → Bool} {attempt : α → Io α} {K : α → Prop} {busy first : α}
    (hP : device.Stable P) (hfirst : K first) (hbusy : K busy) (hagain : again busy = true)
    (h : ∀ a n, K a → device.recorded.Triple (Occupied P n) (attempt a) fun b s => b = busy ∧ Occupied P (n + 1) s) :
    device.recorded.Triple (Occupied P n) (Prog.retry again late sleepUs attempt retries first) fun b s =>
      b = busy ∧ Occupied P (n + retries) s := by
  refine (Triple.retry_all (P := fun k a s => (K a ∧ (0 < k → a = busy)) ∧ Occupied P (n + k) s)
    (fun k _ s t hmove hs => ⟨hs.1, Occupied.stable hP (n + k) s t hmove hs.2⟩) (fun k a => ?_) retries 0 first).conseq
    (fun s hs => ⟨⟨hfirst, fun hpos => absurd hpos (Nat.lt_irrefl 0)⟩, hs⟩) fun b s hs => ?_
  · rintro s ⟨⟨hK, -⟩, hs⟩
    refine wp_mono (h a (n + k) hK s hs) fun b t ht => ?_
    obtain ⟨rfl, ht⟩ := ht
    exact ⟨hagain, ⟨hbusy, fun _ => rfl⟩, ht⟩
  · rw [Nat.zero_add] at hs
    exact ⟨hs.1.2 retries_pos, hs.2⟩

theorem masterTx_occupied (hP : device.Stable P) (hen : ∀ s, P s → s.ctrlEn = true) (hne : buffer ≠ []) :
    device.recorded.Triple (Occupied P n) (masterTx dev buffer) fun status s =>
      status = i2cBusy ∧ Occupied P (n + retries) s :=
  retry_occupied (K := fun _ => True) hP trivial trivial rfl fun _ _ _ => masterTransmit_occupied hP hen hne true

theorem masterRx_occupied (hP : device.Stable P) (hen : ∀ s, P s → s.ctrlEn = true) (hne : buffer ≠ []) :
    device.recorded.Triple (Occupied P n) (masterRx fuel dev buffer) fun r s =>
      r = (i2cBusy, buffer) ∧ Occupied P (n + retries) s :=
  retry_occupied (K := fun r => r.2 = buffer) hP rfl rfl rfl fun _ _ hr => hr ▸ masterReceive_occupied hP hen (hr ▸ hne)

theorem masterTxRx_occupied (hP : device.Stable P) (hen : ∀ s, P s → s.ctrlEn = true) (hne : txbuffer ≠ []) :
    device.recorded.Triple (Occupied P n) (masterTxRx fuel dev txbuffer rxbuffer) fun r s =>
      r = (i2cBusy, rxbuffer) ∧ Occupied P (n + retries) s :=
  retry_occupied (K := fun r => r.2 = rxbuffer) hP rfl rfl rfl fun _ _ hr => hr ▸ txRx_occupied hP hen hne

end Attempt

/-! ### Requests -/

/-- Requests one after the other, each with its device, and what they report. -/
def serve (fuel : Nat) : List (Dev × Request) → Io (List (Status × List (BitVec 8)))
  | [] => pure []
  | (dev, q) :: rest => do
    let r ← q.run fuel dev
    let others ← serve fuel rest
    pure (r :: others)

section Requests
variable {P : Core → Prop} {n : Nat}

/-- All the attempts of a request are made, and none changes anything. -/
theorem Request.run_occupied (hP : device.Stable P) (hen : ∀ s, P s → s.ctrlEn = true) (fuel : Nat) (dev : Dev)
    (q : Request) : device.recorded.Triple (Occupied P n) (q.run fuel dev) fun r s =>
      r = (i2cBusy, q.received) ∧ Occupied P (n + retries) s := by
  cases q with
  | tx buffer hne =>
    refine Triple.bind (masterTx_occupied hP hen hne) fun status => Triple.ret fun s hs => ⟨?_, hs.2⟩
    rw [hs.1]
    rfl
  | rx buffer hne => exact masterRx_occupied hP hen hne
  | txRx txbuffer rxbuffer htx hrx => exact masterTxRx_occupied hP hen htx

theorem serve_recorded (hP : device.Stable P) (hen : ∀ s, P s → s.ctrlEn = true) (fuel : Nat) (qs : List (Dev × Request)) :
    device.recorded.Triple (Occupied P n) (serve fuel qs) fun rs s =>
      rs = qs.map (fun q => (i2cBusy, q.2.received)) ∧ Occupied P (n + qs.length * retries) s := by
  induction qs generalizing n with
  | nil => exact Triple.ret fun s hs => ⟨rfl, by simpa using hs⟩
  | cons q rest ih =>
    obtain ⟨dev, q⟩ := q
    have hcount : n + retries + rest.length * retries = n + (rest.length + 1) * retries := by
      rw [Nat.succ_mul, Nat.add_right_comm, Nat.add_assoc]
    refine Triple.bind (Request.run_occupied hP hen fuel dev q) fun r => ?_
    rintro s ⟨rfl, hs⟩
    refine Triple.bind ih (fun rs => Triple.ret fun t ht => ⟨?_, hcount ▸ ht.2⟩) s hs
    rw [ht.1]
    rfl

/-- However many requests come while a message is on its way, none touches it, and all report that the core is busy.
    Each makes its 10000 attempts, and a read of the control register is all that an attempt does to the core. -/
theorem serve_occupied (hP : device.Stable P) (hen : ∀ s, P s → s.ctrlEn = true) (fuel : Nat) (qs : List (Dev × Request)) :
    device.Triple P (serve fuel qs) (fun rs s => rs = qs.map (fun q => (i2cBusy, q.2.received)) ∧ P s) ∧
    device.recorded.Triple (fun s => P s.1 ∧ s.2 = []) (serve fuel qs) fun _ s =>
      s.2 = List.replicate (qs.length * 10000) (.read .ctrl) := by
  have hrecorded := serve_recorded (n := 0) hP hen fuel qs
  constructor
  · exact fun s hs => wp_of_recorded (l := []) (wp_mono (hrecorded (s, []) ⟨hs, rfl⟩) fun rs t ht => ⟨ht.1, ht.2.1⟩)
  · refine hrecorded.conseq (fun s hs => hs) fun rs t ht => ?_
    rw [Nat.zero_add] at ht
    exact ht.2.2

/-- The first half of an exchange holds the core until its second half. -/
theorem serve_occupied_exchange :
    device.Triple (Going (transmitWords ⟨0x53, 50000000, false⟩ false [0x32]) [])
      (serve 2 [(⟨0x53, 50000000, false⟩, .tx [0x2D, 0x08] (by decide)), (⟨0x1D, 50000000, false⟩, .rx [0] (by decide))])
      (fun rs s => rs = [(i2cBusy, []), (i2cBusy, [0])] ∧
        s.Going (transmitWords ⟨0x53, 50000000, false⟩ false [0x32]) []) ∧
    device.recorded.Triple
      (fun s => s.1.Going (transmitWords ⟨0x53, 50000000, false⟩ false [0x32]) [] ∧ s.2 = [])
      (serve 2 [(⟨0x53, 50000000, false⟩, .tx [0x2D, 0x08] (by decide)), (⟨0x1D, 50000000, false⟩, .rx [0] (by decide))])
      fun _ s => s.2 = List.replicate (2 * 10000) (.read .ctrl) :=
  serve_occupied (going_stable [] (open_transmitWords _ _).stopsLast) (fun _ hs => hs.enabled) 2
    [(⟨0x53, 50000000, false⟩, .tx [0x2D, 0x08] (by decide)), (⟨0x1D, 50000000, false⟩, .rx [0] (by decide))]

end Requests

end EcranMagique.AvalonI2c
