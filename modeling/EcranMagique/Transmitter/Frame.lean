import EcranMagique.Lib.TwoWire
import EcranMagique.Transmitter.Busy

/-! One message on the bus. From the state that launches it the controller makes a START, three bytes with their
    acknowledges and a STOP in 113 control clocks, whatever its inputs do: each byte is the one that `I2C_DATA`
    holds when the byte begins. -/

namespace EcranMagique
open Clocked TwoWire

/-- The controller, and a receiver that sees the lines before each edge. -/
structure Wire where
  wr : I2cController
  rx : Receiver
  deriving DecidableEq, Repr

namespace Wire

def lines (s : Wire) (other : Bool) : Lines := ⟨s.wr.i2cSdat other, s.wr.sclo⟩

def edge (s : Wire) (i : ControllerPins) : Wire := ⟨s.wr.edge i, s.rx.see (s.lines i.i2cSdat)⟩

/-- The other devices hold SDA low in the acknowledge clock only, or while SCL is low. -/
def Obeys (s : Wire) (other : Bool) : Prop := s.wr.sclo = true → other = false → s.rx.ninth = true

instance (s : Wire) (other : Bool) : Decidable (s.Obeys other) :=
  inferInstanceAs (Decidable (s.wr.sclo = true → other = false → s.rx.ninth = true))

theorem Obeys.released {s : Wire} {other : Bool} (h : s.Obeys other) (hscl : s.wr.sclo = true)
    (hninth : s.rx.ninth = false) : other = true := by
  cases other
  · exact absurd (h hscl rfl) (by simp [hninth])
  · rfl

/-! ### The states of a message -/

/-- The byte of `I2C_DATA` that is sent in place `m`: the address, the register, the value. -/
def payload (i2cData : BitVec 24) (m : Nat) : BitVec 8 := i2cData.extractLsb' (16 - 8 * m) 8

def refused (bytes : List Byte) : Bool := bytes.any fun b => !b.acked

/-- The writer is about to make the START. -/
def launched (a : BitVec 9) (log : List (List Byte)) : Wire where
  wr := { sdao := true, sclo := true, endOk := false, st := 1, cnt := 0, byte := 0, ackOk := false, a := a }
  rx := ⟨⟨true, true⟩, none, log⟩

/-- After `bytes`, and `k` bits of the byte `b`, the next bit is on SDA. The ninth releases the line. -/
def put (bytes : List Byte) (b : BitVec 8) (k : Nat) (log : List (List Byte)) : Wire where
  wr :=
    { sdao := (b ++ 1#1).getMsbD k, sclo := false, endOk := false, st := 4, cnt := BitVec.ofNat 8 k,
      byte := BitVec.ofNat 8 bytes.length, ackOk := refused bytes, a := (b ++ 1#1) <<< (k + 1) }
  rx := ⟨⟨false, false⟩, some ⟨bytes, (toBits b).take k⟩, log⟩

/-- The writer has made the STOP, and waits for `GO` to fall. -/
def finished (ackOk : Bool) (a : BitVec 9) (log : List (List Byte)) : Wire where
  wr := { sdao := true, sclo := true, endOk := true, st := 30, cnt := 0, byte := 0, ackOk := ackOk, a := a }
  rx := ⟨⟨true, true⟩, none, log⟩

/-- The writer will launch at the next clock, with `END_OK` still high. -/
def armed (ackOk : Bool) (a : BitVec 9) (log : List (List Byte)) : Wire where
  wr := { sdao := true, sclo := true, endOk := true, st := 31, cnt := 0, byte := 0, ackOk := ackOk, a := a }
  rx := ⟨⟨true, true⟩, none, log⟩

/-! ### A bit -/

/-- The bit is on the line, with SCL high. -/
def raised (bytes : List Byte) (b : BitVec 8) (k : Nat) (sda : Bool) (log : List (List Byte)) : Wire where
  wr :=
    { sdao := (b ++ 1#1).getMsbD k, sclo := true, endOk := false, st := 5, cnt := BitVec.ofNat 8 (k + 1),
      byte := BitVec.ofNat 8 bytes.length, ackOk := refused bytes, a := (b ++ 1#1) <<< (k + 1) }
  rx := ⟨⟨sda, false⟩, some ⟨bytes, (toBits b).take k⟩, log⟩

/-- The bits before place `k` are made, and SCL is low. -/
def lowered (bytes : List Byte) (b : BitVec 8) (k : Nat) (sdao : Bool) (last : Lines) (log : List (List Byte)) :
    Wire where
  wr :=
    { sdao := sdao, sclo := false, endOk := false, st := 2, cnt := BitVec.ofNat 8 k,
      byte := BitVec.ofNat 8 bytes.length, ackOk := refused bytes, a := (b ++ 1#1) <<< k }
  rx := ⟨last, some ⟨bytes, (toBits b).take k⟩, log⟩

section Bit
variable {bytes : List Byte} {b : BitVec 8} {k : Nat} {log : List (List Byte)}

theorem getMsbD_data (hk : k < 8) : (b ++ 1#1).getMsbD k = b.getMsbD k := by
  rw [BitVec.getMsbD_append, if_neg (by omega)]

theorem getMsbD_release : (b ++ 1#1).getMsbD 8 = true := by
  rw [BitVec.getMsbD_append]
  rfl

theorem ofNat_ne_nine (hk : k < 8) : BitVec.ofNat 8 (k + 1) ≠ 9#8 := by
  intro h
  have h := congrArg BitVec.toNat h
  simp only [BitVec.toNat_ofNat] at h
  omega

theorem length_take_toBits (hk : k ≤ 8) : ((toBits b).take k).length = k := by
  rw [List.length_take, length_toBits, Nat.min_eq_left hk]

theorem edge_put (i : ControllerPins) :
    (put bytes b k log).edge i = raised bytes b k ((put bytes b k log).wr.i2cSdat i.i2cSdat) log := by
  simp [edge, lines, put, raised, I2cController.edge, I2cWriteWdata.edge_rise, Receiver.see_low, BitVec.ofNat_add]

theorem edge_raised_data (hk : k < 8) {sda : Bool} {i : ControllerPins} (hi : i.i2cSdat = true) :
    (raised bytes b k sda log).edge i = lowered bytes b (k + 1) (b.getMsbD k) ⟨b.getMsbD k, true⟩ log := by
  have hwr : (raised bytes b k sda log).wr.edge i =
      (lowered bytes b (k + 1) (b.getMsbD k) ⟨b.getMsbD k, true⟩ log).wr := by
    rw [I2cController.edge, I2cWriteWdata.edge_end_bit rfl, I2cWriteWdata.endBit_more (ofNat_ne_nine hk)]
    simp [raised, lowered, getMsbD_data hk]
  have hlines : (raised bytes b k sda log).lines i.i2cSdat = ⟨b.getMsbD k, true⟩ := by
    simp [lines, raised, I2cController.i2cSdat, hi, getMsbD_data hk]
  have hrx : (raised bytes b k sda log).rx.see ⟨b.getMsbD k, true⟩ =
      (lowered bytes b (k + 1) (b.getMsbD k) ⟨b.getMsbD k, true⟩ log).rx := by
    rw [Receiver.see_bit _ _ rfl]
    simp [raised, lowered, Message.take, length_take_toBits (Nat.le_of_lt hk), Nat.ne_of_lt hk, take_succ_toBits b hk]
  rw [edge, hwr, hlines, hrx]

theorem run_lowered {sdao : Bool} {last : Lines} (w : Nat → ControllerPins) :
    run edge (lowered bytes b k sdao last log) w 2 = put bytes b k log := by
  have hfall : (lowered bytes b k sdao last log).edge (w 0) =
      ⟨{ (lowered bytes b k sdao last log).wr with st := 3, sdao := false, sclo := false },
        ⟨⟨(lowered bytes b k sdao last log).wr.i2cSdat (w 0).i2cSdat, false⟩, some ⟨bytes, (toBits b).take k⟩, log⟩⟩ := by
    simp [edge, lines, lowered, I2cController.edge, I2cController.i2cSdat, I2cWriteWdata.edge_fall, Receiver.see_low]
  rw [run_succ, run_succ, run_zero, hfall]
  simp [edge, lines, lowered, put, I2cController.edge, I2cController.i2cSdat, I2cWriteWdata.edge_shift,
    Receiver.see_low, BitVec.msb_shiftLeft, BitVec.shiftLeft_add]

/-- The four clocks of a bit of data. -/
theorem run_data (hk : k < 8) {w : Nat → ControllerPins} (hi : (w 1).i2cSdat = true) :
    run edge (put bytes b k log) w 4 = put bytes b (k + 1) log := by
  have h2 : run edge (put bytes b k log) w 2 = lowered bytes b (k + 1) (b.getMsbD k) ⟨b.getMsbD k, true⟩ log := by
    rw [run_succ, run_succ, run_zero, edge_put, edge_raised_data hk hi]
  rw [show 4 = 2 + 2 from rfl, run_add, h2, run_lowered]

end Bit

/-! ### The runs that the other devices let pass -/

def Obedient (s : Wire) (w : Nat → ControllerPins) : Prop :=
  ∀ k, (run edge s w k).Obeys (w k).i2cSdat

section Obedient
variable {s : Wire} {w : Nat → ControllerPins}

theorem Obedient.drop (h : Obedient s w) (m : Nat) : Obedient (run edge s w m) fun k => w (m + k) := by
  intro k
  rw [← run_add]
  exact h (m + k)

end Obedient

section Byte
variable {bytes : List Byte} {b : BitVec 8} {k : Nat} {log : List (List Byte)} {w : Nat → ControllerPins}

theorem ninth_raised (hk : k < 8) (sda : Bool) : (raised bytes b k sda log).rx.ninth = false := by
  simp [Receiver.ninth, raised, length_toBits]
  omega

theorem run_bits (hk : k ≤ 8) (hob : Obedient (put bytes b 0 log) w) :
    run edge (put bytes b 0 log) w (4 * k) = put bytes b k log := by
  induction k with
  | zero => rfl
  | succ k ih =>
    have hput := ih (Nat.le_of_succ_le hk)
    have hobeys := hob (4 * k + 1)
    rw [run_succ, hput, edge_put] at hobeys
    have hi := hobeys.released rfl (ninth_raised hk _)
    rw [show 4 * (k + 1) = 4 * k + 4 from rfl, run_add, hput]
    exact run_data hk hi

/-! After the eighth bit the writer releases SDA: the acknowledge is the level that the others give it. -/

theorem lines_raised_ack (sda other : Bool) : (raised bytes b 8 sda log).lines other = ⟨other, true⟩ := by
  simp [lines, raised, I2cController.i2cSdat, getMsbD_release]

theorem see_raised_ack (sda other : Bool) : (raised bytes b 8 sda log).rx.see ⟨other, true⟩ =
    ⟨⟨other, true⟩, some ⟨bytes ++ [⟨b, !other⟩], []⟩, log⟩ := by
  rw [Receiver.see_bit _ _ rfl]
  simp [raised, Message.take, length_toBits, ofBits_take b (Nat.le_refl 8)]

theorem refused_append (acked : Bool) : refused (bytes ++ [⟨b, acked⟩]) = (!acked || refused bytes) := by
  simp [refused, Bool.or_comm]

theorem payload_next (i : ControllerPins) (s : I2cController) :
    (s.wrdPins i).regData.extractLsb' 8 8 = payload i.i2cData 1 ∧
    (s.wrdPins i).regData.extractLsb' 0 8 = payload i.i2cData 2 := by
  constructor <;> ext j hj <;> simp [I2cController.wrdPins, payload]

theorem edge_raised_ack {sda : Bool} {i : ControllerPins} (hlen : bytes.length < 2) :
    (raised bytes b 8 sda log).edge i =
      lowered (bytes ++ [⟨b, !i.i2cSdat⟩]) (payload i.i2cData (bytes.length + 1)) 0 true ⟨i.i2cSdat, true⟩ log := by
  have hsdai : ((raised bytes b 8 sda log).wr.wrdPins i).sdai = i.i2cSdat := by
    simp [I2cController.wrdPins, raised, I2cController.i2cSdat, getMsbD_release]
  have hpay := payload_next i (raised bytes b 8 sda log).wr
  have hwr : (raised bytes b 8 sda log).wr.edge i =
      (lowered (bytes ++ [⟨b, !i.i2cSdat⟩]) (payload i.i2cData (bytes.length + 1)) 0 true ⟨i.i2cSdat, true⟩ log).wr := by
    rw [I2cController.edge, I2cWriteWdata.edge_end_bit rfl]
    rcases Nat.lt_succ_iff_lt_or_eq.mp hlen with h | h
    · have h0 : bytes.length = 0 := by omega
      rw [I2cWriteWdata.endBit_first rfl (by simp [raised, h0]) (by simp [I2cController.wrdPins]), hsdai, hpay.1]
      simp [raised, lowered, h0, refused_append, getMsbD_release]
    · rw [I2cWriteWdata.endBit_second rfl (by simp [raised, h]) (by simp [I2cController.wrdPins]), hsdai, hpay.2]
      simp [raised, lowered, h, refused_append, getMsbD_release]
  rw [edge, hwr, lines_raised_ack, see_raised_ack]
  rfl

/-- The thirty-six clocks of a byte that another follows. -/
theorem run_byte (hlen : bytes.length < 2) (hob : Obedient (put bytes b 0 log) w) :
    run edge (put bytes b 0 log) w 36 =
      put (bytes ++ [⟨b, !(w 33).i2cSdat⟩]) (payload (w 33).i2cData (bytes.length + 1)) 0 log := by
  have h32 := run_bits (Nat.le_refl 8) hob
  rw [show 36 = 4 * 8 + (2 + 2) from rfl, run_add, h32, run_add]
  have h2 : run edge (put bytes b 8 log) (fun k => w (4 * 8 + k)) 2 =
      lowered (bytes ++ [⟨b, !(w 33).i2cSdat⟩]) (payload (w 33).i2cData (bytes.length + 1)) 0 true
        ⟨(w 33).i2cSdat, true⟩ log := by
    rw [run_succ, run_succ, run_zero, edge_put]
    exact edge_raised_ack hlen
  rw [h2, run_lowered]

end Byte

/-! ### The stop -/

/-- The last acknowledge is sampled, and SCL is low. -/
def stopping (bytes : List Byte) (cnt : BitVec 8) (a : BitVec 9) (last : Lines) (log : List (List Byte)) : Wire where
  wr :=
    { sdao := true, sclo := false, endOk := false, st := 6, cnt := cnt, byte := 2, ackOk := refused bytes, a := a }
  rx := ⟨last, some ⟨bytes, []⟩, log⟩

/-- SDA is released while SCL is high. The receiver has taken the rise before for a bit of a next byte. -/
def stopped (bytes : List Byte) (cnt : BitVec 8) (a : BitVec 9) (log : List (List Byte)) : Wire where
  wr := { sdao := true, sclo := true, endOk := false, st := 9, cnt := cnt, byte := 2, ackOk := refused bytes, a := a }
  rx := ⟨⟨false, true⟩, some ⟨bytes, [false]⟩, log⟩

section Stop
variable {bytes : List Byte} {b : BitVec 8} {log : List (List Byte)} {w : Nat → ControllerPins}

theorem edge_raised_last {sda : Bool} {i : ControllerPins} (hlen : bytes.length = 2) :
    (raised bytes b 8 sda log).edge i =
      stopping (bytes ++ [⟨b, !i.i2cSdat⟩]) 9 ((b ++ 1#1) <<< 9) ⟨i.i2cSdat, true⟩ log := by
  have hwr : (raised bytes b 8 sda log).wr.edge i =
      (stopping (bytes ++ [⟨b, !i.i2cSdat⟩]) 9 ((b ++ 1#1) <<< 9) ⟨i.i2cSdat, true⟩ log).wr := by
    have hbyte : (raised bytes b 8 sda log).wr.byte = ((raised bytes b 8 sda log).wr.wrdPins i).byteNum := by
      simp [raised, I2cController.wrdPins, hlen]
    rw [I2cController.edge, I2cWriteWdata.edge_end_bit rfl, I2cWriteWdata.endBit_last rfl hbyte]
    simp [raised, stopping, hlen, refused_append, getMsbD_release, I2cController.wrdPins, I2cController.i2cSdat]
  rw [edge, hwr, lines_raised_ack, see_raised_ack]
  rfl

theorem run_stopping {cnt : BitVec 8} {a : BitVec 9} {last : Lines} :
    run edge (stopping bytes cnt a last log) w 3 = stopped bytes cnt a log := by
  have hfall : (stopping bytes cnt a last log).edge (w 0) =
      ⟨{ (stopping bytes cnt a last log).wr with st := 7, sdao := false, sclo := false },
        ⟨⟨(w 0).i2cSdat, false⟩, some ⟨bytes, []⟩, log⟩⟩ := by
    simp [edge, lines, stopping, I2cController.edge, I2cController.i2cSdat, I2cWriteWdata.edge_stop_fall,
      Receiver.see_low]
  rw [run_succ, run_succ, run_succ, run_zero, hfall]
  simp [edge, lines, stopping, stopped, I2cController.edge, I2cController.i2cSdat, I2cWriteWdata.edge_stop_rise,
    I2cWriteWdata.edge_stop, Receiver.see_low, Receiver.see_bit, Message.take]

theorem edge_stopped {cnt : BitVec 8} {a : BitVec 9} {i : ControllerPins} (hi : i.i2cSdat = true) :
    (stopped bytes cnt a log).edge i = finished (refused bytes) a (log ++ [bytes]) := by
  simp [edge, lines, stopped, finished, I2cController.edge, I2cController.i2cSdat, I2cWriteWdata.edge_done, hi,
    Receiver.see_stop, Receiver.ended]

/-- The last byte, and the STOP after it. -/
theorem run_last (hlen : bytes.length = 2) (hob : Obedient (put bytes b 0 log) w) :
    run edge (put bytes b 0 log) w 38 =
      finished (refused (bytes ++ [⟨b, !(w 33).i2cSdat⟩])) ((b ++ 1#1) <<< 9)
        (log ++ [bytes ++ [⟨b, !(w 33).i2cSdat⟩]]) := by
  have h32 := run_bits (Nat.le_refl 8) hob
  have h34 : run edge (put bytes b 0 log) w 34 =
      stopping (bytes ++ [⟨b, !(w 33).i2cSdat⟩]) 9 ((b ++ 1#1) <<< 9) ⟨(w 33).i2cSdat, true⟩ log := by
    rw [show 34 = 4 * 8 + 2 from rfl, run_add, h32, run_succ, run_succ, run_zero, edge_put]
    exact edge_raised_last hlen
  have h37 : run edge (put bytes b 0 log) w 37 =
      stopped (bytes ++ [⟨b, !(w 33).i2cSdat⟩]) 9 ((b ++ 1#1) <<< 9) log := by
    rw [show 37 = 34 + 3 from rfl, run_add, h34, run_stopping]
  have hobeys := hob 37
  rw [h37] at hobeys
  rw [show 38 = 37 + 1 from rfl, run_succ, h37]
  exact edge_stopped (hobeys.released rfl rfl)

end Stop

/-! ### The message -/

section Frame
variable {a : BitVec 9} {log : List (List Byte)} {w : Nat → ControllerPins}

theorem run_start (hob : Obedient (launched a log) w) :
    run edge (launched a log) w 3 = put [] (payload (w 0).i2cData 0) 0 log := by
  have hi := (hob 0).released rfl rfl
  have hstart : (launched a log).edge (w 0) =
      ⟨{ (launched a log).wr with st := 2, sdao := false, a := payload (w 0).i2cData 0 ++ 1#1 },
        ⟨⟨true, true⟩, none, log⟩⟩ := by
    simp [edge, lines, launched, I2cController.edge, I2cController.i2cSdat, I2cWriteWdata.edge_start, hi,
      Receiver.see_same, I2cController.wrdPins, payload]
  have hlow : run edge (launched a log) w 2 =
      ⟨{ (launched a log).wr with st := 3, sdao := false, sclo := false, a := payload (w 0).i2cData 0 ++ 1#1 },
        ⟨⟨false, true⟩, some ⟨[], []⟩, log⟩⟩ := by
    rw [run_succ, run_succ, run_zero, hstart]
    simp [edge, lines, launched, I2cController.edge, I2cController.i2cSdat, I2cWriteWdata.edge_fall,
      Receiver.see_start, Receiver.ended]
  rw [run_succ, hlow]
  simp [edge, lines, launched, put, I2cController.edge, I2cController.i2cSdat, I2cWriteWdata.edge_shift,
    Receiver.see_low, BitVec.msb_eq_getMsbD_zero, refused]

/-- The message that a launched writer sends: the bytes that `I2C_DATA` holds when it comes to each. -/
def frame (w : Nat → ControllerPins) : List Byte :=
  [⟨payload (w 0).i2cData 0, !(w 36).i2cSdat⟩, ⟨payload (w 36).i2cData 1, !(w 72).i2cSdat⟩,
    ⟨payload (w 72).i2cData 2, !(w 108).i2cSdat⟩]

/-- Where the three bytes begin. -/
theorem run_bytes (hob : Obedient (launched a log) w) :
    run edge (launched a log) w 3 = put [] (payload (w 0).i2cData 0) 0 log ∧
    run edge (launched a log) w 39 = put ((frame w).take 1) (payload (w 36).i2cData 1) 0 log ∧
    run edge (launched a log) w 75 = put ((frame w).take 2) (payload (w 72).i2cData 2) 0 log := by
  have h3 := run_start hob
  have hob3 := hob.drop 3
  rw [h3] at hob3
  have h39 : run edge (launched a log) w 39 = put ((frame w).take 1) (payload (w 36).i2cData 1) 0 log := by
    rw [show 39 = 3 + 36 from rfl, run_add, h3]
    exact run_byte (by simp) hob3
  have hob39 := hob.drop 39
  rw [h39] at hob39
  have h75 : run edge (launched a log) w 75 = put ((frame w).take 2) (payload (w 72).i2cData 2) 0 log := by
    rw [show 75 = 39 + 36 from rfl, run_add, h39]
    exact run_byte (by simp [frame]) hob39
  exact ⟨h3, h39, h75⟩

theorem run_frame (hob : Obedient (launched a log) w) :
    run edge (launched a log) w 113 =
      finished (refused (frame w)) ((payload (w 72).i2cData 2 ++ 1#1) <<< 9) (log ++ [frame w]) := by
  have hob75 := hob.drop 75
  rw [(run_bytes hob).2.2] at hob75
  rw [show 113 = 75 + 38 from rfl, run_add, (run_bytes hob).2.2]
  exact run_last rfl hob75

theorem run_ninth {bytes : List Byte} {b : BitVec 8} {m : Nat} (hput : run edge (launched a log) w m = put bytes b 0 log)
    (hob : Obedient (launched a log) w) :
    (run edge (launched a log) w (m + 33)).rx.ninth = true := by
  have hob' := hob.drop m
  rw [hput] at hob'
  rw [run_add, hput, show 33 = 4 * 8 + 1 from rfl, run_succ, run_bits (Nat.le_refl 8) hob', edge_put]
  simp [Receiver.ninth, raised, length_toBits]

/-- The three clocks in which the receiver of the message may answer. -/
theorem ninth_frame (hob : Obedient (launched a log) w) :
    (run edge (launched a log) w 36).rx.ninth = true ∧ (run edge (launched a log) w 72).rx.ninth = true ∧
    (run edge (launched a log) w 108).rx.ninth = true :=
  have h := run_bytes hob
  ⟨run_ninth h.1 hob, run_ninth h.2.1 hob, run_ninth h.2.2 hob⟩

theorem endOk_of_launched {n : Nat} (hn : n < 113) : (run edge (launched a log) w n).wr.endOk = false := by
  have hwr : (run edge (launched a log) w n).wr = run I2cWriteWdata.edge (launched a log).wr
      (fun k => (run edge (launched a log) w k).wr.wrdPins (w k)) n :=
    run_component (f := Wire.wr) (g := fun s i => s.wr.wrdPins i) (fun _ _ => rfl) n
  rw [hwr]
  exact (I2cWriteWdata.busy_run (.start rfl rfl rfl) (fun _ => rfl) hn).2.2

/-- A launched message, under any inputs: its bytes, their acknowledges, and when it ends. -/
theorem message_delivered (hob : Obedient (launched a log) w) :
    (∀ n < 113, (run edge (launched a log) w n).wr.endOk = false) ∧
    (run edge (launched a log) w 113).wr.endOk = true ∧
    (run edge (launched a log) w 113).wr.ackOk = (frame w).any (fun b => !b.acked) ∧
    (run edge (launched a log) w 113).rx = ⟨⟨true, true⟩, none, log ++ [frame w]⟩ := by
  have hrun := run_frame hob
  exact ⟨fun n => endOk_of_launched, congrArg (·.wr.endOk) hrun, congrArg (·.wr.ackOk) hrun, congrArg Wire.rx hrun⟩

theorem obedient_of_released {s : Wire} {w : Nat → ControllerPins} (h : ∀ n, (w n).i2cSdat = true) :
    Obedient s w := by
  intro k _ hlow
  rw [h k] at hlow
  cases hlow

theorem message_delivered_released :
    let w : Nat → ControllerPins := fun n => ⟨BitVec.ofNat 24 (0x720100 + n), false, true⟩
    (∀ n < 113, (run edge (launched 0 []) w n).wr.endOk = false) ∧
    (run edge (launched 0 []) w 113).wr.endOk = true ∧
    (run edge (launched 0 []) w 113).wr.ackOk = (frame w).any (fun b => !b.acked) ∧
    (run edge (launched 0 []) w 113).rx = ⟨⟨true, true⟩, none, [] ++ [frame w]⟩ :=
  message_delivered (obedient_of_released fun _ => rfl)

end Frame

/-! ### Between messages -/

section Idle
variable {ackOk : Bool} {a : BitVec 9} {log : List (List Byte)} {i : ControllerPins}

theorem edge_finished_held (hi : i.i2cSdat = true) (hgo : i.go = true) :
    (finished ackOk a log).edge i = finished ackOk a log := by
  simp [edge, lines, finished, I2cController.edge, I2cController.i2cSdat, I2cController.wrdPins,
    I2cWriteWdata.edge_wait, hi, hgo, Receiver.see_same]

theorem edge_finished (hi : i.i2cSdat = true) (hgo : i.go = false) :
    (finished ackOk a log).edge i = armed ackOk a log := by
  simp [edge, lines, finished, armed, I2cController.edge, I2cController.i2cSdat, I2cController.wrdPins,
    I2cWriteWdata.edge_released, hi, hgo, Receiver.see_same]

theorem edge_armed (hi : i.i2cSdat = true) : (armed ackOk a log).edge i = launched a log := by
  simp [edge, lines, armed, launched, I2cController.edge, I2cController.i2cSdat, I2cWriteWdata.edge_launch, hi,
    Receiver.see_same]

end Idle

end Wire
end EcranMagique
