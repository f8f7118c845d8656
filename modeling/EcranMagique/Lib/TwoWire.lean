import EcranMagique.Lib.Clocked
import Mathlib.Data.List.Range

/-! The two-wire bus: what the changes of its lines mean, and the messages that a device on it collects.

    SDA moves while SCL is low; its moves while SCL is high are the START and the STOP. Each rise of SCL
    carries a bit, most significant first, and the ninth bit after each byte is its acknowledge, which the
    receiving device gives by pulling SDA low. -/

namespace TwoWire

/-! ### Words as bits -/

section Bits
variable {w : Nat}

def toBits (b : BitVec w) : List Bool := (List.range w).map b.getMsbD

def ofBits (bits : List Bool) : BitVec w := bits.foldl BitVec.shiftConcat 0#w

theorem length_toBits (b : BitVec w) : (toBits b).length = w := by
  simp [toBits]

theorem take_succ_toBits (b : BitVec w) {k : Nat} (hk : k < w) :
    (toBits b).take (k + 1) = (toBits b).take k ++ [b.getMsbD k] := by
  rw [toBits, ← List.map_take, ← List.map_take, List.take_range, List.take_range, Nat.min_eq_left hk,
    Nat.min_eq_left (Nat.le_of_lt hk), List.range_succ, List.map_append, List.map_singleton]

theorem shiftConcat_getMsbD (b : BitVec w) {k : Nat} (hk : k < w) :
    (b >>> (w - k)).shiftConcat (b.getMsbD k) = b >>> (w - (k + 1)) := by
  ext i hi
  rw [BitVec.getElem_shiftConcat]
  rcases Nat.eq_zero_or_pos i with rfl | hpos
  · simp [BitVec.getMsbD, hk, Nat.sub_sub, Nat.add_comm 1 k]
  · have hidx : w - k + (i - 1) = w - (k + 1) + i := by omega
    simp [Nat.pos_iff_ne_zero.mp hpos, hidx]

theorem ofBits_take (b : BitVec w) {k : Nat} (hk : k ≤ w) : ofBits ((toBits b).take k) = b >>> (w - k) := by
  induction k with
  | zero =>
    ext i hi
    simp [ofBits]
  | succ k ih =>
    rw [take_succ_toBits b hk, ofBits, List.foldl_append, ← ofBits, ih (Nat.le_of_lt hk)]
    exact shiftConcat_getMsbD b hk

end Bits

/-! ### The lines -/

structure Lines where
  sda : Bool
  scl : Bool
  deriving DecidableEq, Repr, Inhabited

inductive Condition where
  | start
  | stop
  | bit (b : Bool)
  deriving DecidableEq, Repr

/-- What the lines say when they change from `l` to `l'`. -/
def condition (l l' : Lines) : Option Condition :=
  if l'.scl = false then none
  else if l.scl = false then some (.bit l'.sda)
  else if l.sda = l'.sda then none
  else if l'.sda = false then some .start
  else some .stop

@[simp] theorem condition_low (l : Lines) (sda : Bool) : condition l ⟨sda, false⟩ = none := rfl

@[simp] theorem condition_rise (l : Lines) (sda : Bool) (h : l.scl = false) :
    condition l ⟨sda, true⟩ = some (.bit sda) := by
  simp [condition, h]

@[simp] theorem condition_start : condition ⟨true, true⟩ ⟨false, true⟩ = some .start := rfl

@[simp] theorem condition_stop : condition ⟨false, true⟩ ⟨true, true⟩ = some .stop := rfl

/-! ### The receiving device -/

structure Byte where
  value : BitVec 8
  acked : Bool
  deriving DecidableEq, Repr

/-- A message being collected: its complete bytes, and the bits of the next. -/
structure Message where
  bytes : List Byte
  bits : List Bool
  deriving DecidableEq, Repr

def Message.take (m : Message) (b : Bool) : Message :=
  if m.bits.length = 8 then ⟨m.bytes ++ [⟨ofBits m.bits, !b⟩], []⟩
  else ⟨m.bytes, m.bits ++ [b]⟩

/-- The lines as last seen, the message between a START and its STOP, and the complete bytes of the messages
    that have ended. -/
structure Receiver where
  last : Lines
  message : Option Message
  log : List (List Byte)
  deriving DecidableEq, Repr, Inhabited

namespace Receiver

def ended (r : Receiver) : List (List Byte) := r.log ++ (r.message.map Message.bytes).toList

def note (r : Receiver) : Option Condition → Receiver
  | none => r
  | some .start => { r with message := some ⟨[], []⟩, log := r.ended }
  | some .stop => { r with message := none, log := r.ended }
  | some (.bit b) => { r with message := r.message.map (·.take b) }

def see (r : Receiver) (l : Lines) : Receiver := { r.note (condition r.last l) with last := l }

/-- The ninth clock of a byte: its bit is the next to come, or has come in this high of SCL. -/
def ninth (r : Receiver) : Bool :=
  r.message.any fun m => if r.last.scl = true then m.bits.isEmpty && !m.bytes.isEmpty else m.bits.length == 8

theorem see_last (r : Receiver) (l : Lines) : (r.see l).last = l := rfl

theorem see_low (r : Receiver) (sda : Bool) : r.see ⟨sda, false⟩ = { r with last := ⟨sda, false⟩ } := by
  simp [see, note]

theorem see_same (r : Receiver) (l : Lines) (h : r.last = l) : r.see l = r := by
  subst h
  cases hscl : r.last.scl <;> simp [see, note, condition, hscl]

theorem see_start (r : Receiver) (h : r.last = ⟨true, true⟩) :
    r.see ⟨false, true⟩ = ⟨⟨false, true⟩, some ⟨[], []⟩, r.ended⟩ := by
  simp [see, note, h]

theorem see_stop (r : Receiver) (h : r.last = ⟨false, true⟩) : r.see ⟨true, true⟩ = ⟨⟨true, true⟩, none, r.ended⟩ := by
  simp [see, note, h]

theorem see_bit (r : Receiver) (b : Bool) (h : r.last.scl = false) :
    r.see ⟨b, true⟩ = ⟨⟨b, true⟩, r.message.map (·.take b), r.log⟩ := by
  simp [see, note, h]

/-- What a receiver outside a message sees puts it inside one by a START only. -/
theorem see_outside (r : Receiver) (l : Lines) (h : r.message = none) :
    (r.see l).message = none ∧ (r.see l).log = r.log ∨
    l = ⟨false, true⟩ ∧ (r.see l).message = some ⟨[], []⟩ ∧ (r.see l).log = r.log := by
  obtain ⟨sda, scl⟩ := l
  cases scl
  · exact Or.inl (by rw [see_low]; exact ⟨h, rfl⟩)
  · cases hscl : r.last.scl
    · exact Or.inl (by rw [see_bit _ _ hscl]; exact ⟨by simp [h], rfl⟩)
    · cases hsda : r.last.sda <;> cases sda <;> simp [see, note, condition, hscl, hsda, h, ended]

end Receiver
end TwoWire
