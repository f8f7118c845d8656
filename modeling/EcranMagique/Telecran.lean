import EcranMagique.Display
import EcranMagique.EncoderManager

/-! The screen (`telecran.vhd`). On the 50 MHz clock the encoder manager moves the pen, the erase automaton
    sweeps the frame buffer, and a multiplexer gives port A either the pen or the sweep; on the pixel
    clock the video generator scans port B. The PLL, the configuration of the HDMI transmitter and the
    debug LEDs are left out. -/

namespace EcranMagique

abbrev memSize : Nat := 720 * 480

theorem memSize_eq : memSize = 345600 := rfl

structure Drawing where
  encs : EncoderManager
  rEraseActive : Bool
  rEraseAddr : Nat
  deriving DecidableEq, Repr

namespace Drawing
open Clocked

def reset : Drawing where
  encs := EncoderManager.reset
  rEraseActive := false
  rEraseAddr := 0

/-- The erase automaton: `r_erase_active` and `r_erase_addr` after an edge. The button is tested first. -/
def erase (iLeftPb : Bool) (s : Drawing) : Bool × Nat :=
  if iLeftPb = false then (true, 0)
  else if s.rEraseActive = true then
    if s.rEraseAddr = 720 * 480 - 1 then (false, s.rEraseAddr)
    else (s.rEraseActive, s.rEraseAddr + 1)
  else (s.rEraseActive, s.rEraseAddr)

def edge (s : Drawing) (i : EncoderPins) : Drawing where
  encs := s.encs.edge i
  rEraseActive := (erase i.iLeftPb s).1
  rEraseAddr := (erase i.iLeftPb s).2

/-- The processes of the 50 MHz clock under any activation of `i_clk_50` and `i_rst_n`. -/
def activate : Drawing → Activation EncoderPins → Drawing := process reset edge

def penAddr (s : Drawing) : Nat := s.encs.rCoordX.toNat + s.encs.rCoordY.toNat * 720

def sMuxAddrA (s : Drawing) : Nat := if s.rEraseActive = true then s.rEraseAddr else s.penAddr

def sMuxDataA (s : Drawing) : BitVec 8 := if s.rEraseActive = true then 0x00#8 else 0xFF#8

theorem encs_reset : reset.encs = EncoderManager.reset := rfl

section Edge
variable (s : Drawing) (i : EncoderPins)

@[simp] theorem encs_edge : (s.edge i).encs = s.encs.edge i := rfl

theorem edge_of_pressed (h : i.iLeftPb = false) : (s.edge i).rEraseActive = true ∧ (s.edge i).rEraseAddr = 0 := by
  simp [edge, erase, h]

theorem edge_of_sweeping (hpb : i.iLeftPb = true) (hact : s.rEraseActive = true) (hne : s.rEraseAddr ≠ memSize - 1) :
    (s.edge i).rEraseActive = true ∧ (s.edge i).rEraseAddr = s.rEraseAddr + 1 := by
  have hlast : s.rEraseAddr ≠ 345599 := hne
  simp [edge, erase, hpb, hact, hlast]

theorem edge_of_last (hpb : i.iLeftPb = true) (hact : s.rEraseActive = true) (heq : s.rEraseAddr = memSize - 1) :
    (s.edge i).rEraseActive = false ∧ (s.edge i).rEraseAddr = memSize - 1 := by
  simp [edge, erase, hpb, hact, heq]

theorem edge_of_idle (hpb : i.iLeftPb = true) (hact : s.rEraseActive = false) :
    (s.edge i).rEraseActive = false ∧ (s.edge i).rEraseAddr = s.rEraseAddr := by
  simp [edge, erase, hpb, hact]

theorem edge_cases :
    (i.iLeftPb = false ∧ (s.edge i).rEraseActive = true ∧ (s.edge i).rEraseAddr = 0) ∨
    (i.iLeftPb = true ∧ s.rEraseActive = true ∧ s.rEraseAddr ≠ memSize - 1 ∧
      (s.edge i).rEraseActive = true ∧ (s.edge i).rEraseAddr = s.rEraseAddr + 1) ∨
    (i.iLeftPb = true ∧ s.rEraseActive = true ∧ s.rEraseAddr = memSize - 1 ∧
      (s.edge i).rEraseActive = false ∧ (s.edge i).rEraseAddr = memSize - 1) ∨
    (i.iLeftPb = true ∧ s.rEraseActive = false ∧
      (s.edge i).rEraseActive = false ∧ (s.edge i).rEraseAddr = s.rEraseAddr) := by
  cases hpb : i.iLeftPb
  · exact Or.inl ⟨rfl, edge_of_pressed s i hpb⟩
  · cases hact : s.rEraseActive
    · exact Or.inr (Or.inr (Or.inr ⟨rfl, rfl, edge_of_idle s i hpb hact⟩))
    · by_cases heq : s.rEraseAddr = memSize - 1
      · exact Or.inr (Or.inr (Or.inl ⟨rfl, rfl, heq, edge_of_last s i hpb hact heq⟩))
      · exact Or.inr (Or.inl ⟨rfl, rfl, heq, edge_of_sweeping s i hpb hact heq⟩)

end Edge

theorem encs_run (s : Drawing) (w : Nat → EncoderPins) (n : Nat) :
    (run edge s w n).encs = run EncoderManager.edge s.encs w n :=
  run_map (f := Drawing.encs) (g := id) (fun _ _ => rfl) n

end Drawing

/-- The state of the screen: the registers of both clocks and the frame buffer between them. -/
structure Telecran where
  drawing : Drawing
  uFrameBuffer : Dpram memSize 8
  hdmiCtrl : HdmiControler

namespace Telecran
open Clocked

def reset (fb : Dpram memSize 8) : Telecran := ⟨Drawing.reset, fb, HdmiControler.reset⟩

/-- An activation of `i_clk_50` and `i_rst_n`. Port A has no reset: it writes at every rising edge, with
    the address and data that the multiplexer showed before the edge. -/
def activate50? (s : Telecran) (a : Activation EncoderPins) : Option Telecran :=
  if a.rising = true then
    (s.uFrameBuffer.portA true s.drawing.sMuxAddrA s.drawing.sMuxDataA).map fun fb =>
      { s with drawing := s.drawing.activate a, uFrameBuffer := fb }
  else some { s with drawing := s.drawing.activate a }

def edge50? (s : Telecran) (i : EncoderPins) : Option Telecran := s.activate50? ⟨true, true, i⟩

def display (s : Telecran) : Display Generics.default := ⟨s.hdmiCtrl, s.uFrameBuffer⟩

def edge27? (s : Telecran) : Option Telecran :=
  (s.display.edge? .pixel).map fun d => { s with hdmiCtrl := d.hdmiCtrl, uFrameBuffer := d.uFrameBuffer }

/-- A 50 MHz edge succeeds exactly when the address of port A is in range; it writes that cell. -/
theorem edge50?_eq_some {s t : Telecran} {i : EncoderPins} :
    s.edge50? i = some t ↔ ∃ h : s.drawing.sMuxAddrA < memSize,
      t = ⟨s.drawing.edge i,
        ⟨Function.update s.uFrameBuffer.ram ⟨s.drawing.sMuxAddrA, h⟩ s.drawing.sMuxDataA,
          s.drawing.sMuxDataA, s.uFrameBuffer.oQB⟩, s.hdmiCtrl⟩ := by
  simp only [edge50?, activate50?, ite_true, Option.map_eq_some_iff, Dpram.portA_write]
  constructor
  · rintro ⟨fb, ⟨h, rfl⟩, rfl⟩
    exact ⟨h, rfl⟩
  · rintro ⟨h, rfl⟩
    exact ⟨_, ⟨h, rfl⟩, rfl⟩

theorem drawing_run? {s t : Telecran} {w : Nat → EncoderPins} {n : Nat} (h : run? edge50? s w n = some t) :
    t.drawing = run Drawing.edge s.drawing w n :=
  run?_map (f := Telecran.drawing) (g := id) (fun _ _ _ h => by
    obtain ⟨_, rfl⟩ := edge50?_eq_some.mp h
    rfl) h

end Telecran
end EcranMagique
