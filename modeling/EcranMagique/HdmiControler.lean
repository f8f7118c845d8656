import EcranMagique.Lib.Clocked

/-! The video generator (`hdmi_controler.vhd`): two nested counters, the flags and syncs that their
    comparisons set, and the address and coordinates of the pixel.

    The generics and the naturals derived from them are unbounded here. -/

namespace EcranMagique

structure Generics where
  hRes : Nat
  vRes : Nat
  hSync : Nat
  hFp : Nat
  hBp : Nat
  vSync : Nat
  vFp : Nat
  vBp : Nat
  hRes_pos : 0 < hRes := by decide
  vRes_pos : 0 < vRes := by decide
  hSync_pos : 0 < hSync := by decide
  hFp_pos : 0 < hFp := by decide
  hBp_pos : 0 < hBp := by decide
  vSync_pos : 0 < vSync := by decide
  vFp_pos : 0 < vFp := by decide
  vBp_pos : 0 < vBp := by decide

namespace Generics

/-- The default values, with which `telecran` instantiates the generator. -/
def default : Generics where
  hRes := 720
  vRes := 480
  hSync := 61
  hFp := 58
  hBp := 18
  vSync := 5
  vFp := 30
  vBp := 9

variable (g : Generics)

def hStart : Nat := g.hSync + g.hFp
def hEnd : Nat := g.hStart + g.hRes
def hTotal : Nat := g.hEnd + g.hBp

def vStart : Nat := g.vSync + g.vFp
def vEnd : Nat := g.vStart + g.vRes
def vTotal : Nat := g.vEnd + g.vBp

end Generics

structure Horizontal where
  rHCount : Nat
  oHdmiHs : Bool
  rHActive : Bool
  deriving DecidableEq, Repr

structure Vertical where
  rVCount : Nat
  oHdmiVs : Bool
  rVActive : Bool
  deriving DecidableEq, Repr

structure Addressing where
  oPixelEn : Bool
  rPixelAddress : Nat
  oXCounter : Nat
  oYCounter : Nat
  deriving DecidableEq, Repr

structure HdmiControler extends Horizontal, Vertical, Addressing where
  oHdmiDe : Bool
  deriving DecidableEq, Repr

namespace HdmiControler

def reset : HdmiControler where
  rHCount := 0
  oHdmiHs := true
  rHActive := false
  rVCount := 0
  oHdmiVs := true
  rVActive := false
  oHdmiDe := false
  oPixelEn := false
  rPixelAddress := 0
  oXCounter := 0
  oYCounter := 0

def horizontal (g : Generics) (s : HdmiControler) : Horizontal where
  rHCount := if s.rHCount = g.hTotal then 0 else s.rHCount + 1
  oHdmiHs := if s.rHCount ≥ g.hSync ∧ s.rHCount ≠ g.hTotal then true else false
  rHActive :=
    if s.rHCount = g.hStart then true
    else if s.rHCount = g.hEnd then false
    else s.rHActive

/-- The vertical process, which assigns at the end of a line only. -/
def vertical (g : Generics) (s : HdmiControler) : Vertical :=
  if s.rHCount = g.hTotal then
    { rVCount := if s.rVCount = g.vTotal then 0 else s.rVCount + 1
      oHdmiVs := if s.rVCount ≥ g.vSync ∧ s.rVCount ≠ g.vTotal then true else false
      rVActive :=
        if s.rVCount = g.vStart then true
        else if s.rVCount = g.vEnd then false
        else s.rVActive }
  else s.toVertical

def dataEnable (s : HdmiControler) : Bool := s.rHActive && s.rVActive

/-- The address and coordinate process. The subtractions are those of naturals: where they are made
    both counts are past the start of the active zone (`Synced.counts_of_active`). -/
def addressing (g : Generics) (s : HdmiControler) : Addressing :=
  let t : Addressing := { s.toAddressing with oPixelEn := s.rHActive && s.rVActive }
  if s.rHActive = true ∧ s.rVActive = true then
    { t with
      oXCounter := s.rHCount - g.hStart
      oYCounter := s.rVCount - g.vStart
      rPixelAddress := if s.rHCount = g.hEnd ∧ s.rVCount = g.vEnd then 0 else s.rPixelAddress + 1 }
  else t

/-- One rising edge of `i_clk`: every process reads the registers as they were before it. -/
def edge (g : Generics) (s : HdmiControler) : HdmiControler where
  toHorizontal := horizontal g s
  toVertical := vertical g s
  toAddressing := addressing g s
  oHdmiDe := dataEnable s

/-! ### What an edge assigns to each register -/

section Edge
variable (g : Generics) (s : HdmiControler)

theorem rHCount_edge : (edge g s).rHCount = if s.rHCount = g.hTotal then 0 else s.rHCount + 1 := rfl

theorem oHdmiHs_edge : (edge g s).oHdmiHs = decide (g.hSync ≤ s.rHCount ∧ s.rHCount ≠ g.hTotal) := by
  simp [edge, horizontal]

theorem rHActive_edge : (edge g s).rHActive =
    if s.rHCount = g.hStart then true else if s.rHCount = g.hEnd then false else s.rHActive := rfl

theorem rVCount_edge : (edge g s).rVCount =
    if s.rHCount = g.hTotal then (if s.rVCount = g.vTotal then 0 else s.rVCount + 1) else s.rVCount := by
  simp only [edge, vertical]
  split <;> rfl

theorem oHdmiVs_edge : (edge g s).oHdmiVs =
    if s.rHCount = g.hTotal then decide (g.vSync ≤ s.rVCount ∧ s.rVCount ≠ g.vTotal) else s.oHdmiVs := by
  simp only [edge, vertical]
  split <;> simp

theorem rVActive_edge : (edge g s).rVActive =
    if s.rHCount = g.hTotal then
      (if s.rVCount = g.vStart then true else if s.rVCount = g.vEnd then false else s.rVActive)
    else s.rVActive := by
  simp only [edge, vertical]
  split <;> rfl

theorem oHdmiDe_edge : (edge g s).oHdmiDe = (s.rHActive && s.rVActive) := rfl

theorem rPixelAddress_edge : (edge g s).rPixelAddress =
    if s.rHActive = true ∧ s.rVActive = true then
      (if s.rHCount = g.hEnd ∧ s.rVCount = g.vEnd then 0 else s.rPixelAddress + 1)
    else s.rPixelAddress := by
  simp only [edge, addressing]
  split <;> rfl

theorem oXCounter_edge : (edge g s).oXCounter =
    if s.rHActive = true ∧ s.rVActive = true then s.rHCount - g.hStart else s.oXCounter := by
  simp only [edge, addressing]
  split <;> rfl

theorem oYCounter_edge : (edge g s).oYCounter =
    if s.rHActive = true ∧ s.rVActive = true then s.rVCount - g.vStart else s.oYCounter := by
  simp only [edge, addressing]
  split <;> rfl

end Edge

end HdmiControler
end EcranMagique
