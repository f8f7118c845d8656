import EcranMagique.Dpram
import EcranMagique.HdmiControler

/-! The display side of `telecran.vhd`: the video generator addresses port B of the frame buffer, and the
    word that the buffer registers selects the colour. Port A belongs to another clock, whose edges may
    fall anywhere between those of the pixel clock. -/

namespace EcranMagique

/-- The colour of the word at port B: white for `x"FF"`, black for any other. -/
def oHdmiTxD (sPixelData : BitVec 8) : BitVec 24 := if sPixelData = 0xFF#8 then BitVec.allOnes 24 else 0

/-- The video generator and the frame buffer that it scans. -/
structure Display (g : Generics) where
  hdmiCtrl : HdmiControler
  uFrameBuffer : Dpram (g.hRes * g.vRes) 8

namespace Display
variable {g : Generics}

/-- The generator is reset; the memory has no reset. -/
def reset (fb : Dpram (g.hRes * g.vRes) 8) : Display g := ⟨HdmiControler.reset, fb⟩

inductive Edge (g : Generics) where
  | pixel
  | portA (addr : Fin (g.hRes * g.vRes)) (data : BitVec 8)
  deriving DecidableEq

/-- What an edge does. A pixel edge reads at the address that the generator showed before it. -/
def edge? (s : Display g) : Edge g → Option (Display g)
  | .pixel =>
    (s.uFrameBuffer.portB false s.hdmiCtrl.rPixelAddress 0).map fun fb => ⟨s.hdmiCtrl.edge g, fb⟩
  | .portA addr data =>
    (s.uFrameBuffer.portA true addr data).map fun fb => ⟨s.hdmiCtrl, fb⟩

theorem edge?_pixel {s t : Display g} :
    s.edge? .pixel = some t ↔ ∃ h : s.hdmiCtrl.rPixelAddress < g.hRes * g.vRes,
      t = ⟨s.hdmiCtrl.edge g,
        ⟨s.uFrameBuffer.ram, s.uFrameBuffer.oQA, s.uFrameBuffer.ram ⟨s.hdmiCtrl.rPixelAddress, h⟩⟩⟩ := by
  simp only [edge?, Option.map_eq_some_iff, Dpram.portB_read]
  constructor
  · rintro ⟨fb, ⟨h, rfl⟩, rfl⟩
    exact ⟨h, rfl⟩
  · rintro ⟨h, rfl⟩
    exact ⟨_, ⟨h, rfl⟩, rfl⟩

theorem edge?_portA {s t : Display g} {addr : Fin (g.hRes * g.vRes)} {data : BitVec 8} :
    s.edge? (.portA addr data) = some t ↔
      t = ⟨s.hdmiCtrl, ⟨Function.update s.uFrameBuffer.ram addr data, data, s.uFrameBuffer.oQB⟩⟩ := by
  simp only [edge?, Option.map_eq_some_iff, Dpram.portA_write]
  constructor
  · rintro ⟨fb, ⟨_, rfl⟩, rfl⟩
    rfl
  · rintro rfl
    exact ⟨_, ⟨addr.isLt, rfl⟩, rfl⟩

end Display
end EcranMagique
