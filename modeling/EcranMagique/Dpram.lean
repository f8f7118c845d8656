import EcranMagique.Lib.Clocked
import Mathlib.Logic.Function.Basic

/-! The dual-port memory (`dpram.vhd`). Each port writes the shared array on its own clock when its write
    enable is set, and then registers the word at its address, which after a write is the word written.

    An address port has the range `0 to mem_size-1`: an edge with an address outside it is an error. -/

namespace EcranMagique

structure Dpram (memSize dataWidth : Nat) where
  ram : Fin memSize → BitVec dataWidth
  oQA : BitVec dataWidth
  oQB : BitVec dataWidth

namespace Dpram
variable {memSize dataWidth : Nat}

/-- The array and the registered word after an edge of a port. -/
def access (ram : Fin memSize → BitVec dataWidth) (we : Bool) (addr : Fin memSize) (data : BitVec dataWidth) :
    (Fin memSize → BitVec dataWidth) × BitVec dataWidth :=
  let ram' := if we = true then Function.update ram addr data else ram
  (ram', ram' addr)

def portA (m : Dpram memSize dataWidth) (iWeA : Bool) (iAddrA : Nat) (iDataA : BitVec dataWidth) :
    Option (Dpram memSize dataWidth) :=
  if h : iAddrA < memSize then
    let (ram, q) := access m.ram iWeA ⟨iAddrA, h⟩ iDataA
    some { m with ram, oQA := q }
  else none

def portB (m : Dpram memSize dataWidth) (iWeB : Bool) (iAddrB : Nat) (iDataB : BitVec dataWidth) :
    Option (Dpram memSize dataWidth) :=
  if h : iAddrB < memSize then
    let (ram, q) := access m.ram iWeB ⟨iAddrB, h⟩ iDataB
    some { m with ram, oQB := q }
  else none

theorem portA_write {m m' : Dpram memSize dataWidth} {addr : Nat} {data : BitVec dataWidth} :
    m.portA true addr data = some m' ↔
      ∃ h : addr < memSize, m' = ⟨Function.update m.ram ⟨addr, h⟩ data, data, m.oQB⟩ := by
  unfold portA access
  split
  · rename_i h
    simp [h, eq_comm]
  · rename_i h
    simp [h]

theorem portB_read {m m' : Dpram memSize dataWidth} {addr : Nat} {data : BitVec dataWidth} :
    m.portB false addr data = some m' ↔ ∃ h : addr < memSize, m' = ⟨m.ram, m.oQA, m.ram ⟨addr, h⟩⟩ := by
  unfold portB access
  split
  · rename_i h
    simp [h, eq_comm]
  · rename_i h
    simp [h]

end Dpram
end EcranMagique
