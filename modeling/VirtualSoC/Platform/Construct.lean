import VirtualSoC.Platform.GamingCpuVp
import VirtualSoC.Util.ElfLoader

/-!
# Loading a program

What the constructor of `GamingCPU_VP` in `platform/gamingcpu_vp.cpp` does with an ELF file, and the
start of the thread of the ISS.

The host's files are a parameter.  The constructor has no result where it has undefined behaviour,
and an error where it throws.
-/

namespace VirtualSoC

open Cfg

/-- The contents of the files that can be opened. -/
abbrev Files := String → Option (Σ size, Vector Byte size)

/-- `load_elf`. -/
def loadElf {σ : Type} (files : Files) (path : String) (write : ElfWrite → σ → σ) (s : σ) :
    Option (σ × Except String ElfLoadResult) :=
  match files path with
  | none => some (s, .error ("ELF: cannot open " ++ path))
  | some ⟨_, file⟩ => loadElfFromMemory file write s

/-- The contents of the two memories, zero when they are built. -/
structure Memories where
  ram : Vector Byte ramSize.toNat := .replicate _ 0
  bootrom : Vector Byte bootRomSize.toNat := .replicate _ 0

/-- The write callback; the sums of a 32-bit address and a `size_t` are not reduced. -/
def Memories.elfWrite (m : Memories) (w : ElfWrite) : Option Memories :=
  if w.paddr ≥ ramBase ∧ w.paddr.toNat + w.len ≤ (ramBase + ramSize).toNat then
    (Buffer.copy m.ram (w.paddr - ramBase).toNat w.data 0 w.len).map fun ram => { m with ram }
  else if w.paddr ≥ bootRomBase ∧ w.paddr.toNat + w.len ≤ (bootRomBase + bootRomSize).toNat then
    (Buffer.copy m.bootrom (w.paddr - bootRomBase).toNat w.data 0 w.len).map fun bootrom =>
      { m with bootrom }
  else some m

/-- The platform after its construction. -/
structure GamingCpuVp (δ : Type) extends Memories where
  /-- `reset_pc_` of the ISS. -/
  resetPc : Word := ramBase
  state : CPUState := {}
  devices : ℕ → δ

namespace GamingCpuVp

variable {δ : Type} (files : Files) (elfPath : String) (devices : ℕ → δ)

/-- The constructor. -/
def construct : Option (Except String (GamingCpuVp δ)) :=
  if elfPath = "" then some (.ok { devices })
  else do
    let write (w : ElfWrite) (m : Option Memories) := m.bind (·.elfWrite w)
    let (m, result) ← loadElf files elfPath write (some {})
    let m ← m
    return result.map fun result =>
      { ram := m.ram, bootrom := m.bootrom, state := { pc := result.entryPoint }, devices }

variable (vp : GamingCpuVp δ)

/-- The ISS when its thread starts: `ISS::run` up to the loop. -/
def start : ISS (Option (BusPort δ)) where
  state := { vp.state with pc := vp.resetPc }
  env := { bus := some { targets := platformTargets vp.bootrom vp.ram vp.devices } }

end GamingCpuVp

end VirtualSoC
