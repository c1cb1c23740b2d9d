import VirtualSoC.Cpu.Rv32Defs
import VirtualSoC.Lib.Buffer
import VirtualSoC.Lib.Bytes

/-!
# The ELF loader

`util/elf_loader.cpp`: the checks of the ELF header and the loop over the program headers.  The
loader hands the parts of each segment to a callback; here it returns the calls in their order, and
`loadElfFromMemory` makes them.

A load is `none` where the program reads outside the file, or multiplies two `int`s beyond their
range, both of which are undefined behaviour.  Memory for the zeros of a segment is taken to be
available.
-/

namespace VirtualSoC

/-- The `k` bytes of a struct at the offset `off`. -/
def field {n v : ℕ} (buf : Vector Byte n) (off k : ℕ) : BitVec v :=
  Bytes.ofLE (Vector.ofFn fun i : Fin k => buf[off + i.1]?.getD 0)

/-- `Elf32_Ehdr`, the fields that the loader uses. -/
structure Elf32Ehdr where
  eIdent : Vector Byte 16
  eType : BitVec 16
  eMachine : BitVec 16
  eEntry : Word
  ePhoff : Word
  ePhentsize : BitVec 16
  ePhnum : BitVec 16

namespace Elf32Ehdr

/-- `sizeof(Elf32_Ehdr)`. -/
def size : ℕ := 52

/-- The fields of the file header. -/
def ofBytes (buf : Vector Byte size) : Elf32Ehdr where
  eIdent := Vector.ofFn fun i => buf[i.1]?.getD 0
  eType := field buf 16 2
  eMachine := field buf 18 2
  eEntry := field buf 24 4
  ePhoff := field buf 28 4
  ePhentsize := field buf 42 2
  ePhnum := field buf 44 2

end Elf32Ehdr

/-- `Elf32_Phdr`, the fields that the loader uses. -/
structure Elf32Phdr where
  pType : Word
  pOffset : Word
  pPaddr : Word
  pFilesz : Word
  pMemsz : Word
  deriving DecidableEq, Repr

namespace Elf32Phdr

/-- `sizeof(Elf32_Phdr)`. -/
def size : ℕ := 32

/-- The fields of a program header. -/
def ofBytes (buf : Vector Byte size) : Elf32Phdr where
  pType := field buf 0 4
  pOffset := field buf 4 4
  pPaddr := field buf 12 4
  pFilesz := field buf 16 4
  pMemsz := field buf 20 4

end Elf32Phdr

/-- A segment to be loaded. -/
def ptLoad : Word := 1
/-- The machine. -/
def emRiscv : BitVec 16 := 0xF3
/-- An executable file. -/
def etExec : BitVec 16 := 2

/-- `validate_header`: the first failing check names the error. -/
def validateHeader (eh : Elf32Ehdr) : Except String Unit :=
  if eh.eIdent[0] ≠ 0x7F ∨ eh.eIdent[1] ≠ 0x45 ∨ eh.eIdent[2] ≠ 0x4C ∨ eh.eIdent[3] ≠ 0x46 then
    .error "ELF: bad magic"
  else if eh.eIdent[4] ≠ 1 then .error "ELF: not 32-bit"
  else if eh.eIdent[5] ≠ 1 then .error "ELF: not little-endian"
  else if eh.eMachine ≠ emRiscv then
    .error ("ELF: not RISC-V (machine=" ++ toString eh.eMachine.toNat ++ ")")
  else if eh.eType ≠ etExec then .error "ELF: not an executable"
  else .ok ()

/-- What the loader reports: the entry, and the range of the loaded addresses. -/
structure ElfLoadResult where
  entryPoint : Word := 0
  loadMin : Word := 0xFFFFFFFF
  loadMax : Word := 0
  segmentsLoaded : ℕ := 0
  deriving DecidableEq, Repr

/-- A call of the write callback. -/
structure ElfWrite where
  paddr : Word
  len : ℕ
  data : Vector Byte len

variable {size : ℕ} (file : Vector Byte size)

/-- `do_load` up to the loop. -/
def checkHeader : Option (Except String Elf32Ehdr) :=
  if size < Elf32Ehdr.size then some (.error "ELF: file too small")
  else
    (Buffer.read file 0 Elf32Ehdr.size).map fun buf => do
      let eh := Elf32Ehdr.ofBytes buf
      validateHeader eh
      -- computed in `size_t`, with the entry size of the file and not with that of the copy below
      let phEnd := eh.ePhoff.toNat + eh.ePhnum.toNat * eh.ePhentsize.toNat
      if phEnd > size then .error "ELF: program headers exceed file"
      else .ok eh

/-- The copy of program header `i`; the product is an `int`. -/
def programHeader (eh : Elf32Ehdr) (i : ℕ) : Option Elf32Phdr :=
  if i * eh.ePhentsize.toNat < 2 ^ 31 then
    (Buffer.read file (eh.ePhoff.toNat + i * eh.ePhentsize.toNat) Elf32Phdr.size).map
      Elf32Phdr.ofBytes
  else none

/-- The part of a segment that is in the file. -/
def filePart (ph : Elf32Phdr) : Option (List ElfWrite) :=
  if ph.pFilesz > 0 then
    (Buffer.read file ph.pOffset.toNat ph.pFilesz.toNat).map fun data => [⟨ph.pPaddr, _, data⟩]
  else some []

/-- The zeros of a segment. -/
def bssPart (ph : Elf32Phdr) : List ElfWrite :=
  if ph.pMemsz > ph.pFilesz then
    let bssLen := (ph.pMemsz - ph.pFilesz).toNat
    [⟨ph.pPaddr + ph.pFilesz, bssLen, .replicate bssLen 0⟩]
  else []

/-- The range check on a segment. -/
def Elf32Phdr.exceeds (ph : Elf32Phdr) (size : ℕ) : Bool := (ph.pOffset + ph.pFilesz).toNat > size

/-- The range grows by a segment. -/
def ElfLoadResult.add (r : ElfLoadResult) (ph : Elf32Phdr) : ElfLoadResult :=
  { r with
    loadMin := if ph.pPaddr < r.loadMin then ph.pPaddr else r.loadMin
    loadMax := if ph.pPaddr + ph.pMemsz > r.loadMax then ph.pPaddr + ph.pMemsz else r.loadMax
    segmentsLoaded := r.segmentsLoaded + 1 }

/-- The loop over `n` program headers, from number `i` on: the calls of the callback, and the
result or the exception. -/
def loadSegments (eh : Elf32Ehdr) :
    ℕ → ℕ → ElfLoadResult → Option (List ElfWrite × Except String ElfLoadResult)
  | 0, _, r => some ([], .ok r)
  | n + 1, i, r => do
    let ph ← programHeader file eh i
    -- other program headers are skipped
    if ph.pType ≠ ptLoad then loadSegments eh n (i + 1) r
    else if ph.exceeds size then some ([], .error "ELF: segment data exceeds file")
    else
      -- no result where the part lies behind the file: the sum above has wrapped around
      let part ← filePart file ph
      let (writes, result) ← loadSegments eh n (i + 1) (r.add ph)
      some (part ++ bssPart ph ++ writes, result)

/-- `do_load`: the writes made, and the result. -/
def doLoad : Option (List ElfWrite × Except String ElfLoadResult) := do
  match ← checkHeader file with
  | .error e => some ([], .error e)
  | .ok eh => loadSegments file eh eh.ePhnum.toNat 0 { entryPoint := eh.eEntry }

/-- `load_elf_from_memory`, with a callback that acts on a state. -/
def loadElfFromMemory {σ : Type} (write : ElfWrite → σ → σ) (s : σ) :
    Option (σ × Except String ElfLoadResult) :=
  (doLoad file).map fun x => (x.1.foldl (fun s w => write w s) s, x.2)

end VirtualSoC
