import Mathlib.Init

/-!
# RV32 constants and field extraction

The constants of `cpu/rv32_defs.h` that the decoder, the execute engine, the CSR file, the trap
unit and the MMU use, and the instruction field and immediate extractors.

All of them are tagged `simp`, so that comparisons between them are decided by evaluation.
-/

namespace VirtualSoC

/-- `uint32_t`, and `int32_t` read as a bit pattern. -/
abbrev Word := BitVec 32

/-- `uint8_t` used as a memory byte. -/
abbrev Byte := BitVec 8

/-- `uint8_t` used as a privilege level. -/
abbrev Priv := BitVec 8

/-! ### Major opcodes -/

/-- Load upper immediate. -/
@[simp] def opLui : Word := 0b0110111
/-- Add upper immediate to pc. -/
@[simp] def opAuipc : Word := 0b0010111
/-- Jump and link. -/
@[simp] def opJal : Word := 0b1101111
/-- Jump and link register. -/
@[simp] def opJalr : Word := 0b1100111
/-- The branches. -/
@[simp] def opBranch : Word := 0b1100011
/-- The loads. -/
@[simp] def opLoad : Word := 0b0000011
/-- The stores. -/
@[simp] def opStore : Word := 0b0100011
/-- Operations with an immediate. -/
@[simp] def opImm : Word := 0b0010011
/-- Operations on registers, with the M extension. -/
@[simp] def opReg : Word := 0b0110011
/-- FENCE and FENCE.I. -/
@[simp] def opFence : Word := 0b0001111
/-- CSR and privileged instructions. -/
@[simp] def opSystem : Word := 0b1110011
/-- The A extension. -/
@[simp] def opAmo : Word := 0b0101111

/-! ### `funct3`, `funct5`, `funct7` and `funct12` -/

/-- Equal. -/
@[simp] def f3Beq : Word := 0b000
/-- Not equal. -/
@[simp] def f3Bne : Word := 0b001
/-- Less, signed. -/
@[simp] def f3Blt : Word := 0b100
/-- At least, signed. -/
@[simp] def f3Bge : Word := 0b101
/-- Less, unsigned. -/
@[simp] def f3Bltu : Word := 0b110
/-- At least, unsigned. -/
@[simp] def f3Bgeu : Word := 0b111

/-- A signed byte. -/
@[simp] def f3Lb : Word := 0b000
/-- A signed halfword. -/
@[simp] def f3Lh : Word := 0b001
/-- A word. -/
@[simp] def f3Lw : Word := 0b010
/-- An unsigned byte. -/
@[simp] def f3Lbu : Word := 0b100
/-- An unsigned halfword. -/
@[simp] def f3Lhu : Word := 0b101

/-- A byte. -/
@[simp] def f3Sb : Word := 0b000
/-- A halfword. -/
@[simp] def f3Sh : Word := 0b001
/-- A word. -/
@[simp] def f3Sw : Word := 0b010

/-- Sum or difference. -/
@[simp] def f3AddSub : Word := 0b000
/-- Left shift. -/
@[simp] def f3Sll : Word := 0b001
/-- Signed comparison. -/
@[simp] def f3Slt : Word := 0b010
/-- Unsigned comparison. -/
@[simp] def f3Sltu : Word := 0b011
/-- Exclusive or. -/
@[simp] def f3Xor : Word := 0b100
/-- Right shifts. -/
@[simp] def f3SrlSra : Word := 0b101
/-- Inclusive or. -/
@[simp] def f3Or : Word := 0b110
/-- Conjunction. -/
@[simp] def f3And : Word := 0b111

/-- The first operation of a `funct3`. -/
@[simp] def f7Normal : Word := 0b0000000
/-- The second one: SUB, SRA, SRAI. -/
@[simp] def f7Alt : Word := 0b0100000
/-- The M extension. -/
@[simp] def f7Muldiv : Word := 0b0000001

/-- Low word of the product. -/
@[simp] def f3Mul : Word := 0b000
/-- High word, signed. -/
@[simp] def f3Mulh : Word := 0b001
/-- High word, signed by unsigned. -/
@[simp] def f3Mulhsu : Word := 0b010
/-- High word, unsigned. -/
@[simp] def f3Mulhu : Word := 0b011
/-- Signed quotient. -/
@[simp] def f3Div : Word := 0b100
/-- Unsigned quotient. -/
@[simp] def f3Divu : Word := 0b101
/-- Signed remainder. -/
@[simp] def f3Rem : Word := 0b110
/-- Unsigned remainder. -/
@[simp] def f3Remu : Word := 0b111

/-- Load reserved. -/
@[simp] def f5Lr : Word := 0b00010
/-- Store conditional. -/
@[simp] def f5Sc : Word := 0b00011
/-- Swap. -/
@[simp] def f5Amoswap : Word := 0b00001
/-- Sum. -/
@[simp] def f5Amoadd : Word := 0b00000
/-- Exclusive or. -/
@[simp] def f5Amoxor : Word := 0b00100
/-- Conjunction. -/
@[simp] def f5Amoand : Word := 0b01100
/-- Inclusive or. -/
@[simp] def f5Amoor : Word := 0b01000
/-- Signed minimum. -/
@[simp] def f5Amomin : Word := 0b10000
/-- Signed maximum. -/
@[simp] def f5Amomax : Word := 0b10100
/-- Unsigned minimum. -/
@[simp] def f5Amominu : Word := 0b11000
/-- Unsigned maximum. -/
@[simp] def f5Amomaxu : Word := 0b11100

/-- No CSR instruction. -/
@[simp] def f3Priv : Word := 0b000
/-- Read and write. -/
@[simp] def f3Csrrw : Word := 0b001
/-- Read and set bits. -/
@[simp] def f3Csrrs : Word := 0b010
/-- Read and clear bits. -/
@[simp] def f3Csrrc : Word := 0b011
/-- Read and write an immediate. -/
@[simp] def f3Csrrwi : Word := 0b101
/-- Read and set bits of an immediate. -/
@[simp] def f3Csrrsi : Word := 0b110
/-- Read and clear bits of an immediate. -/
@[simp] def f3Csrrci : Word := 0b111

/-- Environment call. -/
@[simp] def f12Ecall : Word := 0x000
/-- Breakpoint. -/
@[simp] def f12Ebreak : Word := 0x001
/-- Return to user mode. -/
@[simp] def f12Uret : Word := 0x002
/-- Return from supervisor mode. -/
@[simp] def f12Sret : Word := 0x102
/-- Return from machine mode. -/
@[simp] def f12Mret : Word := 0x302
/-- Wait for interrupt. -/
@[simp] def f12Wfi : Word := 0x105

/-- Flush of the TLB. -/
@[simp] def f7SfenceVma : Word := 0b0001001

/-- Flush of fetched instructions. -/
@[simp] def f3Fencei : Word := 0b001

/-! ### CSR addresses -/

/-- Cycles, for all modes. -/
@[simp] def csrCycle : BitVec 16 := 0xC00
/-- Time, for all modes. -/
@[simp] def csrTime : BitVec 16 := 0xC01
/-- Retired instructions, for all modes. -/
@[simp] def csrInstret : BitVec 16 := 0xC02
/-- The high half of `cycle`. -/
@[simp] def csrCycleh : BitVec 16 := 0xC80
/-- The high half of `time`. -/
@[simp] def csrTimeh : BitVec 16 := 0xC81
/-- The high half of `instret`. -/
@[simp] def csrInstreth : BitVec 16 := 0xC82

/-- The supervisor view of `mstatus`. -/
@[simp] def csrSstatus : BitVec 16 := 0x100
/-- The supervisor view of `mie`. -/
@[simp] def csrSie : BitVec 16 := 0x104
/-- Supervisor trap handler. -/
@[simp] def csrStvec : BitVec 16 := 0x105
/-- Counters for user mode. -/
@[simp] def csrScounteren : BitVec 16 := 0x106
/-- Scratch word of the supervisor. -/
@[simp] def csrSscratch : BitVec 16 := 0x140
/-- Supervisor exception pc. -/
@[simp] def csrSepc : BitVec 16 := 0x141
/-- Supervisor trap cause. -/
@[simp] def csrScause : BitVec 16 := 0x142
/-- Supervisor trap value. -/
@[simp] def csrStval : BitVec 16 := 0x143
/-- The supervisor view of `mip`. -/
@[simp] def csrSip : BitVec 16 := 0x144
/-- Address translation. -/
@[simp] def csrSatp : BitVec 16 := 0x180

/-- Machine status. -/
@[simp] def csrMstatus : BitVec 16 := 0x300
/-- The extensions. -/
@[simp] def csrMisa : BitVec 16 := 0x301
/-- Delegated exceptions. -/
@[simp] def csrMedeleg : BitVec 16 := 0x302
/-- Delegated interrupts. -/
@[simp] def csrMideleg : BitVec 16 := 0x303
/-- Enabled interrupts. -/
@[simp] def csrMie : BitVec 16 := 0x304
/-- Machine trap handler. -/
@[simp] def csrMtvec : BitVec 16 := 0x305
/-- Counters for the levels below. -/
@[simp] def csrMcounteren : BitVec 16 := 0x306
/-- Scratch word of the machine level. -/
@[simp] def csrMscratch : BitVec 16 := 0x340
/-- Machine exception pc. -/
@[simp] def csrMepc : BitVec 16 := 0x341
/-- Machine trap cause. -/
@[simp] def csrMcause : BitVec 16 := 0x342
/-- Machine trap value. -/
@[simp] def csrMtval : BitVec 16 := 0x343
/-- Pending interrupts. -/
@[simp] def csrMip : BitVec 16 := 0x344

/-- Cycles. -/
@[simp] def csrMcycle : BitVec 16 := 0xB00
/-- Retired instructions. -/
@[simp] def csrMinstret : BitVec 16 := 0xB02
/-- The high half of `mcycle`. -/
@[simp] def csrMcycleh : BitVec 16 := 0xB80
/-- The high half of `minstret`. -/
@[simp] def csrMinstreth : BitVec 16 := 0xB82

/-- The vendor. -/
@[simp] def csrMvendorid : BitVec 16 := 0xF11
/-- The architecture. -/
@[simp] def csrMarchid : BitVec 16 := 0xF12
/-- The implementation. -/
@[simp] def csrMimpid : BitVec 16 := 0xF13
/-- The number of the hart. -/
@[simp] def csrMhartid : BitVec 16 := 0xF14

/-! ### `mstatus` bits -/

/-- Machine interrupts are enabled in M-mode. -/
@[simp] def mstatusMie : Word := 1 <<< 3
/-- Supervisor interrupts are enabled in S-mode. -/
@[simp] def mstatusSie : Word := 1 <<< 1
/-- MIE before the trap into M-mode. -/
@[simp] def mstatusMpie : Word := 1 <<< 7
/-- SIE before the trap into S-mode. -/
@[simp] def mstatusSpie : Word := 1 <<< 5
/-- Where MPP is. -/
@[simp] def mstatusMppShift : Nat := 11
/-- The privilege before the trap into M-mode. -/
@[simp] def mstatusMppMask : Word := 0x3 <<< mstatusMppShift
/-- The privilege before the trap into S-mode. -/
@[simp] def mstatusSpp : Word := 1 <<< 8
/-- Data accesses of M-mode use MPP. -/
@[simp] def mstatusMprv : Word := 1 <<< 17
/-- S-mode may access pages of U-mode. -/
@[simp] def mstatusSum : Word := 1 <<< 18
/-- Executable pages are readable. -/
@[simp] def mstatusMxr : Word := 1 <<< 19
/-- S-mode may not change the translation. -/
@[simp] def mstatusTvm : Word := 1 <<< 20
/-- WFI is not for the levels below M-mode. -/
@[simp] def mstatusTw : Word := 1 <<< 21
/-- SRET is not for S-mode. -/
@[simp] def mstatusTsr : Word := 1 <<< 22

/-! ### Causes and privilege levels -/

/-- Misaligned fetch. -/
@[simp] def causeMisalignedFetch : Word := 0
/-- Fetch access fault. -/
@[simp] def causeFetchAccess : Word := 1
/-- Illegal instruction. -/
@[simp] def causeIllegalInstr : Word := 2
/-- EBREAK. -/
@[simp] def causeBreakpoint : Word := 3
/-- Misaligned load. -/
@[simp] def causeMisalignedLoad : Word := 4
/-- Load access fault. -/
@[simp] def causeLoadAccess : Word := 5
/-- Misaligned store or AMO. -/
@[simp] def causeMisalignedStore : Word := 6
/-- Store or AMO access fault. -/
@[simp] def causeStoreAccess : Word := 7
/-- ECALL from user mode. -/
@[simp] def causeEcallU : Word := 8
/-- ECALL from supervisor mode. -/
@[simp] def causeEcallS : Word := 9
/-- ECALL from machine mode. -/
@[simp] def causeEcallM : Word := 11
/-- Fetch page fault. -/
@[simp] def causeFetchPageFault : Word := 12
/-- Load page fault. -/
@[simp] def causeLoadPageFault : Word := 13
/-- Store or AMO page fault. -/
@[simp] def causeStorePageFault : Word := 15

/-- The cause of a trap is an interrupt. -/
@[simp] def intBit : Word := 0x80000000

/-- User mode. -/
@[simp] def prvU : Priv := 0
/-- Supervisor mode. -/
@[simp] def prvS : Priv := 1
/-- Machine mode. -/
@[simp] def prvM : Priv := 3

/-! ### `satp` fields and page-table entry bits -/

/-- No translation. -/
@[simp] def satpModeBare : Word := 0
/-- Where the mode is in `satp`. -/
@[simp] def satpModeShift : Nat := 31
/-- The page of the root table in `satp`. -/
@[simp] def satpPpnMask : Word := 0x003FFFFF

/-- Valid. -/
@[simp] def pteV : Word := 1 <<< 0
/-- Readable. -/
@[simp] def pteR : Word := 1 <<< 1
/-- Writable. -/
@[simp] def pteW : Word := 1 <<< 2
/-- Executable. -/
@[simp] def pteX : Word := 1 <<< 3
/-- A page of U-mode. -/
@[simp] def pteU : Word := 1 <<< 4
/-- Accessed. -/
@[simp] def pteA : Word := 1 <<< 6
/-- Dirty. -/
@[simp] def pteD : Word := 1 <<< 7
/-- Where the physical page number is. -/
@[simp] def ptePpnShift : Nat := 10

/-! ### Field extraction -/

/-- Bits 6 to 0. -/
def opcode (instr : Word) : Word := instr &&& 0x7F
/-- Bits 11 to 7. -/
def rd (instr : Word) : Word := (instr >>> 7) &&& 0x1F
/-- Bits 14 to 12. -/
def funct3 (instr : Word) : Word := (instr >>> 12) &&& 0x7
/-- Bits 19 to 15. -/
def rs1 (instr : Word) : Word := (instr >>> 15) &&& 0x1F
/-- Bits 24 to 20. -/
def rs2 (instr : Word) : Word := (instr >>> 20) &&& 0x1F
/-- Bits 31 to 25. -/
def funct7 (instr : Word) : Word := (instr >>> 25) &&& 0x7F
/-- Bits 31 to 27. -/
def funct5 (instr : Word) : Word := (instr >>> 27) &&& 0x1F
/-- Bits 31 to 20. -/
def funct12 (instr : Word) : Word := (instr >>> 20) &&& 0xFFF

/-! ### Immediates

`int32_t >> n` is the arithmetic shift; the other shifts act on `uint32_t`. -/

/-- The immediate of an I-type instruction. -/
def immI (instr : Word) : Word := instr.sshiftRight 20

/-- The immediate of an S-type instruction. -/
def immS (instr : Word) : Word :=
  (instr &&& 0xFE000000).sshiftRight 20 ||| ((instr >>> 7) &&& 0x1F)

/-- The offset of a branch. -/
def immB (instr : Word) : Word :=
  (instr &&& 0x80000000).sshiftRight 19 ||| ((instr &&& 0x80) <<< 4) |||
    ((instr >>> 20) &&& 0x7E0) ||| ((instr >>> 7) &&& 0x1E)

/-- The upper immediate. -/
def immU (instr : Word) : Word := instr &&& 0xFFFFF000

/-- The offset of a JAL. -/
def immJ (instr : Word) : Word :=
  (instr &&& 0x80000000).sshiftRight 11 ||| (instr &&& 0xFF000) |||
    ((instr >>> 9) &&& 0x800) ||| ((instr >>> 20) &&& 0x7FE)

/-- The CSR immediate: the `rs1` field, zero-extended. -/
def csrZimm (instr : Word) : Word := rs1 instr

/-! ### `misa` -/

/-- `MISA_VALUE`: RV32 with the extensions I, M, A, C, S and U. -/
@[simp] def misaValue : Word :=
  1 <<< 30 ||| 1 <<< 8 ||| 1 <<< 12 ||| 1 <<< 0 ||| 1 <<< 2 ||| 1 <<< 18 ||| 1 <<< 20

end VirtualSoC
