import Mathlib.Init

/-!
# The RISC-V instruction encodings

The instructions of RV32IMA with Zicsr, Zifencei and the privileged instructions, as abstract
syntax, and the 32-bit word that the manual assigns to each of them.  This file says what an
encoding *is*; it does not look at the decoder.

Every format is cut from the same six fields, `word f7 rs2 rs1 f3 rd op`: the I, S, B, U and J
formats lay their immediate over some of them.

* `Instr` : the instructions with their operands; branch and jump offsets are kept without
  their low zero bit, as in the manual's `imm[12:1]` and `imm[20:1]`;
* `Instr.encode` : the word of an instruction.
-/

namespace VirtualSoC

namespace Isa

/-- Register numbers. -/
abbrev Reg := BitVec 5

/-! ### Operations and their function fields -/

/-- The conditions of the branches. -/
inductive BranchOp | beq | bne | blt | bge | bltu | bgeu
  deriving DecidableEq, Repr

/-- Sizes and extensions of the loads. -/
inductive LoadOp | lb | lh | lw | lbu | lhu
  deriving DecidableEq, Repr

/-- Sizes of the stores. -/
inductive StoreOp | sb | sh | sw
  deriving DecidableEq, Repr

/-- The operations of OP-IMM but the shifts. -/
inductive ImmOp | addi | slti | sltiu | xori | ori | andi
  deriving DecidableEq, Repr

/-- The shifts of OP-IMM. -/
inductive ShiftOp | slli | srli | srai
  deriving DecidableEq, Repr

/-- The operations of OP. -/
inductive RegOp
  | add | sub | sll | slt | sltu | xor | srl | sra | or | and
  deriving DecidableEq, Repr

/-- The operations of the M extension. -/
inductive MulOp | mul | mulh | mulhsu | mulhu | div | divu | rem | remu
  deriving DecidableEq, Repr

/-- The read-modify-writes of the A extension. -/
inductive AmoOp | swap | add | xor | and | or | min | max | minu | maxu
  deriving DecidableEq, Repr

/-- The SYSTEM instructions without operands. -/
inductive PrivOp | ecall | ebreak | uret | sret | mret | wfi
  deriving DecidableEq, Repr

/-- The Zicsr instructions. -/
inductive CsrOp | rw | rs | rc | rwi | rsi | rci
  deriving DecidableEq, Repr

/-- The code in bits 14 to 12. -/
@[simp] def BranchOp.funct3 : BranchOp → BitVec 3
  | .beq => 0b000 | .bne => 0b001 | .blt => 0b100
  | .bge => 0b101 | .bltu => 0b110 | .bgeu => 0b111

/-- The code in bits 14 to 12. -/
@[simp] def LoadOp.funct3 : LoadOp → BitVec 3
  | .lb => 0b000 | .lh => 0b001 | .lw => 0b010 | .lbu => 0b100 | .lhu => 0b101

/-- The code in bits 14 to 12. -/
@[simp] def StoreOp.funct3 : StoreOp → BitVec 3
  | .sb => 0b000 | .sh => 0b001 | .sw => 0b010

/-- The code in bits 14 to 12. -/
@[simp] def ImmOp.funct3 : ImmOp → BitVec 3
  | .addi => 0b000 | .slti => 0b010 | .sltiu => 0b011
  | .xori => 0b100 | .ori => 0b110 | .andi => 0b111

/-- The code in bits 14 to 12; right shifts share it. -/
@[simp] def ShiftOp.funct3 : ShiftOp → BitVec 3
  | .slli => 0b001 | .srli => 0b101 | .srai => 0b101

/-- The code above the shift amount. -/
@[simp] def ShiftOp.funct7 : ShiftOp → BitVec 7
  | .slli => 0b0000000 | .srli => 0b0000000 | .srai => 0b0100000

/-- The code in bits 14 to 12. -/
@[simp] def RegOp.funct3 : RegOp → BitVec 3
  | .add => 0b000 | .sub => 0b000 | .sll => 0b001 | .slt => 0b010 | .sltu => 0b011
  | .xor => 0b100 | .srl => 0b101 | .sra => 0b101 | .or => 0b110 | .and => 0b111

/-- The code in bits 31 to 25. -/
@[simp] def RegOp.funct7 : RegOp → BitVec 7
  | .sub => 0b0100000 | .sra => 0b0100000 | _ => 0b0000000

/-- The code in bits 14 to 12. -/
@[simp] def MulOp.funct3 : MulOp → BitVec 3
  | .mul => 0b000 | .mulh => 0b001 | .mulhsu => 0b010 | .mulhu => 0b011
  | .div => 0b100 | .divu => 0b101 | .rem => 0b110 | .remu => 0b111

/-- The code in bits 31 to 27. -/
@[simp] def AmoOp.funct5 : AmoOp → BitVec 5
  | .swap => 0b00001 | .add => 0b00000 | .xor => 0b00100 | .and => 0b01100 | .or => 0b01000
  | .min => 0b10000 | .max => 0b10100 | .minu => 0b11000 | .maxu => 0b11100

/-- The code in bits 31 to 20. -/
@[simp] def PrivOp.funct12 : PrivOp → BitVec 12
  | .ecall => 0x000 | .ebreak => 0x001 | .uret => 0x002
  | .sret => 0x102 | .mret => 0x302 | .wfi => 0x105

/-- The code in bits 14 to 12. -/
@[simp] def CsrOp.funct3 : CsrOp → BitVec 3
  | .rw => 0b001 | .rs => 0b010 | .rc => 0b011
  | .rwi => 0b101 | .rsi => 0b110 | .rci => 0b111

/-! ### Instructions -/

/-- The instructions.  `ord` is the `aq`/`rl` pair; the operand fields of the fences that a base
implementation ignores are kept, since any value of them encodes a fence. -/
inductive Instr
  | lui (rd : Reg) (imm : BitVec 20)
  | auipc (rd : Reg) (imm : BitVec 20)
  | jal (rd : Reg) (off : BitVec 20)
  | jalr (rd rs1 : Reg) (imm : BitVec 12)
  | branch (op : BranchOp) (rs1 rs2 : Reg) (off : BitVec 12)
  | load (op : LoadOp) (rd rs1 : Reg) (imm : BitVec 12)
  | store (op : StoreOp) (rs1 rs2 : Reg) (imm : BitVec 12)
  | opImm (op : ImmOp) (rd rs1 : Reg) (imm : BitVec 12)
  | shift (op : ShiftOp) (rd rs1 shamt : Reg)
  | opReg (op : RegOp) (rd rs1 rs2 : Reg)
  | mulDiv (op : MulOp) (rd rs1 rs2 : Reg)
  | lr (ord : BitVec 2) (rd rs1 : Reg)
  | sc (ord : BitVec 2) (rd rs1 rs2 : Reg)
  | amo (op : AmoOp) (ord : BitVec 2) (rd rs1 rs2 : Reg)
  | fence (rd rs1 : Reg) (imm : BitVec 12)
  | fenceI (rd rs1 : Reg) (imm : BitVec 12)
  | priv (op : PrivOp)
  | sfenceVma (rs1 rs2 : Reg)
  | csr (op : CsrOp) (rd rs1 : Reg) (addr : BitVec 12)
  deriving DecidableEq, Repr

/-! ### Formats -/

/-- The 32-bit word with the given six fields. -/
def word (f7 : BitVec 7) (rs2 rs1 : Reg) (f3 : BitVec 3) (rd : Reg) (op : BitVec 7) :
    BitVec 32 :=
  f7.setWidth 32 <<< 25 ||| rs2.setWidth 32 <<< 20 ||| rs1.setWidth 32 <<< 15 |||
    f3.setWidth 32 <<< 12 ||| rd.setWidth 32 <<< 7 ||| op.setWidth 32

/-- I format: the immediate lies over `funct7` and `rs2`. -/
def iType (imm : BitVec 12) (rs1 : Reg) (f3 : BitVec 3) (rd : Reg) (op : BitVec 7) :
    BitVec 32 :=
  word (imm.extractLsb' 5 7) (imm.extractLsb' 0 5) rs1 f3 rd op

/-- S format: `imm[11:5]` lies over `funct7`, `imm[4:0]` over `rd`. -/
def sType (imm : BitVec 12) (rs2 rs1 : Reg) (f3 : BitVec 3) (op : BitVec 7) : BitVec 32 :=
  word (imm.extractLsb' 5 7) rs2 rs1 f3 (imm.extractLsb' 0 5) op

/-- B format: `imm[12|10:5]` lies over `funct7`, `imm[4:1|11]` over `rd`; `off` is
`imm[12:1]`. -/
def bType (off : BitVec 12) (rs2 rs1 : Reg) (f3 : BitVec 3) (op : BitVec 7) : BitVec 32 :=
  word ((off.extractLsb' 11 1).setWidth 7 <<< 6 ||| (off.extractLsb' 4 6).setWidth 7) rs2 rs1 f3
    ((off.extractLsb' 0 4).setWidth 5 <<< 1 ||| (off.extractLsb' 10 1).setWidth 5) op

/-- U format: the immediate lies over `funct7`, `rs2`, `rs1` and `funct3`. -/
def uType (imm : BitVec 20) (rd : Reg) (op : BitVec 7) : BitVec 32 :=
  word (imm.extractLsb' 13 7) (imm.extractLsb' 8 5) (imm.extractLsb' 3 5) (imm.extractLsb' 0 3)
    rd op

/-- J format: `imm[20|10:1|11|19:12]`; `off` is `imm[20:1]`. -/
def jType (off : BitVec 20) (rd : Reg) (op : BitVec 7) : BitVec 32 :=
  uType ((off.extractLsb' 19 1).setWidth 20 <<< 19 ||| (off.extractLsb' 0 10).setWidth 20 <<< 9 |||
    (off.extractLsb' 10 1).setWidth 20 <<< 8 ||| (off.extractLsb' 11 8).setWidth 20) rd op

/-- `funct7` of the A extension: `funct5`, `aq`, `rl`. -/
def amoFunct7 (f5 : BitVec 5) (ord : BitVec 2) : BitVec 7 :=
  f5.setWidth 7 <<< 2 ||| ord.setWidth 7

/-- The word of an instruction. -/
def Instr.encode : Instr → BitVec 32
  | .lui rd imm => uType imm rd 0b0110111
  | .auipc rd imm => uType imm rd 0b0010111
  | .jal rd off => jType off rd 0b1101111
  | .jalr rd rs1 imm => iType imm rs1 0b000 rd 0b1100111
  | .branch op rs1 rs2 off => bType off rs2 rs1 op.funct3 0b1100011
  | .load op rd rs1 imm => iType imm rs1 op.funct3 rd 0b0000011
  | .store op rs1 rs2 imm => sType imm rs2 rs1 op.funct3 0b0100011
  | .opImm op rd rs1 imm => iType imm rs1 op.funct3 rd 0b0010011
  | .shift op rd rs1 shamt => word op.funct7 shamt rs1 op.funct3 rd 0b0010011
  | .opReg op rd rs1 rs2 => word op.funct7 rs2 rs1 op.funct3 rd 0b0110011
  | .mulDiv op rd rs1 rs2 => word 0b0000001 rs2 rs1 op.funct3 rd 0b0110011
  | .lr ord rd rs1 => word (amoFunct7 0b00010 ord) 0 rs1 0b010 rd 0b0101111
  | .sc ord rd rs1 rs2 => word (amoFunct7 0b00011 ord) rs2 rs1 0b010 rd 0b0101111
  | .amo op ord rd rs1 rs2 => word (amoFunct7 op.funct5 ord) rs2 rs1 0b010 rd 0b0101111
  | .fence rd rs1 imm => iType imm rs1 0b000 rd 0b0001111
  | .fenceI rd rs1 imm => iType imm rs1 0b001 rd 0b0001111
  | .priv op => iType op.funct12 0 0b000 0 0b1110011
  | .sfenceVma rs1 rs2 => word 0b0001001 rs2 rs1 0b000 0 0b1110011
  | .csr op rd rs1 addr => iType addr rs1 op.funct3 rd 0b1110011

end Isa

end VirtualSoC
