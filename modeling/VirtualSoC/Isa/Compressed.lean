import Mathlib.Data.Nat.Notation
import VirtualSoC.Isa.Encoding

/-!
# The compressed instructions

The RV32C parcels by the field layout of the manual: which instruction each of them abbreviates.
`Rvc.expand p = none` for the parcels that RV32C reserves, for those of the F, D and RV64 extensions
and for those that are not compressed at all.

A field `imm[hi:lo]` of an immediate is written as the parcel bits it is taken from, most
significant first.
-/

namespace VirtualSoC

namespace Isa

namespace Rvc

/-- The registers `x8`–`x15` of a 3-bit field. -/
def creg (r : BitVec 3) : Reg := (0b01 : BitVec 2) ++ r

variable (p : BitVec 16)

/-! ### Fields -/

/-- Bits `n + lo - 1` to `lo` of the parcel. -/
abbrev bits (lo n : ℕ) : BitVec n := p.extractLsb' lo n

/-- `rd`/`rs1` of the CI and CR formats. -/
abbrev rdRs1 : Reg := bits p 7 5

/-- `rs2` of the CR and CSS formats. -/
abbrev rs2 : Reg := bits p 2 5

/-- `rs1′` (and `rd′` of the arithmetic instructions). -/
abbrev rs1' : Reg := creg (bits p 7 3)

/-- `rs2′` (and `rd′` of CIW and CL). -/
abbrev rs2' : Reg := creg (bits p 2 3)

/-! ### Immediates -/

/-- `nzuimm[5:4|9:6|2|3]` of C.ADDI4SPN. -/
def addi4spnImm : BitVec 10 := bits p 7 4 ++ bits p 11 2 ++ bits p 5 1 ++ bits p 6 1 ++ 0b00#2

/-- `uimm[5:3|2|6]` of C.LW and C.SW. -/
def lwImm : BitVec 7 := bits p 5 1 ++ bits p 10 3 ++ bits p 6 1 ++ 0b00#2

/-- `imm[5|4:0]` of the CI format. -/
def ciImm : BitVec 6 := bits p 12 1 ++ bits p 2 5

/-- `imm[11|4|9:8|10|6|7|3:1|5]` of C.J and C.JAL, without the low zero bit. -/
def cjOff : BitVec 11 :=
  bits p 12 1 ++ bits p 8 1 ++ bits p 9 2 ++ bits p 6 1 ++ bits p 7 1 ++ bits p 2 1 ++
    bits p 11 1 ++ bits p 3 3

/-- `nzimm[9|4|6|8:7|5]` of C.ADDI16SP. -/
def addi16spImm : BitVec 10 :=
  bits p 12 1 ++ bits p 3 2 ++ bits p 5 1 ++ bits p 2 1 ++ bits p 6 1 ++ 0b0000#4

/-- `imm[8|4:3|7:6|2:1|5]` of C.BEQZ and C.BNEZ, without the low zero bit. -/
def cbOff : BitVec 8 := bits p 12 1 ++ bits p 5 2 ++ bits p 2 1 ++ bits p 10 2 ++ bits p 3 2

/-- `uimm[5|4:2|7:6]` of C.LWSP. -/
def lwspImm : BitVec 8 := bits p 2 2 ++ bits p 12 1 ++ bits p 4 3 ++ 0b00#2

/-- `uimm[5:2|7:6]` of C.SWSP. -/
def swspImm : BitVec 8 := bits p 7 2 ++ bits p 9 4 ++ 0b00#2

/-! ### Quadrants -/

/-- Quadrant 0: C.ADDI4SPN, C.LW and C.SW. -/
def expand0 : Option Instr :=
  let f3 := bits p 13 3
  if f3 = 0b000 then
    if addi4spnImm p = 0 then none
    else some (.opImm .addi (rs2' p) 2 ((addi4spnImm p).setWidth 12))
  else if f3 = 0b010 then some (.load .lw (rs2' p) (rs1' p) ((lwImm p).setWidth 12))
  else if f3 = 0b110 then some (.store .sw (rs1' p) (rs2' p) ((lwImm p).setWidth 12))
  else none

/-- The arithmetic instructions on `rd′`; a shift amount of 32 or more is reserved, and so are
C.SUBW and C.ADDW. -/
def expandArith : Option Instr :=
  let rd := rs1' p
  let op := bits p 10 2
  if op = 0b00 then
    if bits p 12 1 = 0 then some (.shift .srli rd rd (bits p 2 5)) else none
  else if op = 0b01 then
    if bits p 12 1 = 0 then some (.shift .srai rd rd (bits p 2 5)) else none
  else if op = 0b10 then some (.opImm .andi rd rd ((ciImm p).signExtend 12))
  else if bits p 12 1 = 0 then
    let op2 := bits p 5 2
    some (.opReg
      (if op2 = 0b00 then .sub else if op2 = 0b01 then .xor else if op2 = 0b10 then .or else .and)
      rd rd (rs2' p))
  else none

/-- Quadrant 1. -/
def expand1 : Option Instr :=
  let f3 := bits p 13 3
  let rd := rdRs1 p
  if f3 = 0b000 then some (.opImm .addi rd rd ((ciImm p).signExtend 12))
  else if f3 = 0b001 then some (.jal 1 ((cjOff p).signExtend 20))
  else if f3 = 0b010 then some (.opImm .addi rd 0 ((ciImm p).signExtend 12))
  else if f3 = 0b011 then
    if rd = 2 then
      if addi16spImm p = 0 then none
      else some (.opImm .addi 2 2 ((addi16spImm p).signExtend 12))
    else if ciImm p = 0 then none
    else some (.lui rd ((ciImm p).signExtend 20))
  else if f3 = 0b100 then expandArith p
  else if f3 = 0b101 then some (.jal 0 ((cjOff p).signExtend 20))
  else if f3 = 0b110 then some (.branch .beq (rs1' p) 0 ((cbOff p).signExtend 12))
  else some (.branch .bne (rs1' p) 0 ((cbOff p).signExtend 12))

/-- Quadrant 2. -/
def expand2 : Option Instr :=
  let f3 := bits p 13 3
  let rd := rdRs1 p
  if f3 = 0b000 then
    if bits p 12 1 = 0 then some (.shift .slli rd rd (bits p 2 5)) else none
  else if f3 = 0b010 then
    if rd = 0 then none else some (.load .lw rd 2 ((lwspImm p).setWidth 12))
  else if f3 = 0b100 then
    if bits p 12 1 = 0 then
      if rs2 p = 0 then
        if rd = 0 then none else some (.jalr 0 rd 0)
      else some (.opReg .add rd 0 (rs2 p))
    else if rs2 p = 0 then
      if rd = 0 then some (.priv .ebreak) else some (.jalr 1 rd 0)
    else some (.opReg .add rd rd (rs2 p))
  else if f3 = 0b110 then some (.store .sw 2 (rs2 p) ((swspImm p).setWidth 12))
  else none

/-- The instruction that a parcel abbreviates. -/
def expand : Option Instr :=
  let op := bits p 0 2
  if op = 0b00 then expand0 p
  else if op = 0b01 then expand1 p
  else if op = 0b10 then expand2 p
  else none

end Rvc

end Isa

end VirtualSoC
