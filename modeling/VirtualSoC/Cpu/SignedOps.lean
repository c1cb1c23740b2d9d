import VirtualSoC.Cpu.Rv32mSpec

/-!
# The signed operations of the core

The functions of `cpu/decode.cpp`, `cpu/execute.cpp` and the immediates of `cpu/rv32_defs.h` once
more, with the signed operators of C++: there is no result where one of them is undefined.  A 16-bit
parcel and the literals are promoted to `int`, so that their shifts are signed; the shifts of a
`uint32_t` are not.  For `cpu/rv32m.cpp` these are the functions of `VirtualSoC.Cpu.Rv32mSpec`.
-/

namespace VirtualSoC

open CxxInt

/-! ### Immediates -/

/-- `imm_i` with the signed shift of C++. -/
def immIChecked (instr : Word) : Option Word := sshr instr 20

/-- `imm_s` with the signed shift of C++. -/
def immSChecked (instr : Word) : Option Word := do
  let hi ← sshr (instr &&& 0xFE000000) 20
  return hi ||| ((instr >>> 7) &&& 0x1F)

/-- `imm_b` with the signed shift of C++. -/
def immBChecked (instr : Word) : Option Word := do
  let hi ← sshr (instr &&& 0x80000000) 19
  return hi ||| ((instr &&& 0x80) <<< 4) ||| ((instr >>> 20) &&& 0x7E0) |||
    ((instr >>> 7) &&& 0x1E)

/-- `imm_j` with the signed shift of C++. -/
def immJChecked (instr : Word) : Option Word := do
  let hi ← sshr (instr &&& 0x80000000) 11
  return hi ||| (instr &&& 0xFF000) ||| ((instr >>> 9) &&& 0x800) ||| ((instr >>> 20) &&& 0x7FE)

/-- The signed expressions of `decode32` are its immediates. -/
def decode32Checked (instr : Word) : Option DecodedInstr :=
  let op := opcode instr
  let f3 := funct3 instr
  let d := decode32 instr
  if op = opJal then (immJChecked instr).map fun imm => { d with imm }
  else if op = opBranch then (immBChecked instr).map fun imm => { d with imm }
  else if op = opStore then (immSChecked instr).map fun imm => { d with imm }
  else if op = opJalr ∨ op = opLoad then (immIChecked instr).map fun imm => { d with imm }
  else if op = opImm then
    (immIChecked instr).map fun imm =>
      { d with imm := if f3 = f3Sll ∨ f3 = f3SrlSra then rs2 instr else imm }
  else some d

/-! ### Parcels -/

/-- The offset of a C.J, with the left shifts of an `int`. -/
def cjOffsetChecked (ci : Word) : Option Word := do
  let ci2 ← sshl ci 2
  let ci1 ← sshl ci 1
  let ci3 ← sshl ci 3
  return orSign
    (((ci >>> 1) &&& 0x800) ||| ((ci >>> 7) &&& 0x10) |||
      ((ci >>> 1) &&& 0x300) ||| (ci2 &&& 0x400) |||
      ((ci >>> 1) &&& 0x40) ||| (ci1 &&& 0x80) |||
      ((ci >>> 2) &&& 0xE) ||| (ci3 &&& 0x20))
    0x800 0xFFF

/-- The immediate of the JAL that a C.J stands for. -/
def cjImm20Checked (off : Word) : Option Word := do
  let b20 ← sshl ((off.sshiftRight 20) &&& 0x1) 31
  let b1 ← sshl ((off.sshiftRight 1) &&& 0x3FF) 21
  let b11 ← sshl ((off.sshiftRight 11) &&& 0x1) 20
  let b12 ← sshl ((off.sshiftRight 12) &&& 0xFF) 12
  return b20 ||| b1 ||| b11 ||| b12

/-- C.JAL and C.J, with the register that they link. -/
def cjChecked (ci link : Word) : Option Word := do
  let off ← cjOffsetChecked ci
  let imm20 ← cjImm20Checked off
  let rd ← sshl link 7
  return imm20 ||| rd ||| opJal

/-- The offset of a compressed branch. -/
def cbOffsetChecked (ci : Word) : Option Word := do
  let ci1 ← sshl ci 1
  let ci3 ← sshl ci 3
  return orSign
    (((ci >>> 4) &&& 0x100) ||| ((ci >>> 7) &&& 0x18) |||
      (ci1 &&& 0xC0) ||| ((ci >>> 2) &&& 0x6) |||
      (ci3 &&& 0x20))
    0x100 0x1FF

/-- The branch that a compressed branch stands for. -/
def cbExpandChecked (ci f3 : Word) : Option Word := do
  let rs1p := creg ((ci >>> 7) &&& 0x7)
  let off ← cbOffsetChecked ci
  let b12 ← sshl ((off.sshiftRight 12) &&& 0x1) 6
  let immHi := b12 ||| ((off.sshiftRight 5) &&& 0x3F)
  let b1 ← sshl ((off.sshiftRight 1) &&& 0xF) 1
  let immLo := b1 ||| ((off.sshiftRight 11) &&& 0x1)
  let x0 ← sshl 0 20
  return (immHi <<< 25) ||| x0 ||| (rs1p <<< 15) ||| (f3 <<< 12) ||| (immLo <<< 7) ||| opBranch

/-- The offset of C.LW and C.SW. -/
def clOffsetChecked (ci : Word) : Option Word := do
  let ci1 ← sshl ci 1
  return ((ci >>> 7) &&& 0x38) ||| ((ci >>> 4) &&& 0x4) ||| (ci1 &&& 0x40)

/-- The parcels of quadrant 0. -/
def expandQ0Checked (ci : Word) : Option Word :=
  let f3 := (ci >>> 13) &&& 0x7
  if f3 = 0b000 then
    let nzuimm := ((ci >>> 1) &&& 0x3C0) ||| ((ci >>> 7) &&& 0x30) |||
      ((ci >>> 2) &&& 0x8) ||| ((ci >>> 4) &&& 0x4)
    if nzuimm = 0 then some 0
    else do
      let rdp := creg ((ci >>> 2) &&& 0x7)
      let x2 ← sshl 2 15
      let f ← sshl 0b000 12
      return (nzuimm <<< 20) ||| x2 ||| f ||| (rdp <<< 7) ||| opImm
  else if f3 = 0b010 then do
    let rs1p := creg ((ci >>> 7) &&& 0x7)
    let rdp := creg ((ci >>> 2) &&& 0x7)
    let off ← clOffsetChecked ci
    let f ← sshl 0b010 12
    return (off <<< 20) ||| (rs1p <<< 15) ||| f ||| (rdp <<< 7) ||| opLoad
  else if f3 = 0b110 then do
    let rs1p := creg ((ci >>> 7) &&& 0x7)
    let rs2p := creg ((ci >>> 2) &&& 0x7)
    let off ← clOffsetChecked ci
    let immSHi := (off >>> 5) &&& 0x7F
    let immSLo := off &&& 0x1F
    let f ← sshl 0b010 12
    return (immSHi <<< 25) ||| (rs2p <<< 20) ||| (rs1p <<< 15) ||| f ||| (immSLo <<< 7) ||| opStore
  else some 0

/-- The immediate of C.ADDI16SP. -/
def addi16spImm (ci : Word) : Word :=
  orSign
    (((ci >>> 3) &&& 0x200) ||| ((ci >>> 2) &&& 0x10) |||
      ((ci <<< 1) &&& 0x40) ||| ((ci <<< 4) &&& 0x180) |||
      ((ci <<< 3) &&& 0x20))
    0x200 0x3FF

/-- The immediate of C.ADDI16SP. -/
def addi16spImmChecked (ci : Word) : Option Word := do
  let ci1 ← sshl ci 1
  let ci4 ← sshl ci 4
  let ci3 ← sshl ci 3
  return orSign
    (((ci >>> 3) &&& 0x200) ||| ((ci >>> 2) &&& 0x10) |||
      (ci1 &&& 0x40) ||| (ci4 &&& 0x180) |||
      (ci3 &&& 0x20))
    0x200 0x3FF

/-- C.ADDI16SP. -/
def addi16spChecked (ci : Word) : Option Word := do
  let nzimm ← addi16spImmChecked ci
  if nzimm = 0 then return 0
  else
    let x2 ← sshl 2 15
    let f ← sshl 0b000 12
    let rd ← sshl 2 7
    return (nzimm <<< 20) ||| x2 ||| f ||| rd ||| opImm

/-- C.LUI: the immediate is shifted before it is converted to the unsigned type. -/
def cluiChecked (ci : Word) : Option Word :=
  let r := (ci >>> 7) &&& 0x1F
  let nzimm := ciImm ci
  if nzimm = 0 then some 0
  else do
    let hi ← sshl nzimm 12
    return hi ||| (r <<< 7) ||| opLui

/-- In C.SRLI and the other instructions with `funct3 = 100` all shifts are unsigned. -/
def expandQ1Checked (ci : Word) : Option Word :=
  let f3 := (ci >>> 13) &&& 0x7
  let r := (ci >>> 7) &&& 0x1F
  if f3 = 0b000 then do
    let _ ← sshl ci 0
    let f ← sshl 0b000 12
    return (ciImm ci <<< 20) ||| (r <<< 15) ||| f ||| (r <<< 7) ||| opImm
  else if f3 = 0b001 then cjChecked ci 1
  else if f3 = 0b010 then do
    let x0 ← sshl 0 15
    let f ← sshl 0b000 12
    return (ciImm ci <<< 20) ||| x0 ||| f ||| (r <<< 7) ||| opImm
  else if f3 = 0b011 then
    if r = 2 then addi16spChecked ci else cluiChecked ci
  else if f3 = 0b100 then some (expandQ1Arith ci)
  else if f3 = 0b101 then cjChecked ci 0
  else if f3 = 0b110 then cbExpandChecked ci f3Beq
  else cbExpandChecked ci f3Bne

/-- The parcels of quadrant 2. -/
def expandQ2Checked (ci : Word) : Option Word :=
  let f3 := (ci >>> 13) &&& 0x7
  let r1 := (ci >>> 7) &&& 0x1F
  let r2 := (ci >>> 2) &&& 0x1F
  if f3 = 0b000 then
    some ((f7Normal <<< 25) ||| (ciShamt ci <<< 20) ||| (r1 <<< 15) |||
      (f3Sll <<< 12) ||| (r1 <<< 7) ||| opImm)
  else if f3 = 0b010 then
    if r1 = 0 then some 0
    else do
      let ci4 ← sshl ci 4
      let off := ((ci >>> 7) &&& 0x20) ||| ((ci >>> 2) &&& 0x1C) ||| (ci4 &&& 0xC0)
      let x2 ← sshl 2 15
      let f ← sshl 0b010 12
      return (off <<< 20) ||| x2 ||| f ||| (r1 <<< 7) ||| opLoad
  else if f3 = 0b100 then
    if (ci >>> 12) &&& 0x1 = 0 then
      if r2 = 0 then
        if r1 = 0 then some 0
        else do
          let f ← sshl 0 12
          let x0 ← sshl 0 7
          return (r1 <<< 15) ||| f ||| x0 ||| opJalr
      else do
        let x0 ← sshl 0 15
        return (f7Normal <<< 25) ||| (r2 <<< 20) ||| x0 |||
          (f3AddSub <<< 12) ||| (r1 <<< 7) ||| opReg
    else if r2 = 0 then
      if r1 = 0 then some ((f12Ebreak <<< 20) ||| opSystem)
      else do
        let f ← sshl 0 12
        let x1 ← sshl 1 7
        return (r1 <<< 15) ||| f ||| x1 ||| opJalr
    else
      some ((f7Normal <<< 25) ||| (r2 <<< 20) ||| (r1 <<< 15) |||
        (f3AddSub <<< 12) ||| (r1 <<< 7) ||| opReg)
  else if f3 = 0b110 then do
    let off := ((ci >>> 7) &&& 0x3C) ||| ((ci >>> 1) &&& 0xC0)
    let immHi := (off >>> 5) &&& 0x7F
    let immLo := off &&& 0x1F
    let x2 ← sshl 2 15
    let f ← sshl 0b010 12
    return (immHi <<< 25) ||| (r2 <<< 20) ||| x2 ||| f ||| (immLo <<< 7) ||| opStore
  else some 0

/-- `expand_compressed` with the signed operators of C++. -/
def expandCompressedChecked (cinstr : BitVec 16) : Option Word :=
  let ci : Word := cinstr.setWidth 32
  let op := ci &&& 0x3
  if op = 0b00 then expandQ0Checked ci
  else if op = 0b01 then expandQ1Checked ci
  else if op = 0b10 then expandQ2Checked ci
  else some 0

/-! ### `execute` -/

/-- The cases of `execute` with signed arithmetic.  The others have unsigned sums, comparisons and
bitwise operations only. -/
def executeChecked {σ : Type*} (mi : MemIf σ) (s₀ : CPUState) (d : DecodedInstr) (m : σ) :
    Option (Executed σ) :=
  let rs1 := s₀.getReg d.rs1
  let rs2 := s₀.getReg d.rs2
  let imm := d.imm
  let s := { s₀ with nextPc := s₀.pc + d.instrLen }
  let setRd v := done (s.setReg d.rd v) m
  match d.type with
  | .addi => (sadd rs1 imm).map setRd
  | .srai => (sshr rs1 (imm &&& 0x1F).toNat).map setRd
  | .add => (sadd rs1 rs2).map setRd
  | .sub => (ssub rs1 rs2).map setRd
  | .sra => (sshr rs1 (rs2 &&& 0x1F).toNat).map setRd
  | .mul => (Rv32m.mulChecked rs1 rs2).map setRd
  | .mulh => (Rv32m.mulhChecked rs1 rs2).map setRd
  | .mulhsu => (Rv32m.mulhsuChecked rs1 rs2).map setRd
  | .div => (Rv32m.divChecked rs1 rs2).map setRd
  | .divu => (Rv32m.divuChecked rs1 rs2).map setRd
  | .rem => (Rv32m.remChecked rs1 rs2).map setRd
  | .remu => (Rv32m.remuChecked rs1 rs2).map setRd
  | _ => some (execute mi s₀ d m)

end VirtualSoC
