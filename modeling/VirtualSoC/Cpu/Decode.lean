import VirtualSoC.Cpu.Rv32Defs

/-!
# The instruction decoder

`decode` of `cpu/decode.cpp`: a 32-bit word is decoded by `decode32`; a word whose two low bits
are not `11` is a 16-bit parcel, which `expandCompressed` first rewrites to the 32-bit word of
the instruction it abbreviates.

The inner `switch` of each major opcode is a function of its own (`branchType`, `loadType`, …),
so that each is stated and used by name.
-/

namespace VirtualSoC

/-- Instruction types for execute dispatch. -/
inductive InstrType
  | lui | auipc | jal | jalr
  | beq | bne | blt | bge | bltu | bgeu
  | lb | lh | lw | lbu | lhu
  | sb | sh | sw
  | addi | slti | sltiu | xori | ori | andi | slli | srli | srai
  | add | sub | sll | slt | sltu | xor | srl | sra | or | and
  | mul | mulh | mulhsu | mulhu | div | divu | rem | remu
  | lrW | scW
  | amoswapW | amoaddW | amoxorW | amoandW | amoorW | amominW | amomaxW | amominuW | amomaxuW
  | ecall | ebreak | mret | sret | uret | wfi | sfenceVma
  | csrrw | csrrs | csrrc | csrrwi | csrrsi | csrrci
  | fence | fencei
  | illegal
  deriving DecidableEq, Repr

/-- A decoded instruction; every field has its C++ default. -/
structure DecodedInstr where
  type : InstrType := .illegal
  rd : Word := 0
  rs1 : Word := 0
  rs2 : Word := 0
  imm : Word := 0
  /-- CSR address of the CSR instructions. -/
  csr : Word := 0
  /-- The instruction word, or the 16-bit parcel. -/
  raw : Word := 0
  /-- The instruction was a 16-bit parcel. -/
  compressed : Bool := false
  deriving DecidableEq, Repr

/-- Length of the instruction in bytes. -/
def DecodedInstr.instrLen (d : DecodedInstr) : Word := if d.compressed then 2 else 4

/-! ### The inner switches of `decode32` -/

/-- `OP_BRANCH`, by `funct3`. -/
def branchType (f3 : Word) : InstrType :=
  if f3 = f3Beq then .beq
  else if f3 = f3Bne then .bne
  else if f3 = f3Blt then .blt
  else if f3 = f3Bge then .bge
  else if f3 = f3Bltu then .bltu
  else if f3 = f3Bgeu then .bgeu
  else .illegal

/-- `OP_LOAD`, by `funct3`. -/
def loadType (f3 : Word) : InstrType :=
  if f3 = f3Lb then .lb
  else if f3 = f3Lh then .lh
  else if f3 = f3Lw then .lw
  else if f3 = f3Lbu then .lbu
  else if f3 = f3Lhu then .lhu
  else .illegal

/-- `OP_STORE`, by `funct3`. -/
def storeType (f3 : Word) : InstrType :=
  if f3 = f3Sb then .sb
  else if f3 = f3Sh then .sh
  else if f3 = f3Sw then .sw
  else .illegal

/-- `OP_IMM`, by `funct3` and, for the shifts, `funct7`. -/
def immType (f3 f7 : Word) : InstrType :=
  if f3 = f3AddSub then .addi
  else if f3 = f3Slt then .slti
  else if f3 = f3Sltu then .sltiu
  else if f3 = f3Xor then .xori
  else if f3 = f3Or then .ori
  else if f3 = f3And then .andi
  else if f3 = f3Sll then (if f7 = f7Normal then .slli else .illegal)
  else if f3 = f3SrlSra then
    (if f7 = f7Normal then .srli else if f7 = f7Alt then .srai else .illegal)
  else .illegal

/-- `OP_REG`, by `funct7` and `funct3`. -/
def regType (f3 f7 : Word) : InstrType :=
  if f7 = f7Muldiv then
    if f3 = f3Mul then .mul
    else if f3 = f3Mulh then .mulh
    else if f3 = f3Mulhsu then .mulhsu
    else if f3 = f3Mulhu then .mulhu
    else if f3 = f3Div then .div
    else if f3 = f3Divu then .divu
    else if f3 = f3Rem then .rem
    else if f3 = f3Remu then .remu
    else .illegal
  else if f7 = f7Normal then
    if f3 = f3AddSub then .add
    else if f3 = f3Sll then .sll
    else if f3 = f3Slt then .slt
    else if f3 = f3Sltu then .sltu
    else if f3 = f3Xor then .xor
    else if f3 = f3SrlSra then .srl
    else if f3 = f3Or then .or
    else if f3 = f3And then .and
    else .illegal
  else if f7 = f7Alt then
    if f3 = f3AddSub then .sub
    else if f3 = f3SrlSra then .sra
    else .illegal
  else .illegal

/-- `OP_AMO`, by `funct3` (which must be `010`) and `funct5`. -/
def amoType (f3 f5 : Word) : InstrType :=
  if f3 ≠ 0b010 then .illegal
  else if f5 = f5Lr then .lrW
  else if f5 = f5Sc then .scW
  else if f5 = f5Amoswap then .amoswapW
  else if f5 = f5Amoadd then .amoaddW
  else if f5 = f5Amoxor then .amoxorW
  else if f5 = f5Amoand then .amoandW
  else if f5 = f5Amoor then .amoorW
  else if f5 = f5Amomin then .amominW
  else if f5 = f5Amomax then .amomaxW
  else if f5 = f5Amominu then .amominuW
  else if f5 = f5Amomaxu then .amomaxuW
  else .illegal

/-- `OP_SYSTEM` with `funct3 = F3_PRIV`, by `funct12`. -/
def privType (f12 : Word) : InstrType :=
  if f12 = f12Ecall then .ecall
  else if f12 = f12Ebreak then .ebreak
  else if f12 = f12Mret then .mret
  else if f12 = f12Sret then .sret
  else if f12 = f12Uret then .uret
  else if f12 = f12Wfi then .wfi
  else .illegal

/-- `OP_SYSTEM` with another `funct3`: the CSR instructions. -/
def csrType (f3 : Word) : InstrType :=
  if f3 = f3Csrrw then .csrrw
  else if f3 = f3Csrrs then .csrrs
  else if f3 = f3Csrrc then .csrrc
  else if f3 = f3Csrrwi then .csrrwi
  else if f3 = f3Csrrsi then .csrrsi
  else if f3 = f3Csrrci then .csrrci
  else .illegal

/-! ### 32-bit words -/

/-- Decode a 32-bit word. -/
def decode32 (instr : Word) : DecodedInstr :=
  let op := opcode instr
  let f3 := funct3 instr
  let f7 := funct7 instr
  let d : DecodedInstr := { raw := instr }
  if op = opLui then { d with type := .lui, rd := rd instr, imm := immU instr }
  else if op = opAuipc then { d with type := .auipc, rd := rd instr, imm := immU instr }
  else if op = opJal then { d with type := .jal, rd := rd instr, imm := immJ instr }
  else if op = opJalr then
    { d with type := .jalr, rd := rd instr, rs1 := rs1 instr, imm := immI instr }
  else if op = opBranch then
    { d with type := branchType f3, rs1 := rs1 instr, rs2 := rs2 instr, imm := immB instr }
  else if op = opLoad then
    { d with type := loadType f3, rd := rd instr, rs1 := rs1 instr, imm := immI instr }
  else if op = opStore then
    { d with type := storeType f3, rs1 := rs1 instr, rs2 := rs2 instr, imm := immS instr }
  else if op = opImm then
    { d with
      type := immType f3 f7, rd := rd instr, rs1 := rs1 instr
      -- the shifts overwrite the immediate by the shift amount
      imm := if f3 = f3Sll ∨ f3 = f3SrlSra then rs2 instr else immI instr }
  else if op = opReg then
    { d with type := regType f3 f7, rd := rd instr, rs1 := rs1 instr, rs2 := rs2 instr }
  else if op = opAmo then
    { d with
      type := amoType f3 (funct5 instr), rd := rd instr, rs1 := rs1 instr, rs2 := rs2 instr }
  else if op = opFence then { d with type := if f3 = f3Fencei then .fencei else .fence }
  else if op = opSystem then
    if f3 = f3Priv then
      if f7 = f7SfenceVma then { d with type := .sfenceVma, rs1 := rs1 instr, rs2 := rs2 instr }
      else { d with type := privType (funct12 instr) }
    else
      { d with
        type := csrType f3, rd := rd instr, rs1 := rs1 instr, csr := funct12 instr
        imm := csrZimm instr }
  else d

/-! ### 16-bit parcels -/

/-- Register index from its 3-bit compressed encoding (`x8`–`x15`). -/
def creg (bits : Word) : Word := bits + 8

/-- `if (v & bit) v |= ~mask`: sign extension by hand. -/
def orSign (v bit mask : Word) : Word := if v &&& bit ≠ 0 then v ||| ~~~mask else v

/-- The offset of C.JAL and C.J. -/
def cjOffset (ci : Word) : Word :=
  orSign
    (((ci >>> 1) &&& 0x800) ||| ((ci >>> 7) &&& 0x10) |||
      ((ci >>> 1) &&& 0x300) ||| ((ci <<< 2) &&& 0x400) |||
      ((ci >>> 1) &&& 0x40) ||| ((ci <<< 1) &&& 0x80) |||
      ((ci >>> 2) &&& 0xE) ||| ((ci <<< 3) &&& 0x20))
    0x800 0xFFF

/-- A J-type immediate field holding the offset `off`. -/
def cjImm20 (off : Word) : Word :=
  (((off.sshiftRight 20) &&& 0x1) <<< 31) ||| (((off.sshiftRight 1) &&& 0x3FF) <<< 21) |||
    (((off.sshiftRight 11) &&& 0x1) <<< 20) ||| (((off.sshiftRight 12) &&& 0xFF) <<< 12)

/-- The offset of C.BEQZ and C.BNEZ. -/
def cbOffset (ci : Word) : Word :=
  orSign
    (((ci >>> 4) &&& 0x100) ||| ((ci >>> 7) &&& 0x18) |||
      ((ci <<< 1) &&& 0xC0) ||| ((ci >>> 2) &&& 0x6) |||
      ((ci <<< 3) &&& 0x20))
    0x100 0x1FF

/-- C.BEQZ and C.BNEZ, with the `funct3` of the branch they expand to. -/
def cbExpand (ci f3 : Word) : Word :=
  let rs1p := creg ((ci >>> 7) &&& 0x7)
  let off := cbOffset ci
  let immHi := (((off.sshiftRight 12) &&& 0x1) <<< 6) ||| ((off.sshiftRight 5) &&& 0x3F)
  let immLo := (((off.sshiftRight 1) &&& 0xF) <<< 1) ||| ((off.sshiftRight 11) &&& 0x1)
  (immHi <<< 25) ||| (0 <<< 20) ||| (rs1p <<< 15) ||| (f3 <<< 12) ||| (immLo <<< 7) ||| opBranch

/-- The 6-bit immediate of the CI format, sign-extended. -/
def ciImm (ci : Word) : Word :=
  orSign (((ci >>> 7) &&& 0x20) ||| ((ci >>> 2) &&& 0x1F)) 0x20 0x3F

/-- The 6-bit shift amount of the CI format. -/
def ciShamt (ci : Word) : Word := ((ci >>> 7) &&& 0x20) ||| ((ci >>> 2) &&& 0x1F)

/-- The offset of C.LW and C.SW. -/
def clOffset (ci : Word) : Word :=
  ((ci >>> 7) &&& 0x38) ||| ((ci >>> 4) &&& 0x4) ||| ((ci <<< 1) &&& 0x40)

/-- Quadrant 0 of the compressed encodings. -/
def expandQ0 (ci : Word) : Word :=
  let f3 := (ci >>> 13) &&& 0x7
  if f3 = 0b000 then -- C.ADDI4SPN
    let nzuimm := ((ci >>> 1) &&& 0x3C0) ||| ((ci >>> 7) &&& 0x30) |||
      ((ci >>> 2) &&& 0x8) ||| ((ci >>> 4) &&& 0x4)
    if nzuimm = 0 then 0
    else
      let rdp := creg ((ci >>> 2) &&& 0x7)
      (nzuimm <<< 20) ||| (2 <<< 15) ||| (0b000 <<< 12) ||| (rdp <<< 7) ||| opImm
  else if f3 = 0b010 then -- C.LW
    let rs1p := creg ((ci >>> 7) &&& 0x7)
    let rdp := creg ((ci >>> 2) &&& 0x7)
    (clOffset ci <<< 20) ||| (rs1p <<< 15) ||| (0b010 <<< 12) ||| (rdp <<< 7) ||| opLoad
  else if f3 = 0b110 then -- C.SW
    let rs1p := creg ((ci >>> 7) &&& 0x7)
    let rs2p := creg ((ci >>> 2) &&& 0x7)
    let off := clOffset ci
    let immSHi := (off >>> 5) &&& 0x7F
    let immSLo := off &&& 0x1F
    (immSHi <<< 25) ||| (rs2p <<< 20) ||| (rs1p <<< 15) |||
      (0b010 <<< 12) ||| (immSLo <<< 7) ||| opStore
  else 0

/-- The register and `funct2` arithmetic of quadrant 1 (`funct3 = 100`). -/
def expandQ1Arith (ci : Word) : Word :=
  let rdp := creg ((ci >>> 7) &&& 0x7)
  let sub := (ci >>> 10) &&& 0x3
  if sub = 0b00 then -- C.SRLI
    (f7Normal <<< 25) ||| (ciShamt ci <<< 20) ||| (rdp <<< 15) |||
      (f3SrlSra <<< 12) ||| (rdp <<< 7) ||| opImm
  else if sub = 0b01 then -- C.SRAI
    (f7Alt <<< 25) ||| (ciShamt ci <<< 20) ||| (rdp <<< 15) |||
      (f3SrlSra <<< 12) ||| (rdp <<< 7) ||| opImm
  else if sub = 0b10 then -- C.ANDI
    (ciImm ci <<< 20) ||| (rdp <<< 15) ||| (f3And <<< 12) ||| (rdp <<< 7) ||| opImm
  else
    let rs2p := creg ((ci >>> 2) &&& 0x7)
    let sub2 := (ci >>> 5) &&& 0x3
    if (ci >>> 12) &&& 0x1 = 0 then
      if sub2 = 0b00 then -- C.SUB
        (f7Alt <<< 25) ||| (rs2p <<< 20) ||| (rdp <<< 15) |||
          (f3AddSub <<< 12) ||| (rdp <<< 7) ||| opReg
      else if sub2 = 0b01 then -- C.XOR
        (f7Normal <<< 25) ||| (rs2p <<< 20) ||| (rdp <<< 15) |||
          (f3Xor <<< 12) ||| (rdp <<< 7) ||| opReg
      else if sub2 = 0b10 then -- C.OR
        (f7Normal <<< 25) ||| (rs2p <<< 20) ||| (rdp <<< 15) |||
          (f3Or <<< 12) ||| (rdp <<< 7) ||| opReg
      else -- C.AND
        (f7Normal <<< 25) ||| (rs2p <<< 20) ||| (rdp <<< 15) |||
          (f3And <<< 12) ||| (rdp <<< 7) ||| opReg
    else 0

/-- Quadrant 1 of the compressed encodings. -/
def expandQ1 (ci : Word) : Word :=
  let f3 := (ci >>> 13) &&& 0x7
  let r := (ci >>> 7) &&& 0x1F
  if f3 = 0b000 then -- C.ADDI, C.NOP
    (ciImm ci <<< 20) ||| (r <<< 15) ||| (0b000 <<< 12) ||| (r <<< 7) ||| opImm
  else if f3 = 0b001 then -- C.JAL
    cjImm20 (cjOffset ci) ||| (1 <<< 7) ||| opJal
  else if f3 = 0b010 then -- C.LI
    (ciImm ci <<< 20) ||| (0 <<< 15) ||| (0b000 <<< 12) ||| (r <<< 7) ||| opImm
  else if f3 = 0b011 then
    if r = 2 then -- C.ADDI16SP
      let nzimm := orSign
        (((ci >>> 3) &&& 0x200) ||| ((ci >>> 2) &&& 0x10) |||
          ((ci <<< 1) &&& 0x40) ||| ((ci <<< 4) &&& 0x180) |||
          ((ci <<< 3) &&& 0x20))
        0x200 0x3FF
      if nzimm = 0 then 0
      else (nzimm <<< 20) ||| (2 <<< 15) ||| (0b000 <<< 12) ||| (2 <<< 7) ||| opImm
    else -- C.LUI
      let nzimm := ciImm ci
      if nzimm = 0 then 0
      else (nzimm <<< 12) ||| (r <<< 7) ||| opLui
  else if f3 = 0b100 then expandQ1Arith ci
  else if f3 = 0b101 then -- C.J
    cjImm20 (cjOffset ci) ||| (0 <<< 7) ||| opJal
  else if f3 = 0b110 then cbExpand ci f3Beq -- C.BEQZ
  else cbExpand ci f3Bne -- C.BNEZ

/-- Quadrant 2 of the compressed encodings. -/
def expandQ2 (ci : Word) : Word :=
  let f3 := (ci >>> 13) &&& 0x7
  let r1 := (ci >>> 7) &&& 0x1F
  let r2 := (ci >>> 2) &&& 0x1F
  if f3 = 0b000 then -- C.SLLI
    (f7Normal <<< 25) ||| (ciShamt ci <<< 20) ||| (r1 <<< 15) |||
      (f3Sll <<< 12) ||| (r1 <<< 7) ||| opImm
  else if f3 = 0b010 then -- C.LWSP
    if r1 = 0 then 0
    else
      let off := ((ci >>> 7) &&& 0x20) ||| ((ci >>> 2) &&& 0x1C) ||| ((ci <<< 4) &&& 0xC0)
      (off <<< 20) ||| (2 <<< 15) ||| (0b010 <<< 12) ||| (r1 <<< 7) ||| opLoad
  else if f3 = 0b100 then
    if (ci >>> 12) &&& 0x1 = 0 then
      if r2 = 0 then -- C.JR
        if r1 = 0 then 0
        else (r1 <<< 15) ||| (0 <<< 12) ||| (0 <<< 7) ||| opJalr
      else -- C.MV
        (f7Normal <<< 25) ||| (r2 <<< 20) ||| (0 <<< 15) |||
          (f3AddSub <<< 12) ||| (r1 <<< 7) ||| opReg
    else if r2 = 0 then
      if r1 = 0 then (f12Ebreak <<< 20) ||| opSystem -- C.EBREAK
      else (r1 <<< 15) ||| (0 <<< 12) ||| (1 <<< 7) ||| opJalr -- C.JALR
    else -- C.ADD
      (f7Normal <<< 25) ||| (r2 <<< 20) ||| (r1 <<< 15) |||
        (f3AddSub <<< 12) ||| (r1 <<< 7) ||| opReg
  else if f3 = 0b110 then -- C.SWSP
    let off := ((ci >>> 7) &&& 0x3C) ||| ((ci >>> 1) &&& 0xC0)
    let immHi := (off >>> 5) &&& 0x7F
    let immLo := off &&& 0x1F
    (immHi <<< 25) ||| (r2 <<< 20) ||| (2 <<< 15) |||
      (0b010 <<< 12) ||| (immLo <<< 7) ||| opStore
  else 0

/-- The 32-bit equivalent of a 16-bit parcel, `0` when it has none.  The parcel is promoted to
`int` before any shift. -/
def expandCompressed (cinstr : BitVec 16) : Word :=
  let ci : Word := cinstr.setWidth 32
  let op := ci &&& 0x3
  if op = 0b00 then expandQ0 ci
  else if op = 0b01 then expandQ1 ci
  else if op = 0b10 then expandQ2 ci
  else 0

/-- The stateless decoder. -/
def decode (instr : Word) : DecodedInstr :=
  if instr &&& 0x3 ≠ 0x3 then
    let expanded := expandCompressed (instr.setWidth 16)
    if expanded = 0 then { raw := instr &&& 0xFFFF, compressed := true }
    else { decode32 expanded with raw := instr &&& 0xFFFF, compressed := true }
  else decode32 instr

end VirtualSoC
