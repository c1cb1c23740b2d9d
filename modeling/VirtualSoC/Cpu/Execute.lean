import Mathlib.Logic.Function.Basic
import VirtualSoC.Cpu.Csr
import VirtualSoC.Cpu.Decode

/-!
# The execute engine

`execute` of `cpu/execute.cpp`: one decoded instruction, on the registers, the CSR file and the
reservation of a `CPUState`.

The memory interface `MemIf` is a pair of callbacks.  What the callbacks act on is a parameter
`σ`, threaded through explicitly; they may look at the CPU state as it is when they are called.
The `on_satp_write` callback of the CSR file acts on the same `σ`.
-/

namespace VirtualSoC

/-! ### The A and M extensions -/

/-- The LR/SC reservation. -/
structure Reservation where
  addr : Word := 0
  valid : Bool := false
  deriving DecidableEq, Repr

namespace Reservation

/-- LR.W reserves the word. -/
def set (a : Word) : Reservation := { addr := a &&& ~~~0x3, valid := true }

/-- The reservation is dropped; its address stays. -/
def clear (r : Reservation) : Reservation := { r with valid := false }

/-- SC.W succeeds on the reserved word. -/
def check (r : Reservation) (a : Word) : Bool := r.valid && r.addr = a &&& ~~~0x3

end Reservation

namespace Rv32a

/-- `rv32a::amo_swap`. -/
def amoSwap (_mem rs2 : Word) : Word := rs2
/-- `rv32a::amo_add`, modulo 2^32. -/
def amoAdd (mem rs2 : Word) : Word := mem + rs2
/-- `rv32a::amo_xor`. -/
def amoXor (mem rs2 : Word) : Word := mem ^^^ rs2
/-- `rv32a::amo_and`. -/
def amoAnd (mem rs2 : Word) : Word := mem &&& rs2
/-- `rv32a::amo_or`. -/
def amoOr (mem rs2 : Word) : Word := mem ||| rs2
/-- `std::min` returns its first argument unless the second is smaller. -/
def amoMin (mem rs2 : Word) : Word := if rs2.slt mem then rs2 else mem
/-- `std::max` returns its first argument unless it is smaller than the second. -/
def amoMax (mem rs2 : Word) : Word := if mem.slt rs2 then rs2 else mem
/-- The comparison is unsigned. -/
def amoMinu (mem rs2 : Word) : Word := if rs2 < mem then rs2 else mem
/-- The comparison is unsigned. -/
def amoMaxu (mem rs2 : Word) : Word := if mem < rs2 then rs2 else mem

end Rv32a

namespace Rv32m

/-- The low word of the product. -/
def mul (rs1 rs2 : Word) : Word :=
  (rs1.signExtend 64 * rs2.signExtend 64).setWidth 32

/-- The high word of the signed product. -/
def mulh (rs1 rs2 : Word) : Word :=
  ((rs1.signExtend 64 * rs2.signExtend 64).sshiftRight 32).setWidth 32

/-- The high word; the second operand is unsigned. -/
def mulhsu (rs1 rs2 : Word) : Word :=
  ((rs1.signExtend 64 * rs2.setWidth 64).sshiftRight 32).setWidth 32

/-- The high word of the unsigned product. -/
def mulhu (rs1 rs2 : Word) : Word :=
  ((rs1.setWidth 64 * rs2.setWidth 64) >>> 32).setWidth 32

/-- `INT32_MIN`. -/
def int32Min : Word := 0x80000000

/-- Signed division; the overflow gives the dividend. -/
def div (rs1 rs2 : Word) : Word :=
  if rs2 = 0 then 0xFFFFFFFF
  else if rs1 = int32Min ∧ rs2 = 0xFFFFFFFF then int32Min
  else rs1.sdiv rs2

/-- Unsigned division. -/
def divu (rs1 rs2 : Word) : Word := if rs2 = 0 then 0xFFFFFFFF else rs1 / rs2

/-- Signed remainder; the overflow gives 0. -/
def rem (rs1 rs2 : Word) : Word :=
  if rs2 = 0 then rs1
  else if rs1 = int32Min ∧ rs2 = 0xFFFFFFFF then 0
  else rs1.srem rs2

/-- Unsigned remainder. -/
def remu (rs1 rs2 : Word) : Word := if rs2 = 0 then rs1 else rs1 % rs2

end Rv32m

/-! ### CPU state -/

/-- The architectural state that `execute` works on. -/
structure CPUState where
  /-- The 32 x registers. -/
  regs : BitVec 5 → Word := fun _ => 0
  pc : Word := 0
  nextPc : Word := 0
  priv : Priv := prvM
  csr : CSRFile := {}
  lrSc : Reservation := {}

namespace CPUState

variable (s : CPUState)

/-- Register `i`; register 0 reads as zero. -/
def getReg (i : Word) : Word := if i = 0 then 0 else s.regs (i.setWidth 5)

/-- Write register `i`; writes to register 0 are ignored. -/
def setReg (i v : Word) : CPUState :=
  if i ≠ 0 then { s with regs := Function.update s.regs (i.setWidth 5) v } else s

end CPUState

/-- The memory callbacks, on a world `σ`, and the callback for `satp` writes. -/
structure MemIf (σ : Type*) where
  read : CPUState → Word → ℕ → σ → Word × σ
  write : CPUState → Word → Word → ℕ → σ → σ
  onSatpWrite : σ → σ

/-- What `execute` reports to the run loop. -/
structure ExecResult where
  exception : Bool := false
  cause : Word := 0
  tval : Word := 0
  wfi : Bool := false
  fenceI : Bool := false
  sfenceVma : Bool := false
  deriving DecidableEq, Repr

/-- The result of `execute` together with the state it leaves behind. -/
structure Executed (σ : Type*) where
  res : ExecResult
  cpu : CPUState
  mem : σ

/-! ### The cases of `execute` -/

section Cases

variable {σ : Type*} (mi : MemIf σ)

/-- `break`: normal completion. -/
def done (s : CPUState) (m : σ) : Executed σ := ⟨{}, s, m⟩

/-- `return make_exception(cause, tval)`. -/
def makeException (cause tval : Word) (s : CPUState) (m : σ) : Executed σ :=
  ⟨{ exception := true, cause, tval }, s, m⟩

/-- A load of `bytes` bytes at `addr`; `align` are the address bits that must be clear and `ext`
is the conversion of the value read. -/
def execLoad (s : CPUState) (d : DecodedInstr) (m : σ) (addr align : Word) (bytes : ℕ)
    (ext : Word → Word) : Executed σ :=
  if addr &&& align ≠ 0 then makeException causeMisalignedLoad addr s m
  else
    let (v, m) := mi.read s addr bytes m
    done (s.setReg d.rd (ext v)) m

/-- A store of `bytes` bytes; it drops the reservation. -/
def execStore (s : CPUState) (m : σ) (addr align data : Word) (bytes : ℕ) : Executed σ :=
  if addr &&& align ≠ 0 then makeException causeMisalignedStore addr s m
  else
    let m := mi.write s addr data bytes m
    done { s with lrSc := s.lrSc.clear } m

/-- The new memory value of an AMO. -/
def amoResult (type : InstrType) (memVal rs2 : Word) : Word :=
  match type with
  | .amoswapW => Rv32a.amoSwap memVal rs2
  | .amoaddW => Rv32a.amoAdd memVal rs2
  | .amoxorW => Rv32a.amoXor memVal rs2
  | .amoandW => Rv32a.amoAnd memVal rs2
  | .amoorW => Rv32a.amoOr memVal rs2
  | .amominW => Rv32a.amoMin memVal rs2
  | .amomaxW => Rv32a.amoMax memVal rs2
  | .amominuW => Rv32a.amoMinu memVal rs2
  | .amomaxuW => Rv32a.amoMaxu memVal rs2
  | _ => 0

/-- LR.W. -/
def execLr (s : CPUState) (d : DecodedInstr) (m : σ) (addr : Word) : Executed σ :=
  if addr &&& 3 ≠ 0 then makeException causeMisalignedLoad addr s m
  else
    let (v, m) := mi.read s addr 4 m
    done { s.setReg d.rd v with lrSc := .set addr } m

/-- SC.W. -/
def execSc (s : CPUState) (d : DecodedInstr) (m : σ) (addr rs2 : Word) : Executed σ :=
  if addr &&& 3 ≠ 0 then makeException causeMisalignedStore addr s m
  else if s.lrSc.check addr then
    let m := mi.write s addr rs2 4 m
    done { s.setReg d.rd 0 with lrSc := s.lrSc.clear } m
  else done { s.setReg d.rd 1 with lrSc := s.lrSc.clear } m

/-- The AMOs. -/
def execAmo (s : CPUState) (d : DecodedInstr) (m : σ) (addr rs2 : Word) : Executed σ :=
  if addr &&& 3 ≠ 0 then makeException causeMisalignedStore addr s m
  else
    let (memVal, m) := mi.read s addr 4 m
    let s := s.setReg d.rd memVal
    let m := mi.write s addr (amoResult d.type memVal rs2) 4 m
    done s m

/-- `s.csr.write(...)` as the last step of a CSR instruction. -/
def csrWrite (s : CPUState) (d : DecodedInstr) (m : σ) (val : Word) : Executed σ :=
  match s.csr.write (d.csr.setWidth 16) s.priv val with
  | none => makeException causeIllegalInstr d.raw s m
  | some (csr, satp) => done { s with csr } (if satp then mi.onSatpWrite m else m)

/-- CSRRW and CSRRWI with the operand `val`: no read when `rd` is 0. -/
def execCsrrw (s : CPUState) (d : DecodedInstr) (m : σ) (val : Word) : Executed σ :=
  if d.rd ≠ 0 then
    match s.csr.read (d.csr.setWidth 16) s.priv with
    | none => makeException causeIllegalInstr d.raw s m
    | some old => csrWrite mi (s.setReg d.rd old) d m val
  else csrWrite mi s d m val

/-- CSRRS, CSRRC and their immediate forms: `f old` is written unless the `rs1` field is 0. -/
def execCsrrsc (s : CPUState) (d : DecodedInstr) (m : σ) (f : Word → Word) : Executed σ :=
  match s.csr.read (d.csr.setWidth 16) s.priv with
  | none => makeException causeIllegalInstr d.raw s m
  | some old =>
    let s := s.setReg d.rd old
    if d.rs1 ≠ 0 then csrWrite mi s d m (f old) else done s m

/-- `mstatus` after MRET. -/
def mretMstatus (mstatus : Word) : Word :=
  let mpie := mstatus &&& mstatusMpie ≠ 0
  let mstatus := (mstatus &&& ~~~mstatusMie) ||| (if mpie then mstatusMie else 0)
  let mstatus := mstatus ||| mstatusMpie
  mstatus &&& ~~~mstatusMppMask

/-- MRET. -/
def execMret (s : CPUState) (d : DecodedInstr) (m : σ) : Executed σ :=
  if s.priv < prvM then makeException causeIllegalInstr d.raw s m
  else
    let mpp := (s.csr.mstatus >>> mstatusMppShift) &&& 0x3
    done { s with
      nextPc := s.csr.mepc
      csr := { s.csr with mstatus := mretMstatus s.csr.mstatus }
      priv := mpp.setWidth 8 } m

/-- `mstatus` after SRET. -/
def sretMstatus (mstatus : Word) : Word :=
  let spie := mstatus &&& mstatusSpie ≠ 0
  let mstatus := (mstatus &&& ~~~mstatusSie) ||| (if spie then mstatusSie else 0)
  let mstatus := mstatus ||| mstatusSpie
  mstatus &&& ~~~mstatusSpp

/-- SRET. -/
def execSret (s : CPUState) (d : DecodedInstr) (m : σ) : Executed σ :=
  if s.priv < prvS then makeException causeIllegalInstr d.raw s m
  else if s.csr.mstatus &&& mstatusTsr ≠ 0 ∧ s.priv = prvS then
    makeException causeIllegalInstr d.raw s m
  else
    let spp := s.csr.mstatus &&& mstatusSpp ≠ 0
    done { s with
      nextPc := s.csr.sepc
      csr := { s.csr with mstatus := sretMstatus s.csr.mstatus }
      priv := if spp then prvS else prvU } m

/-- SFENCE.VMA. -/
def execSfenceVma (s : CPUState) (d : DecodedInstr) (m : σ) : Executed σ :=
  if s.priv < prvS then makeException causeIllegalInstr d.raw s m
  else if s.csr.mstatus &&& mstatusTvm ≠ 0 ∧ s.priv = prvS then
    makeException causeIllegalInstr d.raw s m
  else ⟨{ sfenceVma := true }, s, m⟩

/-- ECALL. -/
def execEcall (s : CPUState) (m : σ) : Executed σ :=
  if s.priv = prvU then makeException causeEcallU 0 s m
  else if s.priv = prvS then makeException causeEcallS 0 s m
  else makeException causeEcallM 0 s m

/-- Branches: `next_pc` is redirected when the condition holds. -/
def execBranch (s : CPUState) (d : DecodedInstr) (m : σ) (taken : Bool) : Executed σ :=
  done (if taken then { s with nextPc := s.pc + d.imm } else s) m

/-- JAL and JALR: link and jump to `target`. -/
def execJump (s : CPUState) (d : DecodedInstr) (m : σ) (target : Word) : Executed σ :=
  done { s.setReg d.rd (s.pc + d.instrLen) with nextPc := target } m

end Cases

/-! ### `execute` -/

/-- Execute one decoded instruction. -/
def execute {σ : Type*} (mi : MemIf σ) (s₀ : CPUState) (d : DecodedInstr) (m : σ) :
    Executed σ :=
  let rs1 := s₀.getReg d.rs1
  let rs2 := s₀.getReg d.rs2
  let imm := d.imm
  let s := { s₀ with nextPc := s₀.pc + d.instrLen }
  let setRd v := done (s.setReg d.rd v) m
  match d.type with
  | .lui => setRd imm
  | .auipc => setRd (s.pc + imm)
  | .jal => execJump s d m (s.pc + imm)
  | .jalr => execJump s d m ((rs1 + imm) &&& ~~~1)
  | .beq => execBranch s d m (rs1 = rs2)
  | .bne => execBranch s d m (rs1 ≠ rs2)
  | .blt => execBranch s d m (rs1.slt rs2)
  | .bge => execBranch s d m (rs2.sle rs1)
  | .bltu => execBranch s d m (rs1 < rs2)
  | .bgeu => execBranch s d m (rs2 ≤ rs1)
  | .lb => execLoad mi s d m (rs1 + imm) 0 1 fun v => (v.setWidth 8).signExtend 32
  | .lh => execLoad mi s d m (rs1 + imm) 1 2 fun v => (v.setWidth 16).signExtend 32
  | .lw => execLoad mi s d m (rs1 + imm) 3 4 id
  | .lbu => execLoad mi s d m (rs1 + imm) 0 1 fun v => v &&& 0xFF
  | .lhu => execLoad mi s d m (rs1 + imm) 1 2 fun v => v &&& 0xFFFF
  | .sb => execStore mi s m (rs1 + imm) 0 (rs2 &&& 0xFF) 1
  | .sh => execStore mi s m (rs1 + imm) 1 (rs2 &&& 0xFFFF) 2
  | .sw => execStore mi s m (rs1 + imm) 3 rs2 4
  | .addi => setRd (rs1 + imm)
  | .slti => setRd (if rs1.slt imm then 1 else 0)
  | .sltiu => setRd (if rs1 < imm then 1 else 0)
  | .xori => setRd (rs1 ^^^ imm)
  | .ori => setRd (rs1 ||| imm)
  | .andi => setRd (rs1 &&& imm)
  | .slli => setRd (rs1 <<< (imm &&& 0x1F).toNat)
  | .srli => setRd (rs1 >>> (imm &&& 0x1F).toNat)
  | .srai => setRd (rs1.sshiftRight (imm &&& 0x1F).toNat)
  | .add => setRd (rs1 + rs2)
  | .sub => setRd (rs1 - rs2)
  | .sll => setRd (rs1 <<< (rs2 &&& 0x1F).toNat)
  | .slt => setRd (if rs1.slt rs2 then 1 else 0)
  | .sltu => setRd (if rs1 < rs2 then 1 else 0)
  | .xor => setRd (rs1 ^^^ rs2)
  | .srl => setRd (rs1 >>> (rs2 &&& 0x1F).toNat)
  | .sra => setRd (rs1.sshiftRight (rs2 &&& 0x1F).toNat)
  | .or => setRd (rs1 ||| rs2)
  | .and => setRd (rs1 &&& rs2)
  | .mul => setRd (Rv32m.mul rs1 rs2)
  | .mulh => setRd (Rv32m.mulh rs1 rs2)
  | .mulhsu => setRd (Rv32m.mulhsu rs1 rs2)
  | .mulhu => setRd (Rv32m.mulhu rs1 rs2)
  | .div => setRd (Rv32m.div rs1 rs2)
  | .divu => setRd (Rv32m.divu rs1 rs2)
  | .rem => setRd (Rv32m.rem rs1 rs2)
  | .remu => setRd (Rv32m.remu rs1 rs2)
  | .lrW => execLr mi s d m rs1
  | .scW => execSc mi s d m rs1 rs2
  | .amoswapW | .amoaddW | .amoxorW | .amoandW | .amoorW | .amominW | .amomaxW | .amominuW
  | .amomaxuW => execAmo mi s d m rs1 rs2
  | .csrrw => execCsrrw mi s d m rs1
  | .csrrs => execCsrrsc mi s d m fun old => old ||| rs1
  | .csrrc => execCsrrsc mi s d m fun old => old &&& ~~~rs1
  -- the `rs1` field itself is the immediate of the CSR*I forms
  | .csrrwi => execCsrrw mi s d m d.rs1
  | .csrrsi => execCsrrsc mi s d m fun old => old ||| d.rs1
  | .csrrci => execCsrrsc mi s d m fun old => old &&& ~~~d.rs1
  | .ecall => execEcall s m
  | .ebreak => makeException causeBreakpoint s.pc s m
  | .mret => execMret s d m
  | .sret => execSret s d m
  | .uret => makeException causeIllegalInstr d.raw s m
  | .wfi => ⟨{ wfi := true }, s, m⟩
  | .sfenceVma => execSfenceVma s d m
  | .fence => done s m
  | .fencei => ⟨{ fenceI := true }, s, m⟩
  | .illegal => makeException causeIllegalInstr d.raw s m

end VirtualSoC
