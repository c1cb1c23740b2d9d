import Mathlib.Data.BitVec
import VirtualSoC.Isa.Encoding

/-!
# The meaning of the instructions

What the unprivileged manual says each RV32I computational, branch, jump, load and store
instruction and each AMO does, on a hart with a total little-endian byte memory.  Misaligned
halfword and word accesses raise an exception, as the manual lets an implementation do.

* `RegFile` : the x registers; that `x0` is zero is part of the type;
* `Outcome` : an instruction retires in a new state, or raises an exception;
* `step` : the meaning of an instruction of `ilen` bytes, `none` for the other instructions.

Offsets and comparisons are stated on the integers that the operands denote.
-/

namespace VirtualSoC

namespace Isa

/-! ### States -/

/-- The x registers; `x0` is zero. -/
@[ext]
structure RegFile where
  x : Reg → BitVec 32
  x_zero : x 0 = 0

namespace RegFile

/-- Register `r` receives `v`; a write to `x0` is dropped. -/
def write (f : RegFile) (r : Reg) (v : BitVec 32) : RegFile where
  x i := if i = r ∧ r ≠ 0 then v else f.x i
  x_zero := by
    rw [if_neg fun h => h.2 h.1.symm]
    exact f.x_zero

end RegFile

/-- A total byte memory. -/
abbrev Mem := BitVec 32 → BitVec 8

namespace Mem

variable (m : Mem) (a : BitVec 32)

/-- The halfword at `a`. -/
def half : BitVec 16 := m (a + 1) ++ m a

/-- The word at `a`. -/
def word : BitVec 32 := m (a + 3) ++ m (a + 2) ++ m (a + 1) ++ m a

/-- Store a byte. -/
def storeByte (v : BitVec 8) : Mem := fun b => if b = a then v else m b

/-- Store a halfword. -/
def storeHalf (v : BitVec 16) : Mem :=
  (m.storeByte a (v.extractLsb' 0 8)).storeByte (a + 1) (v.extractLsb' 8 8)

/-- Store a word. -/
def storeWord (v : BitVec 32) : Mem :=
  (m.storeHalf a (v.extractLsb' 0 16)).storeHalf (a + 2) (v.extractLsb' 16 16)

end Mem

/-- The state of a hart. -/
@[ext]
structure State where
  regs : RegFile
  pc : BitVec 32
  mem : Mem

/-- The exceptions of the instructions given a meaning here. -/
inductive Exn
  | misalignedLoad (addr : BitVec 32)
  | misalignedStore (addr : BitVec 32)
  | breakpoint (pc : BitVec 32)

/-- An instruction retires in a new state or raises an exception and changes nothing. -/
inductive Outcome
  | retire (s : State)
  | raise (e : Exn)

/-! ### Operations -/

/-- The branch is taken. -/
def BranchOp.taken (a b : BitVec 32) : BranchOp → Bool
  | .beq => a = b
  | .bne => a ≠ b
  | .blt => a.toInt < b.toInt
  | .bge => a.toInt ≥ b.toInt
  | .bltu => a.toNat < b.toNat
  | .bgeu => a.toNat ≥ b.toNat

/-- The result for a sign-extended immediate. -/
def ImmOp.eval (a imm : BitVec 32) : ImmOp → BitVec 32
  | .addi => a + imm
  | .slti => if a.toInt < imm.toInt then 1 else 0
  | .sltiu => if a.toNat < imm.toNat then 1 else 0
  | .xori => a ^^^ imm
  | .ori => a ||| imm
  | .andi => a &&& imm

/-- The result of a shift. -/
def ShiftOp.eval (a : BitVec 32) (shamt : BitVec 5) : ShiftOp → BitVec 32
  | .slli => a <<< shamt.toNat
  | .srli => a >>> shamt.toNat
  | .srai => a.sshiftRight shamt.toNat

/-- The register shifts use the low five bits of the second operand. -/
def RegOp.eval (a b : BitVec 32) : RegOp → BitVec 32
  | .add => a + b
  | .sub => a - b
  | .sll => a <<< (b.extractLsb' 0 5).toNat
  | .slt => if a.toInt < b.toInt then 1 else 0
  | .sltu => if a.toNat < b.toNat then 1 else 0
  | .xor => a ^^^ b
  | .srl => a >>> (b.extractLsb' 0 5).toNat
  | .sra => a.sshiftRight (b.extractLsb' 0 5).toNat
  | .or => a ||| b
  | .and => a &&& b

/-- The value that an AMO stores, from the old memory value `t` and the register operand. -/
def AmoOp.eval (t b : BitVec 32) : AmoOp → BitVec 32
  | .swap => b
  | .add => t + b
  | .xor => t ^^^ b
  | .and => t &&& b
  | .or => t ||| b
  | .min => if t.toInt ≤ b.toInt then t else b
  | .max => if t.toInt ≤ b.toInt then b else t
  | .minu => if t.toNat ≤ b.toNat then t else b
  | .maxu => if t.toNat ≤ b.toNat then b else t

/-- Number of low address bits that an aligned access has clear. -/
def LoadOp.logSize : LoadOp → ℕ
  | .lb | .lbu => 0
  | .lh | .lhu => 1
  | .lw => 2

/-- The value loaded, sign- or zero-extended. -/
def LoadOp.eval (m : Mem) (a : BitVec 32) : LoadOp → BitVec 32
  | .lb => (m a).signExtend 32
  | .lh => (m.half a).signExtend 32
  | .lw => m.word a
  | .lbu => (m a).setWidth 32
  | .lhu => (m.half a).setWidth 32

/-- The logarithm of the size in bytes. -/
def StoreOp.logSize : StoreOp → ℕ
  | .sb => 0
  | .sh => 1
  | .sw => 2

/-- The memory after storing the low part of `v`. -/
def StoreOp.eval (m : Mem) (a v : BitVec 32) : StoreOp → Mem
  | .sb => m.storeByte a (v.extractLsb' 0 8)
  | .sh => m.storeHalf a (v.extractLsb' 0 16)
  | .sw => m.storeWord a v

/-! ### The meaning of an instruction -/

variable (ilen : BitVec 32) (s : State)

/-- Retire with `rd := v` and continue behind the instruction. -/
def State.setReg (rd : Reg) (v : BitVec 32) : Outcome :=
  .retire { s with regs := s.regs.write rd v, pc := s.pc + ilen }

/-- The signed offset `off` in units of two bytes. -/
def offset {n : ℕ} (off : BitVec n) : BitVec 32 := BitVec.ofInt 32 (2 * off.toInt)

/-- The outcome of an instruction that is `ilen` bytes long. -/
def step : Instr → Option Outcome
  | .lui rd imm => some <| s.setReg ilen rd (imm ++ (0 : BitVec 12))
  | .auipc rd imm => some <| s.setReg ilen rd (s.pc + (imm ++ (0 : BitVec 12)))
  | .jal rd off => some <| .retire
      { s with regs := s.regs.write rd (s.pc + ilen), pc := s.pc + offset off }
  | .jalr rd rs1 imm => some <| .retire
      { s with
        regs := s.regs.write rd (s.pc + ilen)
        pc := (s.regs.x rs1 + imm.signExtend 32) &&& ~~~1 }
  | .branch op rs1 rs2 off => some <| .retire
      { s with
        pc := s.pc + if op.taken (s.regs.x rs1) (s.regs.x rs2) then offset off else ilen }
  | .load op rd rs1 imm =>
    let a := s.regs.x rs1 + imm.signExtend 32
    some <| if 2 ^ op.logSize ∣ a.toNat then s.setReg ilen rd (op.eval s.mem a)
      else .raise (.misalignedLoad a)
  | .store op rs1 rs2 imm =>
    let a := s.regs.x rs1 + imm.signExtend 32
    some <| if 2 ^ op.logSize ∣ a.toNat then
        .retire { s with mem := op.eval s.mem a (s.regs.x rs2), pc := s.pc + ilen }
      else .raise (.misalignedStore a)
  | .opImm op rd rs1 imm => some <| s.setReg ilen rd (op.eval (s.regs.x rs1) (imm.signExtend 32))
  | .shift op rd rs1 shamt => some <| s.setReg ilen rd (op.eval (s.regs.x rs1) shamt)
  | .opReg op rd rs1 rs2 => some <| s.setReg ilen rd (op.eval (s.regs.x rs1) (s.regs.x rs2))
  | .amo op _ rd rs1 rs2 =>
    let a := s.regs.x rs1
    let t := s.mem.word a
    some <| if 4 ∣ a.toNat then
        .retire
          { regs := s.regs.write rd t
            pc := s.pc + ilen
            mem := s.mem.storeWord a (op.eval t (s.regs.x rs2)) }
      else .raise (.misalignedStore a)
  | .priv .ebreak => some <| .raise (.breakpoint s.pc)
  | _ => none

/-- The RV32I computational, branch, jump, load and store instructions and the AMOs. -/
def Instr.isBase : Instr → Bool
  | .lui .. | .auipc .. | .jal .. | .jalr .. | .branch .. | .load .. | .store .. | .opImm ..
  | .shift .. | .opReg .. | .amo .. => true
  | _ => false

theorem exists_step {i : Instr} (h : i.isBase) : ∃ o, step ilen s i = some o := by
  cases i <;> first | exact ⟨_, rfl⟩ | cases h

end Isa

end VirtualSoC
