import VirtualSoC.Isa.Compressed
import VirtualSoC.Isa.Semantics

/-!
# Programs

What a program in memory does on a hart, instruction by instruction: `Fetched` says which
instruction is at the program counter, `exec` what it does, and `Step A` that the program executes
it at addresses of the space `A`.

`exec` adds the M extension and FENCE to `step`; the operations of the M extension are stated on the
integers that the operands denote.
-/

namespace VirtualSoC

namespace Isa

/-! ### The M extension -/

/-- Products have their high words by floored division; quotients are truncated, and all ones when
the divisor is zero. -/
def MulOp.eval (a b : BitVec 32) : MulOp → BitVec 32
  | .mul => BitVec.ofInt 32 (a.toInt * b.toInt)
  | .mulh => BitVec.ofInt 32 (a.toInt * b.toInt / 2 ^ 32)
  | .mulhsu => BitVec.ofInt 32 (a.toInt * b.toNat / 2 ^ 32)
  | .mulhu => BitVec.ofNat 32 (a.toNat * b.toNat / 2 ^ 32)
  | .div => if b = 0 then -1 else BitVec.ofInt 32 (a.toInt.tdiv b.toInt)
  | .divu => if b = 0 then -1 else BitVec.ofNat 32 (a.toNat / b.toNat)
  | .rem => if b = 0 then a else BitVec.ofInt 32 (a.toInt.tmod b.toInt)
  | .remu => if b = 0 then a else BitVec.ofNat 32 (a.toNat % b.toNat)

/-! ### One instruction -/

/-- The outcome of an instruction of `ilen` bytes. -/
def exec (ilen : BitVec 32) (s : State) : Instr → Option Outcome
  | .mulDiv op rd rs1 rs2 => some <| s.setReg ilen rd (op.eval (s.regs.x rs1) (s.regs.x rs2))
  -- one hart: nothing is reordered
  | .fence .. => some <| .retire { s with pc := s.pc + ilen }
  | i => step ilen s i

/-- The instruction at an address, and its length. -/
inductive Fetched (m : Mem) (pc : BitVec 32) : Instr → BitVec 32 → Prop
  | word {i : Instr} (h : m.word pc = i.encode) : Fetched m pc i 4
  | parcel {i : Instr} (h : Rvc.expand (m.half pc) = some i) : Fetched m pc i 2

/-! ### Runs -/

/-- The addresses that a program may use. -/
structure Space where
  /-- A word can be fetched here. -/
  fetch : BitVec 32 → Prop
  load : BitVec 32 → Prop
  store : BitVec 32 → Prop

/-- The memory from `lo` up to `hi`. -/
def Space.memory (lo hi : ℕ) : Space where
  fetch a := lo ≤ a.toNat ∧ a.toNat + 4 ≤ hi
  load a := lo ≤ a.toNat ∧ a.toNat < hi
  store a := lo ≤ a.toNat ∧ a.toNat < hi

/-- The data accesses of an instruction are in the space. -/
def Instr.Within (A : Space) (s : State) : Instr → Prop
  | .load _ _ rs1 imm => A.load (s.regs.x rs1 + imm.signExtend 32)
  | .store _ rs1 _ imm => A.store (s.regs.x rs1 + imm.signExtend 32)
  | .amo _ _ _ rs1 _ => A.store (s.regs.x rs1)
  | _ => True

/-- The program executes one instruction in the space. -/
inductive Step (A : Space) (s : State) : State → Prop
  | retire {i : Instr} {ilen : BitVec 32} {s' : State} (hf : Fetched s.mem s.pc i ilen)
      (heven : 2 ∣ s.pc.toNat) (hpc : A.fetch s.pc) (hin : i.Within A s)
      (hx : exec ilen s i = some (.retire s')) : Step A s s'

/-- The program executes `n` instructions. -/
inductive Steps (A : Space) (s : State) : ℕ → State → Prop
  | refl : Steps A s 0 s
  | tail {n : ℕ} {t u : State} (h : Steps A s n t) (hstep : Step A t u) : Steps A s (n + 1) u

end Isa

end VirtualSoC
