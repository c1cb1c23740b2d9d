import VirtualSoC.Cpu.Decode
import VirtualSoC.Cpu.Fields

/-!
# The decoder against the instruction encodings

`Isa.Instr.decoded i` is the decoder's record for the instruction `i`.  On every word that
encodes an instruction the decoder returns exactly that record (`decode_encode`).  The converse
fails: the decoder leaves some fixed fields unchecked, so it also accepts the words of `LaxWord`,
which encode nothing.  These are the only exceptions (`decodesExactly_iff`).
-/

namespace VirtualSoC

open Isa

/-! ### The record of an instruction -/

namespace Isa

/-- The branches in the enumeration of the decoder. -/
def BranchOp.type : BranchOp → InstrType
  | .beq => .beq | .bne => .bne | .blt => .blt | .bge => .bge | .bltu => .bltu | .bgeu => .bgeu

/-- The loads. -/
def LoadOp.type : LoadOp → InstrType
  | .lb => .lb | .lh => .lh | .lw => .lw | .lbu => .lbu | .lhu => .lhu

/-- The stores. -/
def StoreOp.type : StoreOp → InstrType
  | .sb => .sb | .sh => .sh | .sw => .sw

/-- The operations with an immediate. -/
def ImmOp.type : ImmOp → InstrType
  | .addi => .addi | .slti => .slti | .sltiu => .sltiu
  | .xori => .xori | .ori => .ori | .andi => .andi

/-- The shifts by an immediate. -/
def ShiftOp.type : ShiftOp → InstrType
  | .slli => .slli | .srli => .srli | .srai => .srai

/-- The operations on registers. -/
def RegOp.type : RegOp → InstrType
  | .add => .add | .sub => .sub | .sll => .sll | .slt => .slt | .sltu => .sltu
  | .xor => .xor | .srl => .srl | .sra => .sra | .or => .or | .and => .and

/-- The operations of the M extension. -/
def MulOp.type : MulOp → InstrType
  | .mul => .mul | .mulh => .mulh | .mulhsu => .mulhsu | .mulhu => .mulhu
  | .div => .div | .divu => .divu | .rem => .rem | .remu => .remu

/-- The AMOs. -/
def AmoOp.type : AmoOp → InstrType
  | .swap => .amoswapW | .add => .amoaddW | .xor => .amoxorW | .and => .amoandW
  | .or => .amoorW | .min => .amominW | .max => .amomaxW | .minu => .amominuW
  | .maxu => .amomaxuW

/-- The instructions without operands. -/
def PrivOp.type : PrivOp → InstrType
  | .ecall => .ecall | .ebreak => .ebreak | .uret => .uret
  | .sret => .sret | .mret => .mret | .wfi => .wfi

/-- The CSR instructions. -/
def CsrOp.type : CsrOp → InstrType
  | .rw => .csrrw | .rs => .csrrs | .rc => .csrrc
  | .rwi => .csrrwi | .rsi => .csrrsi | .rci => .csrrci

/-- A register number in the decoder's record. -/
def Reg.idx (r : Reg) : Word := r.setWidth 32

/-- The type and the operands of an instruction in the decoder's record. -/
def Instr.operands : Instr → DecodedInstr
  | .lui rd imm => { type := .lui, rd := rd.idx, imm := imm.setWidth 32 <<< 12 }
  | .auipc rd imm => { type := .auipc, rd := rd.idx, imm := imm.setWidth 32 <<< 12 }
  | .jal rd off => { type := .jal, rd := rd.idx, imm := off.signExtend 32 <<< 1 }
  | .jalr rd rs1 imm =>
    { type := .jalr, rd := rd.idx, rs1 := rs1.idx, imm := imm.signExtend 32 }
  | .branch op rs1 rs2 off =>
    { type := op.type, rs1 := rs1.idx, rs2 := rs2.idx, imm := off.signExtend 32 <<< 1 }
  | .load op rd rs1 imm =>
    { type := op.type, rd := rd.idx, rs1 := rs1.idx, imm := imm.signExtend 32 }
  | .store op rs1 rs2 imm =>
    { type := op.type, rs1 := rs1.idx, rs2 := rs2.idx, imm := imm.signExtend 32 }
  | .opImm op rd rs1 imm =>
    { type := op.type, rd := rd.idx, rs1 := rs1.idx, imm := imm.signExtend 32 }
  | .shift op rd rs1 shamt =>
    { type := op.type, rd := rd.idx, rs1 := rs1.idx, imm := shamt.setWidth 32 }
  | .opReg op rd rs1 rs2 =>
    { type := op.type, rd := rd.idx, rs1 := rs1.idx, rs2 := rs2.idx }
  | .mulDiv op rd rs1 rs2 =>
    { type := op.type, rd := rd.idx, rs1 := rs1.idx, rs2 := rs2.idx }
  | .lr _ rd rs1 => { type := .lrW, rd := rd.idx, rs1 := rs1.idx }
  | .sc _ rd rs1 rs2 => { type := .scW, rd := rd.idx, rs1 := rs1.idx, rs2 := rs2.idx }
  | .amo op _ rd rs1 rs2 =>
    { type := op.type, rd := rd.idx, rs1 := rs1.idx, rs2 := rs2.idx }
  | .fence _ _ _ => { type := .fence }
  | .fenceI _ _ _ => { type := .fencei }
  | .priv op => { type := op.type }
  | .sfenceVma rs1 rs2 => { type := .sfenceVma, rs1 := rs1.idx, rs2 := rs2.idx }
  | .csr op rd rs1 addr =>
    { type := op.type, rd := rd.idx, rs1 := rs1.idx, csr := addr.setWidth 32, imm := rs1.idx }

/-- The decoder's record for a 32-bit instruction. -/
def Instr.decoded (i : Instr) : DecodedInstr := { i.operands with raw := i.encode }

end Isa

/-! ### Words that encode an instruction -/

/-- The decoder returns the record of the instruction that a word encodes. -/
theorem decode32_encode (i : Instr) : decode32 i.encode = i.decoded := by
  unfold Instr.decoded Instr.encode Instr.operands Reg.idx
  cases i with
  | lui | auipc => simp [decode32, uType]
  | jal => simp [decode32, jType, uType]
  | jalr => simp [decode32, iType]
  | branch op => cases op <;> simp [decode32, bType, branchType, BranchOp.type]
  | load op => cases op <;> simp [decode32, iType, loadType, LoadOp.type]
  | store op => cases op <;> simp [decode32, sType, storeType, StoreOp.type]
  | opImm op => cases op <;> simp [decode32, iType, immType, ImmOp.type]
  | shift op => cases op <;> simp [decode32, immType, ShiftOp.type]
  | opReg op => cases op <;> simp [decode32, regType, RegOp.type]
  | mulDiv op => cases op <;> simp [decode32, regType, MulOp.type]
  | lr | sc => simp [decode32, amoType]
  | amo op => cases op <;> simp [decode32, amoType, AmoOp.type]
  | fence | fenceI => simp [decode32, iType]
  | priv op => cases op <;> simp [decode32, iType, joinImm, privType, PrivOp.type]
  | sfenceVma => simp [decode32]
  | csr op => cases op <;> simp [decode32, iType, csrType, csrZimm, CsrOp.type]

theorem encode_and_three (i : Instr) : i.encode &&& 3#32 = 3#32 := by
  have low (w : Word) : w &&& 3#32 = (w.extractLsb' 0 7 &&& 3).setWidth 32 := by
    ext i hi
    interval_cases i <;> simp
  rw [low]
  cases i <;> simp [Instr.encode, uType, jType, iType, bType, sType]

theorem decode_encode (i : Instr) : decode i.encode = i.decoded := by
  simp [decode, encode_and_three, decode32_encode]

theorem decoded_type_ne_illegal (i : Instr) : i.decoded.type ≠ .illegal := by
  unfold Instr.decoded Instr.operands
  cases i with
  | branch op | load op | store op | opImm op | shift op | opReg op | mulDiv op | amo op
  | priv op | csr op => cases op <;> exact InstrType.noConfusion
  | _ => exact InstrType.noConfusion

/-! ### Words accepted without encoding an instruction -/

/-- The words with a fixed field that `decode32` does not check: JALR with a non-zero `funct3`,
MISC-MEM with `funct3` above 1, LR.W with a non-zero `rs2`, the privileged instructions with a
non-zero `rd` or `rs1`, and SFENCE.VMA with a non-zero `rd`. -/
def LaxWord (w : Word) : Prop :=
  let op := w.extractLsb' 0 7
  let f3 := w.extractLsb' 12 3
  (op = 0b1100111 ∧ f3 ≠ 0) ∨
  (op = 0b0001111 ∧ f3 ≠ 0 ∧ f3 ≠ 1) ∨
  (op = 0b0101111 ∧ f3 = 0b010 ∧ w.extractLsb' 27 5 = 0b00010 ∧ w.extractLsb' 20 5 ≠ 0) ∨
  (op = 0b1110011 ∧ f3 = 0 ∧ (∃ p : PrivOp, w.extractLsb' 20 12 = p.funct12) ∧
    (w.extractLsb' 7 5 ≠ 0 ∨ w.extractLsb' 15 5 ≠ 0)) ∨
  (op = 0b1110011 ∧ f3 = 0 ∧ w.extractLsb' 25 7 = 0b0001001 ∧ w.extractLsb' 7 5 ≠ 0)

theorem joinImm_ne_funct12 (s2 : Reg) (p : PrivOp) : joinImm 0b0001001 s2 ≠ p.funct12 := by
  intro h
  have h7 := congrArg (BitVec.extractLsb' 5 7) h
  rw [(extract_joinImm _ _).1] at h7
  cases p <;> simp at h7

theorem not_laxWord_encode (i : Instr) : ¬ LaxWord i.encode := by
  unfold LaxWord
  cases i with
  | priv op => cases op <;> simp [Instr.encode, iType]
  | csr op => cases op <;> simp [Instr.encode, iType]
  | amo op => cases op <;> simp [Instr.encode]
  | sfenceVma s1 s2 =>
    have := joinImm_ne_funct12 s2
    simp only [Instr.encode, word_op, word_funct3, word_imm12, word_rd, word_rs1]
    simp [-PrivOp.funct12, show ∀ p : PrivOp, ¬ joinImm 9#7 s2 = p.funct12 from this]
  | _ => simp [Instr.encode, uType, jType, iType, bType, sType]

theorem decode32_type_of_laxWord {w : Word} (h : LaxWord w) : (decode32 w).type ≠ .illegal := by
  rcases h with ⟨ho, -⟩ | ⟨ho, h0, h1⟩ | ⟨ho, h3, h5, -⟩ | ⟨ho, h3, ⟨p, hp⟩, -⟩ | ⟨ho, h3, h7, -⟩
  · simp [decode32, ho]
  · simp [decode32, ho]
    split <;> simp
  · simp [decode32, ho, h3, h5, amoType]
  · simp only [decode32, opcode_eq, ho, funct3_eq, h3, funct12_eq, hp]
    cases p <;> simp [privType] <;> split <;> simp
  · simp [decode32, ho, h3, h7]

theorem decode32_type (w : Word) :
    (decode32 w).type =
      if opcode w = opLui then .lui
      else if opcode w = opAuipc then .auipc
      else if opcode w = opJal then .jal
      else if opcode w = opJalr then .jalr
      else if opcode w = opBranch then branchType (funct3 w)
      else if opcode w = opLoad then loadType (funct3 w)
      else if opcode w = opStore then storeType (funct3 w)
      else if opcode w = opImm then immType (funct3 w) (funct7 w)
      else if opcode w = opReg then regType (funct3 w) (funct7 w)
      else if opcode w = opAmo then amoType (funct3 w) (funct5 w)
      else if opcode w = opFence then if funct3 w = f3Fencei then .fencei else .fence
      else if opcode w = opSystem then
        if funct3 w = f3Priv then
          if funct7 w = f7SfenceVma then .sfenceVma else privType (funct12 w)
        else csrType (funct3 w)
      else .illegal := by
  simp only [decode32, apply_ite DecodedInstr.type]

/-! The inner switches accept only function fields of the operations they select. -/

theorem exists_branchOp : ∀ f3 : BitVec 3, branchType (f3.setWidth 32) ≠ .illegal →
    ∃ o ∈ [BranchOp.beq, .bne, .blt, .bge, .bltu, .bgeu], o.funct3 = f3 := by
  decide

theorem exists_loadOp : ∀ f3 : BitVec 3, loadType (f3.setWidth 32) ≠ .illegal →
    ∃ o ∈ [LoadOp.lb, .lh, .lw, .lbu, .lhu], o.funct3 = f3 := by
  decide

theorem exists_storeOp : ∀ f3 : BitVec 3, storeType (f3.setWidth 32) ≠ .illegal →
    ∃ o ∈ [StoreOp.sb, .sh, .sw], o.funct3 = f3 := by
  decide

theorem exists_csrOp : ∀ f3 : BitVec 3, csrType (f3.setWidth 32) ≠ .illegal →
    ∃ o ∈ [CsrOp.rw, .rs, .rc, .rwi, .rsi, .rci], o.funct3 = f3 := by
  decide

theorem exists_opImm : ∀ (f3 : BitVec 3) (f7 : BitVec 7),
    immType (f3.setWidth 32) (f7.setWidth 32) ≠ .illegal →
      (∃ o ∈ [ImmOp.addi, .slti, .sltiu, .xori, .ori, .andi], o.funct3 = f3) ∨
        ∃ o ∈ [ShiftOp.slli, .srli, .srai], o.funct3 = f3 ∧ o.funct7 = f7 := by
  decide +kernel

theorem exists_opReg : ∀ (f3 : BitVec 3) (f7 : BitVec 7),
    regType (f3.setWidth 32) (f7.setWidth 32) ≠ .illegal →
      (∃ o ∈ [RegOp.add, .sub, .sll, .slt, .sltu, .xor, .srl, .sra, .or, .and],
        o.funct3 = f3 ∧ o.funct7 = f7) ∨
      f7 = 0b0000001 ∧
        ∃ o ∈ [MulOp.mul, .mulh, .mulhsu, .mulhu, .div, .divu, .rem, .remu], o.funct3 = f3 := by
  decide +kernel

theorem exists_amoOp : ∀ (f3 : BitVec 3) (f5 : BitVec 5),
    amoType (f3.setWidth 32) (f5.setWidth 32) ≠ .illegal →
      f3 = 0b010 ∧ (f5 = 0b00010 ∨ f5 = 0b00011 ∨
        ∃ o ∈ [AmoOp.swap, .add, .xor, .and, .or, .min, .max, .minu, .maxu], o.funct5 = f5) := by
  decide +kernel

theorem exists_privOp {f12 : BitVec 12} (h : privType (f12.setWidth 32) ≠ .illegal) :
    ∃ o : PrivOp, o.funct12 = f12 := by
  have field {c : Word} (hc : f12.setWidth 32 = c) : c.setWidth 12 = f12 :=
    (Bits.eq_setWidth_of_setWidth_eq (by decide) hc).symm
  unfold privType at h
  split_ifs at h with h1 h2 h3 h4 h5 h6
  · exact ⟨.ecall, field h1⟩
  · exact ⟨.ebreak, field h2⟩
  · exact ⟨.mret, field h3⟩
  · exact ⟨.sret, field h4⟩
  · exact ⟨.uret, field h5⟩
  · exact ⟨.wfi, field h6⟩
  · exact absurd rfl h

/-- An atomic instruction; LR.W has no second operand. -/
theorem exists_encode_amo {f7 : BitVec 7} {s2 s1 d : Reg} {f3 : BitVec 3}
    (h : amoType (f3.setWidth 32) ((f7.extractLsb' 2 5).setWidth 32) ≠ .illegal)
    (hlr : f3 = 2 → f7.extractLsb' 2 5 = 2 → s2 = 0) :
    ∃ i : Instr, i.encode = word f7 s2 s1 f3 d 0b0101111 := by
  obtain ⟨rfl, h5⟩ := exists_amoOp f3 _ h
  rw [← amoFunct7_eta f7]
  rcases h5 with h5 | h5 | ⟨o, -, h5⟩
  · obtain rfl := hlr rfl h5
    rw [h5]
    exact ⟨.lr _ d s1, rfl⟩
  · rw [h5]
    exact ⟨.sc _ d s1 s2, rfl⟩
  · rw [← h5]
    exact ⟨.amo o _ d s1 s2, rfl⟩

/-- A system instruction; the privileged ones have no operands, but for the sources of
SFENCE.VMA. -/
theorem exists_encode_system {f7 : BitVec 7} {s2 s1 d : Reg} {f3 : BitVec 3}
    (h : (if f3.setWidth 32 = f3Priv then
        if f7.setWidth 32 = f7SfenceVma then .sfenceVma
        else privType ((joinImm f7 s2).setWidth 32)
      else csrType (f3.setWidth 32)) ≠ InstrType.illegal)
    (hpriv : f3 = 0 → (∃ p : PrivOp, joinImm f7 s2 = p.funct12) → d = 0 ∧ s1 = 0)
    (hsfence : f3 = 0 → f7 = 9 → d = 0) :
    ∃ i : Instr, i.encode = word f7 s2 s1 f3 d 0b1110011 := by
  by_cases h3 : f3.setWidth 32 = f3Priv
  · rw [if_pos h3] at h
    obtain rfl : f3 = 0 := Bits.eq_setWidth_of_setWidth_eq (by decide) h3
    by_cases h7 : f7.setWidth 32 = f7SfenceVma
    · obtain rfl : f7 = 9 := Bits.eq_setWidth_of_setWidth_eq (by decide) h7
      obtain rfl := hsfence rfl rfl
      exact ⟨.sfenceVma s1 s2, rfl⟩
    · rw [if_neg h7] at h
      obtain ⟨o, ho⟩ := exists_privOp h
      obtain ⟨rfl, rfl⟩ := hpriv rfl ⟨o, ho.symm⟩
      refine ⟨.priv o, ?_⟩
      simp only [Instr.encode, ho, iType, extract_joinImm]
  · rw [if_neg h3] at h
    obtain ⟨o, -, rfl⟩ := exists_csrOp f3 h
    exact ⟨.csr o d s1 (joinImm f7 s2), by simp [Instr.encode, iType]⟩

/-- Every accepted word outside `LaxWord` encodes an instruction. -/
theorem exists_encode_word {f7 : BitVec 7} {s2 s1 d : Reg} {f3 : BitVec 3} {op : BitVec 7}
    (h : (decode32 (word f7 s2 s1 f3 d op)).type ≠ .illegal)
    (hl : ¬ LaxWord (word f7 s2 s1 f3 d op)) :
    ∃ i : Instr, i.encode = word f7 s2 s1 f3 d op := by
  have key {c : Word} (hc : op.setWidth 32 = c) : op = c.setWidth 7 :=
    Bits.eq_setWidth_of_setWidth_eq (by decide) hc
  simp only [LaxWord, word_op, word_funct3, word_funct5, word_rs2, word_imm12, word_rd, word_rs1,
    word_funct7, not_or] at hl
  obtain ⟨hjalr, hfence, hlr, hpriv, hsfence⟩ := hl
  rw [decode32_type, opcode_eq, funct3_eq, funct7_eq, funct5_eq, funct12_eq, word_op,
    word_funct3, word_funct7, word_funct5, word_imm12] at h
  by_cases hop : op.setWidth 32 = opLui
  · obtain rfl := key hop
    exact ⟨.lui d (joinU f7 s2 s1 f3), by simp [Instr.encode, uType]⟩
  rw [if_neg hop] at h
  by_cases hop : op.setWidth 32 = opAuipc
  · obtain rfl := key hop
    exact ⟨.auipc d (joinU f7 s2 s1 f3), by simp [Instr.encode, uType]⟩
  rw [if_neg hop] at h
  by_cases hop : op.setWidth 32 = opJal
  · obtain rfl := key hop
    exact ⟨.jal d (joinJ (joinU f7 s2 s1 f3)), by simp [Instr.encode, jType, uType]⟩
  rw [if_neg hop] at h
  by_cases hop : op.setWidth 32 = opJalr
  · obtain rfl := key hop
    obtain rfl : f3 = 0 := by
      by_contra h0
      exact hjalr ⟨rfl, h0⟩
    exact ⟨.jalr d s1 (joinImm f7 s2), by simp [Instr.encode, iType]⟩
  rw [if_neg hop] at h
  by_cases hop : op.setWidth 32 = opBranch
  · obtain rfl := key hop
    rw [if_pos hop] at h
    obtain ⟨o, -, rfl⟩ := exists_branchOp f3 h
    exact ⟨.branch o s1 s2 (joinB f7 d), by simp [Instr.encode, bType]⟩
  rw [if_neg hop] at h
  by_cases hop : op.setWidth 32 = opLoad
  · obtain rfl := key hop
    rw [if_pos hop] at h
    obtain ⟨o, -, rfl⟩ := exists_loadOp f3 h
    exact ⟨.load o d s1 (joinImm f7 s2), by simp [Instr.encode, iType]⟩
  rw [if_neg hop] at h
  by_cases hop : op.setWidth 32 = opStore
  · obtain rfl := key hop
    rw [if_pos hop] at h
    obtain ⟨o, -, rfl⟩ := exists_storeOp f3 h
    exact ⟨.store o s1 s2 (joinImm f7 d), by simp [Instr.encode, sType]⟩
  rw [if_neg hop] at h
  by_cases hop : op.setWidth 32 = opImm
  · obtain rfl := key hop
    rw [if_pos hop] at h
    rcases exists_opImm f3 f7 h with ⟨o, -, rfl⟩ | ⟨o, -, rfl, rfl⟩
    · exact ⟨.opImm o d s1 (joinImm f7 s2), by simp [Instr.encode, iType]⟩
    · exact ⟨.shift o d s1 s2, rfl⟩
  rw [if_neg hop] at h
  by_cases hop : op.setWidth 32 = opReg
  · obtain rfl := key hop
    rw [if_pos hop] at h
    rcases exists_opReg f3 f7 h with ⟨o, -, rfl, rfl⟩ | ⟨rfl, o, -, rfl⟩
    · exact ⟨.opReg o d s1 s2, rfl⟩
    · exact ⟨.mulDiv o d s1 s2, rfl⟩
  rw [if_neg hop] at h
  by_cases hop : op.setWidth 32 = opAmo
  · obtain rfl := key hop
    rw [if_pos hop] at h
    exact exists_encode_amo h fun h3 h5 => by_contra fun h0 => hlr ⟨rfl, h3, h5, h0⟩
  rw [if_neg hop] at h
  by_cases hop : op.setWidth 32 = opFence
  · obtain rfl := key hop
    by_cases h3 : f3 = 1
    · subst h3
      exact ⟨.fenceI d s1 (joinImm f7 s2), by simp [Instr.encode, iType]⟩
    · obtain rfl : f3 = 0 := by
        by_contra h0
        exact hfence ⟨rfl, h0, h3⟩
      exact ⟨.fence d s1 (joinImm f7 s2), by simp [Instr.encode, iType]⟩
  rw [if_neg hop] at h
  by_cases hop : op.setWidth 32 = opSystem
  · obtain rfl := key hop
    rw [if_pos hop] at h
    refine exists_encode_system h (fun h3 hp => ?_) fun h3 h7 => ?_
    · exact by_contra fun h0 => hpriv ⟨rfl, h3, hp, not_and_or.1 h0⟩
    · exact by_contra fun h0 => hsfence ⟨rfl, h3, h7, h0⟩
  rw [if_neg hop] at h
  exact absurd rfl h

/-! ### The decoder accepts exactly the instructions, up to `LaxWord` -/

/-- `w` is accepted exactly when it encodes an instruction, and is then decoded to the type and
operands of that instruction. -/
def DecodesExactly (w : Word) : Prop :=
  ((decode w).type ≠ .illegal ↔ ∃ i : Instr, i.encode = w) ∧
    ∀ i : Instr, i.encode = w → decode w = i.decoded

/-- **The decoder is exact on a 32-bit word if and only if the word is not in `LaxWord`.** -/
theorem decodesExactly_iff {w : Word} (h3 : w &&& 3 = 3) : DecodesExactly w ↔ ¬ LaxWord w := by
  have hd : decode w = decode32 w := if_neg (by simpa using h3)
  constructor
  · rintro ⟨hacc, -⟩ hl
    rw [hd] at hacc
    obtain ⟨i, rfl⟩ := hacc.1 (decode32_type_of_laxWord hl)
    exact not_laxWord_encode i hl
  · intro hl
    refine ⟨⟨fun h => ?_, ?_⟩, ?_⟩
    · rw [hd] at h
      obtain ⟨i, hi⟩ := exists_encode_word (by rwa [word_eta]) (by rwa [word_eta])
      exact ⟨i, hi.trans (word_eta w)⟩
    · rintro ⟨i, rfl⟩
      rw [decode_encode]
      exact decoded_type_ne_illegal i
    · rintro i rfl
      exact decode_encode i

/-- `jalr x0, 0(x0)` with `funct3 = 1` is a reserved word that the decoder accepts. -/
theorem not_decodesExactly_reserved_jalr :
    (0x00001067 : Word) &&& 3 = 3 ∧ ¬ DecodesExactly 0x00001067 := by
  refine ⟨by decide, fun h => ?_⟩
  obtain ⟨i, hi⟩ := h.1.1 (by decide)
  exact not_laxWord_encode i (hi ▸ Or.inl (by decide))

/-- `addi x1, x0, 42` is decoded exactly. -/
theorem decodesExactly_addi : ¬ LaxWord 0x02A00093 ∧ DecodesExactly 0x02A00093 := by
  have hl : ¬ LaxWord 0x02A00093 := by
    simp [LaxWord]
  exact ⟨hl, (decodesExactly_iff (by decide)).2 hl⟩

end VirtualSoC
