import VirtualSoC.Cpu.DecodeSpec
import VirtualSoC.Cpu.Effect
import VirtualSoC.Isa.Semantics
import VirtualSoC.Lib.Bytes

/-!
# The execute engine against the instruction set

`execute` on the record of an instruction, over plain RAM, does what `Isa.step` says.  The record
is the decoder's for a 32-bit word or for a compressed parcel; only the instruction length
depends on which.
-/

namespace VirtualSoC

open Isa

/-- The memory callbacks on plain RAM. -/
def ramIf : MemIf Isa.Mem where
  read _ a n m := (Bytes.readLE m a n, m)
  write _ a v n m := Bytes.writeLE m a v n
  onSatpWrite m := m

/-! ### The view of a CPU state -/

namespace CPUState

variable (s : CPUState)

/-- The x registers as software sees them. -/
def regFile : RegFile where
  x r := s.getReg r.idx
  x_zero := by simp [getReg, Reg.idx]

/-- The architectural state before an instruction. -/
def view (m : Isa.Mem) : Isa.State := ⟨s.regFile, s.pc, m⟩

variable {s}

@[simp] theorem idx_eq_zero {r : Reg} : r.idx = 0#32 ↔ r = 0#5 := by
  rw [show (0#32 : Word) = (0#5).setWidth 32 from rfl]
  exact Bits.setWidth_inj (by decide)

theorem setWidth_idx (r : Reg) : r.idx.setWidth 5 = r := by
  simp [Reg.idx]

theorem regFile_setReg (r : Reg) (v : Word) :
    (s.setReg r.idx v).regFile = s.regFile.write r v := by
  ext i : 2
  by_cases hr : r = 0#5
  · simp [regFile, RegFile.write, setReg, hr]
  · by_cases hi : i = r
    · simp [regFile, RegFile.write, setReg, getReg, setWidth_idx, hi, hr]
    · simp [regFile, RegFile.write, setReg, getReg, setWidth_idx, hi, hr]

theorem setReg_regs_zero (r : Reg) (v : Word) : (s.setReg r.idx v).regs 0 = s.regs 0 := by
  by_cases hr : r = 0#5
  · simp [setReg, hr]
  · simp [setReg, setWidth_idx, hr, Function.update_of_ne (Ne.symm hr)]

end CPUState

/-! ### Memory accesses -/

section Memory

variable (m : Isa.Mem) (a v : Word)

theorem readLE_one : (Bytes.readLE m a 1 : Word) = (m a).setWidth 32 := by
  simp [Bytes.readLE]

theorem readLE_two : (Bytes.readLE m a 2 : Word) = (m.half a).setWidth 32 := by
  refine BitVec.eq_of_getLsbD_eq fun i hi => ?_
  rw [Bytes.getLsbD_readLE, BitVec.getLsbD_setWidth, Mem.half, BitVec.getLsbD_append]
  interval_cases i <;> simp

theorem readLE_four : (Bytes.readLE m a 4 : Word) = m.word a := by
  refine BitVec.eq_of_getLsbD_eq fun i hi => ?_
  rw [Bytes.getLsbD_readLE, Mem.word]
  simp only [BitVec.getLsbD_append]
  interval_cases i <;> simp

theorem writeLE_one : Bytes.writeLE m a (v &&& 0xFF) 1 = m.storeByte a (v.extractLsb' 0 8) := by
  have hv : (v &&& 0xFF).setWidth 8 = v.extractLsb' 0 8 := by
    ext i hi
    interval_cases i <;> simp
  funext b
  simp only [Bytes.writeLE, hv, Mem.storeByte, Function.update_apply]

theorem writeLE_two : Bytes.writeLE m a (v &&& 0xFFFF) 2 = m.storeHalf a (v.extractLsb' 0 16) := by
  have h0 : (v &&& 0xFFFF).setWidth 8 = (v.extractLsb' 0 16).extractLsb' 0 8 := by
    ext i hi
    interval_cases i <;> simp
  have h1 : ((v &&& 0xFFFF) >>> 8).setWidth 8 = (v.extractLsb' 0 16).extractLsb' 8 8 := by
    ext i hi
    interval_cases i <;> simp
  funext b
  simp only [Bytes.writeLE, h0, h1, Mem.storeHalf, Mem.storeByte, Function.update_apply]

theorem writeLE_four : Bytes.writeLE m a v 4 = m.storeWord a v := by
  have h1 : a + 1 + 1 = a + 2 := by rw [BitVec.add_assoc]; rfl
  have h2 : a + 2 + 1 = a + 3 := by rw [BitVec.add_assoc]; rfl
  have e0 : v.setWidth 8 = (v.extractLsb' 0 16).extractLsb' 0 8 := by
    ext i hi
    interval_cases i <;> simp
  have e1 : (v >>> 8).setWidth 8 = (v.extractLsb' 0 16).extractLsb' 8 8 := by
    ext i hi
    interval_cases i <;> simp
  have e2 : (v >>> 8 >>> 8).setWidth 8 = (v.extractLsb' 16 16).extractLsb' 0 8 := by
    ext i hi
    interval_cases i <;> simp
  have e3 : (v >>> 8 >>> 8 >>> 8).setWidth 8 = (v.extractLsb' 16 16).extractLsb' 8 8 := by
    ext i hi
    interval_cases i <;> simp
  funext b
  simp only [Bytes.writeLE, h1, h2, e0, e1, e2, e3, Mem.storeWord, Mem.storeHalf, Mem.storeByte,
    Function.update_apply]

end Memory

/-! ### Operations -/

theorem offset_eq {n : ℕ} (off : BitVec n) : off.signExtend 32 <<< 1 = offset off := by
  rw [offset, BitVec.signExtend, BitVec.shiftLeft_eq_mul_twoPow, mul_comm, BitVec.ofInt_mul]
  rfl

theorem append_zero (imm : BitVec 20) : imm ++ (0 : BitVec 12) = imm.setWidth 32 <<< 12 := by
  refine BitVec.eq_of_getLsbD_eq fun i hi => ?_
  rw [BitVec.getLsbD_append]
  interval_cases i <;> simp

theorem and_31_toNat (b : Word) : (b &&& 0x1F).toNat = (b.extractLsb' 0 5).toNat := by
  rw [BitVec.toNat_and, BitVec.extractLsb'_toNat, Nat.shiftRight_zero]
  exact Nat.and_two_pow_sub_one_eq_mod _ 5

theorem shamt_toNat (shamt : Reg) : (shamt.setWidth 32 &&& 0x1F : Word).toNat = shamt.toNat := by
  rw [and_31_toNat]
  congr 1
  ext i hi
  simp [show i < 32 by omega, BitVec.getLsbD_eq_getElem hi]

theorem amoResult_type (op : AmoOp) (t b : Word) : amoResult op.type t b = op.eval t b := by
  cases op <;>
    simp only [AmoOp.type, amoResult, AmoOp.eval, Rv32a.amoSwap, Rv32a.amoAdd, Rv32a.amoXor,
      Rv32a.amoAnd, Rv32a.amoOr, Rv32a.amoMin, Rv32a.amoMax, Rv32a.amoMinu, Rv32a.amoMaxu]
  case min => by_cases h : t.toInt ≤ b.toInt <;> simp [BitVec.slt, h]
  case max =>
    rcases lt_trichotomy t.toInt b.toInt with h | h | h
    · simp [BitVec.slt, h, h.le]
    · simp [BitVec.eq_of_toInt_eq h]
    · simp [BitVec.slt, h.not_ge, h.not_gt]
  case minu => by_cases h : t.toNat ≤ b.toNat <;> simp [BitVec.lt_def, h]
  case maxu =>
    rcases lt_trichotomy t.toNat b.toNat with h | h | h
    · simp [BitVec.lt_def, h, h.le]
    · simp [BitVec.eq_of_toNat_eq h]
    · simp [BitVec.lt_def, h.not_ge, h.not_gt]

theorem ite_slt {α : Type*} (a b : Word) (x y : α) :
    (if a.slt b then x else y) = if a.toInt < b.toInt then x else y := by
  simp [BitVec.slt]

/-- The conversion that `execute` applies to the value read. -/
def Isa.LoadOp.ext : LoadOp → Word → Word
  | .lb => fun v => (v.setWidth 8).signExtend 32
  | .lh => fun v => (v.setWidth 16).signExtend 32
  | .lw => id
  | .lbu => fun v => v &&& 0xFF
  | .lhu => fun v => v &&& 0xFFFF

theorem ext_readLE (op : LoadOp) (m : Isa.Mem) (a : Word) :
    op.ext (Bytes.readLE m a (2 ^ op.logSize)) = op.eval m a := by
  cases op <;> simp only [LoadOp.ext, LoadOp.logSize, LoadOp.eval, Nat.pow_zero, Nat.pow_one,
    readLE_one, readLE_two, readLE_four, Nat.reducePow, id]
  case lb => simp
  case lh => simp
  case lbu =>
    ext i hi
    interval_cases i <;> simp
  case lhu =>
    ext i hi
    interval_cases i <;> simp

/-- The data that `execute` hands to the write callback. -/
def Isa.StoreOp.data (v : Word) : StoreOp → Word
  | .sb => v &&& 0xFF
  | .sh => v &&& 0xFFFF
  | .sw => v

theorem writeLE_data (op : StoreOp) (m : Isa.Mem) (a v : Word) :
    Bytes.writeLE m a (op.data v) (2 ^ op.logSize) = op.eval m a v := by
  cases op
  · exact writeLE_one m a v
  · exact writeLE_two m a v
  · exact writeLE_four m a v

/-! ### The cases of `execute` -/

/-- The report of `execute` for an exception. -/
def Isa.Exn.result : Exn → ExecResult
  | .misalignedLoad addr => { exception := true, cause := causeMisalignedLoad, tval := addr }
  | .misalignedStore addr => { exception := true, cause := causeMisalignedStore, tval := addr }
  | .breakpoint pc => { exception := true, cause := causeBreakpoint, tval := pc }

/-- `e` is what `execute` leaves when the instruction has the outcome `o`; `pc` itself, the
storage behind `x0`, the privilege and the CSR file are untouched. -/
structure Meets (s : CPUState) (m : Isa.Mem) (e : Executed Isa.Mem) (o : Outcome) : Prop where
  pc : e.cpu.pc = s.pc
  x0 : e.cpu.regs 0 = s.regs 0
  priv : e.cpu.priv = s.priv
  csr : e.cpu.csr = s.csr
  outcome : match o with
    | .retire t => e.res = {} ∧ (⟨e.cpu.regFile, e.cpu.nextPc, e.mem⟩ : State) = t
    | .raise x => e.res = x.result ∧ e.cpu.regFile = s.regFile ∧ e.mem = m

section Cases

variable {s : CPUState} {m : Isa.Mem} {n : Word}

theorem meets_done {t : CPUState} {k : Isa.Mem} (hpc : t.pc = s.pc) (h0 : t.regs 0 = s.regs 0)
    (hp : t.priv = s.priv) (hc : t.csr = s.csr) :
    Meets s m (done t k) (.retire ⟨t.regFile, t.nextPc, k⟩) :=
  ⟨hpc, h0, hp, hc, rfl, rfl⟩

theorem meets_raise (x : Exn) :
    Meets s m (makeException x.result.cause x.result.tval (s.fallThrough n) m) (.raise x) := by
  refine ⟨rfl, rfl, rfl, rfl, ?_, rfl, rfl⟩
  cases x <;> rfl

theorem meets_setRd (ilen : Word) (rd : Reg) (v : Word) :
    Meets s m (done ((s.fallThrough (s.pc + ilen)).setReg rd.idx v) m)
      ((s.view m).setReg ilen rd v) := by
  have h := meets_done (s := s) (m := m) (k := m)
    (t := (s.fallThrough (s.pc + ilen)).setReg rd.idx v) (by simp [CPUState.fallThrough])
    (CPUState.setReg_regs_zero _ _) (by simp [CPUState.fallThrough])
    (by simp [CPUState.fallThrough])
  rw [CPUState.regFile_setReg, CPUState.setReg_nextPc] at h
  exact h

theorem meets_jump (ilen : Word) (d : DecodedInstr) (rd : Reg) (target : Word) (hd : d.rd = rd.idx)
    (hl : d.instrLen = ilen) :
    Meets s m (execJump (s.fallThrough n) d m target)
      (.retire ⟨s.regFile.write rd (s.pc + ilen), target, m⟩) := by
  have h := meets_done (s := s) (m := m) (k := m)
    (t := { (s.fallThrough n).setReg rd.idx (s.pc + ilen) with nextPc := target })
    (by simp [CPUState.fallThrough]) (CPUState.setReg_regs_zero _ _)
    (by simp [CPUState.fallThrough]) (by simp [CPUState.fallThrough])
  have hr : CPUState.regFile { (s.fallThrough n).setReg rd.idx (s.pc + ilen) with
      nextPc := target } = s.regFile.write rd (s.pc + ilen) :=
    CPUState.regFile_setReg (s := s.fallThrough n) rd (s.pc + ilen)
  rw [hr] at h
  rw [execJump, hd, hl]
  exact h

theorem meets_branch (ilen : Word) (d : DecodedInstr) (taken : Bool) :
    Meets s m (execBranch (s.fallThrough (s.pc + ilen)) d m taken)
      (.retire ⟨s.regFile, s.pc + if taken then d.imm else ilen, m⟩) := by
  cases taken
  · exact ⟨rfl, rfl, rfl, rfl, rfl, rfl⟩
  · exact ⟨rfl, rfl, rfl, rfl, rfl, rfl⟩

theorem meets_load (ilen : Word) (d : DecodedInstr) (op : LoadOp) (rd : Reg) (addr : Word)
    (hd : d.rd = rd.idx) :
    Meets s m
      (execLoad ramIf (s.fallThrough (s.pc + ilen)) d m addr
        (BitVec.ofNat 32 (2 ^ op.logSize - 1)) (2 ^ op.logSize) op.ext)
      (if 2 ^ op.logSize ∣ addr.toNat then (s.view m).setReg ilen rd (op.eval m addr)
        else .raise (.misalignedLoad addr)) := by
  have hk : op.logSize < 32 := by cases op <;> decide
  by_cases ha : 2 ^ op.logSize ∣ addr.toNat
  · have h0 := (Bits.and_low_eq_zero_iff addr hk).2 ha
    rw [execLoad, if_neg (not_not_intro h0), if_pos ha, hd, ← ext_readLE]
    exact meets_setRd ilen rd _
  · have h0 := mt (Bits.and_low_eq_zero_iff addr hk).1 ha
    rw [execLoad, if_pos h0, if_neg ha]
    exact meets_raise (.misalignedLoad addr)

theorem meets_store (ilen : Word) (op : StoreOp) (addr v : Word) :
    Meets s m
      (execStore ramIf (s.fallThrough (s.pc + ilen)) m addr
        (BitVec.ofNat 32 (2 ^ op.logSize - 1)) (op.data v) (2 ^ op.logSize))
      (if 2 ^ op.logSize ∣ addr.toNat then .retire ⟨s.regFile, s.pc + ilen, op.eval m addr v⟩
        else .raise (.misalignedStore addr)) := by
  have hk : op.logSize < 32 := by cases op <;> decide
  by_cases ha : 2 ^ op.logSize ∣ addr.toNat
  · have h0 := (Bits.and_low_eq_zero_iff addr hk).2 ha
    rw [execStore, if_neg (not_not_intro h0), if_pos ha, ← writeLE_data]
    exact ⟨rfl, rfl, rfl, rfl, rfl, rfl⟩
  · have h0 := mt (Bits.and_low_eq_zero_iff addr hk).1 ha
    rw [execStore, if_pos h0, if_neg ha]
    exact meets_raise (.misalignedStore addr)

theorem meets_amo (ilen : Word) (d : DecodedInstr) (op : AmoOp) (rd : Reg) (addr b : Word)
    (hd : d.rd = rd.idx) (ht : d.type = op.type) :
    Meets s m (execAmo ramIf (s.fallThrough (s.pc + ilen)) d m addr b)
      (if 4 ∣ addr.toNat then
        .retire ⟨s.regFile.write rd (m.word addr), s.pc + ilen,
          m.storeWord addr (op.eval (m.word addr) b)⟩
        else .raise (.misalignedStore addr)) := by
  by_cases ha : 4 ∣ addr.toNat
  · have h0 : ¬ addr &&& 3 ≠ 0 :=
      not_not_intro ((Bits.and_low_eq_zero_iff (k := 2) addr (by decide)).2 ha)
    simp only [execAmo, if_neg h0, if_pos ha, hd, ht, amoResult_type, ramIf, readLE_four,
      writeLE_four]
    have h := meets_setRd (s := s) (m := m) ilen rd (m.word addr)
    exact ⟨h.pc, h.x0, h.priv, h.csr, h.outcome.1, by
      have := h.outcome.2
      simp only [Isa.State.mk.injEq] at this ⊢
      exact ⟨this.1, this.2.1, rfl⟩⟩
  · have h0 : addr &&& 3 ≠ 0 := mt (Bits.and_low_eq_zero_iff (k := 2) addr (by decide)).1 ha
    rw [execAmo, if_pos h0, if_neg ha]
    exact meets_raise (.misalignedStore addr)

end Cases

/-! ### `execute` -/

/-- The decoder's record of `i`, for a 32-bit word or a compressed parcel `raw`. -/
def Isa.Instr.record (i : Instr) (raw : Word) (compressed : Bool) : DecodedInstr :=
  { i.operands with raw, compressed }

theorem Isa.Instr.record_encode (i : Instr) : i.record i.encode false = i.decoded := by
  cases i <;> rfl

/-- **`execute` does what the manual says**, for every instruction that `Isa.step` covers. -/
theorem execute_meets (s : CPUState) (m : Isa.Mem) (i : Instr) (raw : Word) (c : Bool)
    (o : Outcome) (h : step (i.record raw c).instrLen (s.view m) i = some o) :
    Meets s m (execute ramIf s (i.record raw c) m) o := by
  generalize hn : (i.record raw c).instrLen = n at h
  cases i with
  | lui rd imm =>
    obtain rfl := Option.some.inj h
    rw [append_zero, ← hn]
    exact meets_setRd _ rd _
  | auipc rd imm =>
    obtain rfl := Option.some.inj h
    rw [append_zero, ← hn]
    exact meets_setRd _ rd _
  | jal rd off =>
    obtain rfl := Option.some.inj h
    rw [← offset_eq]
    exact meets_jump n _ rd _ rfl hn
  | jalr rd rs1 imm =>
    obtain rfl := Option.some.inj h
    exact meets_jump n _ rd _ rfl hn
  | branch op rs1 rs2 off =>
    obtain rfl := Option.some.inj h
    rw [← offset_eq, ← hn]
    cases op <;> exact meets_branch _ _ _
  | load op rd rs1 imm =>
    obtain rfl := Option.some.inj h
    have key := meets_load (s := s) (m := m) n ((Instr.load op rd rs1 imm).record raw c) op rd
      (s.getReg rs1.idx + imm.signExtend 32) rfl
    rw [← hn] at key ⊢
    cases op <;> exact key
  | store op rs1 rs2 imm =>
    obtain rfl := Option.some.inj h
    have key := meets_store (s := s) (m := m) n op (s.getReg rs1.idx + imm.signExtend 32)
      (s.getReg rs2.idx)
    rw [← hn] at key ⊢
    cases op <;> exact key
  | opImm op rd rs1 imm =>
    obtain rfl := Option.some.inj h
    rw [← hn]
    cases op with
    | slti =>
      simp only [ImmOp.eval, ← ite_slt]
      exact meets_setRd _ rd _
    | _ => exact meets_setRd _ rd _
  | shift op rd rs1 shamt =>
    obtain rfl := Option.some.inj h
    rw [← hn]
    cases op <;>
      (simp only [ShiftOp.eval, ← shamt_toNat shamt]
       exact meets_setRd _ rd _)
  | opReg op rd rs1 rs2 =>
    obtain rfl := Option.some.inj h
    rw [← hn]
    cases op with
    | slt =>
      simp only [RegOp.eval, ← ite_slt]
      exact meets_setRd _ rd _
    | sll | srl | sra =>
      simp only [RegOp.eval, ← and_31_toNat]
      exact meets_setRd _ rd _
    | _ => exact meets_setRd _ rd _
  | amo op ord rd rs1 rs2 =>
    obtain rfl := Option.some.inj h
    rw [← hn]
    cases op <;> exact meets_amo _ _ _ rd _ _ rfl rfl
  | priv op =>
    cases op with
    | ebreak =>
      obtain rfl := Option.some.inj h
      exact meets_raise (.breakpoint s.pc)
    | _ => cases (show none = some o from h)
  | _ => cases (show none = some o from h)

/-- **Instruction execution refines the base ISA**: on every word that encodes a base instruction
or an AMO, decoding and executing have the outcome that the manual prescribes. -/
theorem execute_decode_refines (s : CPUState) (m : Isa.Mem) (i : Instr) (hi : i.isBase) :
    ∃ o, step 4 (s.view m) i = some o ∧ Meets s m (execute ramIf s (decode i.encode) m) o := by
  obtain ⟨o, ho⟩ := exists_step 4 (s.view m) hi
  rw [decode_encode, ← Instr.record_encode]
  exact ⟨o, ho, execute_meets s m i i.encode false o ho⟩

/-- `amoadd.w x5, x6, (x5)`, where `rd` is also the address register. -/
theorem execute_decode_refines_amoadd :
    ∃ o, step 4 (CPUState.view {} fun _ => 7) (.amo .add 0 5 5 6) = some o ∧
      Meets {} (fun _ => 7) (execute ramIf {} (decode 0x0062A2AF) fun _ => 7) o :=
  execute_decode_refines {} (fun _ => 7) (.amo .add 0 5 5 6) rfl

end VirtualSoC
