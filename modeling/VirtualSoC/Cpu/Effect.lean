import VirtualSoC.Cpu.Execute

/-!
# What one instruction can do to the CPU state

The inversion lemma of `execute`: whatever the memory callbacks answer, `pc` stays, at most the
register `rd` is written, and privilege, CSR file and `next_pc` change in one of the ways of
`Effect`.  The invariants of the CPU state follow from this lemma alone.
-/

namespace VirtualSoC

/-- The branches and JAL, which jump by their immediate. -/
def InstrType.isJump : InstrType → Bool
  | .jal | .beq | .bne | .blt | .bge | .bltu | .bgeu => true
  | _ => false

/-- How an instruction changes privilege, CSR file and `next_pc`; `exc` tells whether it raises an
exception. -/
inductive Effect (s : CPUState) (d : DecodedInstr) (t : CPUState) : Bool → Prop
  /-- Nothing but falling through. -/
  | seq {exc : Bool} (hp : t.priv = s.priv) (hc : t.csr = s.csr)
      (hn : t.nextPc = s.pc + d.instrLen) : Effect s d t exc
  | jump (hp : t.priv = s.priv) (hc : t.csr = s.csr) (ht : d.type.isJump)
      (hn : t.nextPc = s.pc + d.imm) : Effect s d t false
  | jalr (x : Word) (hp : t.priv = s.priv) (hc : t.csr = s.csr) (hn : t.nextPc = x &&& ~~~1) :
      Effect s d t false
  | csr (addr : BitVec 16) (v : Word) (b : Bool) (hp : t.priv = s.priv)
      (hc : s.csr.write addr s.priv v = some (t.csr, b)) (hn : t.nextPc = s.pc + d.instrLen) :
      Effect s d t false
  | mret (ht : d.type = .mret) (hM : ¬ s.priv < prvM)
      (hp : t.priv = ((s.csr.mstatus >>> mstatusMppShift) &&& 0x3).setWidth 8)
      (hc : t.csr = { s.csr with mstatus := mretMstatus s.csr.mstatus })
      (hn : t.nextPc = s.csr.mepc) : Effect s d t false
  | sret (ht : d.type = .sret) (hS : ¬ s.priv < prvS) (hp : t.priv = prvS ∨ t.priv = prvU)
      (hc : t.csr = { s.csr with mstatus := sretMstatus s.csr.mstatus })
      (hn : t.nextPc = s.csr.sepc) : Effect s d t false

/-- `e` is what an instruction `d` can leave of `s`. -/
structure Leaves {σ : Type*} (s : CPUState) (d : DecodedInstr) (e : Executed σ) : Prop where
  pc : e.cpu.pc = s.pc
  regs : e.cpu.regs = s.regs ∨ ∃ v, e.cpu.regs = (s.setReg d.rd v).regs
  effect : Effect s d e.cpu e.res.exception

namespace CPUState

variable (s : CPUState) (i v : Word)

@[simp] theorem setReg_pc : (s.setReg i v).pc = s.pc := by
  unfold setReg; split <;> rfl

@[simp] theorem setReg_nextPc : (s.setReg i v).nextPc = s.nextPc := by
  unfold setReg; split <;> rfl

@[simp] theorem setReg_priv : (s.setReg i v).priv = s.priv := by
  unfold setReg; split <;> rfl

@[simp] theorem setReg_csr : (s.setReg i v).csr = s.csr := by
  unfold setReg; split <;> rfl

@[simp] theorem setReg_lrSc : (s.setReg i v).lrSc = s.lrSc := by
  unfold setReg; split <;> rfl

theorem setReg_regs_self (h : i ≠ 0) : (s.setReg i v).regs (i.setWidth 5) = v := by
  unfold setReg
  rw [if_pos h]
  exact Function.update_self ..

/-- Writing a register changes nothing exactly when the value is there already. -/
theorem setReg_regs_eq_iff {s : CPUState} {i v : Word} :
    (s.setReg i v).regs = s.regs ↔ i = 0 ∨ s.getReg i = v := by
  unfold setReg getReg
  by_cases hi : i = 0
  · rw [if_neg (not_not.2 hi)]
    exact iff_of_true rfl (.inl hi)
  · rw [if_pos hi, if_neg hi, or_iff_right hi]
    constructor
    · intro h
      rw [← h]
      exact Function.update_self ..
    · intro h
      rw [← h]
      exact Function.update_eq_self ..

/-- The state in which the cases of `execute` run. -/
def fallThrough (n : Word) : CPUState := { s with nextPc := n }

@[simp] theorem fallThrough_pc (n : Word) : (s.fallThrough n).pc = s.pc := rfl

@[simp] theorem fallThrough_nextPc (n : Word) : (s.fallThrough n).nextPc = n := rfl

@[simp] theorem fallThrough_priv (n : Word) : (s.fallThrough n).priv = s.priv := rfl

@[simp] theorem fallThrough_csr (n : Word) : (s.fallThrough n).csr = s.csr := rfl

@[simp] theorem fallThrough_lrSc (n : Word) : (s.fallThrough n).lrSc = s.lrSc := rfl

@[simp] theorem fallThrough_setReg (n : Word) :
    ((s.fallThrough n).setReg i v).regs = (s.setReg i v).regs := by
  unfold setReg; split <;> rfl

end CPUState

section Cases

variable {σ : Type*} {mi : MemIf σ} {s : CPUState} {d : DecodedInstr} {m : σ}

/-- An exception, possibly after `rd` has been written. -/
theorem leaves_makeException (cause tval : Word) :
    Leaves s d (makeException cause tval (s.fallThrough (s.pc + d.instrLen)) m) :=
  ⟨rfl, .inl rfl, .seq rfl rfl rfl⟩

theorem leaves_makeException_setReg (cause tval v : Word) :
    Leaves s d
      (makeException cause tval ((s.fallThrough (s.pc + d.instrLen)).setReg d.rd v) m) :=
  ⟨by simp [makeException], .inr ⟨v, by simp [makeException]⟩,
    .seq (by simp [makeException])
      (by simp [makeException])
      (by simp [makeException])⟩

theorem leaves_done (r : ExecResult) :
    Leaves s d ⟨r, s.fallThrough (s.pc + d.instrLen), m⟩ :=
  ⟨rfl, .inl rfl, .seq rfl rfl rfl⟩

/-- Writing `rd`, and any change of the reservation. -/
theorem leaves_setRd (v : Word) (r : Reservation) :
    Leaves s d
      (done { (s.fallThrough (s.pc + d.instrLen)).setReg d.rd v with lrSc := r } m) :=
  ⟨by simp [done], .inr ⟨v, by simp [done]⟩,
    .seq (by simp [done]) (by simp [done])
      (by simp [done])⟩

theorem leaves_setReg (v : Word) :
    Leaves s d (done ((s.fallThrough (s.pc + d.instrLen)).setReg d.rd v) m) :=
  leaves_setRd v ((s.fallThrough (s.pc + d.instrLen)).setReg d.rd v).lrSc

theorem leaves_branch (h : d.type.isJump) (taken : Bool) :
    Leaves s d (execBranch (s.fallThrough (s.pc + d.instrLen)) d m taken) := by
  cases taken
  · exact ⟨rfl, .inl rfl, .seq rfl rfl rfl⟩
  · exact ⟨rfl, .inl rfl, .jump rfl rfl h rfl⟩

theorem leaves_jal (h : d.type.isJump) :
    Leaves s d (execJump (s.fallThrough (s.pc + d.instrLen)) d m (s.pc + d.imm)) :=
  ⟨by simp [execJump, done],
    .inr ⟨s.pc + d.instrLen, by simp [execJump, done]⟩,
    .jump (by simp [execJump, done])
      (by simp [execJump, done]) h rfl⟩

theorem leaves_jalr (x : Word) :
    Leaves s d (execJump (s.fallThrough (s.pc + d.instrLen)) d m (x &&& ~~~1)) :=
  ⟨by simp [execJump, done], .inr ⟨s.pc + d.instrLen, by simp [execJump, done]⟩,
    .jalr x (by simp [execJump, done])
      (by simp [execJump, done]) rfl⟩

theorem leaves_load (addr align : Word) (bytes : ℕ) (ext : Word → Word) :
    Leaves s d (execLoad mi (s.fallThrough (s.pc + d.instrLen)) d m addr align bytes ext) := by
  unfold execLoad
  split
  · exact leaves_makeException _ _
  · exact leaves_setReg _

theorem leaves_store (addr align data : Word) (bytes : ℕ) :
    Leaves s d (execStore mi (s.fallThrough (s.pc + d.instrLen)) m addr align data bytes) := by
  unfold execStore
  split
  · exact leaves_makeException _ _
  · exact ⟨rfl, .inl rfl, .seq rfl rfl rfl⟩

theorem leaves_lr (addr : Word) :
    Leaves s d (execLr mi (s.fallThrough (s.pc + d.instrLen)) d m addr) := by
  unfold execLr
  split
  · exact leaves_makeException _ _
  · exact leaves_setRd _ _

theorem leaves_sc (addr v : Word) :
    Leaves s d (execSc mi (s.fallThrough (s.pc + d.instrLen)) d m addr v) := by
  unfold execSc
  split
  · exact leaves_makeException _ _
  · split
    · exact leaves_setRd _ _
    · exact leaves_setRd _ _

theorem leaves_amo (addr v : Word) :
    Leaves s d (execAmo mi (s.fallThrough (s.pc + d.instrLen)) d m addr v) := by
  unfold execAmo
  split
  · exact leaves_makeException _ _
  · exact leaves_setReg _

theorem leaves_csrWrite_setReg (old v : Word) :
    Leaves s d
      (csrWrite mi ((s.fallThrough (s.pc + d.instrLen)).setReg d.rd old) d m v) := by
  unfold csrWrite
  split
  · exact leaves_makeException_setReg _ _ _
  next csr satp h =>
    exact ⟨by simp [done], .inr ⟨old, by simp [done]⟩,
      .csr (d.csr.setWidth 16) v satp (by simp [done])
        (by simpa [done] using h) (by simp [done])⟩

theorem leaves_csrWrite (v : Word) :
    Leaves s d (csrWrite mi (s.fallThrough (s.pc + d.instrLen)) d m v) := by
  unfold csrWrite
  split
  · exact leaves_makeException _ _
  next csr satp h => exact ⟨rfl, .inl rfl, .csr (d.csr.setWidth 16) v satp rfl h rfl⟩

theorem leaves_csrrw (v : Word) :
    Leaves s d (execCsrrw mi (s.fallThrough (s.pc + d.instrLen)) d m v) := by
  unfold execCsrrw
  split
  · split
    · exact leaves_makeException _ _
    · exact leaves_csrWrite_setReg _ _
  · exact leaves_csrWrite _

theorem leaves_csrrsc (f : Word → Word) :
    Leaves s d (execCsrrsc mi (s.fallThrough (s.pc + d.instrLen)) d m f) := by
  unfold execCsrrsc
  split
  · exact leaves_makeException _ _
  · dsimp only
    split
    · exact leaves_csrWrite_setReg _ _
    · exact leaves_setReg _

theorem leaves_mret (h : d.type = .mret) :
    Leaves s d (execMret (s.fallThrough (s.pc + d.instrLen)) d m) := by
  unfold execMret
  split
  · exact leaves_makeException _ _
  next hM => exact ⟨rfl, .inl rfl, .mret h hM rfl rfl rfl⟩

theorem leaves_sret (h : d.type = .sret) :
    Leaves s d (execSret (s.fallThrough (s.pc + d.instrLen)) d m) := by
  unfold execSret
  split
  · exact leaves_makeException _ _
  next hS =>
    split
    · exact leaves_makeException _ _
    · refine ⟨rfl, .inl rfl, .sret h hS ?_ rfl rfl⟩
      dsimp only [done]
      split
      · exact .inl rfl
      · exact .inr rfl

theorem leaves_sfenceVma :
    Leaves s d (execSfenceVma (s.fallThrough (s.pc + d.instrLen)) d m) := by
  unfold execSfenceVma
  split
  · exact leaves_makeException _ _
  · split
    · exact leaves_makeException _ _
    · exact leaves_done _

theorem leaves_ecall : Leaves s d (execEcall (s.fallThrough (s.pc + d.instrLen)) m) := by
  unfold execEcall
  split
  · exact leaves_makeException _ _
  · split
    · exact leaves_makeException _ _
    · exact leaves_makeException _ _

end Cases

/-- **What `execute` can do.** -/
theorem execute_leaves {σ : Type*} (mi : MemIf σ) (s : CPUState) (d : DecodedInstr) (m : σ) :
    Leaves s d (execute mi s d m) := by
  cases h : d.type
  all_goals simp only [execute, h]
  case jal => exact leaves_jal (by simp [h, InstrType.isJump])
  case jalr => exact leaves_jalr _
  case beq | bne | blt | bge | bltu | bgeu =>
    exact leaves_branch (by simp [h, InstrType.isJump]) _
  case lb | lh | lw | lbu | lhu => exact leaves_load _ _ _ _
  case sb | sh | sw => exact leaves_store _ _ _ _
  case lrW => exact leaves_lr _
  case scW => exact leaves_sc _ _
  case amoswapW | amoaddW | amoxorW | amoandW | amoorW | amominW | amomaxW | amominuW | amomaxuW =>
    exact leaves_amo _ _
  case csrrw | csrrwi => exact leaves_csrrw _
  case csrrs | csrrc | csrrsi | csrrci => exact leaves_csrrsc _
  case ecall => exact leaves_ecall
  case mret => exact leaves_mret h
  case sret => exact leaves_sret h
  case sfenceVma => exact leaves_sfenceVma
  case ebreak | uret | illegal => exact leaves_makeException _ _
  case wfi | fence | fencei => exact leaves_done _
  all_goals exact leaves_setReg _

end VirtualSoC
