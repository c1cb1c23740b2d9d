import VirtualSoC.Cpu.Effect

/-!
# The memory accesses of one instruction

The second inversion lemma of `execute`: which callbacks an instruction invokes, what it does with
the values they return, and what becomes of the reservation.  `Accesses` has one constructor per
way through the memory instructions, and one for everything that accesses no data memory.
-/

namespace VirtualSoC

/-- The kinds of memory instructions. -/
inductive MemKind | load | store | lr | sc | amo
  deriving DecidableEq, Repr

/-- The kind of a memory instruction. -/
def InstrType.memKind : InstrType → Option MemKind
  | .lb | .lh | .lw | .lbu | .lhu => some .load
  | .sb | .sh | .sw => some .store
  | .lrW => some .lr
  | .scW => some .sc
  | .amoswapW | .amoaddW | .amoxorW | .amoandW | .amoorW | .amominW | .amomaxW | .amominuW
  | .amomaxuW => some .amo
  | _ => none

/-- The address that a memory instruction accesses. -/
def accessAddr (s : CPUState) (d : DecodedInstr) : Word :=
  match d.type.memKind with
  | some .load | some .store => s.getReg d.rs1 + d.imm
  | _ => s.getReg d.rs1

/-- The address bits that must be clear. -/
def InstrType.alignMask : InstrType → Word
  | .lb | .lbu | .sb => 0
  | .lh | .lhu | .sh => 1
  | _ => 3

/-- The address of a memory instruction is aligned. -/
def AccessAligned (s : CPUState) (d : DecodedInstr) : Prop :=
  accessAddr s d &&& d.type.alignMask = 0

/-- The state that the callbacks see: it falls through to the next instruction. -/
abbrev CPUState.falling (s : CPUState) (d : DecodedInstr) : CPUState :=
  s.fallThrough (s.pc + d.instrLen)

section

variable {σ : Type*} (mi : MemIf σ) (s : CPUState) (d : DecodedInstr) (m : σ)

/-- The accesses of the instruction `d`, and the result that they lead to. -/
inductive Accesses : Executed σ → Prop
  | load {bytes : ℕ} {ext : Word → Word} {v : Word} {m' : σ} (ht : d.type.memKind = some .load)
      (ha : AccessAligned s d) (hext : ext 0 = 0)
      (hr : mi.read (s.falling d) (accessAddr s d) bytes m = (v, m')) :
      Accesses (done ((s.falling d).setReg d.rd (ext v)) m')
  | store {data : Word} {bytes : ℕ} (ht : d.type.memKind = some .store) (ha : AccessAligned s d) :
      Accesses (done { s.falling d with lrSc := s.lrSc.clear }
        (mi.write (s.falling d) (accessAddr s d) data bytes m))
  | lr {v : Word} {m' : σ} (ht : d.type.memKind = some .lr) (ha : AccessAligned s d)
      (hr : mi.read (s.falling d) (accessAddr s d) 4 m = (v, m')) :
      Accesses (done { (s.falling d).setReg d.rd v with lrSc := .set (accessAddr s d) } m')
  | scDone (ht : d.type.memKind = some .sc) (ha : AccessAligned s d)
      (hc : s.lrSc.check (accessAddr s d)) :
      Accesses (done { (s.falling d).setReg d.rd 0 with lrSc := s.lrSc.clear }
        (mi.write (s.falling d) (accessAddr s d) (s.getReg d.rs2) 4 m))
  | scFailed (ht : d.type.memKind = some .sc) (ha : AccessAligned s d)
      (hc : ¬ s.lrSc.check (accessAddr s d)) :
      Accesses (done { (s.falling d).setReg d.rd 1 with lrSc := s.lrSc.clear } m)
  | amo {v : Word} {m' : σ} (ht : d.type.memKind = some .amo) (ha : AccessAligned s d)
      (hr : mi.read (s.falling d) (accessAddr s d) 4 m = (v, m')) :
      Accesses (done ((s.falling d).setReg d.rd v)
        (mi.write ((s.falling d).setReg d.rd v) (accessAddr s d)
          (amoResult d.type v (s.getReg d.rs2)) 4 m'))
  /-- No memory instruction, or one that raises an address-misaligned exception. -/
  | quiet {e : Executed σ} (hr : e.cpu.lrSc = s.lrSc) (hm : e.mem = m ∨ e.mem = mi.onSatpWrite m)
      (ht : d.type.memKind ≠ none →
        ¬ AccessAligned s d ∧ e.res.exception ∧ e.res.cause ≠ causeBreakpoint) : Accesses e

end

section Cases

variable {σ : Type*} {mi : MemIf σ} {s : CPUState} {d : DecodedInstr} {m : σ}

theorem accesses_misaligned {align cause : Word} (hal : d.type.alignMask = align)
    (ha : accessAddr s d &&& align ≠ 0) (hc : cause ≠ causeBreakpoint) :
    Accesses mi s d m (makeException cause (accessAddr s d) (s.falling d) m) :=
  .quiet rfl (.inl rfl) fun _ => ⟨fun h => ha (hal ▸ h), rfl, hc⟩

theorem accesses_load (align : Word) (bytes : ℕ) (ext : Word → Word)
    (ht : d.type.memKind = some .load) (hal : d.type.alignMask = align) (hext : ext 0 = 0) :
    Accesses mi s d m
      (execLoad mi (s.falling d) d m (s.getReg d.rs1 + d.imm) align bytes ext) := by
  have haddr : accessAddr s d = s.getReg d.rs1 + d.imm := by rw [accessAddr, ht]
  rw [← haddr]
  unfold execLoad
  split
  next ha => exact accesses_misaligned hal ha (by decide)
  next ha => exact .load ht (by rw [AccessAligned, hal]; exact not_not.1 ha) hext rfl

theorem accesses_store (align data : Word) (bytes : ℕ) (ht : d.type.memKind = some .store)
    (hal : d.type.alignMask = align) :
    Accesses mi s d m
      (execStore mi (s.falling d) m (s.getReg d.rs1 + d.imm) align data bytes) := by
  have haddr : accessAddr s d = s.getReg d.rs1 + d.imm := by rw [accessAddr, ht]
  rw [← haddr]
  unfold execStore
  split
  next ha => exact accesses_misaligned hal ha (by decide)
  next ha => exact .store ht (by rw [AccessAligned, hal]; exact not_not.1 ha)

theorem accesses_lr (ht : d.type.memKind = some .lr)
    (hal : d.type.alignMask = 3) :
    Accesses mi s d m (execLr mi (s.falling d) d m (s.getReg d.rs1)) := by
  have haddr : accessAddr s d = s.getReg d.rs1 := by rw [accessAddr, ht]
  rw [← haddr]
  unfold execLr
  split
  next ha => exact accesses_misaligned hal ha (by decide)
  next ha => exact .lr ht (by rw [AccessAligned, hal]; exact not_not.1 ha) rfl

theorem accesses_sc (ht : d.type.memKind = some .sc)
    (hal : d.type.alignMask = 3) :
    Accesses mi s d m
      (execSc mi (s.falling d) d m (s.getReg d.rs1) (s.getReg d.rs2)) := by
  have haddr : accessAddr s d = s.getReg d.rs1 := by rw [accessAddr, ht]
  rw [← haddr]
  unfold execSc
  split
  next ha => exact accesses_misaligned hal ha (by decide)
  next ha =>
    split
    next hc => exact .scDone ht (by rw [AccessAligned, hal]; exact not_not.1 ha) hc
    next hc => exact .scFailed ht (by rw [AccessAligned, hal]; exact not_not.1 ha) hc

theorem accesses_amo (ht : d.type.memKind = some .amo)
    (hal : d.type.alignMask = 3) :
    Accesses mi s d m
      (execAmo mi (s.falling d) d m (s.getReg d.rs1) (s.getReg d.rs2)) := by
  have haddr : accessAddr s d = s.getReg d.rs1 := by rw [accessAddr, ht]
  rw [← haddr]
  unfold execAmo
  split
  next ha => exact accesses_misaligned hal ha (by decide)
  next ha => exact .amo ht (by rw [AccessAligned, hal]; exact not_not.1 ha) rfl

section Quiet

variable (ht : d.type.memKind = none)

include ht

theorem accesses_quiet {e : Executed σ} (hr : e.cpu.lrSc = s.lrSc)
    (hm : e.mem = m ∨ e.mem = mi.onSatpWrite m) : Accesses mi s d m e :=
  .quiet hr hm fun h => absurd ht h

theorem accesses_makeException (cause tval : Word) :
    Accesses mi s d m (makeException cause tval (s.falling d) m) :=
  accesses_quiet ht rfl (.inl rfl)

theorem accesses_setReg (v : Word) :
    Accesses mi s d m (done ((s.falling d).setReg d.rd v) m) :=
  accesses_quiet ht (by simp [done]) (.inl rfl)

theorem accesses_csrWrite {t : CPUState} (hr : t.lrSc = s.lrSc) (v : Word) :
    Accesses mi s d m (csrWrite mi t d m v) := by
  unfold csrWrite
  split
  · exact accesses_quiet ht hr (.inl rfl)
  · refine accesses_quiet ht hr ?_
    dsimp only [done]
    split
    · exact .inr rfl
    · exact .inl rfl

theorem accesses_csrrw (v : Word) :
    Accesses mi s d m (execCsrrw mi (s.falling d) d m v) := by
  unfold execCsrrw
  split
  · split
    · exact accesses_makeException ht _ _
    · exact accesses_csrWrite ht (by simp) _
  · exact accesses_csrWrite ht (s.fallThrough_lrSc _) _

theorem accesses_csrrsc (f : Word → Word) :
    Accesses mi s d m (execCsrrsc mi (s.falling d) d m f) := by
  unfold execCsrrsc
  split
  · exact accesses_makeException ht _ _
  · dsimp only
    split
    · exact accesses_csrWrite ht (by simp) _
    · exact accesses_setReg ht _

theorem accesses_mret : Accesses mi s d m (execMret (s.falling d) d m) := by
  unfold execMret
  split
  · exact accesses_makeException ht _ _
  · exact accesses_quiet ht rfl (.inl rfl)

theorem accesses_sret : Accesses mi s d m (execSret (s.falling d) d m) := by
  unfold execSret
  split
  · exact accesses_makeException ht _ _
  · split
    · exact accesses_makeException ht _ _
    · exact accesses_quiet ht rfl (.inl rfl)

theorem accesses_sfenceVma : Accesses mi s d m (execSfenceVma (s.falling d) d m) := by
  unfold execSfenceVma
  split
  · exact accesses_makeException ht _ _
  · split
    · exact accesses_makeException ht _ _
    · exact accesses_quiet ht rfl (.inl rfl)

theorem accesses_ecall : Accesses mi s d m (execEcall (s.falling d) m) := by
  unfold execEcall
  split
  · exact accesses_makeException ht _ _
  · split
    · exact accesses_makeException ht _ _
    · exact accesses_makeException ht _ _

theorem accesses_branch (taken : Bool) :
    Accesses mi s d m (execBranch (s.falling d) d m taken) := by
  cases taken
  · exact accesses_quiet ht rfl (.inl rfl)
  · exact accesses_quiet ht rfl (.inl rfl)

end Quiet

end Cases

/-- **The memory accesses of `execute`.** -/
theorem execute_accesses {σ : Type*} (mi : MemIf σ) (s : CPUState) (d : DecodedInstr) (m : σ) :
    Accesses mi s d m (execute mi s d m) := by
  have kind {t : InstrType} {k : Option MemKind} (h : d.type = t) (ht : t.memKind = k) :
      d.type.memKind = k := h ▸ ht
  have mask {t : InstrType} {a : Word} (h : d.type = t) (ha : t.alignMask = a) :
      d.type.alignMask = a := h ▸ ha
  cases h : d.type
  all_goals simp only [execute, h]
  case lb | lh | lw | lbu | lhu => exact accesses_load _ _ _ (kind h rfl) (mask h rfl) rfl
  case sb | sh | sw => exact accesses_store _ _ _ (kind h rfl) (mask h rfl)
  case lrW => exact accesses_lr (kind h rfl) (mask h rfl)
  case scW => exact accesses_sc (kind h rfl) (mask h rfl)
  case amoswapW | amoaddW | amoxorW | amoandW | amoorW | amominW | amomaxW | amominuW | amomaxuW =>
    exact accesses_amo (kind h rfl) (mask h rfl)
  all_goals have ht := kind h rfl
  case jal | jalr => exact accesses_quiet ht (by simp [execJump, done]) (.inl rfl)
  case beq | bne | blt | bge | bltu | bgeu => exact accesses_branch ht _
  case csrrw | csrrwi => exact accesses_csrrw ht _
  case csrrs | csrrc | csrrsi | csrrci => exact accesses_csrrsc ht _
  case ecall => exact accesses_ecall ht
  case mret => exact accesses_mret ht
  case sret => exact accesses_sret ht
  case sfenceVma => exact accesses_sfenceVma ht
  case ebreak | uret | illegal => exact accesses_makeException ht _ _
  case wfi | fence | fencei => exact accesses_quiet ht rfl (.inl rfl)
  all_goals exact accesses_setReg ht _

section

variable {σ : Type*} {mi : MemIf σ} {s : CPUState} {d : DecodedInstr} {m : σ} {x : Executed σ}

theorem Accesses.sc_done (h : Accesses mi s d m x) (ht : d.type.memKind = some .sc)
    (ha : AccessAligned s d) (hc : s.lrSc.check (accessAddr s d)) :
    x = done { (s.falling d).setReg d.rd 0 with lrSc := s.lrSc.clear }
      (mi.write (s.falling d) (accessAddr s d) (s.getReg d.rs2) 4 m) := by
  cases h with
  | scDone => rfl
  | scFailed _ _ hc' => exact absurd hc hc'
  | quiet _ _ hq => exact absurd ha (hq (by simp [ht])).1
  | load ht' | store ht' | lr ht' | amo ht' => cases ht.symm.trans ht'

/-- An SC.W whose reservation does not hold accesses nothing. -/
theorem Accesses.sc_failed (h : Accesses mi s d m x) (ht : d.type.memKind = some .sc)
    (hc : ¬ s.lrSc.check (accessAddr s d)) : x.mem = m ∨ x.mem = mi.onSatpWrite m := by
  cases h with
  | scDone _ _ hc' => exact absurd hc' hc
  | scFailed => exact .inl rfl
  | quiet _ hm => exact hm
  | load ht' | store ht' | lr ht' | amo ht' => cases ht.symm.trans ht'

end

end VirtualSoC
