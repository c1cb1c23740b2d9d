import VirtualSoC.Cpu.Access
import VirtualSoC.Cpu.CsrSpec

/-!
# Exceptions are atomic

An instruction for which `execute` raises an exception leaves registers, CSR file, privilege,
memory and reservation as they were, and a CSR instruction that raises none does all of its work
(`Atomic`).

There is one exception to it: a CSR instruction that reads a register of the read-only quadrant
and then tries to write it has written `rd` when the write is refused (`atomic_iff`).
-/

namespace VirtualSoC

/-! ### CSR instructions -/

namespace InstrType

/-- CSRRW and CSRRWI, which write without looking at the old value. -/
def isCsrrw : InstrType → Bool
  | .csrrw | .csrrwi => true
  | _ => false

/-- The CSR instructions that set or clear bits. -/
def isCsrrsc : InstrType → Bool
  | .csrrs | .csrrc | .csrrsi | .csrrci => true
  | _ => false

end InstrType

namespace DecodedInstr

variable (d : DecodedInstr)

/-- The CSR that the instruction accesses. -/
def csrAddr : BitVec 16 := d.csr.setWidth 16

/-- The instruction reads its CSR. -/
def ReadsCsr : Prop := d.type.isCsrrw ∧ d.rd ≠ 0 ∨ d.type.isCsrrsc

/-- The instruction writes its CSR. -/
def WritesCsr : Prop := d.type.isCsrrw ∨ d.type.isCsrrsc ∧ d.rs1 ≠ 0

/-- The value written for the old value `old`. -/
def csrValue (s : CPUState) (old : Word) : Word :=
  match d.type with
  | .csrrw => s.getReg d.rs1
  | .csrrs => old ||| s.getReg d.rs1
  | .csrrc => old &&& ~~~s.getReg d.rs1
  | .csrrwi => d.rs1
  | .csrrsi => old ||| d.rs1
  | .csrrci => old &&& ~~~d.rs1
  | _ => 0

end DecodedInstr

/-! ### Atomicity -/

section

variable {σ : Type*} (mi : MemIf σ) (s : CPUState) (d : DecodedInstr) (m : σ)

/-- What an exception must not change. -/
structure Untouched (x : Executed σ) : Prop where
  regs : x.cpu.regs = s.regs
  csr : x.cpu.csr = s.csr
  priv : x.cpu.priv = s.priv
  mem : x.mem = m
  lrSc : x.cpu.lrSc = s.lrSc

/-- The CSR instruction `d` has done all of its work: it has read the old value into `rd` and
written the new one. -/
def CsrCompleted (x : Executed σ) : Prop :=
  ∃ old, (d.ReadsCsr → s.csr.read d.csrAddr s.priv = some old ∧
      x.cpu.regs = (s.setReg d.rd old).regs) ∧ (¬ d.ReadsCsr → x.cpu.regs = s.regs) ∧
    (d.WritesCsr → ∃ b, s.csr.write d.csrAddr s.priv (d.csrValue s old) = some (x.cpu.csr, b)) ∧
    (¬ d.WritesCsr → x.cpu.csr = s.csr)

/-- An exception changes nothing, and a CSR instruction without an exception is complete. -/
structure AtomicResult (x : Executed σ) : Prop where
  exception : x.res.exception → Untouched s m x
  csr : (d.type.isCsrrw ∨ d.type.isCsrrsc) → ¬ x.res.exception → CsrCompleted s d x

/-- `execute` is atomic for the instruction `d`. -/
def Atomic : Prop := AtomicResult s d m (execute mi s d m)

/-- A register of the read-only quadrant is read, to be written, and its value is not the one that
`rd` holds already. -/
def WritesReadOnly : Prop :=
  d.WritesCsr ∧ CSRFile.isReadOnly d.csrAddr ∧ d.rd ≠ 0 ∧
    ∃ old, s.csr.read d.csrAddr s.priv = some old ∧ s.getReg d.rd ≠ old

end

/-- A register that can be read and is not in the read-only quadrant can be written. -/
theorem CSRFile.writeReg_isSome {c : CSRFile} {addr : BitVec 16} (x : Word) :
    ∀ v, c.readReg addr = some v → isReadOnly addr = false → (c.writeReg addr x).isSome := by
  unfold readReg
  repeat' apply forall_some_ite
  all_goals first | rintro rfl v hv hro | rintro v hv hro
  all_goals first | rfl | exact absurd hro (by decide) | cases hv

/-- After a read, a write is refused in the read-only quadrant only. -/
theorem CSRFile.write_of_read {c : CSRFile} {addr : BitVec 16} {priv : Priv} {v : Word}
    (h : c.read addr priv = some v) (x : Word) :
    if isReadOnly addr then c.write addr priv x = none
    else ∃ c', c.write addr priv x = some (c', decide (addr = csrSatp)) := by
  unfold read at h
  split at h
  · cases h
  next hp =>
    unfold write
    rw [if_neg hp]
    split
    · rfl
    next hro =>
      obtain ⟨c', hc⟩ := Option.isSome_iff_exists.1
        (writeReg_isSome x v h (Bool.not_eq_true _ ▸ hro))
      rw [hc]
      exact ⟨c', rfl⟩

/-! ### The cases of `execute` -/

section Cases

variable {σ : Type*} {mi : MemIf σ} {s : CPUState} {d : DecodedInstr} {m : σ}

theorem untouched_makeException (cause tval : Word) :
    Untouched s m (makeException cause tval (s.falling d) m) :=
  ⟨rfl, rfl, rfl, rfl, rfl⟩

section Plain

variable (ht : ¬ (d.type.isCsrrw ∨ d.type.isCsrrsc))

include ht

theorem atomic_makeException (cause tval : Word) :
    AtomicResult s d m (makeException cause tval (s.falling d) m) :=
  ⟨fun _ => untouched_makeException cause tval, fun h => absurd h ht⟩

/-- Without an exception there is nothing to show for an instruction that accesses no CSR. -/
theorem atomic_of_not_exception {x : Executed σ} (h : ¬ x.res.exception) : AtomicResult s d m x :=
  ⟨fun he => absurd he h, fun hc => absurd hc ht⟩

theorem atomic_load (addr align : Word) (bytes : ℕ) (ext : Word → Word) :
    AtomicResult s d m (execLoad mi (s.falling d) d m addr align bytes ext) := by
  unfold execLoad
  split
  · exact atomic_makeException ht _ _
  · exact atomic_of_not_exception ht nofun

theorem atomic_store (addr align data : Word) (bytes : ℕ) :
    AtomicResult s d m (execStore mi (s.falling d) m addr align data bytes) := by
  unfold execStore
  split
  · exact atomic_makeException ht _ _
  · exact atomic_of_not_exception ht nofun

theorem atomic_lr (addr : Word) :
    AtomicResult s d m (execLr mi (s.falling d) d m addr) := by
  unfold execLr
  split
  · exact atomic_makeException ht _ _
  · exact atomic_of_not_exception ht nofun

theorem atomic_sc (addr v : Word) :
    AtomicResult s d m (execSc mi (s.falling d) d m addr v) := by
  unfold execSc
  split
  · exact atomic_makeException ht _ _
  · split
    · exact atomic_of_not_exception ht nofun
    · exact atomic_of_not_exception ht nofun

theorem atomic_amo (addr v : Word) :
    AtomicResult s d m (execAmo mi (s.falling d) d m addr v) := by
  unfold execAmo
  split
  · exact atomic_makeException ht _ _
  · exact atomic_of_not_exception ht nofun

theorem atomic_mret : AtomicResult s d m (execMret (s.falling d) d m) := by
  unfold execMret
  split
  · exact atomic_makeException ht _ _
  · exact atomic_of_not_exception ht nofun

theorem atomic_sret : AtomicResult s d m (execSret (s.falling d) d m) := by
  unfold execSret
  split
  · exact atomic_makeException ht _ _
  · split
    · exact atomic_makeException ht _ _
    · exact atomic_of_not_exception ht nofun

theorem atomic_sfenceVma : AtomicResult s d m (execSfenceVma (s.falling d) d m) := by
  unfold execSfenceVma
  split
  · exact atomic_makeException ht _ _
  · split
    · exact atomic_makeException ht _ _
    · exact atomic_of_not_exception ht nofun

theorem atomic_ecall : AtomicResult s d m (execEcall (s.falling d) m) := by
  unfold execEcall
  split
  · exact atomic_makeException ht _ _
  · split
    · exact atomic_makeException ht _ _
    · exact atomic_makeException ht _ _

end Plain

/-! ### CSR instructions -/

theorem atomic_csrWrite_iff {old : Word} (hread : s.csr.read d.csrAddr s.priv = some old)
    (hr : d.ReadsCsr) (hw : d.WritesCsr) :
    AtomicResult s d m
        (csrWrite mi ((s.falling d).setReg d.rd old) d m (d.csrValue s old)) ↔
      ¬ WritesReadOnly s d := by
  have hwrite := CSRFile.write_of_read hread (d.csrValue s old)
  unfold csrWrite
  rw [CPUState.setReg_csr, CPUState.setReg_priv, s.fallThrough_csr, s.fallThrough_priv]
  by_cases hro : CSRFile.isReadOnly d.csrAddr
  · -- the write is refused, and `rd` has been written
    rw [if_pos hro] at hwrite
    rw [show s.csr.write (d.csr.setWidth 16) s.priv (d.csrValue s old) = none from hwrite]
    have hrefused : WritesReadOnly s d ↔ ¬ (s.setReg d.rd old).regs = s.regs := by
      rw [CPUState.setReg_regs_eq_iff, not_or]
      constructor
      · rintro ⟨-, -, hrd, old', hread', hne⟩
        cases hread.symm.trans hread'
        exact ⟨hrd, hne⟩
      · rintro ⟨hrd, hne⟩
        exact ⟨hw, hro, hrd, old, hread, hne⟩
    rw [hrefused, not_not]
    constructor
    · intro h
      rw [← (h.exception rfl).regs]
      exact (CPUState.fallThrough_setReg s d.rd old _).symm
    · intro h
      refine ⟨fun _ => ⟨?_, ?_, ?_, rfl, ?_⟩, fun _ h => absurd rfl h⟩
      · exact (CPUState.fallThrough_setReg s d.rd old _).trans h
      · exact CPUState.setReg_csr ..
      · exact CPUState.setReg_priv ..
      · exact CPUState.setReg_lrSc ..
  · rw [if_neg hro] at hwrite
    obtain ⟨c', hc⟩ := hwrite
    rw [show s.csr.write (d.csr.setWidth 16) s.priv (d.csrValue s old) = some (c', _) from hc]
    refine iff_of_true ⟨nofun, fun _ _ => ⟨old, ?_⟩⟩ fun h => hro h.2.1
    refine ⟨fun _ => ⟨hread, ?_⟩, fun h => absurd hr h, fun _ => ⟨_, hc⟩, fun h => absurd hw h⟩
    exact CPUState.fallThrough_setReg s d.rd old _

/-- The write of an instruction that does not read. -/
theorem atomic_csrWrite (hr : ¬ d.ReadsCsr) (hw : d.WritesCsr) (old : Word) :
    AtomicResult s d m (csrWrite mi (s.falling d) d m (d.csrValue s old)) := by
  unfold csrWrite
  split
  · exact ⟨fun _ => untouched_makeException _ _, fun _ h => absurd rfl h⟩
  next c' b hc =>
    refine ⟨nofun, fun _ _ => ⟨old, fun h => absurd h hr, fun _ => rfl, fun _ => ⟨b, hc⟩, ?_⟩⟩
    exact fun h => absurd hw h

theorem not_writesReadOnly_of_read_none (h : s.csr.read d.csrAddr s.priv = none) :
    ¬ WritesReadOnly s d := by
  rintro ⟨-, -, -, old, hread, -⟩
  cases h.symm.trans hread

theorem atomic_csrrw_iff (ht : d.type.isCsrrw) {v : Word} (hv : ∀ old, d.csrValue s old = v) :
    AtomicResult s d m (execCsrrw mi (s.falling d) d m v) ↔ ¬ WritesReadOnly s d := by
  have hsc : ¬ d.type.isCsrrsc := by
    cases h : d.type with
    | csrrw | csrrwi => nofun
    | _ =>
      rw [h] at ht
      cases ht
  have hw : d.WritesCsr := .inl ht
  unfold execCsrrw
  rw [s.fallThrough_csr, s.fallThrough_priv]
  by_cases hrd : d.rd = 0
  · rw [if_neg (not_not.2 hrd), ← hv 0]
    have hr : ¬ d.ReadsCsr := by
      rintro (⟨-, h⟩ | h)
      · exact h hrd
      · exact hsc h
    exact iff_of_true (atomic_csrWrite hr hw 0) fun h => h.2.2.1 hrd
  · rw [if_pos hrd]
    cases hread : s.csr.read d.csrAddr s.priv with
    | none =>
      rw [show s.csr.read (d.csr.setWidth 16) s.priv = none from hread]
      exact iff_of_true ⟨fun _ => untouched_makeException _ _, fun _ h => absurd rfl h⟩
        (not_writesReadOnly_of_read_none hread)
    | some old =>
      rw [show s.csr.read (d.csr.setWidth 16) s.priv = some old from hread, ← hv old]
      exact atomic_csrWrite_iff hread (.inl ⟨ht, hrd⟩) hw

theorem atomic_csrrsc_iff (ht : d.type.isCsrrsc) {f : Word → Word}
    (hf : ∀ old, d.csrValue s old = f old) :
    AtomicResult s d m (execCsrrsc mi (s.falling d) d m f) ↔ ¬ WritesReadOnly s d := by
  have hrw : ¬ d.type.isCsrrw := by
    cases h : d.type with
    | csrrs | csrrc | csrrsi | csrrci => nofun
    | _ =>
      rw [h] at ht
      cases ht
  have hr : d.ReadsCsr := .inr ht
  unfold execCsrrsc
  rw [s.fallThrough_csr, s.fallThrough_priv]
  cases hread : s.csr.read d.csrAddr s.priv with
  | none =>
    rw [show s.csr.read (d.csr.setWidth 16) s.priv = none from hread]
    exact iff_of_true ⟨fun _ => untouched_makeException _ _, fun _ h => absurd rfl h⟩
      (not_writesReadOnly_of_read_none hread)
  | some old =>
    rw [show s.csr.read (d.csr.setWidth 16) s.priv = some old from hread]
    dsimp only
    by_cases hrs1 : d.rs1 = 0
    · have hw : ¬ d.WritesCsr := by
        rintro (h | ⟨-, h⟩)
        · exact hrw h
        · exact h hrs1
      rw [if_neg (not_not.2 hrs1)]
      refine iff_of_true ⟨nofun, fun _ _ => ⟨old, ?_⟩⟩ fun h => hw h.1
      refine ⟨fun _ => ⟨hread, ?_⟩, fun h => absurd hr h, fun h => absurd h hw, fun _ => ?_⟩
      · exact CPUState.fallThrough_setReg s d.rd old _
      · exact CPUState.setReg_csr ..
    · rw [if_pos hrs1, ← hf old]
      exact atomic_csrWrite_iff hread hr (.inr ⟨ht, hrs1⟩)

end Cases

/-- **Exceptions are atomic, except when a write to a register of the read-only quadrant is refused
after `rd` has been overwritten.** -/
theorem atomic_iff {σ : Type*} (mi : MemIf σ) (s : CPUState) (d : DecodedInstr) (m : σ) :
    Atomic mi s d m ↔ ¬ WritesReadOnly s d := by
  have plain {x : Executed σ} (ht : ¬ (d.type.isCsrrw ∨ d.type.isCsrrsc))
      (h : AtomicResult s d m x) : AtomicResult s d m x ↔ ¬ WritesReadOnly s d := by
    refine iff_of_true h ?_
    rintro ⟨hrw | ⟨hrsc, -⟩, -⟩
    · exact ht (.inl hrw)
    · exact ht (.inr hrsc)
  unfold Atomic
  cases h : d.type
  all_goals simp only [execute, h]
  case csrrw | csrrwi =>
    exact atomic_csrrw_iff (by rw [h]; rfl) fun old => by rw [DecodedInstr.csrValue, h]
  case csrrs | csrrc | csrrsi | csrrci =>
    exact atomic_csrrsc_iff (by rw [h]; rfl) fun old => by rw [DecodedInstr.csrValue, h]
  all_goals
    have ht : ¬ (d.type.isCsrrw ∨ d.type.isCsrrsc) := by
      rw [h]
      decide
    refine plain ht ?_
  case lb | lh | lw | lbu | lhu => exact atomic_load ht _ _ _ _
  case sb | sh | sw => exact atomic_store ht _ _ _ _
  case lrW => exact atomic_lr ht _
  case scW => exact atomic_sc ht _ _
  case amoswapW | amoaddW | amoxorW | amoandW | amoorW | amominW | amomaxW | amominuW | amomaxuW =>
    exact atomic_amo ht _ _
  case ecall => exact atomic_ecall ht
  case mret => exact atomic_mret ht
  case sret => exact atomic_sret ht
  case sfenceVma => exact atomic_sfenceVma ht
  case ebreak | uret | illegal => exact atomic_makeException ht _ _
  all_goals exact atomic_of_not_exception ht Bool.false_ne_true

/-- CSRRW of `mvendorid` overwrites `rd` and raises an illegal-instruction exception. -/
theorem not_atomic :
    ¬ ∀ (mi : MemIf Unit) (s : CPUState) (w : Word), Atomic mi s (decode w) () := by
  intro h
  -- csrrw x5, mvendorid, x6
  have hatomic := h ⟨fun _ _ _ m => (0, m), fun _ _ _ _ m => m, id⟩
    { regs := fun _ => 7 } 0xF11312F3
  have hx5 := congrFun (hatomic.exception (by decide)).regs 5
  exact absurd hx5 (by decide)

end VirtualSoC
