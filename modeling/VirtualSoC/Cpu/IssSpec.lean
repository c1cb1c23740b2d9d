import VirtualSoC.Cpu.Access
import VirtualSoC.Cpu.Iss

/-!
# One iteration of the run loop

`ISS.issue` is the instruction that an iteration executes, if it gets that far.  Given that
instruction, an iteration is `ISS.stepInsn`: `execute`, and then either the page-fault trap
(`stepInsn_refused`) or the retirement of the instruction (`stepInsn_retired`).
-/

namespace VirtualSoC

section Callbacks

variable {β : Type*} {bus : PhysBus β} {pick : Tlb → ℕ} {s t : CPUState} {e : Env β}

/-- The translation of a data access. -/
def dataTranslate (pick : Tlb → ℕ) (s : CPUState) (vaddr : Word) (type : AccessType) (e : Env β)
    (bus : PhysBus β) : MMUResult × Tlb × β :=
  translate bus.ptMem pick vaddr type s.effectiveDataPriv s.csr.satp s.csr.mstatus e.tlb e.bus

/-! The three ways in which a data access gets its address. -/

theorem dataPaddr_inactive (ha : ¬ s.mmuActiveData) (vaddr : Word) (type : AccessType) :
    dataPaddr bus pick s vaddr type e = (some vaddr, e) :=
  if_neg ha

theorem dataPaddr_fault {vaddr : Word} {type : AccessType} (ha : s.mmuActiveData)
    (hf : (dataTranslate pick s vaddr type e bus).1.fault) :
    dataPaddr bus pick s vaddr type e =
      let x := dataTranslate pick s vaddr type e bus
      (none, { tlb := x.2.1, bus := x.2.2, memFault := true, memFaultCause := x.1.cause,
               memFaultVaddr := vaddr }) :=
  (if_pos ha).trans (if_pos hf)

theorem dataPaddr_ok {vaddr : Word} {type : AccessType} (ha : s.mmuActiveData)
    (hf : ¬ (dataTranslate pick s vaddr type e bus).1.fault) :
    dataPaddr bus pick s vaddr type e =
      let x := dataTranslate pick s vaddr type e bus
      (some x.1.paddr, { e with tlb := x.2.1, bus := x.2.2 }) :=
  (if_pos ha).trans (if_neg hf)

theorem dataPaddr_cases {vaddr : Word} {type : AccessType} {P : Option Word × Env β → Prop}
    (inactive : ¬ s.mmuActiveData → P (some vaddr, e))
    (fault : s.mmuActiveData → (dataTranslate pick s vaddr type e bus).1.fault →
      P (none, { tlb := (dataTranslate pick s vaddr type e bus).2.1
                 bus := (dataTranslate pick s vaddr type e bus).2.2
                 memFault := true
                 memFaultCause := (dataTranslate pick s vaddr type e bus).1.cause
                 memFaultVaddr := vaddr }))
    (ok : s.mmuActiveData → ¬ (dataTranslate pick s vaddr type e bus).1.fault →
      P (some (dataTranslate pick s vaddr type e bus).1.paddr,
        { e with tlb := (dataTranslate pick s vaddr type e bus).2.1
                 bus := (dataTranslate pick s vaddr type e bus).2.2 })) :
    P (dataPaddr bus pick s vaddr type e) := by
  by_cases ha : s.mmuActiveData
  · by_cases hf : (dataTranslate pick s vaddr type e bus).1.fault
    · rw [dataPaddr_fault ha hf]
      exact fault ha hf
    · rw [dataPaddr_ok ha hf]
      exact ok ha hf
  · rw [dataPaddr_inactive ha]
    exact inactive ha

/-- The flag tells whether the access has no physical address. -/
theorem dataPaddr_memFault (vaddr : Word) (type : AccessType) :
    (dataPaddr bus pick s vaddr type e).2.memFault =
      ((dataPaddr bus pick s vaddr type e).1.isNone || e.memFault) :=
  dataPaddr_cases (P := fun x => x.2.memFault = (x.1.isNone || e.memFault)) (fun _ => rfl)
    (fun _ _ => rfl) fun _ _ => rfl

/-- The environment after a load, but for the bus, is the one that its translation leaves. -/
theorem memRead_env (vaddr : Word) (n : ℕ) :
    (memRead bus pick s vaddr n e).2 =
      { (dataPaddr bus pick s vaddr .load e).2 with
        bus := (memRead bus pick s vaddr n e).2.bus } := by
  unfold memRead
  obtain ⟨_ | p, e'⟩ := dataPaddr bus pick s vaddr .load e
  · rfl
  · rfl

theorem memWrite_env (vaddr data : Word) (n : ℕ) :
    memWrite bus pick s vaddr data n e =
      { (dataPaddr bus pick s vaddr .store e).2 with
        bus := (memWrite bus pick s vaddr data n e).bus } := by
  unfold memWrite
  obtain ⟨_ | p, e'⟩ := dataPaddr bus pick s vaddr .store e
  · rfl
  · rfl

theorem memRead_memFault (vaddr : Word) (n : ℕ) :
    (memRead bus pick s vaddr n e).2.memFault =
      ((dataPaddr bus pick s vaddr .load e).1.isNone || e.memFault) := by
  rw [← dataPaddr_memFault, memRead_env]

theorem memWrite_memFault (vaddr data : Word) (n : ℕ) :
    (memWrite bus pick s vaddr data n e).memFault =
      ((dataPaddr bus pick s vaddr .store e).1.isNone || e.memFault) := by
  rw [← dataPaddr_memFault, memWrite_env]

variable (hc : t.csr = s.csr) (hp : t.priv = s.priv)

include hc hp

/-- The callbacks look at the CSR file and the privilege only. -/
theorem dataPaddr_congr (vaddr : Word) (type : AccessType) :
    dataPaddr bus pick t vaddr type e = dataPaddr bus pick s vaddr type e := by
  unfold dataPaddr CPUState.mmuActiveData CPUState.effectiveDataPriv
  rw [hc, hp]

theorem memWrite_congr (vaddr data : Word) (n : ℕ) :
    memWrite bus pick t vaddr data n e = memWrite bus pick s vaddr data n e := by
  unfold memWrite
  rw [dataPaddr_congr hc hp]

end Callbacks

namespace ISS

variable {β : Type*} (bus : PhysBus β) (pick : Tlb → ℕ) (iss : ISS β)

/-- The instruction that the iteration executes, with the environment that its fetch leaves. -/
def issue : Option (DecodedInstr × Env β) :=
  if iss.inWfi ∨ iss.halted ∨ checkPendingInterrupts iss.state ≠ 0 ∨ iss.state.pc &&& 1 ≠ 0 then
    none
  else
    match fetch bus pick iss.state iss.env with
    | (.ok raw, env) => some (decode raw, env)
    | (.error _, _) => none

/-- What `execute` does with the instruction `d` in the environment `env`. -/
def executed (d : DecodedInstr) (env : Env β) : Executed (Env β) :=
  execute (issMemIf bus pick) { iss.state with nextPc := iss.state.pc + d.instrLen } d
    { env with memFault := false }

variable {bus pick iss}

/-- An instruction is executed at an even `pc` only, and then the iteration is its execution. -/
theorem iterate_of_issue {d : DecodedInstr} {env : Env β}
    (h : iss.issue bus pick = some (d, env)) :
    iss.state.pc &&& 1 = 0 ∧ iss.iterate bus pick = stepInsn bus pick { iss with env } d := by
  unfold issue at h
  split at h
  · cases h
  next hgo =>
    simp only [not_or, not_not, Bool.not_eq_true] at hgo
    obtain ⟨hwfi, hhalt, hirq, hpc⟩ := hgo
    cases hf : fetch bus pick iss.state iss.env with
    | mk r env' =>
      rw [hf] at h
      cases r with
      | error cause => cases h
      | ok raw =>
        cases h
        refine ⟨hpc, ?_⟩
        unfold iterate
        simp only [hwfi, hhalt, hirq, hpc, hf, Bool.false_eq_true, if_false, ne_eq,
          not_true_eq_false]

variable (bus) in
/-- What an iteration that executes no instruction does: the rest of a WFI, nothing, or a trap. -/
inductive Idle (iss : ISS β) : ISS β × Event → Prop
  | wake (hw : iss.inWfi) : Idle iss (finish bus { iss with inWfi := false } {}, {})
  | halted (hw : iss.inWfi = false) (hh : iss.halted) : Idle iss (iss, {})
  | trap (env : Env β) (cause tval : Word) (hw : iss.inWfi = false) (hh : iss.halted = false) :
      Idle iss (enterTrap { iss with env } cause tval, { trap := some cause })

theorem iterate_idle (h : iss.issue bus pick = none) : Idle bus iss (iss.iterate bus pick) := by
  unfold issue at h
  unfold iterate
  split
  next hw => exact .wake hw
  next hw =>
    have hw' := Bool.eq_false_iff.2 hw
    split
    next hh => exact .halted hw' hh
    next hh =>
      have hh' := Bool.eq_false_iff.2 hh
      dsimp only
      split
      · exact .trap iss.env _ _ hw' hh'
      next hirq =>
        split
        · exact .trap iss.env _ _ hw' hh'
        next hpc =>
          rw [if_neg (by tauto)] at h
          split
          · exact .trap _ _ _ hw' hh'
          next hf =>
            rw [hf] at h
            cases h

/-- The other iterations leave the reservation alone. -/
theorem iterate_of_issue_none (h : iss.issue bus pick = none) :
    (iss.iterate bus pick).2.insn = none ∧
      (iss.iterate bus pick).1.state.lrSc = iss.state.lrSc := by
  have hidle := iterate_idle h
  generalize iss.iterate bus pick = x at hidle
  cases hidle with
  | wake => exact ⟨rfl, rfl⟩
  | halted => exact ⟨rfl, rfl⟩
  | trap => exact ⟨rfl, takeTrap_lrSc ..⟩

variable (d : DecodedInstr)

/-- The MMU refused a data access: the page-fault trap is taken. -/
theorem stepInsn_refused (h : (iss.executed bus pick d iss.env).mem.memFault) :
    stepInsn bus pick iss d =
      let x := iss.executed bus pick d iss.env
      (enterTrap { iss with state := x.cpu, env := { x.mem with memFault := false } }
          x.mem.memFaultCause x.mem.memFaultVaddr,
        { insn := some d, refused := true, trap := some x.mem.memFaultCause }) :=
  if_pos h

/-- No data access was refused: the instruction retires. -/
theorem stepInsn_retired (h : ¬ (iss.executed bus pick d iss.env).mem.memFault) :
    stepInsn bus pick iss d =
      let x := iss.executed bus pick d iss.env
      retire bus { iss with state := x.cpu, env := { x.mem with memFault := false } } x.res d :=
  if_neg h

theorem stepInsn_refused_iff :
    (stepInsn bus pick iss d).2.refused ↔ (iss.executed bus pick d iss.env).mem.memFault := by
  by_cases h : (iss.executed bus pick d iss.env).mem.memFault
  · rw [stepInsn_refused d h]
    exact iff_of_true rfl h
  · rw [stepInsn_retired d h]
    refine iff_of_false ?_ h
    unfold retire
    dsimp only
    repeat' split
    all_goals exact Bool.false_ne_true

/-- Retirement changes neither registers nor reservation, and a trap is an exception. -/
theorem retire_spec (r : ExecResult) :
    (retire bus iss r d).1.state.regs = iss.state.regs ∧
      (retire bus iss r d).1.state.lrSc = iss.state.lrSc ∧
      (retire bus iss r d).2.insn = some d ∧
      ((retire bus iss r d).2.trap = none ↔
        r.exception = false ∨ r.cause = causeBreakpoint ∧ iss.stopOnEbreak) := by
  unfold retire
  dsimp only
  split
  next h =>
    refine ⟨rfl, rfl, rfl, ?_⟩
    simp only [true_iff]
    exact .inr h.2
  next h =>
    split
    next hx =>
      refine ⟨?_, ?_, rfl, ?_⟩
      · exact takeTrap_regs ..
      · exact takeTrap_lrSc ..
      · simp_all
    next hx =>
      have hx' : r.exception = false := by simpa using hx
      split
      · exact ⟨rfl, rfl, rfl, iff_of_true rfl (.inl hx')⟩
      · exact ⟨rfl, rfl, rfl, iff_of_true rfl (.inl hx')⟩

/-- The registers and the reservation after an instruction are those that `execute` leaves. -/
theorem stepInsn_spec :
    (stepInsn bus pick iss d).1.state.regs = (iss.executed bus pick d iss.env).cpu.regs ∧
      (stepInsn bus pick iss d).1.state.lrSc = (iss.executed bus pick d iss.env).cpu.lrSc ∧
      (stepInsn bus pick iss d).2.insn = some d := by
  by_cases h : (iss.executed bus pick d iss.env).mem.memFault
  · rw [stepInsn_refused d h]
    exact ⟨takeTrap_regs .., takeTrap_lrSc .., rfl⟩
  · rw [stepInsn_retired d h]
    exact ⟨(retire_spec d _).1, (retire_spec d _).2.1, (retire_spec d _).2.2.1⟩

/-- An instruction that does not trap was not refused, and at most hit a breakpoint. -/
theorem of_stepInsn_trap_none (h : (stepInsn bus pick iss d).2.trap = none) :
    (iss.executed bus pick d iss.env).mem.memFault = false ∧
      ((iss.executed bus pick d iss.env).res.exception = false ∨
        (iss.executed bus pick d iss.env).res.cause = causeBreakpoint) := by
  by_cases hm : (iss.executed bus pick d iss.env).mem.memFault
  · rw [stepInsn_refused d hm] at h
    cases h
  · rw [stepInsn_retired d hm] at h
    refine ⟨Bool.eq_false_iff.2 hm, ?_⟩
    exact ((retire_spec d _).2.2.2.1 h).imp_right And.left

end ISS

end VirtualSoC
