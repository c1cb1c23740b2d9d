import VirtualSoC.Cpu.CsrAccess
import VirtualSoC.Cpu.IssSpec

/-!
# Which instructions raise an exception

The third inversion lemma of `execute`: the CPU state and the instruction alone decide whether an
exception is raised (`RaisesException`), EBREAK alone raises a breakpoint, and the CSR file changes
by a CSR write or a return from a trap only (`execute_outcome`).

Whether the MMU refuses an access of an instruction is decided by the translations of its accesses
(`memFault_execute_iff`), and such an instruction raises no exception.
-/

namespace VirtualSoC

section

variable (s : CPUState) (d : DecodedInstr)

/-- The CSR file refuses an access of the instruction. -/
def CsrRefused : Prop :=
  ¬ (d.csrAddr ∈ csrAddrs ∧ PrivSuffices d.csrAddr s.priv) ∨
    d.WritesCsr ∧ InReadOnlyQuadrant d.csrAddr

/-- `execute` raises an exception for the instruction. -/
def RaisesException : Prop :=
  match d.type with
  | .ecall | .ebreak | .uret | .illegal => True
  | .mret => s.priv < prvM
  | .sret => s.priv < prvS ∨ s.csr.mstatus &&& mstatusTsr ≠ 0 ∧ s.priv = prvS
  | .sfenceVma => s.priv < prvS ∨ s.csr.mstatus &&& mstatusTvm ≠ 0 ∧ s.priv = prvS
  | .csrrw | .csrrs | .csrrc | .csrrwi | .csrrsi | .csrrci => CsrRefused s d
  | _ => d.type.memKind ≠ none ∧ ¬ AccessAligned s d

/-- How the CSR file changes. -/
inductive CsrEffect (c : CSRFile) : Prop
  | kept (h : c = s.csr)
  | status (mstatus : Word) (h : c = { s.csr with mstatus })
  | write (v : Word) (b : Bool) (hw : d.WritesCsr)
      (h : s.csr.write d.csrAddr s.priv v = some (c, b))

/-- What an instruction reports, and what it does to the CSR file. -/
structure Outcome {σ : Type*} (x : Executed σ) : Prop where
  exception : x.res.exception ↔ RaisesException s d
  breakpoint : x.res.exception → (x.res.cause = causeBreakpoint ↔ d.type = .ebreak)
  csr : CsrEffect s d x.cpu.csr

end

section Cases

variable {σ : Type*} {mi : MemIf σ} {s t : CPUState} {d : DecodedInstr} {m : σ}

theorem outcome_makeException {cause : Word} (ht : t.csr = s.csr) (h : RaisesException s d)
    (hb : cause = causeBreakpoint ↔ d.type = .ebreak) (tval : Word) :
    Outcome s d (makeException cause tval t m) :=
  ⟨iff_of_true rfl h, fun _ => hb, .kept ht⟩

theorem outcome_raise {cause : Word} (h : RaisesException s d) (ht : d.type ≠ .ebreak)
    (hb : cause ≠ causeBreakpoint) (tval : Word) :
    Outcome s d (makeException cause tval (s.falling d) m) :=
  outcome_makeException (s.fallThrough_csr _) h (iff_of_false hb ht) tval

theorem outcome_ok {r : ExecResult} (hr : ¬ r.exception) (ht : CsrEffect s d t.csr)
    (h : ¬ RaisesException s d) : Outcome s d ⟨r, t, m⟩ :=
  ⟨iff_of_false hr h, fun hexc => absurd hexc hr, ht⟩

theorem outcome_done (ht : t.csr = s.csr) (h : ¬ RaisesException s d) :
    Outcome s d (done t m) :=
  outcome_ok Bool.false_ne_true (.kept ht) h

/-- The memory instructions raise an exception for a misaligned address only. -/
theorem outcome_mem (ht : d.type.memKind ≠ none)
    (hraises : RaisesException s d ↔ ¬ AccessAligned s d) : Outcome s d (execute mi s d m) := by
  have hleaves := execute_leaves mi s d m
  have hacc := execute_accesses mi s d m
  generalize execute mi s d m = x at hleaves hacc
  cases hacc with
  | load _ ha | lr _ ha | amo _ ha | scDone _ ha | scFailed _ ha | store _ ha =>
    exact outcome_done (by simp) (hraises.not.2 (not_not.2 ha))
  | quiet _ _ hq =>
    obtain ⟨ha, hexc, hcause⟩ := hq ht
    have hne : d.type ≠ .ebreak := fun h => ht (by rw [h]; rfl)
    refine ⟨iff_of_true hexc (hraises.2 ha), fun _ => iff_of_false hcause hne, ?_⟩
    have heff := hleaves.effect
    rw [hexc] at heff
    cases heff with
    | seq _ hc => exact .kept hc

/-! ### CSR instructions -/

section Csr

variable (hne : d.type ≠ .ebreak) (hraises : RaisesException s d ↔ CsrRefused s d)

include hne hraises

theorem outcome_csrWrite (ht : t.csr = s.csr) (hp : t.priv = s.priv) (hw : d.WritesCsr) (v : Word) :
    Outcome s d (csrWrite mi t d m v) := by
  have hsome := s.csr.write_isSome_iff d.csrAddr s.priv v
  unfold csrWrite
  rw [ht, hp, ← DecodedInstr.csrAddr]
  cases hwrite : s.csr.write d.csrAddr s.priv v with
  | none =>
    refine outcome_makeException ht (hraises.2 ?_) (iff_of_false (by decide) hne) _
    rw [hwrite] at hsome
    have hnot := mt hsome.2 Bool.false_ne_true
    unfold CsrRefused
    tauto
  | some x =>
    obtain ⟨c', b⟩ := x
    rw [hwrite] at hsome
    have hok := hsome.1 rfl
    refine outcome_ok Bool.false_ne_true (.write v b hw hwrite) (hraises.not.2 ?_)
    unfold CsrRefused
    tauto

omit hne hraises in
theorem csrRefused_of_read_none (h : s.csr.read d.csrAddr s.priv = none) : CsrRefused s d := by
  refine .inl fun hok => ?_
  have hsome := (s.csr.read_isSome_iff d.csrAddr s.priv).2 hok
  rw [h] at hsome
  exact Bool.false_ne_true hsome

theorem outcome_csrrw (hw : d.WritesCsr) (v : Word) :
    Outcome s d (execCsrrw mi (s.falling d) d m v) := by
  unfold execCsrrw
  split
  · split
    next hread =>
      exact outcome_raise (hraises.2 (csrRefused_of_read_none hread)) hne (by decide) _
    · exact outcome_csrWrite hne hraises (by simp) (by simp) hw v
  · exact outcome_csrWrite hne hraises (s.fallThrough_csr _) (s.fallThrough_priv _) hw v

theorem outcome_csrrsc (hsc : d.type.isCsrrsc) (f : Word → Word) :
    Outcome s d (execCsrrsc mi (s.falling d) d m f) := by
  unfold execCsrrsc
  split
  next hread =>
    exact outcome_raise (hraises.2 (csrRefused_of_read_none hread)) hne (by decide) _
  next old hread =>
    dsimp only
    split
    next hrs1 => exact outcome_csrWrite hne hraises (by simp) (by simp) (.inr ⟨hsc, hrs1⟩) _
    next hrs1 =>
      refine outcome_done (by simp) (hraises.not.2 ?_)
      have hok := (s.csr.read_isSome_iff d.csrAddr s.priv).1 (Option.isSome_of_eq_some hread)
      have hnw : ¬ d.WritesCsr := by
        rintro (hw | hw)
        · revert hsc hw
          unfold InstrType.isCsrrsc InstrType.isCsrrw
          cases d.type <;> decide
        · exact hrs1 hw.2
      unfold CsrRefused
      tauto

end Csr

/-! ### System instructions -/

theorem outcome_ecall (h : RaisesException s d) (hne : d.type ≠ .ebreak) :
    Outcome s d (execEcall (s.falling d) m) := by
  unfold execEcall
  split
  · exact outcome_raise h hne (by decide) _
  · split
    · exact outcome_raise h hne (by decide) _
    · exact outcome_raise h hne (by decide) _

theorem outcome_mret (hne : d.type ≠ .ebreak) (hraises : RaisesException s d ↔ s.priv < prvM) :
    Outcome s d (execMret (s.falling d) d m) := by
  unfold execMret
  split
  next hp => exact outcome_raise (hraises.2 hp) hne (by decide) _
  next hp => exact outcome_ok Bool.false_ne_true (.status _ rfl) (hraises.not.2 hp)

theorem outcome_sret (hne : d.type ≠ .ebreak) (hraises : RaisesException s d ↔
      s.priv < prvS ∨ s.csr.mstatus &&& mstatusTsr ≠ 0 ∧ s.priv = prvS) :
    Outcome s d (execSret (s.falling d) d m) := by
  unfold execSret
  split
  next hp => exact outcome_raise (hraises.2 (.inl hp)) hne (by decide) _
  next hp =>
    split
    next ht => exact outcome_raise (hraises.2 (.inr ht)) hne (by decide) _
    next ht =>
      exact outcome_ok Bool.false_ne_true (.status _ rfl) (hraises.not.2 (not_or.2 ⟨hp, ht⟩))

theorem outcome_sfenceVma (hne : d.type ≠ .ebreak) (hraises : RaisesException s d ↔
      s.priv < prvS ∨ s.csr.mstatus &&& mstatusTvm ≠ 0 ∧ s.priv = prvS) :
    Outcome s d (execSfenceVma (s.falling d) d m) := by
  unfold execSfenceVma
  split
  next hp => exact outcome_raise (hraises.2 (.inl hp)) hne (by decide) _
  next hp =>
    split
    next ht => exact outcome_raise (hraises.2 (.inr ht)) hne (by decide) _
    next ht =>
      exact outcome_ok Bool.false_ne_true (.kept rfl) (hraises.not.2 (not_or.2 ⟨hp, ht⟩))

theorem outcome_branch (h : ¬ RaisesException s d) (taken : Bool) :
    Outcome s d (execBranch (s.falling d) d m taken) := by
  cases taken
  · exact outcome_done rfl h
  · exact outcome_done rfl h

end Cases

/-- **Which instructions raise an exception, and which change the CSR file.** -/
theorem execute_outcome {σ : Type*} (mi : MemIf σ) (s : CPUState) (d : DecodedInstr) (m : σ) :
    Outcome s d (execute mi s d m) := by
  cases h : d.type
  case lb | lh | lw | lbu | lhu | sb | sh | sw | lrW | scW | amoswapW | amoaddW | amoxorW | amoandW
    | amoorW | amominW | amomaxW | amominuW | amomaxuW =>
    exact outcome_mem (by simp [h, InstrType.memKind])
      (by simp [RaisesException, h, InstrType.memKind])
  all_goals simp only [execute, h]
  case csrrw | csrrwi =>
    exact outcome_csrrw (by simp [h]) (by simp [RaisesException, h])
      (.inl (by simp [h, InstrType.isCsrrw])) _
  case csrrs | csrrc | csrrsi | csrrci =>
    exact outcome_csrrsc (by simp [h]) (by simp [RaisesException, h])
      (by simp [h, InstrType.isCsrrsc]) _
  case ecall => exact outcome_ecall (by simp [RaisesException, h]) (by simp [h])
  case ebreak =>
    have hraises : RaisesException s d := by simp [RaisesException, h]
    exact outcome_makeException (s.fallThrough_csr _) hraises (iff_of_true rfl h) _
  case uret | illegal =>
    have hraises : RaisesException s d := by simp [RaisesException, h]
    exact outcome_raise hraises (by simp [h]) (by decide) _
  case mret => exact outcome_mret (by simp [h]) (by simp [RaisesException, h])
  case sret => exact outcome_sret (by simp [h]) (by simp [RaisesException, h])
  case sfenceVma => exact outcome_sfenceVma (by simp [h]) (by simp [RaisesException, h])
  case beq | bne | blt | bge | bltu | bgeu =>
    exact outcome_branch (by simp [RaisesException, h, InstrType.memKind]) _
  case jal | jalr =>
    exact outcome_done (by simp) (by simp [RaisesException, h, InstrType.memKind])
  case wfi | fence | fencei =>
    exact outcome_ok (by simp) (.kept rfl) (by simp [RaisesException, h, InstrType.memKind])
  all_goals exact outcome_done (by simp) (by simp [RaisesException, h, InstrType.memKind])

/-! ### Refused accesses -/

section Refused

variable {β : Type*} (bus : PhysBus β) (pick : Tlb → ℕ) (s : CPUState) (d : DecodedInstr)
  (e : Env β)

/-- The MMU refuses an access of the instruction. -/
def AccessRefused : Prop :=
  AccessAligned s d ∧
    match d.type.memKind with
    | some .load | some .lr => (dataPaddr bus pick s (accessAddr s d) .load e).1 = none
    | some .store => (dataPaddr bus pick s (accessAddr s d) .store e).1 = none
    | some .sc =>
      s.lrSc.check (accessAddr s d) ∧ (dataPaddr bus pick s (accessAddr s d) .store e).1 = none
    | some .amo =>
      (dataPaddr bus pick s (accessAddr s d) .load e).1 = none ∨
        (dataPaddr bus pick s (accessAddr s d) .store
          (memRead bus pick s (accessAddr s d) 4 e).2).1 = none
    | none => False

variable {bus pick s d e}

/-- The flag of the callbacks tells whether the MMU has refused an access. -/
theorem memFault_execute_iff (he : e.memFault = false) :
    (execute (issMemIf bus pick) s d e).mem.memFault ↔ AccessRefused bus pick s d e := by
  have hacc := execute_accesses (issMemIf bus pick) s d e
  generalize execute (issMemIf bus pick) s d e = x at hacc
  have flag {f : Bool} {o : Option Word} (h : f = (o.isNone || e.memFault)) : f ↔ o = none := by
    rw [h, he, Bool.or_false, Option.isNone_iff_eq_none]
  unfold AccessRefused
  cases hacc with
  | load ht ha _ hr =>
    rw [ht, and_iff_right ha]
    exact flag ((congrArg (·.2.memFault) hr).symm.trans (memRead_memFault ..))
  | store ht ha =>
    rw [ht, and_iff_right ha]
    exact flag (memWrite_memFault ..)
  | lr ht ha hr =>
    rw [ht, and_iff_right ha]
    exact flag ((congrArg (·.2.memFault) hr).symm.trans (memRead_memFault ..))
  | scDone ht ha hc =>
    rw [ht, and_iff_right ha, and_iff_right hc]
    exact flag (memWrite_memFault ..)
  | scFailed ht ha hc =>
    rw [ht]
    exact iff_of_false (he ▸ Bool.false_ne_true) fun h => hc h.2.1
  | @amo v m' ht ha hr =>
    -- the store half keeps the flag of the load half
    have hload : m'.memFault ↔ (dataPaddr bus pick s (accessAddr s d) .load e).1 = none :=
      flag ((congrArg (·.2.memFault) hr).symm.trans (memRead_memFault ..))
    have hm' : (memRead bus pick s (accessAddr s d) 4 e).2 = m' := congrArg Prod.snd hr
    rw [ht, and_iff_right ha, hm', ← hload]
    dsimp only [done, issMemIf]
    rw [memWrite_memFault, dataPaddr_congr (s := s) (by simp) (by simp), Bool.or_eq_true,
      Option.isNone_iff_eq_none, or_comm]
  | quiet _ hm hq =>
    refine iff_of_false ?_ fun h => ?_
    · rcases hm with hm | hm
      · rw [hm, he]
        exact Bool.false_ne_true
      · rw [hm]
        exact he ▸ Bool.false_ne_true
    · by_cases ht : d.type.memKind = none
      · rw [ht] at h
        exact h.2
      · exact (hq ht).1 h.1

/-- An instruction that raises an exception accesses no memory. -/
theorem memFault_of_exception (h : (execute (issMemIf bus pick) s d e).res.exception) :
    (execute (issMemIf bus pick) s d e).mem.memFault = e.memFault := by
  have hacc := execute_accesses (issMemIf bus pick) s d e
  generalize execute (issMemIf bus pick) s d e = x at h hacc
  cases hacc with
  | quiet _ hm =>
    rcases hm with hm | hm
    · rw [hm]
    · rw [hm]
      rfl
  | load | store | lr | scDone | scFailed | amo => cases h

end Refused

end VirtualSoC
