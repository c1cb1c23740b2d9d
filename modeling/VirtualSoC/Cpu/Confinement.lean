import VirtualSoC.Cpu.WellFormed

/-!
# Privilege confinement

Below M-mode an instruction that raises no exception keeps every machine-level field of the CSR
file (`MachineEq`) and does not raise the privilege; in U-mode it changes neither.  The privilege
rises through `takeTrap` only and falls through MRET and SRET only (`privilege_confined`).
-/

namespace VirtualSoC

/-- The machine-level part of two CSR files is the same. -/
structure MachineEq (c c' : CSRFile) : Prop where
  mtvec : c'.mtvec = c.mtvec
  medeleg : c'.medeleg = c.medeleg
  mideleg : c'.mideleg = c.mideleg
  mcounteren : c'.mcounteren = c.mcounteren
  mscratch : c'.mscratch = c.mscratch
  mepc : c'.mepc = c.mepc
  mcause : c'.mcause = c.mcause
  mtval : c'.mtval = c.mtval
  misa : c'.misa = c.misa
  hwMip : c'.hwMip = c.hwMip
  mstatus : c'.mstatus &&& ~~~sstatusMask = c.mstatus &&& ~~~sstatusMask
  mie : c'.mie &&& ~~~sIntMask = c.mie &&& ~~~sIntMask

theorem MachineEq.refl (c : CSRFile) : MachineEq c c := by
  constructor <;> rfl

/-! ### CSR writes -/

/-- Replacing the bits under a mask keeps the others. -/
theorem replace_and_not (x v k : Word) :
    ((x &&& ~~~k) ||| (v &&& k)) &&& ~~~k = x &&& ~~~k := by
  ext i hi
  cases hk : k[i] <;> simp [hk]

/-- A register that S-mode may write is no machine-level one, and no register is writable from
U-mode. -/
theorem CSRFile.writeReg_confined {c : CSRFile} {addr : BitVec 16} {v : Word} :
    ∀ c', c.writeReg addr v = some c' →
      (privOk addr prvS → MachineEq c c') ∧ privOk addr prvU = false := by
  unfold writeReg
  repeat' apply forall_some_ite
  all_goals first | rintro rfl c' ⟨⟩ | rintro c' ⟨⟩
  all_goals refine ⟨fun hp => ?_, by decide⟩
  all_goals first
    | exact absurd hp (by decide)
    | constructor <;> first | rfl | exact replace_and_not _ _ _

theorem CSRFile.write_machineEq {c c' : CSRFile} {addr : BitVec 16} {v : Word} {b : Bool}
    (h : c.write addr prvS v = some (c', b)) : MachineEq c c' := by
  obtain ⟨hp, -, hw, -⟩ := CSRFile.write_eq_some h
  exact (writeReg_confined c' hw).1 hp

theorem CSRFile.write_prvU {c c' : CSRFile} {addr : BitVec 16} {v : Word} {b : Bool}
    (h : c.write addr prvU v = some (c', b)) : False := by
  obtain ⟨hp, -, hw, -⟩ := CSRFile.write_eq_some h
  rw [(writeReg_confined c' hw).2] at hp
  cases hp

/-! ### Instructions -/

/-- SRET changes `mstatus` in the bits that S-mode sees. -/
theorem sretMstatus_and_not (x : Word) :
    sretMstatus x &&& ~~~sstatusMask = x &&& ~~~sstatusMask := by
  unfold sretMstatus
  rw [Bits.and_and_of_subset (by decide), Bits.or_and_of_disjoint (by decide),
    Bits.and_or_and_of_disjoint (by split <;> decide) (by decide)]

section Instructions

variable {σ : Type*} {s : CPUState} {d : DecodedInstr} {e : Executed σ}

/-- What an instruction executed in S-mode leaves when it raises no exception. -/
theorem Leaves.confined_prvS (h : Leaves s d e) (hs : s.priv = prvS)
    (hx : e.res.exception = false) : e.cpu.priv ≤ s.priv ∧ MachineEq s.csr e.cpu.csr := by
  have heff := h.effect
  rw [hx] at heff
  cases heff with
  | seq hp hc hn | jump hp hc ht hn | jalr x hp hc hn =>
    rw [hp, hc]
    exact ⟨BitVec.le_refl _, .refl _⟩
  | csr addr v b hp hc hn =>
    rw [hs] at hc
    rw [hp]
    exact ⟨BitVec.le_refl _, CSRFile.write_machineEq hc⟩
  | mret ht hM hp hc hn => exact absurd (by rw [hs]; decide) hM
  | sret ht hS hp hc hn =>
    rw [hc, hs]
    refine ⟨?_, ?_⟩
    · rcases hp with hp | hp <;> rw [hp] <;> decide
    · constructor <;> first | rfl | exact sretMstatus_and_not _

/-- An instruction executed in U-mode that raises no exception changes neither the privilege nor
any CSR. -/
theorem Leaves.confined_prvU (h : Leaves s d e) (hs : s.priv = prvU)
    (hx : e.res.exception = false) : e.cpu.priv = s.priv ∧ e.cpu.csr = s.csr := by
  have heff := h.effect
  rw [hx] at heff
  cases heff with
  | seq hp hc hn | jump hp hc ht hn | jalr x hp hc hn => exact ⟨hp, hc⟩
  | csr addr v b hp hc hn =>
    rw [hs] at hc
    exact (CSRFile.write_prvU hc).elim
  | mret ht hM hp hc hn => exact absurd (by rw [hs]; decide) hM
  | sret ht hS hp hc hn => exact absurd (by rw [hs]; decide) hS

/-- An instruction that changes the privilege is MRET or SRET. -/
theorem Leaves.ret_of_priv_ne (h : Leaves s d e) (hp : e.cpu.priv ≠ s.priv) :
    (d.type = .mret ∨ d.type = .sret) ∧ e.res.exception = false := by
  have heff := h.effect
  generalize e.res.exception = x at heff ⊢
  cases heff with
  | seq he | jump he | jalr _ he | csr _ _ _ he => exact absurd he hp
  | mret ht => exact ⟨.inl ht, rfl⟩
  | sret ht => exact ⟨.inr ht, rfl⟩

theorem Leaves.priv_le (h : Leaves s d e) : e.cpu.priv ≤ s.priv := by
  have heff := h.effect
  generalize e.res.exception = x at heff
  cases heff with
  | seq he | jump he | jalr _ he | csr _ _ _ he => exact he ▸ BitVec.le_refl _
  | mret ht hM he =>
    have hle : (((s.csr.mstatus >>> mstatusMppShift) &&& 0x3).setWidth 8).toNat ≤ 3 := by
      rw [BitVec.toNat_setWidth, BitVec.toNat_and]
      exact Nat.le_trans (Nat.mod_le _ _) Nat.and_le_right
    rw [he, BitVec.le_def]
    rw [BitVec.lt_def] at hM
    exact Nat.le_trans hle (Nat.le_of_not_lt hM)
  | sret ht hS he =>
    rw [BitVec.le_def]
    rw [BitVec.lt_def] at hS
    rcases he with he | he <;> rw [he]
    · exact Nat.le_of_not_lt hS
    · exact Nat.zero_le _

end Instructions

theorem execute_mem_of_ret {σ : Type*} (mi : MemIf σ) (s : CPUState) {d : DecodedInstr} (m : σ)
    (h : d.type = .mret ∨ d.type = .sret) : (execute mi s d m).mem = m := by
  rcases h with h | h
  · simp only [execute, h, execMret]
    split <;> rfl
  · simp only [execute, h, execSret]
    split
    · rfl
    · split <;> rfl

/-! ### Traps -/

theorem takeTrap_priv_le {s : CPUState} (h : s.priv ≤ prvM) (cause tval : Word) :
    s.priv ≤ (takeTrap s cause tval).priv := by
  unfold takeTrap
  split
  next hd =>
    simp only [trapDelegated, decide_eq_true_eq] at hd
    exact hd.1
  · exact h

theorem takeTrap_priv_le_prvM (s : CPUState) (cause tval : Word) :
    (takeTrap s cause tval).priv ≤ prvM := by
  unfold takeTrap
  split
  · exact (by decide : prvS ≤ prvM)
  · exact BitVec.le_refl prvM

/-! ### Runs -/

/-- The privilege after a step from privilege `p`: it is legal, it has risen only if a trap was
taken, and fallen only if MRET or SRET was executed without a trap. -/
structure PrivStep {β : Type*} (p : Priv) (r : ISS β × Event) : Prop where
  le : r.1.state.priv ≤ prvM
  rise : p < r.1.state.priv → ∃ t cause tval, r.2.trap = some cause ∧
    r.1.state.priv = (takeTrap t cause tval).priv
  fall : r.1.state.priv < p → r.2.trap = none ∧
    ∃ d, r.2.insn = some d ∧ (d.type = .mret ∨ d.type = .sret)

namespace PrivStep

variable {β : Type*} {bus : PhysBus β} {p : Priv}

theorem of_eq {r : ISS β × Event} (hp : p ≤ prvM) (h : r.1.state.priv = p) : PrivStep p r :=
  ⟨h ▸ hp, fun hr => absurd (h ▸ hr) (BitVec.lt_irrefl _),
    fun hf => absurd (h ▸ hf) (BitVec.lt_irrefl _)⟩

theorem of_takeTrap {r : ISS β × Event} (hp : p ≤ prvM) (t : CPUState) (cause tval : Word)
    (ht : t.priv = p) (hr : r.1.state.priv = (takeTrap t cause tval).priv)
    (hc : r.2.trap = some cause) : PrivStep p r where
  le := hr ▸ takeTrap_priv_le_prvM t cause tval
  rise _ := ⟨t, cause, tval, hc, hr⟩
  fall hf := by
    have hle := takeTrap_priv_le (ht ▸ hp : t.priv ≤ prvM) cause tval
    rw [ht, ← hr] at hle
    exact absurd hf (BitVec.not_lt.2 hle)

theorem retire (iss : ISS β) (r : ExecResult) (d : DecodedInstr) (hp : p ≤ prvM)
    (hle : iss.state.priv ≤ p)
    (hne : iss.state.priv ≠ p → (d.type = .mret ∨ d.type = .sret) ∧ r.exception = false) :
    PrivStep p (iss.retire bus r d) := by
  have quiet {r' : ISS β × Event} (hr : r'.1.state.priv = iss.state.priv)
      (ht : r'.2.trap = none) (hi : r'.2.insn = some d) : PrivStep p r' := by
    by_cases he : iss.state.priv = p
    · exact of_eq hp (hr.trans he)
    · refine ⟨hr ▸ BitVec.le_trans hle hp, fun h => ?_, fun _ => ⟨ht, d, hi, (hne he).1⟩⟩
      exact absurd (hr ▸ h) (BitVec.not_lt.2 hle)
  unfold ISS.retire
  dsimp only
  split
  · exact quiet rfl rfl rfl
  · split
    next hx =>
      have he : iss.state.priv = p := by
        by_contra he
        rw [(hne he).2] at hx
        cases hx
      exact of_takeTrap hp { iss.state with csr := iss.state.csr.incMcycle.incMinstret } r.cause
        r.tval he rfl rfl
    · split
      · exact quiet rfl rfl rfl
      · exact quiet rfl rfl rfl

theorem stepInsn (iss : ISS β) (d : DecodedInstr) (pick : Tlb → ℕ) (hp : iss.state.priv ≤ prvM) :
    PrivStep iss.state.priv (iss.stepInsn bus pick d) := by
  have hl := execute_leaves (issMemIf bus pick)
    { iss.state with nextPc := iss.state.pc + d.instrLen } d { iss.env with memFault := false }
  unfold ISS.stepInsn
  dsimp only
  split
  next hf =>
    refine of_takeTrap hp _ _ _ ?_ rfl rfl
    by_contra he
    rw [execute_mem_of_ret _ _ _ (hl.ret_of_priv_ne he).1] at hf
    cases hf
  · exact retire _ _ _ hp hl.priv_le hl.ret_of_priv_ne

theorem iterate (iss : ISS β) (pick : Tlb → ℕ) (hp : iss.state.priv ≤ prvM) :
    PrivStep iss.state.priv (iss.iterate bus pick) := by
  unfold ISS.iterate
  split
  · exact of_eq hp rfl
  · split
    · exact of_eq hp rfl
    · dsimp only
      split
      · exact of_takeTrap hp iss.state _ 0 rfl rfl rfl
      · split
        · exact of_takeTrap hp iss.state _ iss.state.pc rfl rfl rfl
        · split
          · exact of_takeTrap hp iss.state _ iss.state.pc rfl rfl rfl
          next raw env _ => exact stepInsn { iss with env } (decode raw) pick hp

theorem step (iss : ISS β) (i : Input β) (hp : iss.state.priv ≤ prvM) :
    PrivStep iss.state.priv ((issMachine bus).step iss i) := by
  cases i with
  | cycle pick => exact iterate iss pick hp
  | line bit v => exact of_eq hp rfl
  | world f => exact of_eq hp rfl
  | halt => exact of_eq hp rfl
  | resume => exact of_eq hp rfl
  | step => exact of_eq hp rfl

end PrivStep

/-- **Privilege confinement.**  Below M-mode an instruction that raises no exception raises no
privilege and changes no machine-level field, and in U-mode neither privilege nor CSR file; a trap
never lowers the privilege; and along every run the privilege rises through a trap and falls
through MRET or SRET only. -/
theorem privilege_confined {σ β : Type*} (mi : MemIf σ) (bus : PhysBus β) :
    (∀ (s : CPUState) (w : Word) (m : σ), s.priv = prvS ∨ s.priv = prvU →
      (execute mi s (decode w) m).res.exception = false →
        (execute mi s (decode w) m).cpu.priv ≤ s.priv ∧
        MachineEq s.csr (execute mi s (decode w) m).cpu.csr ∧
        (s.priv = prvU → (execute mi s (decode w) m).cpu.priv = s.priv ∧
          (execute mi s (decode w) m).cpu.csr = s.csr)) ∧
    (∀ (s : CPUState) (cause tval : Word), s.priv ≤ prvM →
      s.priv ≤ (takeTrap s cause tval).priv) ∧
    (∀ (iss : ISS β) (inputs : List (Input β)) (i : Input β), iss.state.priv ≤ prvM →
      PrivStep ((issMachine bus).run iss inputs).state.priv
        ((issMachine bus).step ((issMachine bus).run iss inputs) i)) := by
  refine ⟨fun s w m hs hx => ?_, fun s cause tval h => takeTrap_priv_le h cause tval,
    fun iss inputs i h => ?_⟩
  · have hl := execute_leaves mi s (decode w) m
    rcases hs with hs | hs
    · obtain ⟨hle, hm⟩ := hl.confined_prvS hs hx
      refine ⟨hle, hm, fun hu => ?_⟩
      rw [hs] at hu
      exact absurd hu (by decide)
    · obtain ⟨hp, hc⟩ := hl.confined_prvU hs hx
      exact ⟨hl.priv_le, hc ▸ .refl _, fun _ => ⟨hp, hc⟩⟩
  · have hI : ((issMachine bus).run iss inputs).state.priv ≤ prvM :=
      Machine.run_invariant (M := issMachine bus) (I := fun iss => iss.state.priv ≤ prvM) h
        (fun iss i h => (PrivStep.step iss i h).le) inputs
    exact PrivStep.step _ i hI

/-- `csrw sstatus, x0` in S-mode, an ECALL from S-mode, and the first instruction after reset. -/
theorem privilege_confined_csrw :
    let mi : MemIf Unit := ⟨fun _ _ _ u => (0, u), fun _ _ _ _ u => u, id⟩
    let bus : PhysBus Unit := ⟨fun _ _ u => (0x10001073, u), fun _ _ _ u => u, id⟩
    MachineEq {} (execute mi { priv := prvS } (decode 0x10001073) ()).cpu.csr ∧
      prvS ≤ (takeTrap { priv := prvS } causeEcallS 0).priv ∧
      PrivStep prvM ((issMachine bus).step (.reset 0 () false) (.cycle fun _ => 0)) := by
  intro mi bus
  have h := privilege_confined mi bus
  exact ⟨(h.1 { priv := prvS } 0x10001073 () (.inl rfl) rfl).2.1,
    h.2.1 { priv := prvS } causeEcallS 0 (by decide),
    h.2.2 (.reset 0 () false) [] (.cycle fun _ => 0) (BitVec.le_refl prvM)⟩

end VirtualSoC
