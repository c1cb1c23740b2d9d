import VirtualSoC.Cpu.Atomic

/-!
# The trap-virtualisation bits of `mstatus`

TVM, TW and TSR take operations away from the modes below a monitor: SFENCE.VMA and the accesses to
`satp` from S-mode, WFI from the modes below M, and SRET from S-mode (`Governs`).  The operation
should then raise an illegal-instruction exception and do nothing else, and with the bit clear it
should not be refused (`TrapVirtualised`).

`execute` looks at TVM for SFENCE.VMA and at TSR for SRET, but nothing looks at TW, and neither
does the CSR file look at TVM (`trapVirtualised_iff`).
-/

namespace VirtualSoC

/-- The CSR instruction reads or writes `satp`. -/
def AccessesSatp (d : DecodedInstr) : Prop :=
  (d.type.isCsrrw ∨ d.type.isCsrrsc) ∧ d.csrAddr = csrSatp

instance (d : DecodedInstr) : Decidable (AccessesSatp d) := inferInstanceAs (Decidable (_ ∧ _))

/-- In the mode of `s`, the bit of `mstatus` takes the instruction away. -/
inductive Governs (s : CPUState) (d : DecodedInstr) : Word → Prop
  | sret (ht : d.type = .sret) (hp : s.priv = prvS) : Governs s d mstatusTsr
  | sfenceVma (ht : d.type = .sfenceVma) (hp : s.priv = prvS) : Governs s d mstatusTvm
  | satp (ht : AccessesSatp d) (hp : s.priv = prvS) : Governs s d mstatusTvm
  | wfi (ht : d.type = .wfi) (hp : s.priv < prvM) : Governs s d mstatusTw

section

variable {σ : Type*} (mi : MemIf σ) (s : CPUState) (d : DecodedInstr) (m : σ)

/-- The bits that govern the instruction are honoured. -/
structure TrapVirtualised : Prop where
  /-- Nothing but the exception happens. -/
  set : ∀ bit, Governs s d bit → s.csr.mstatus &&& bit ≠ 0 →
    execute mi s d m = makeException causeIllegalInstr d.raw (s.falling d) m
  clear : ∀ bit, Governs s d bit → s.csr.mstatus &&& bit = 0 →
    ¬ (execute mi s d m).res.exception

/-- The instruction is taken away, and is one of those that nothing looks at the bit for. -/
def Escapes : Prop :=
  d.type = .wfi ∧ s.priv < prvM ∧ s.csr.mstatus &&& mstatusTw ≠ 0 ∨
    AccessesSatp d ∧ s.priv = prvS ∧ s.csr.mstatus &&& mstatusTvm ≠ 0

end

section

variable {σ : Type*} {mi : MemIf σ} {s : CPUState} {d : DecodedInstr} {m : σ}

/-! ### Accesses to `satp` -/

theorem csrWrite_satp {t : CPUState} (haddr : d.csrAddr = csrSatp) (hp : t.priv = prvS) (v : Word) :
    ¬ (csrWrite mi t d m v).res.exception := by
  have hw : t.csr.write (d.csr.setWidth 16) t.priv v = some ({ t.csr with satp := v }, true) := by
    rw [show d.csr.setWidth 16 = csrSatp from haddr, hp]
    rfl
  unfold csrWrite
  rw [hw]
  exact Bool.false_ne_true

theorem read_satp (haddr : d.csrAddr = csrSatp) (hp : s.priv = prvS) :
    (s.falling d).csr.read (d.csr.setWidth 16) (s.falling d).priv = some s.csr.satp := by
  rw [show d.csr.setWidth 16 = csrSatp from haddr, s.fallThrough_priv, hp]
  rfl

/-- A CSR instruction on `satp` is not refused in S-mode. -/
theorem execute_satp (h : AccessesSatp d) (hp : s.priv = prvS) :
    ¬ (execute mi s d m).res.exception := by
  obtain ⟨ht, haddr⟩ := h
  have hread := read_satp haddr hp
  have hwrite (v old : Word) : ¬ (csrWrite mi ((s.falling d).setReg d.rd old) d m v).res.exception :=
    csrWrite_satp haddr (by rw [CPUState.setReg_priv]; exact hp) v
  have hrw (v : Word) : ¬ (execCsrrw mi (s.falling d) d m v).res.exception := by
    unfold execCsrrw
    split
    · rw [hread]
      exact hwrite v _
    · exact csrWrite_satp haddr (t := s.falling d) hp v
  have hrsc (f : Word → Word) : ¬ (execCsrrsc mi (s.falling d) d m f).res.exception := by
    unfold execCsrrsc
    rw [hread]
    dsimp only
    split
    · exact hwrite _ _
    · exact Bool.false_ne_true
  cases htype : d.type
  all_goals simp only [execute, htype]
  case csrrw | csrrwi => exact hrw _
  case csrrs | csrrc | csrrsi | csrrci => exact hrsc _
  all_goals
    rw [htype] at ht
    exact absurd ht (by decide)

/-! ### The other instructions -/

theorem execute_wfi (ht : d.type = .wfi) :
    execute mi s d m = ⟨{ wfi := true }, s.falling d, m⟩ := by
  simp only [execute, ht]
  rfl

variable (mi m) in
theorem execute_sret (ht : d.type = .sret) (hp : s.priv = prvS) :
    if s.csr.mstatus &&& mstatusTsr ≠ 0 then
      execute mi s d m = makeException causeIllegalInstr d.raw (s.falling d) m
    else ¬ (execute mi s d m).res.exception := by
  have hlow : ¬ s.priv < prvS := by rw [hp]; decide
  have hsret : execute mi s d m = execSret (s.falling d) d m := by simp only [execute, ht]; rfl
  rw [hsret, execSret, s.fallThrough_priv, s.fallThrough_csr, if_neg hlow]
  split
  next h => rw [if_pos ⟨h, hp⟩]
  next h =>
    rw [if_neg fun h' => h h'.1]
    exact Bool.false_ne_true

variable (mi m) in
theorem execute_sfenceVma (ht : d.type = .sfenceVma) (hp : s.priv = prvS) :
    if s.csr.mstatus &&& mstatusTvm ≠ 0 then
      execute mi s d m = makeException causeIllegalInstr d.raw (s.falling d) m
    else ¬ (execute mi s d m).res.exception := by
  have hlow : ¬ s.priv < prvS := by rw [hp]; decide
  have hfence : execute mi s d m = execSfenceVma (s.falling d) d m := by
    simp only [execute, ht]
    rfl
  rw [hfence, execSfenceVma, s.fallThrough_priv, s.fallThrough_csr, if_neg hlow]
  split
  next h => rw [if_pos ⟨h, hp⟩]
  next h =>
    rw [if_neg fun h' => h h'.1]
    exact Bool.false_ne_true

end

/-- **The trap-virtualisation bits are honoured but for WFI and the accesses to `satp`.** -/
theorem trapVirtualised_iff {σ : Type*} (mi : MemIf σ) (s : CPUState) (d : DecodedInstr) (m : σ) :
    TrapVirtualised mi s d m ↔ ¬ Escapes s d := by
  constructor
  · rintro h (⟨ht, hp, hbit⟩ | ⟨ht, hp, hbit⟩)
    · have hexc := h.set _ (.wfi ht hp) hbit
      rw [execute_wfi ht] at hexc
      exact absurd (congrArg (·.res.exception) hexc) Bool.false_ne_true
    · have hexc := h.set _ (.satp ht hp) hbit
      exact execute_satp ht hp (congrArg (·.res.exception) hexc)
  · intro hesc
    constructor
    · rintro bit (⟨ht, hp⟩ | ⟨ht, hp⟩ | ⟨ht, hp⟩ | ⟨ht, hp⟩) hbit
      · have hsret := execute_sret mi m ht hp
        rwa [if_pos hbit] at hsret
      · have hfence := execute_sfenceVma mi m ht hp
        rwa [if_pos hbit] at hfence
      · exact absurd (.inr ⟨ht, hp, hbit⟩) hesc
      · exact absurd (.inl ⟨ht, hp, hbit⟩) hesc
    · rintro bit (⟨ht, hp⟩ | ⟨ht, hp⟩ | ⟨ht, hp⟩ | ⟨ht, hp⟩) hbit
      · have hsret := execute_sret mi m ht hp
        rwa [if_neg (not_not.2 hbit)] at hsret
      · have hfence := execute_sfenceVma mi m ht hp
        rwa [if_neg (not_not.2 hbit)] at hfence
      · exact execute_satp ht hp
      · rw [execute_wfi ht]
        exact Bool.false_ne_true

/-- A supervisor whose monitor has set TVM reads `satp`. -/
theorem not_trapVirtualised :
    ¬ ∀ (mi : MemIf Unit) (s : CPUState) (w : Word), TrapVirtualised mi s (decode w) () := by
  intro h
  -- csrrs x1, satp, x0
  have hexc := (h ⟨fun _ _ _ m => (0, m), fun _ _ _ _ m => m, id⟩
    { priv := prvS, csr := { mstatus := mstatusTvm } } 0x180020F3).set _
      (.satp (by decide) rfl) (by decide)
  exact absurd (congrArg (·.res.exception) hexc) (by decide)

end VirtualSoC
