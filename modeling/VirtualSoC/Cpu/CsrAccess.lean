import VirtualSoC.Cpu.Atomic

/-!
# Which CSR accesses are refused

The privileged architecture allows a write to every CSR that exists, is not in the read-only
quadrant and belongs to the mode or a lower one.  A read may be of the read-only quadrant, too, but
the user counters need permission: below M-mode by `mcounteren`, and in U-mode by `scounteren`
(`AccessControlled`).

`CSRFile::read` never looks at these two registers, so it lets a read through that they forbid, and
is right about all other accesses (`accessControlled_iff`).
-/

namespace VirtualSoC

/-! ### The access rules -/

/-- The addresses of the CSRs. -/
def csrAddrs : List (BitVec 16) :=
  [csrMvendorid, csrMarchid, csrMimpid, csrMhartid, csrMstatus, csrMisa, csrMedeleg, csrMideleg,
    csrMie, csrMtvec, csrMcounteren, csrMscratch, csrMepc, csrMcause, csrMtval, csrMip, csrMcycle,
    csrMcycleh, csrMinstret, csrMinstreth, csrCycle, csrCycleh, csrInstret, csrInstreth, csrTime,
    csrTimeh, csrSstatus, csrSie, csrStvec, csrScounteren, csrSscratch, csrSepc, csrScause,
    csrStval, csrSip, csrSatp]

/-- The quadrant of the read-only CSRs. -/
def InReadOnlyQuadrant (addr : BitVec 16) : Prop := addr.extractLsb' 10 2 = 3

/-- The mode is at least the one that the CSR belongs to. -/
def PrivSuffices (addr : BitVec 16) (priv : Priv) : Prop :=
  (addr.extractLsb' 8 2).toNat ≤ priv.toNat

/-- The bit of the counter-enable registers for a user counter. -/
def counterBit (addr : BitVec 16) : Option ℕ :=
  if addr = csrCycle ∨ addr = csrCycleh then some 0
  else if addr = csrTime ∨ addr = csrTimeh then some 1
  else if addr = csrInstret ∨ addr = csrInstreth then some 2
  else none

/-- Where the CSR is a user counter, the mode may read it. -/
def CounterEnabled (c : CSRFile) (addr : BitVec 16) (priv : Priv) : Prop :=
  ∀ i ∈ counterBit addr, priv < prvM →
    c.mcounteren.getLsbD i ∧ (priv = prvU → c.scounteren.getLsbD i)

/-- The accesses to the CSR are refused exactly where the architecture says, and then nothing is
changed, not by the instruction that makes the access either. -/
structure AccessControlled (c : CSRFile) (addr : BitVec 16) (priv : Priv) : Prop where
  write : ∀ v, (c.write addr priv v).isSome ↔
    addr ∈ csrAddrs ∧ ¬ InReadOnlyQuadrant addr ∧ PrivSuffices addr priv
  read : (c.read addr priv).isSome ↔
    addr ∈ csrAddrs ∧ PrivSuffices addr priv ∧ CounterEnabled c addr priv
  refused : ∀ {σ : Type} (mi : MemIf σ) (s : CPUState) (d : DecodedInstr) (m : σ), s.csr = c →
    s.priv = priv → d.csrAddr = addr → d.type.isCsrrw ∨ d.type.isCsrrsc →
    (execute mi s d m).res.exception →
      (execute mi s d m).cpu.csr = c ∧ (execute mi s d m).mem = m

/-! ### The checks of the CSR file -/

theorem isReadOnly_iff (addr : BitVec 16) : CSRFile.isReadOnly addr ↔ InReadOnlyQuadrant addr := by
  unfold CSRFile.isReadOnly InReadOnlyQuadrant
  rw [decide_eq_true_eq, ← BitVec.toNat_inj, ← BitVec.toNat_inj]
  simp [Nat.and_two_pow_sub_one_eq_mod _ 2]

theorem privOk_iff (addr : BitVec 16) (priv : Priv) :
    CSRFile.privOk addr priv ↔ PrivSuffices addr priv := by
  unfold CSRFile.privOk PrivSuffices
  rw [decide_eq_true_eq, BitVec.le_def]
  have hbits : (((addr >>> 8) &&& 0x3).setWidth 8 : Priv).toNat = (addr.extractLsb' 8 2).toNat := by
    simp [Nat.and_two_pow_sub_one_eq_mod _ 2]
  rw [hbits]

theorem isSome_ite_iff {α : Type*} {p : Prop} [Decidable p] {x : α} {o : Option α} :
    (if p then some x else o).isSome ↔ p ∨ o.isSome := by
  split
  next h => exact iff_of_true rfl (.inl h)
  next h => exact (or_iff_right h).symm

namespace CSRFile

variable (c : CSRFile) (addr : BitVec 16) (priv : Priv)

theorem readReg_isSome_iff : (c.readReg addr).isSome ↔ addr ∈ csrAddrs := by
  unfold readReg csrAddrs
  simp only [isSome_ite_iff, List.mem_cons, Option.isSome_none, List.not_mem_nil,
    Bool.false_eq_true]

theorem mem_csrAddrs_of_writeReg (v : Word) :
    ∀ c', c.writeReg addr v = some c' → addr ∈ csrAddrs := by
  unfold writeReg
  repeat' apply forall_some_ite
  all_goals first | rintro rfl c' - | rintro c' ⟨⟩
  all_goals decide

theorem read_isSome_iff :
    (c.read addr priv).isSome ↔ addr ∈ csrAddrs ∧ PrivSuffices addr priv := by
  rw [← privOk_iff, ← readReg_isSome_iff c, and_comm]
  unfold read
  cases privOk addr priv <;> simp

theorem write_isSome_iff (v : Word) : (c.write addr priv v).isSome ↔
    addr ∈ csrAddrs ∧ ¬ InReadOnlyQuadrant addr ∧ PrivSuffices addr priv := by
  rw [← privOk_iff, ← isReadOnly_iff]
  unfold write
  cases hp : privOk addr priv with
  | false => simp
  | true =>
    cases hro : isReadOnly addr with
    | true => simp
    | false =>
      have hreg : (c.writeReg addr v).isSome ↔ addr ∈ csrAddrs := by
        constructor
        · intro h
          obtain ⟨c', hc⟩ := Option.isSome_iff_exists.1 h
          exact mem_csrAddrs_of_writeReg c addr v c' hc
        · intro h
          obtain ⟨old, hold⟩ := Option.isSome_iff_exists.1 ((readReg_isSome_iff c addr).2 h)
          exact writeReg_isSome v old hold hro
      simpa using hreg

end CSRFile

/-! ### CSR instructions -/

section Instructions

variable {σ : Type*} {mi : MemIf σ} {s : CPUState} {d : DecodedInstr} {m : σ}

/-- An exception leaves the CSR file and the memory as they were. -/
def KeptOnException (s : CPUState) (m : σ) (x : Executed σ) : Prop :=
  x.res.exception → x.cpu.csr = s.csr ∧ x.mem = m

theorem keptOnException_makeException (cause tval : Word) :
    KeptOnException s m (makeException cause tval (s.falling d) m) :=
  fun _ => ⟨rfl, rfl⟩

theorem keptOnException_csrWrite {t : CPUState} (ht : t.csr = s.csr) (v : Word) :
    KeptOnException s m (csrWrite mi t d m v) := by
  unfold csrWrite
  split
  · exact fun _ => ⟨ht, rfl⟩
  · nofun

theorem keptOnException_csrrw (v : Word) :
    KeptOnException s m (execCsrrw mi (s.falling d) d m v) := by
  unfold execCsrrw
  split
  · split
    · exact keptOnException_makeException _ _
    · exact keptOnException_csrWrite (CPUState.setReg_csr ..) v
  · exact keptOnException_csrWrite rfl v

theorem keptOnException_csrrsc (f : Word → Word) :
    KeptOnException s m (execCsrrsc mi (s.falling d) d m f) := by
  unfold execCsrrsc
  split
  · exact keptOnException_makeException _ _
  · dsimp only
    split
    · exact keptOnException_csrWrite (CPUState.setReg_csr ..) _
    · nofun

/-- A CSR instruction whose access is refused leaves the CSR file and the memory as they were. -/
theorem keptOnException_execute (ht : d.type.isCsrrw ∨ d.type.isCsrrsc) :
    KeptOnException s m (execute mi s d m) := by
  cases htype : d.type
  all_goals simp only [execute, htype]
  case csrrw | csrrwi => exact keptOnException_csrrw _
  case csrrs | csrrc | csrrsi | csrrci => exact keptOnException_csrrsc _
  all_goals
    rw [htype] at ht
    exact absurd ht (by decide)

end Instructions

theorem counterBit_spec (addr : BitVec 16) :
    ∀ i, counterBit addr = some i → addr ∈ csrAddrs ∧ ∀ priv, PrivSuffices addr priv := by
  have huser {a : BitVec 16} (h : a.extractLsb' 8 2 = 0) (priv : Priv) : PrivSuffices a priv := by
    rw [PrivSuffices, h]
    exact Nat.zero_le _
  unfold counterBit
  repeat' apply forall_some_ite
  · rintro (rfl | rfl) i -
    · exact ⟨by decide, huser (by decide)⟩
    · exact ⟨by decide, huser (by decide)⟩
  · rintro (rfl | rfl) i -
    · exact ⟨by decide, huser (by decide)⟩
    · exact ⟨by decide, huser (by decide)⟩
  · rintro (rfl | rfl) i -
    · exact ⟨by decide, huser (by decide)⟩
    · exact ⟨by decide, huser (by decide)⟩
  · nofun

/-- **CSR access control is exact but for the user counters that are not enabled.** -/
theorem accessControlled_iff (c : CSRFile) (addr : BitVec 16) (priv : Priv) :
    AccessControlled c addr priv ↔ CounterEnabled c addr priv := by
  constructor
  · intro h i hi
    obtain ⟨hmem, hpriv⟩ := counterBit_spec addr i hi
    have hread := h.read.1 ((c.read_isSome_iff addr priv).2 ⟨hmem, hpriv priv⟩)
    exact hread.2.2 i hi
  · intro h
    refine ⟨c.write_isSome_iff addr priv, ?_, ?_⟩
    · rw [c.read_isSome_iff, and_iff_left h]
    · rintro σ mi s d m rfl - - ht hexc
      exact keptOnException_execute ht hexc

/-- U-mode reads `cycle` although `mcounteren` is clear. -/
theorem not_accessControlled :
    ¬ ∀ (c : CSRFile) (addr : BitVec 16) (priv : Priv), priv = prvU ∨ priv = prvS ∨ priv = prvM →
      AccessControlled c addr priv := by
  intro h
  have hread := (h {} csrCycle prvU (.inl rfl)).read.1 (by decide)
  exact absurd (hread.2.2 0 rfl (by decide)).1 (by decide)

end VirtualSoC
