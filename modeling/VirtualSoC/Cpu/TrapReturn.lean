import VirtualSoC.Cpu.Trap
import VirtualSoC.Cpu.WellFormed

/-!
# Trap entry and return

Each level that takes traps keeps a stack of depth two in `mstatus`: a trap pushes the interrupt
enable and the privilege, the return instruction pops them (`mtrapMstatus_eq`, `mretMstatus_eq` and
their S-mode counterparts).  `trap_return` : the return instruction of the level that a trap
entered undoes the trap.
-/

namespace VirtualSoC

/-- The levels that take traps. -/
inductive TrapLevel | m | s
  deriving DecidableEq, Repr

/-- The level that a trap enters. -/
def enteredLevel (s : CPUState) (cause : Word) : TrapLevel :=
  if trapDelegated s cause then .s else .m

namespace TrapLevel

/-- The interrupt enable of the level. -/
def ie : TrapLevel → Word
  | m => mstatusMie
  | s => mstatusSie

/-- The saved interrupt enable. -/
def pie : TrapLevel → Word
  | m => mstatusMpie
  | s => mstatusSpie

/-- The saved privilege. -/
def pp : TrapLevel → Word
  | m => mstatusMppMask
  | s => mstatusSpp

/-- The return instruction of the level. -/
def ret : TrapLevel → InstrType
  | m => .mret
  | s => .sret

/-- The trap CSRs of the level, all but `mstatus`. -/
def setTrap (l : TrapLevel) (epc cause tval : Word) (c : CSRFile) : CSRFile :=
  match l with
  | m => { c with mepc := epc, mcause := cause, mtval := tval }
  | s => { c with sepc := epc, scause := cause, stval := tval }

end TrapLevel

/-! ### `mstatus` -/

theorem mtrapMstatus_eq (x : Word) (priv : Priv) :
    mtrapMstatus x priv =
      Bits.push mstatusMie mstatusMpie mstatusMppMask (priv.setWidth 32 <<< mstatusMppShift) x :=
  rfl

theorem strapMstatus_eq (x : Word) (priv : Priv) :
    strapMstatus x priv =
      Bits.push mstatusSie mstatusSpie mstatusSpp (if priv = prvS then mstatusSpp else 0) x :=
  rfl

theorem mretMstatus_eq (x : Word) :
    mretMstatus x = Bits.pop mstatusMie mstatusMpie mstatusMppMask x := rfl

theorem sretMstatus_eq (x : Word) :
    sretMstatus x = Bits.pop mstatusSie mstatusSpie mstatusSpp x := rfl

theorem mretMstatus_mtrapMstatus (x : Word) {priv : Priv}
    (hp : priv = prvU ∨ priv = prvS ∨ priv = prvM) :
    mretMstatus (mtrapMstatus x priv) = (x ||| mstatusMpie) &&& ~~~mstatusMppMask := by
  rw [mtrapMstatus_eq, mretMstatus_eq]
  refine Bits.pop_push (Bits.and_twoPow_of_ne_zero (i := 3)) (by decide) (by decide)
    (by decide) ?_ ?_
  · rcases hp with rfl | rfl | rfl <;> decide
  · rcases hp with rfl | rfl | rfl <;> decide

theorem sretMstatus_strapMstatus (x : Word) (priv : Priv) :
    sretMstatus (strapMstatus x priv) = (x ||| mstatusSpie) &&& ~~~mstatusSpp := by
  rw [strapMstatus_eq, sretMstatus_eq]
  refine Bits.pop_push (Bits.and_twoPow_of_ne_zero (i := 1)) (by decide) (by decide)
    (by decide) ?_ ?_
  · split <;> decide
  · split <;> decide

theorem mtrapMstatus_mpp (x : Word) {priv : Priv}
    (hp : priv = prvU ∨ priv = prvS ∨ priv = prvM) :
    (mpp (mtrapMstatus x priv)).setWidth 8 = priv := by
  unfold mtrapMstatus
  rw [mpp_replace _ (by rcases hp with rfl | rfl | rfl <;> decide)]
  rcases hp with rfl | rfl | rfl <;> decide

theorem strapMstatus_spp (x : Word) (priv : Priv) :
    strapMstatus x priv &&& mstatusSpp = if priv = prvS then mstatusSpp else 0 := by
  unfold strapMstatus
  exact Bits.clear_or_and (by split <;> decide)

theorem strapMstatus_tsr (x : Word) (priv : Priv) :
    strapMstatus x priv &&& mstatusTsr = x &&& mstatusTsr := by
  unfold strapMstatus
  rw [Bits.and_or_and_of_disjoint (by split <;> decide) (by decide),
    Bits.and_and_of_subset (by decide),
    Bits.and_or_and_of_disjoint (by split <;> decide) (by decide)]

/-! ### Return -/

/-- `u` is `s` again, after a trap into the level `l` and the return from it. -/
structure Returned (l : TrapLevel) (cause tval : Word) (s u : CPUState) : Prop where
  priv : u.priv = s.priv
  pc : u.nextPc = s.pc
  ie : u.csr.mstatus &&& l.ie = s.csr.mstatus &&& l.ie
  pie : u.csr.mstatus &&& l.pie = l.pie
  pp : u.csr.mstatus &&& l.pp = 0
  rest : u.csr.mstatus &&& ~~~(l.pie ||| l.pp) = s.csr.mstatus &&& ~~~(l.pie ||| l.pp)
  /-- No CSR of the other level has changed. -/
  csr : u.csr = l.setTrap s.pc cause tval { s.csr with mstatus := u.csr.mstatus }

theorem Returned.of_mstatus {l : TrapLevel} {cause tval : Word} {s u : CPUState}
    (hp : u.priv = s.priv) (hpc : u.nextPc = s.pc)
    (hm : u.csr.mstatus = (s.csr.mstatus ||| l.pie) &&& ~~~l.pp)
    (hc : u.csr = l.setTrap s.pc cause tval { s.csr with mstatus := u.csr.mstatus }) :
    Returned l cause tval s u where
  priv := hp
  pc := hpc
  ie := by
    rw [hm]
    cases l <;> exact Bits.or_and_and_of_disjoint (by decide) (by decide)
  pie := by
    have hpie (x : Word) : (x ||| l.pie) &&& l.pie = l.pie := by
      rw [BitVec.or_comm]
      exact Bits.or_and_of_subset BitVec.and_self
    rw [hm, Bits.and_and_of_subset (by cases l <;> decide)]
    exact hpie _
  pp := by
    rw [hm, BitVec.and_assoc]
    cases l <;> exact BitVec.and_zero
  rest := by
    rw [hm]
    cases l <;> exact Bits.or_and_and_of_disjoint (by decide) (by decide)
  csr := hc

theorem and_not_one_of_isEven {x : Word} (h : IsEven x) : x &&& ~~~0x1 = x :=
  Bits.and_not_of_and_eq_zero h

section Return

variable {s t : CPUState} {cause tval : Word} {σ : Type*} (mi : MemIf σ) (m : σ) {d : DecodedInstr}

theorem sret_takeTrap (hp : s.priv = prvU ∨ s.priv = prvS ∨ s.priv = prvM) (hpc : IsEven s.pc)
    (htsr : s.csr.mstatus &&& mstatusTsr = 0) (hdel : trapDelegated s cause)
    (hc : t.csr = (takeTrap s cause tval).csr) (hpriv : t.priv = (takeTrap s cause tval).priv)
    (hd : d.type = .sret) :
    (execute mi t d m).res = {} ∧ (execute mi t d m).mem = m ∧
      (execute mi t d m).cpu.regs = t.regs ∧
      Returned .s cause tval s (execute mi t d m).cpu := by
  have hepc := and_not_one_of_isEven hpc
  simp only [takeTrap, if_pos hdel] at hc hpriv
  have hnotM : ¬ t.priv < prvS := by
    rw [hpriv]
    decide
  have htsr' : ¬ (t.csr.mstatus &&& mstatusTsr ≠ 0 ∧ t.priv = prvS) := by
    rw [hc]
    dsimp only
    rw [strapMstatus_tsr, htsr]
    exact fun h => h.1 rfl
  have hx : execute mi t d m = execSret { t with nextPc := t.pc + d.instrLen } d m := by
    simp only [execute, hd]
  rw [hx]
  simp only [execSret, if_neg hnotM, if_neg htsr']
  refine ⟨rfl, rfl, rfl, .of_mstatus ?_ ?_ ?_ ?_⟩
  · dsimp only [done]
    rw [hc]
    dsimp only
    rw [strapMstatus_spp]
    -- a delegated trap comes from U or S
    have hle : s.priv ≤ prvS := by
      simp only [trapDelegated, decide_eq_true_eq] at hdel
      exact hdel.1
    rcases hp with h | h | h
    · rw [h]
      decide
    · rw [h]
      decide
    · rw [h] at hle
      exact absurd hle (by decide)
  · dsimp only [done]
    rw [hc]
    exact hepc
  · dsimp only [done]
    rw [hc]
    exact sretMstatus_strapMstatus ..
  · dsimp only [done]
    rw [hc]
    dsimp only
    rw [hepc]
    rfl

theorem mret_takeTrap (hp : s.priv = prvU ∨ s.priv = prvS ∨ s.priv = prvM) (hpc : IsEven s.pc)
    (hdel : ¬ trapDelegated s cause) (hc : t.csr = (takeTrap s cause tval).csr)
    (hpriv : t.priv = (takeTrap s cause tval).priv) (hd : d.type = .mret) :
    (execute mi t d m).res = {} ∧ (execute mi t d m).mem = m ∧
      (execute mi t d m).cpu.regs = t.regs ∧
      Returned .m cause tval s (execute mi t d m).cpu := by
  have hepc := and_not_one_of_isEven hpc
  simp only [takeTrap, if_neg hdel] at hc hpriv
  have hM : ¬ t.priv < prvM := by
    rw [hpriv]
    decide
  have hx : execute mi t d m = execMret { t with nextPc := t.pc + d.instrLen } d m := by
    simp only [execute, hd]
  rw [hx]
  simp only [execMret, if_neg hM]
  refine ⟨rfl, rfl, rfl, .of_mstatus ?_ ?_ ?_ ?_⟩
  · dsimp only [done]
    rw [hc]
    exact mtrapMstatus_mpp _ hp
  · dsimp only [done]
    rw [hc]
    exact hepc
  · dsimp only [done]
    rw [hc]
    exact mretMstatus_mtrapMstatus _ hp
  · dsimp only [done]
    rw [hc]
    dsimp only
    rw [hepc]
    rfl

end Return

/-- **The return instruction of the level that a trap entered undoes the trap.**  The handler, from
the trap to the return, may do anything but change the CSR file and the privilege. -/
theorem trap_return {s : CPUState} (hp : s.priv = prvU ∨ s.priv = prvS ∨ s.priv = prvM)
    (hpc : IsEven s.pc) (htsr : s.csr.mstatus &&& mstatusTsr = 0) (cause tval : Word)
    {t : CPUState} (hc : t.csr = (takeTrap s cause tval).csr)
    (hpriv : t.priv = (takeTrap s cause tval).priv) {σ : Type*} (mi : MemIf σ) (m : σ)
    {d : DecodedInstr} (hd : d.type = (enteredLevel s cause).ret) :
    (takeTrap s cause tval).regs = s.regs ∧
      (execute mi t d m).res = {} ∧ (execute mi t d m).mem = m ∧
      (execute mi t d m).cpu.regs = t.regs ∧
      Returned (enteredLevel s cause) cause tval s (execute mi t d m).cpu := by
  refine ⟨takeTrap_regs .., ?_⟩
  by_cases hdel : trapDelegated s cause
  · rw [enteredLevel, if_pos hdel] at hd ⊢
    exact sret_takeTrap mi m hp hpc htsr hdel hc hpriv hd
  · rw [enteredLevel, if_neg hdel] at hd ⊢
    exact mret_takeTrap mi m hp hpc hdel hc hpriv hd

/-- User code at `0x80000004`, with page faults of loads delegated. -/
def userCode : CPUState :=
  { pc := 0x80000004, priv := prvU, csr := { medeleg := 1 <<< 13, mstatus := mstatusSie } }

/-- A memory that reads as zero. -/
def zeroMem : MemIf Unit := ⟨fun _ _ _ m => (0, m), fun _ _ _ _ m => m, id⟩

/-- A delegated load page fault and SRET. -/
theorem trap_return_sret :
    enteredLevel userCode causeLoadPageFault = .s ∧
      Returned (enteredLevel userCode causeLoadPageFault) causeLoadPageFault 0x1000 userCode
        (execute zeroMem (takeTrap userCode causeLoadPageFault 0x1000)
          (decode 0x10200073) ()).cpu :=
  ⟨by decide, (trap_return (s := userCode) (.inl rfl) (by decide) (by decide) causeLoadPageFault
    0x1000 rfl rfl zeroMem () (by decide)).2.2.2.2⟩

end VirtualSoC
