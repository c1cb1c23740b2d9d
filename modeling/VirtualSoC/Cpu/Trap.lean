import VirtualSoC.Cpu.Execute

/-!
# Traps

`check_pending_interrupts` and `take_trap` of `cpu/trap.cpp`.
-/

namespace VirtualSoC

/-- Interrupt priority: MEI > MSI > MTI > SEI > SSI > STI. -/
def irqPriority : List ℕ := [11, 3, 7, 9, 1, 5]

/-- The cause of the interrupt to be taken, 0 when there is none. -/
def checkPendingInterrupts (s : CPUState) : Word :=
  let pending := s.csr.getMip &&& s.csr.mie
  if pending = 0 then 0
  else
    let mPending := pending &&& ~~~s.csr.mideleg
    let sPending := pending &&& s.csr.mideleg
    let mEnabled := s.priv < prvM ∨ (s.priv = prvM ∧ s.csr.mstatus &&& mstatusMie ≠ 0)
    let sEnabled := s.priv ≠ prvM ∧
      (s.priv < prvS ∨ (s.priv = prvS ∧ s.csr.mstatus &&& mstatusSie ≠ 0))
    let active := (if mEnabled then mPending else 0) ||| (if sEnabled then sPending else 0)
    if active = 0 then 0
    else
      match irqPriority.find? fun bit => active &&& ((1 : Word) <<< bit) ≠ 0 with
      | some bit => intBit ||| BitVec.ofNat 32 bit
      | none => 0

/-- The trap is delegated to S-mode. -/
def trapDelegated (s : CPUState) (cause : Word) : Bool :=
  let deleg := if cause &&& intBit ≠ 0 then s.csr.mideleg else s.csr.medeleg
  s.priv ≤ prvS ∧ (deleg >>> (cause &&& 0x7FFFFFFF).toNat) &&& 1 ≠ 0

/-- The handler address for a trap vector register. -/
def trapTarget (tvec cause : Word) : Word :=
  let base := tvec &&& ~~~0x3
  if tvec &&& 0x3 = 1 ∧ cause &&& intBit ≠ 0 then base + 4 * (cause &&& 0x7FFFFFFF) else base

/-- `mstatus` after a trap into S-mode. -/
def strapMstatus (mstatus : Word) (priv : Priv) : Word :=
  let sie := mstatus &&& mstatusSie ≠ 0
  let mstatus := (mstatus &&& ~~~mstatusSpie) ||| (if sie then mstatusSpie else 0)
  let mstatus := mstatus &&& ~~~mstatusSie
  (mstatus &&& ~~~mstatusSpp) ||| (if priv = prvS then mstatusSpp else 0)

/-- `mstatus` after a trap into M-mode. -/
def mtrapMstatus (mstatus : Word) (priv : Priv) : Word :=
  let mie := mstatus &&& mstatusMie ≠ 0
  let mstatus := (mstatus &&& ~~~mstatusMpie) ||| (if mie then mstatusMpie else 0)
  let mstatus := mstatus &&& ~~~mstatusMie
  (mstatus &&& ~~~mstatusMppMask) ||| (priv.setWidth 32 <<< mstatusMppShift)

/-- Enter the trap handler. -/
def takeTrap (s : CPUState) (cause tval : Word) : CPUState :=
  if trapDelegated s cause then
    { s with
      csr :=
        { s.csr with
          sepc := s.pc &&& ~~~0x1, scause := cause, stval := tval
          mstatus := strapMstatus s.csr.mstatus s.priv }
      priv := prvS
      nextPc := trapTarget s.csr.stvec cause }
  else
    { s with
      csr :=
        { s.csr with
          mepc := s.pc &&& ~~~0x1, mcause := cause, mtval := tval
          mstatus := mtrapMstatus s.csr.mstatus s.priv }
      priv := prvM
      nextPc := trapTarget s.csr.mtvec cause }

@[simp] theorem takeTrap_regs (s : CPUState) (cause tval : Word) :
    (takeTrap s cause tval).regs = s.regs := by
  unfold takeTrap
  split <;> rfl

@[simp] theorem takeTrap_lrSc (s : CPUState) (cause tval : Word) :
    (takeTrap s cause tval).lrSc = s.lrSc := by
  unfold takeTrap
  split <;> rfl

end VirtualSoC
