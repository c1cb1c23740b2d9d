import VirtualSoC.Cpu.IssSpec
import VirtualSoC.Platform.RamPort

/-!
# Data page faults

A memory callback reports a refused access by a flag, and `execute` carries on.  `RefusedAccess`
says what it leaves when it does: the registers and the reservation are those of an instruction
that has read zero.  So the trap that follows is precise, and the instruction restartable, only
when that makes no difference (`preciseFault_iff`).
-/

namespace VirtualSoC

/-! ### The memory callbacks -/

section Callbacks

variable {β : Type*} (bus : PhysBus β) (lo hi : ℕ) (View : β → Ram → Prop) (pick : Tlb → ℕ)
  (s : CPUState) (vaddr : Word) (type : AccessType) (P : β → Prop) (e : Env β)

/-- A translation that refuses the access leaves the TLB, and `P` holds of the world. -/
structure RefusedTranslation (tlb : Tlb) (x : MMUResult × Tlb × β) : Prop where
  result : x.1 = pageFault type
  tlb : x.2.1 = tlb
  world : P x.2.2

/-- The fault of an access is recorded, the TLB is as before, and `P` holds of the world. -/
structure FaultRecorded (e e' : Env β) : Prop where
  memFault : e'.memFault = true
  cause : e'.memFaultCause = faultCause type
  vaddr : e'.memFaultVaddr = vaddr
  tlb : e'.tlb = e.tlb
  world : P e'.bus

/-- Memory is the same, or A and D bits of the leaf for `vaddr` have been set. -/
def OnlyMarks (satp : Word) (m m' : Ram) : Prop :=
  m' = m ∨ ∃ l, findLeaf m satp (vaddr >>> pageShift) = some l ∧ m' = l.mark type m

/-- The RAM holds `m`, unless the last that happened is the read of a word outside of it. -/
def AfterRead (m : Ram) (b : β) : Prop :=
  View b m ∨ ∃ b₀ p, View b₀ m ∧ ¬ InRamWord lo hi p ∧ b = (bus.read p 4 b₀).2

variable {bus lo hi View P}

theorem RamAt.afterRead (hr : RamAt bus lo hi View) {m : Ram} {b : β} (hv : View b m) (p : Word) :
    AfterRead bus lo hi View m (bus.read p 4 b).2 := by
  by_cases hp : InRamWord lo hi p
  · exact .inl (hr.read hv (by decide) hp.1 hp.2).2
  · exact .inr ⟨b, p, hv, hp, rfl⟩

theorem sv32_of_mmuActiveData {s : CPUState} (h : s.mmuActiveData) :
    s.csr.satp >>> satpModeShift ≠ satpModeBare := by
  simp only [CPUState.mmuActiveData, Bool.decide_and, Bool.and_eq_true, decide_eq_true_eq] at h
  exact h.1

theorem dataPaddr_refused (ha : s.mmuActiveData)
    (hf : (dataTranslate pick s vaddr type e bus).1.fault)
    (hq : RefusedTranslation type P e.tlb (dataTranslate pick s vaddr type e bus)) :
    ∃ e', dataPaddr bus pick s vaddr type e = (none, e') ∧ FaultRecorded vaddr type P e e' :=
  ⟨_, dataPaddr_fault ha hf, rfl, congrArg MMUResult.cause hq.result, rfl, hq.tlb, hq.world⟩

variable {s vaddr type e}

theorem dataPaddr_allowed
    (h : ¬ (s.mmuActiveData ∧ (dataTranslate pick s vaddr type e bus).1.fault)) :
    ∃ p e', dataPaddr bus pick s vaddr type e = (some p, e') ∧ e'.memFault = e.memFault ∧
      (s.mmuActiveData → (e'.tlb, e'.bus) = (dataTranslate pick s vaddr type e bus).2) ∧
      (¬ s.mmuActiveData → e' = e) := by
  by_cases ha : s.mmuActiveData
  · have hf : ¬ (dataTranslate pick s vaddr type e bus).1.fault := fun hf => h ⟨ha, hf⟩
    exact ⟨_, _, dataPaddr_ok ha hf, rfl, fun _ => rfl, fun hn => absurd ha hn⟩
  · exact ⟨_, _, dataPaddr_inactive ha vaddr type, rfl, fun ha' => absurd ha' ha, fun _ => rfl⟩

/-- A refused translation that the TLB answers leaves everything. -/
theorem refusedTranslation_of_hit (ha : s.mmuActiveData) {te : TLBEntry}
    (ht : e.tlb.lookup (vaddr >>> pageShift) = some te)
    (hf : (dataTranslate pick s vaddr type e bus).1.fault) (hP : P e.bus) :
    RefusedTranslation type P e.tlb (dataTranslate pick s vaddr type e bus) := by
  unfold dataTranslate at hf ⊢
  rw [translate_hit pick vaddr type _ _ _ e.tlb bus.ptMem e.bus (sv32_of_mmuActiveData ha) ht]
    at hf ⊢
  exact ⟨(checked_fault type hf).2, rfl, hP⟩

section Tables

variable (hr : RamAt bus lo hi View) {m : Ram} (hv : View e.bus m)
  (htab : TablesIn lo hi m s.csr.satp vaddr)

include hr hv htab

/-- With its page tables in RAM, a refused translation leaves everything. -/
theorem refusedTranslation_of_fault (hf : (dataTranslate pick s vaddr type e bus).1.fault) :
    RefusedTranslation type (View · m) e.tlb (dataTranslate pick s vaddr type e bus) := by
  obtain ⟨h1, h2, h3⟩ := hr.translate_ram pick vaddr type s.effectiveDataPriv s.csr.satp
    s.csr.mstatus e.tlb hv htab
  have hram := translate_fault pick vaddr type s.effectiveDataPriv s.csr.satp s.csr.mstatus e.tlb m
    (h1 ▸ hf)
  rw [hram] at h1 h2 h3
  exact ⟨h1, h2, h3⟩

theorem dataTranslate_allowed (ha : s.mmuActiveData)
    (hf : ¬ (dataTranslate pick s vaddr type e bus).1.fault) :
    ∃ m', OnlyMarks vaddr type s.csr.satp m m' ∧
      View (dataTranslate pick s vaddr type e bus).2.2 m' ∧
      ∃ te, (dataTranslate pick s vaddr type e bus).2.1.lookup (vaddr >>> pageShift) = some te := by
  obtain ⟨h1, h2, h3⟩ := hr.translate_ram pick vaddr type s.effectiveDataPriv s.csr.satp
    s.csr.mstatus e.tlb hv htab
  have heff := translate_effect pick vaddr type s.effectiveDataPriv s.csr.satp s.csr.mstatus e.tlb m
  have hlook := lookup_of_not_fault pick vaddr type s.effectiveDataPriv s.csr.satp s.csr.mstatus
    e.tlb m (sv32_of_mmuActiveData ha) fun hfault => hf (h1.symm ▸ hfault)
  refine ⟨_, ?_, h3, h2.symm ▸ hlook⟩
  rcases heff with heff | ⟨l, hl, heff⟩
  · exact .inl (congrArg Prod.snd heff)
  · exact .inr ⟨l, hl, congrArg Prod.snd heff⟩

/-- A load that sets the fault flag is refused: it reads zero, and changes nothing else. -/
theorem memRead_refused {n : ℕ} (hmf : e.memFault = false)
    (h : (memRead bus pick s vaddr n e).2.memFault) :
    (memRead bus pick s vaddr n e).1 = 0 ∧
      FaultRecorded vaddr .load (View · m) e (memRead bus pick s vaddr n e).2 ∧
      (s.mmuActiveData ∧ (dataTranslate pick s vaddr .load e bus).1.fault) := by
  unfold memRead at h ⊢
  by_cases hq : s.mmuActiveData ∧ (dataTranslate pick s vaddr .load e bus).1.fault
  · obtain ⟨e', he', hrec⟩ := dataPaddr_refused pick s vaddr .load e hq.1 hq.2
      (refusedTranslation_of_fault pick hr hv htab hq.2)
    rw [he']
    exact ⟨rfl, hrec, hq⟩
  · obtain ⟨p, e', he', hmf', -⟩ := dataPaddr_allowed pick hq
    rw [he'] at h
    exact absurd (hmf'.trans hmf) (by simpa using h)

/-- A load of a word that does not set the fault flag. -/
theorem memRead_allowed (h : ¬ (memRead bus pick s vaddr 4 e).2.memFault) :
    ∃ m', OnlyMarks vaddr .load s.csr.satp m m' ∧
      AfterRead bus lo hi View m' (memRead bus pick s vaddr 4 e).2.bus ∧
      (s.mmuActiveData →
        ∃ te, (memRead bus pick s vaddr 4 e).2.tlb.lookup (vaddr >>> pageShift) = some te) := by
  unfold memRead at h ⊢
  by_cases hq : s.mmuActiveData ∧ (dataTranslate pick s vaddr .load e bus).1.fault
  · obtain ⟨e', he', hrec⟩ := dataPaddr_refused pick s vaddr .load e hq.1 hq.2
      (refusedTranslation_of_fault pick hr hv htab hq.2)
    rw [he'] at h
    exact absurd hrec.memFault h
  · obtain ⟨p, e', he', -, hact, hinact⟩ := dataPaddr_allowed pick hq
    rw [he']
    dsimp only
    by_cases ha : s.mmuActiveData
    · have hf : ¬ (dataTranslate pick s vaddr .load e bus).1.fault := fun hf => hq ⟨ha, hf⟩
      obtain ⟨m', hm, hv', hl⟩ := dataTranslate_allowed pick hr hv htab ha hf
      rw [← hact ha] at hv' hl
      exact ⟨m', hm, hr.afterRead hv' p, fun _ => hl⟩
    · rw [hinact ha]
      exact ⟨m, .inl rfl, hr.afterRead hv p, fun ha' => absurd ha' ha⟩

end Tables

/-- A store that sets the fault flag is refused, and changes nothing else. -/
theorem memWrite_refused {data : Word} {n : ℕ} (hmf : e.memFault = false)
    (hq : (dataTranslate pick s vaddr .store e bus).1.fault → s.mmuActiveData →
      RefusedTranslation .store P e.tlb (dataTranslate pick s vaddr .store e bus))
    (h : (memWrite bus pick s vaddr data n e).memFault) :
    FaultRecorded vaddr .store P e (memWrite bus pick s vaddr data n e) := by
  unfold memWrite at h ⊢
  by_cases hr : s.mmuActiveData ∧ (dataTranslate pick s vaddr .store e bus).1.fault
  · obtain ⟨e', he', hrec⟩ := dataPaddr_refused pick s vaddr .store e hr.1 hr.2 (hq hr.2 hr.1)
    rw [he']
    exact hrec
  · obtain ⟨p, e', he', hmf', -⟩ := dataPaddr_allowed pick hr
    rw [he'] at h
    exact absurd (hmf'.trans hmf) (by simpa using h)

theorem memWrite_bare (h : s.mmuActiveData = false) (data : Word) (n : ℕ) :
    memWrite bus pick s vaddr data n e = { e with bus := bus.write vaddr data n e.bus } := by
  unfold memWrite
  rw [dataPaddr_inactive (Bool.eq_false_iff.1 h)]

end Callbacks

/-! ### A refused instruction -/

/-- What the instruction `d` has written when one of its accesses was refused; `old` is what the
load half of an AMO read. -/
inductive FaultEffect (s : CPUState) (d : DecodedInstr) (old : Word) (t : CPUState) : Prop
  | load (ht : d.type.memKind = some .load) (hr : t.regs = (s.setReg d.rd 0).regs)
      (hl : t.lrSc = s.lrSc)
  | store (ht : d.type.memKind = some .store) (ha : AccessAligned s d) (hr : t.regs = s.regs)
      (hl : t.lrSc = s.lrSc.clear)
  | lr (ht : d.type.memKind = some .lr) (hr : t.regs = (s.setReg d.rd 0).regs)
      (hl : t.lrSc = .set (accessAddr s d))
  | sc (ht : d.type.memKind = some .sc) (ha : AccessAligned s d)
      (hc : s.lrSc.check (accessAddr s d))
      (hr : t.regs = (s.setReg d.rd 0).regs) (hl : t.lrSc = s.lrSc.clear)
  | amo (ht : d.type.memKind = some .amo) (hr : t.regs = (s.setReg d.rd old).regs)
      (hl : t.lrSc = s.lrSc)

section Refused

variable {β : Type*} (bus : PhysBus β) (lo hi : ℕ) (View : β → Ram → Prop) (pick : Tlb → ℕ)
  (s : CPUState) (d : DecodedInstr) (e : Env β)

/-- What the load half of an AMO reads. -/
def amoOld : Word := (memRead bus pick s (accessAddr s d) 4 e).1

/-- The type of the access that is refused last. -/
def faultType (d : DecodedInstr) : AccessType :=
  match d.type.memKind with
  | some .load | some .lr => .load
  | _ => .store

/-- What becomes of the RAM content `m`: A and D bits of the leaf for the address of the access may
be set. -/
def KeepsRam (m : Ram) (b : β) : Prop :=
  ∃ m', OnlyMarks (accessAddr s d) .load s.csr.satp m m' ∧ AfterRead bus lo hi View m' b

/-- What `execute` leaves of an instruction with a refused access; `m` is the content of the RAM. -/
structure RefusedAccess (m : Ram) (x : Executed (Env β)) : Prop where
  pc : x.cpu.pc = s.pc
  priv : x.cpu.priv = s.priv
  csr : x.cpu.csr = s.csr
  cause : x.mem.memFaultCause = faultCause (faultType d)
  vaddr : x.mem.memFaultVaddr = accessAddr s d
  memory : KeepsRam bus lo hi View s d m x.mem.bus
  effect : FaultEffect s d (amoOld bus pick s d e) x.cpu

variable {bus lo hi View pick s d e} {m : Ram}

theorem keepsRam_of_view {b : β} (hv : View b m) : KeepsRam bus lo hi View s d m b :=
  ⟨m, .inl rfl, .inl hv⟩

theorem FaultRecorded.refusedAccess {t : CPUState} {f : Env β}
    (hrec : FaultRecorded (accessAddr s d) (faultType d) (View · m) e f) (hpc : t.pc = s.pc)
    (hpriv : t.priv = s.priv) (hcsr : t.csr = s.csr)
    (heff : FaultEffect s d (amoOld bus pick s d e) t) :
    RefusedAccess bus lo hi View pick s d e m (done t f) :=
  ⟨hpc, hpriv, hcsr, hrec.cause, hrec.vaddr, keepsRam_of_view hrec.world, heff⟩

variable (hr : RamAt bus lo hi View) (hv : View e.bus m)

include hr hv

/-- When the load half of an AMO is refused, so is the store half. -/
theorem amo_refused_load (data : Word) {vaddr : Word} (htab : TablesIn lo hi m s.csr.satp vaddr)
    (hmf : e.memFault = false) (h : (memRead bus pick s vaddr 4 e).2.memFault) :
    FaultRecorded vaddr .store (View · m) e
      (memWrite bus pick s vaddr data 4 (memRead bus pick s vaddr 4 e).2) := by
  obtain ⟨-, hrec, ha, hf⟩ := memRead_refused pick hr hv htab hmf h
  generalize (memRead bus pick s vaddr 4 e).2 = e' at hrec ⊢
  -- both halves see the same TLB and the same tables
  obtain ⟨hload, -⟩ := hr.translate_ram pick vaddr .load s.effectiveDataPriv s.csr.satp
    s.csr.mstatus e.tlb hv htab
  obtain ⟨hstore, -⟩ := hr.translate_ram pick vaddr .store s.effectiveDataPriv s.csr.satp
    s.csr.mstatus e.tlb hrec.world htab
  have hf' : (dataTranslate pick s vaddr .store e' bus).1.fault := by
    unfold dataTranslate at hf ⊢
    rw [hload] at hf
    rw [hrec.tlb, hstore]
    exact translate_store_fault pick vaddr _ _ _ _ _ hf
  obtain ⟨e'', he'', hrec'⟩ := dataPaddr_refused pick s vaddr .store e' ha hf'
    (refusedTranslation_of_fault pick hr hrec.world htab hf')
  unfold memWrite
  rw [he'']
  exact ⟨hrec'.memFault, hrec'.cause, hrec'.vaddr, hrec'.tlb.trans hrec.tlb, hrec'.world⟩

/-- What an AMO leaves when one of its halves is refused. -/
theorem amo_refused {data : Word} (htab : TablesIn lo hi m s.csr.satp (accessAddr s d))
    (hmf : e.memFault = false)
    (h : (memWrite bus pick s (accessAddr s d) data 4
      (memRead bus pick s (accessAddr s d) 4 e).2).memFault) :
    let e' := memWrite bus pick s (accessAddr s d) data 4
      (memRead bus pick s (accessAddr s d) 4 e).2
    e'.memFaultVaddr = accessAddr s d ∧ e'.memFaultCause = faultCause .store ∧
      KeepsRam bus lo hi View s d m e'.bus := by
  by_cases hload : (memRead bus pick s (accessAddr s d) 4 e).2.memFault
  · have hrec := amo_refused_load hr hv data htab hmf hload
    exact ⟨hrec.vaddr, hrec.cause, keepsRam_of_view hrec.world⟩
  · -- the TLB has the page, and refuses the store half without a walk
    obtain ⟨m', hmarks, hafter, hlook⟩ := memRead_allowed pick hr hv htab hload
    have hrec : FaultRecorded (accessAddr s d) .store (AfterRead bus lo hi View m')
        (memRead bus pick s (accessAddr s d) 4 e).2 _ :=
      memWrite_refused pick (Bool.eq_false_iff.2 hload) (fun hf ha => by
        obtain ⟨te, hte⟩ := hlook ha
        exact refusedTranslation_of_hit pick ha hte hf hafter) h
    exact ⟨hrec.vaddr, hrec.cause, m', hmarks, hrec.world⟩

/-- An AMO of which the load or the store was refused. -/
theorem refusedAccess_amo (htab : TablesIn lo hi m s.csr.satp (accessAddr s d))
    (hmf : e.memFault = false) (ht : d.type.memKind = some .amo) {v : Word} {e' : Env β}
    (hread : memRead bus pick s (accessAddr s d) 4 e = (v, e'))
    (h : (memWrite bus pick ((s.falling d).setReg d.rd v) (accessAddr s d)
      (amoResult d.type v (s.getReg d.rs2)) 4 e').memFault) :
    RefusedAccess bus lo hi View pick s d e m (done ((s.falling d).setReg d.rd v)
      (memWrite bus pick ((s.falling d).setReg d.rd v) (accessAddr s d)
        (amoResult d.type v (s.getReg d.rs2)) 4 e')) := by
  obtain ⟨hold, rfl⟩ : amoOld bus pick s d e = v ∧
    (memRead bus pick s (accessAddr s d) 4 e).2 = e' := Prod.mk.inj hread
  have hcongr : memWrite bus pick ((s.falling d).setReg d.rd v) (accessAddr s d)
      (amoResult d.type v (s.getReg d.rs2)) 4 (memRead bus pick s (accessAddr s d) 4 e).2 =
    memWrite bus pick s (accessAddr s d) (amoResult d.type v (s.getReg d.rs2)) 4
      (memRead bus pick s (accessAddr s d) 4 e).2 := memWrite_congr (by simp) (by simp) _ _ _
  rw [hcongr] at h
  obtain ⟨hvaddr, hcause, hkeeps⟩ := amo_refused hr hv htab hmf h
  rw [← hcongr] at hvaddr hcause hkeeps
  have hft : faultType d = .store := by rw [faultType, ht]
  rw [← hft] at hcause
  exact ⟨by simp [done], by simp [done], by simp [done], hcause, hvaddr, hkeeps,
    .amo ht (by simp [done, hold]) (by simp [done])⟩

/-- **An instruction with a refused access carries on as if it had read zero.** -/
theorem refusedAccess_execute (htab : TablesIn lo hi m s.csr.satp (accessAddr s d))
    (hmf : e.memFault = false) (h : (execute (issMemIf bus pick) s d e).mem.memFault) :
    RefusedAccess bus lo hi View pick s d e m (execute (issMemIf bus pick) s d e) := by
  have hacc := execute_accesses (issMemIf bus pick) s d e
  generalize execute (issMemIf bus pick) s d e = x at h hacc ⊢
  cases hacc with
  | @load bytes ext v e' ht ha hext hread =>
    change memRead bus pick s (accessAddr s d) bytes e = (v, e') at hread
    obtain ⟨hzero, hrec, -⟩ :=
      memRead_refused (n := bytes) pick hr hv htab hmf (by rw [hread]; exact h)
    rw [hread] at hzero hrec
    have hft : faultType d = .load := by rw [faultType, ht]
    rw [← hft] at hrec
    rw [show v = 0 from hzero, hext]
    exact hrec.refusedAccess (by simp) (by simp) (by simp) (.load ht (by simp) (by simp))
  | store ht ha =>
    have hrec := memWrite_refused pick hmf
      (fun hf _ => refusedTranslation_of_fault pick hr hv htab hf) h
    have hft : faultType d = .store := by rw [faultType, ht]
    rw [← hft] at hrec
    exact hrec.refusedAccess rfl rfl rfl (.store ht ha rfl rfl)
  | @lr v e' ht ha hread =>
    change memRead bus pick s (accessAddr s d) 4 e = (v, e') at hread
    obtain ⟨hzero, hrec, -⟩ :=
      memRead_refused (n := 4) pick hr hv htab hmf (by rw [hread]; exact h)
    rw [hread] at hzero hrec
    have hft : faultType d = .load := by rw [faultType, ht]
    rw [← hft] at hrec
    rw [show v = 0 from hzero]
    exact hrec.refusedAccess (by simp) (by simp) (by simp) (.lr ht (by simp) rfl)
  | scDone ht ha hc =>
    have hrec := memWrite_refused pick hmf
      (fun hf _ => refusedTranslation_of_fault pick hr hv htab hf) h
    have hft : faultType d = .store := by rw [faultType, ht]
    rw [← hft] at hrec
    exact hrec.refusedAccess (by simp) (by simp) (by simp) (.sc ht ha hc (by simp) rfl)
  | scFailed ht ha hc => exact absurd (hmf.symm.trans h) Bool.false_ne_true
  | amo ht _ hread => exact refusedAccess_amo hr hv htab hmf ht hread h
  | quiet hr hm ht =>
    rcases hm with hm | hm
    · rw [hm, hmf] at h
      cases h
    · rw [hm] at h
      exact absurd (hmf.symm.trans h) Bool.false_ne_true

end Refused

/-! ### Precise and restartable faults -/

/-- A trap from the instruction at `s.pc` has been entered with the given cause and trap value. -/
def TrapEntered (s : CPUState) (cause tval : Word) (t : CPUState) : Prop :=
  if trapDelegated s cause then
    t.priv = prvS ∧ t.csr.sepc = s.pc ∧ t.csr.scause = cause ∧ t.csr.stval = tval
  else t.priv = prvM ∧ t.csr.mepc = s.pc ∧ t.csr.mcause = cause ∧ t.csr.mtval = tval

/-- Executing `d` with the registers and the reservation that a trap handler finds gives what it
would have given with those before the trap, whatever else the handler has changed. -/
def Restartable (d : DecodedInstr) (before after : CPUState) : Prop :=
  ∀ {γ : Type} (bus : PhysBus γ) (pick : Tlb → ℕ) (t : CPUState) (e : Env γ),
    execute (issMemIf bus pick) { t with regs := after.regs, lrSc := after.lrSc } d e =
      execute (issMemIf bus pick) { t with regs := before.regs, lrSc := before.lrSc } d e

/-- The refused instruction `d` of the state `s` has changed nothing but A and D bits on the way to
its address, and the trap says where it was and what it accessed; `m` is the content of the RAM. -/
structure PreciseFault {β : Type*} (bus : PhysBus β) (lo hi : ℕ) (View : β → Ram → Prop)
    (s : CPUState) (d : DecodedInstr) (m : Ram) (after : ISS β) : Prop where
  trap : TrapEntered s (faultCause (faultType d)) (accessAddr s d) after.state
  regs : after.state.regs = s.regs
  reservation (a : Word) : after.state.lrSc.check a → s.lrSc.check a
  memory : KeepsRam bus lo hi View s d m after.env.bus
  restart : Restartable d s after.state

/-- `rd` holds `v` already, or is `x0`. -/
def KeepsRd (s : CPUState) (d : DecodedInstr) (v : Word) : Prop := d.rd = 0 ∨ s.getReg d.rd = v

/-- The values that a refused instruction writes are there already; `old` is what the load half of
an AMO reads. -/
def FaultHarmless (s : CPUState) (d : DecodedInstr) (old : Word) : Prop :=
  match d.type.memKind with
  | some .load => KeepsRd s d 0
  | some .lr => KeepsRd s d 0 ∧ s.lrSc.check (accessAddr s d)
  | some .sc => False
  | some .amo => KeepsRd s d old
  | _ => True

/-- A reservation that covers `a` is the one that LR.W at `a` makes. -/
theorem Reservation.eq_set_of_check {r : Reservation} {a : Word} (h : r.check a) :
    r = .set a := by
  obtain ⟨addr, valid⟩ := r
  unfold check at h
  simp only [Bool.and_eq_true, decide_eq_true_eq] at h
  obtain ⟨rfl, rfl⟩ := h
  rfl

theorem Restartable.of_eq {d : DecodedInstr} {s t : CPUState} (hr : t.regs = s.regs)
    (hl : t.lrSc = s.lrSc) : Restartable d s t := by
  intro γ bus pick u e
  rw [hr, hl]

theorem Restartable.congr {d : DecodedInstr} {s t t' : CPUState} (h : Restartable d s t)
    (hr : t.regs = t'.regs) (hl : t.lrSc = t'.lrSc) : Restartable d s t' := by
  intro γ bus pick u e
  rw [← hr, ← hl]
  exact h bus pick u e

theorem execStore_clear {β : Type*} {bus : PhysBus β} {pick : Tlb → ℕ} {e : Env β}
    {addr align data : Word} {n : ℕ} (u : CPUState) (r : Reservation) (ha : addr &&& align = 0) :
    execStore (issMemIf bus pick) { u with lrSc := r.clear } e addr align data n =
      execStore (issMemIf bus pick) { u with lrSc := r } e addr align data n := by
  unfold execStore
  rw [if_neg (not_not.2 ha), if_neg (not_not.2 ha)]
  rfl

theorem Restartable.of_store {d : DecodedInstr} {s t : CPUState}
    (ht : d.type.memKind = some .store) (ha : AccessAligned s d) (hr : t.regs = s.regs)
    (hl : t.lrSc = s.lrSc.clear) : Restartable d s t := by
  intro γ bus pick u e
  rw [hr, hl]
  unfold AccessAligned accessAddr at ha
  rw [ht] at ha
  cases h : d.type
  case sb | sh | sw =>
    rw [h] at ha
    simp only [execute, h]
    exact execStore_clear { u with regs := s.regs, nextPc := u.pc + d.instrLen } s.lrSc ha
  all_goals
    rw [h] at ht
    cases ht

theorem not_restartable_sc {d : DecodedInstr} {s t : CPUState} (ht : d.type.memKind = some .sc)
    (ha : AccessAligned s d) (hc : s.lrSc.check (accessAddr s d)) (hl : t.lrSc = s.lrSc.clear) :
    ¬ Restartable d s t := by
  intro h
  -- a memory that holds something else at the address
  let m : Ram := Bytes.writeLE (fun _ => 0) (accessAddr s d) (~~~(s.getReg d.rs2)) 4
  have heq := congrArg (fun x => pteAt x.mem.bus (accessAddr s d))
    (h plainRam (fun _ => 0) {} { bus := m })
  dsimp only at heq
  have hfailed := execute_accesses (issMemIf plainRam fun _ => 0)
    { regs := t.regs, lrSc := t.lrSc } d { bus := m }
  have hdone := execute_accesses (issMemIf plainRam fun _ => 0)
    { regs := s.regs, lrSc := s.lrSc } d { bus := m }
  have hleft : (execute (issMemIf plainRam fun _ => 0)
      { regs := t.regs, lrSc := t.lrSc } d { bus := m }).mem.bus = m := by
    have hc' : ¬ t.lrSc.check (accessAddr { regs := t.regs, lrSc := t.lrSc } d) := by
      rw [hl]
      exact Bool.false_ne_true
    rcases hfailed.sc_failed ht hc' with hmem | hmem
    · rw [hmem]
    · rw [hmem]
      rfl
  have hright : (execute (issMemIf plainRam fun _ => 0)
      { regs := s.regs, lrSc := s.lrSc } d { bus := m }).mem.bus =
        Bytes.writeLE m (accessAddr s d) (s.getReg d.rs2) 4 := by
    rw [hdone.sc_done ht ha hc]
    exact congrArg Env.bus (memWrite_bare _ (by simp [CPUState.mmuActiveData]) _ _)
  rw [hleft, hright, pteAt_writeLE_self, pteAt_writeLE_self] at heq
  simpa using congrArg (BitVec.getLsbD · 0) heq

/-- What the fault leaves is harmless exactly if the values written are there already. -/
theorem FaultEffect.harmless_iff {s : CPUState} {d : DecodedInstr} {old : Word} {t : CPUState}
    (h : FaultEffect s d old t) :
    t.regs = s.regs ∧ (∀ a, t.lrSc.check a → s.lrSc.check a) ∧ Restartable d s t ↔
      FaultHarmless s d old := by
  cases h with
  | load ht hr hl =>
    rw [FaultHarmless, ht, hr, CPUState.setReg_regs_eq_iff]
    refine ⟨fun h => h.1, fun h => ⟨h, fun a ha => hl ▸ ha, Restartable.of_eq ?_ hl⟩⟩
    exact hr.trans (CPUState.setReg_regs_eq_iff.2 h)
  | store ht ha hr hl =>
    rw [FaultHarmless, ht]
    refine iff_of_true ⟨hr, fun a hc => ?_, Restartable.of_store ht ha hr hl⟩ trivial
    rw [hl] at hc
    cases hc
  | lr ht hr hl =>
    rw [FaultHarmless, ht, hr, CPUState.setReg_regs_eq_iff]
    refine ⟨fun h => ⟨h.1, h.2.1 _ ?_⟩, fun h => ⟨h.1, fun a hc => ?_, Restartable.of_eq ?_ ?_⟩⟩
    · simp [hl, Reservation.check, Reservation.set]
    · rwa [hl, ← Reservation.eq_set_of_check h.2] at hc
    · exact hr.trans (CPUState.setReg_regs_eq_iff.2 h.1)
    · rw [hl, ← Reservation.eq_set_of_check h.2]
  | sc ht ha hc hr hl =>
    rw [FaultHarmless, ht]
    exact iff_of_false (fun h => not_restartable_sc ht ha hc hl h.2.2) id
  | amo ht hr hl =>
    rw [FaultHarmless, ht, hr, CPUState.setReg_regs_eq_iff]
    refine ⟨fun h => h.1, fun h => ⟨h, fun a ha => hl ▸ ha, Restartable.of_eq ?_ hl⟩⟩
    exact hr.trans (CPUState.setReg_regs_eq_iff.2 h)

theorem trapEntered_takeTrap {s t : CPUState} (hpc : t.pc = s.pc) (hp : t.priv = s.priv)
    (hc : t.csr = s.csr) (heven : s.pc &&& 1 = 0) (cause tval : Word) :
    TrapEntered s cause tval (takeTrap t cause tval) := by
  have hmask : t.pc &&& ~~~0x1 = s.pc := by
    rw [hpc]
    exact Bits.and_not_of_and_eq_zero heven
  have hdel : trapDelegated t cause = trapDelegated s cause := by
    unfold trapDelegated
    rw [hp, hc]
  unfold TrapEntered takeTrap
  rw [hdel]
  by_cases h : trapDelegated s cause
  · rw [if_pos h, if_pos h]
    exact ⟨rfl, hmask, rfl, rfl⟩
  · rw [if_neg h, if_neg h]
    exact ⟨rfl, hmask, rfl, rfl⟩

/-- **When data page faults are precise and restartable.**  For an instruction whose data access
the MMU refuses, on a bus with RAM and the page tables of the access in it: exactly when the values
that `execute` writes nevertheless are there already. -/
theorem preciseFault_iff {β : Type*} {bus : PhysBus β} {lo hi : ℕ} {View : β → Ram → Prop}
    (hr : RamAt bus lo hi View) (pick : Tlb → ℕ) (iss : ISS β) {d : DecodedInstr} {env : Env β}
    (hissue : iss.issue bus pick = some (d, env)) {m : Ram} (hv : View env.bus m)
    (htab : TablesIn lo hi m iss.state.csr.satp (accessAddr iss.state d))
    (href : (iss.iterate bus pick).2.refused) :
    PreciseFault bus lo hi View iss.state d m (iss.iterate bus pick).1 ↔
      FaultHarmless iss.state d
        (amoOld bus pick iss.state d { env with memFault := false }) := by
  obtain ⟨heven, hiter⟩ := ISS.iterate_of_issue hissue
  rw [hiter] at href ⊢
  rw [ISS.stepInsn_refused_iff] at href
  rw [ISS.stepInsn_refused d href]
  have hx : RefusedAccess bus lo hi View pick iss.state d { env with memFault := false } m
      (ISS.executed bus pick { iss with env } d env) := refusedAccess_execute hr hv htab rfl href
  generalize ISS.executed bus pick { iss with env } d env = x at hx
  rw [← hx.effect.harmless_iff]
  set after := (ISS.enterTrap { iss with env := { x.mem with memFault := false }, state := x.cpu }
    x.mem.memFaultCause x.mem.memFaultVaddr) with hafter
  have hregs : after.state.regs = x.cpu.regs := takeTrap_regs ..
  have hlrSc : after.state.lrSc = x.cpu.lrSc := takeTrap_lrSc ..
  change PreciseFault bus lo hi View iss.state d m after ↔ _
  constructor
  · rintro ⟨-, hkept, hl, -, hrestart⟩
    exact ⟨hregs ▸ hkept, hlrSc ▸ hl, hrestart.congr hregs hlrSc⟩
  · rintro ⟨hkept, hl, hrestart⟩
    refine ⟨?_, hregs.trans hkept, hlrSc.symm ▸ hl, hx.memory,
      hrestart.congr hregs.symm hlrSc.symm⟩
    rw [← hx.cause, ← hx.vaddr]
    exact trapEntered_takeTrap hx.pc hx.priv hx.csr heven _ _

/-! ### Faults on the platform -/

section Platform

/-- A hart whose data accesses are those of S-mode, about to execute an instruction in the RAM;
every register holds an address that the page tables, which are all zeros, do not map. -/
def faultState : CPUState where
  regs := fun _ => 0x400000
  pc := 0x80002000
  csr := { mstatus := 0x20800, satp := 0x80080001 }

/-- The hart before the instruction. -/
def beforeFault (b : Option (BusPort Unit)) : ISS (Option (BusPort Unit)) where
  state := faultState
  env := { bus := b }

/-- The RAM with the instruction. -/
def faultRam (raw : Word) : Ram := Bytes.writeLE (fun _ => 0) (0x80002000 : Word) raw 4

theorem exists_faultRam (raw : Word) : ∃ b, PlatformView Unit b (faultRam raw) := by
  obtain ⟨b, hb⟩ := exists_platformView_zero
  exact ⟨_, platform_ramAt.write hb (by decide) (by decide) (by decide) raw⟩

variable {b : Option (BusPort Unit)} {raw : Word}

/-- The entry for the address is in the RAM, and is not valid. -/
theorem faultRam_entry : rootTable faultState.csr.satp +
      pageIndex ((0x400000 : Word) >>> pageShift) 1 * 4 = 0x80001004 ∧
    pteAt (faultRam raw) 0x80001004 = 0 := by
  refine ⟨by decide, ?_⟩
  unfold faultRam
  rw [pteAt_writeLE_of_ne _ (isAligned_iff.2 (by decide)) (isAligned_iff.2 (by decide)) (by decide)]
  rfl

theorem tablesIn_faultRam :
    TablesIn 0x80000000 0x88000000 (faultRam raw) faultState.csr.satp 0x400000 := by
  obtain ⟨haddr, hpte⟩ := @faultRam_entry raw
  intro x hx
  rw [walkWords.eq_def] at hx
  dsimp only at hx
  rw [haddr, hpte, if_pos (.inl rfl)] at hx
  obtain rfl := List.mem_singleton.1 hx
  exact ⟨by decide, by decide⟩

theorem issue_beforeFault (hb : PlatformView Unit b (faultRam raw)) :
    ∃ env, (beforeFault b).issue (socBus platformBus) (fun _ => 0) = some (decode raw, env) ∧
      PlatformView Unit env.bus (faultRam raw) ∧ env.tlb = flushTlb := by
  obtain ⟨hval, hv⟩ := platform_ramAt.read hb (a := 0x80002000) (n := 4) (by decide) (by decide)
    (by decide)
  refine ⟨{ bus := ((socBus platformBus).read 0x80002000 4 b).2 }, ?_, hv, rfl⟩
  have hword : Bytes.readLE (faultRam raw) (0x80002000 : Word) 4 = raw := pteAt_writeLE_self ..
  have hfetch : fetch (socBus platformBus) (fun _ => 0) faultState { bus := b } =
      (.ok raw, { bus := ((socBus platformBus).read 0x80002000 4 b).2 }) := by
    unfold fetch
    rw [if_neg (by decide)]
    exact Prod.ext (congrArg Except.ok (hval.trans hword)) rfl
  have hgo : ¬ (checkPendingInterrupts faultState ≠ 0 ∨ faultState.pc &&& 1 ≠ 0) := by decide
  unfold ISS.issue
  rw [if_neg (by simpa [beforeFault] using hgo)]
  dsimp only [beforeFault]
  rw [hfetch]

theorem dataPaddr_beforeFault {e : Env (Option (BusPort Unit))}
    (hv : PlatformView Unit e.bus (faultRam raw)) (ht : e.tlb = flushTlb) {s : CPUState}
    (hcsr : s.csr = faultState.csr) (hpriv : s.priv = prvM) (type : AccessType) :
    (dataPaddr (socBus platformBus) (fun _ => 0) s 0x400000 type e).1 = none := by
  obtain ⟨haddr, hpte⟩ := @faultRam_entry raw
  have hleaf : findLeaf (faultRam raw) faultState.csr.satp ((0x400000 : Word) >>> pageShift) =
      none := by
    unfold findLeaf
    rw [findLeafFrom.eq_def]
    dsimp only
    rw [haddr, hpte, if_pos (show (0 : Word) &&& pteV = 0 from rfl)]
  rw [dataPaddr_congr (s := faultState) hcsr hpriv]
  have hfault : (dataTranslate (fun _ => 0) faultState 0x400000 type e (socBus platformBus)).1.fault
      := by
    have hram := platform_ramAt.translate_ram (fun _ => 0) 0x400000 type
      faultState.effectiveDataPriv faultState.csr.satp faultState.csr.mstatus e.tlb hv
      tablesIn_faultRam
    rw [translate_miss_ram _ _ _ _ _ _ _ _ (by decide) (by rw [ht]; rfl), hleaf] at hram
    exact congrArg MMUResult.fault hram.1
  rw [dataPaddr_fault (by decide) hfault]

theorem executed_beforeFault {d : DecodedInstr}
    (hkind : d.type.memKind = some .load ∨ d.type.memKind = some .store)
    (haddr : accessAddr faultState d = 0x400000) (halign : AccessAligned faultState d)
    {env : Env (Option (BusPort Unit))} (hv : PlatformView Unit env.bus (faultRam raw))
    (ht : env.tlb = flushTlb) :
    (ISS.executed (socBus platformBus) (fun _ => 0) { beforeFault b with env } d
      env).mem.memFault = true := by
  have hacc := execute_accesses (issMemIf (socBus platformBus) fun _ => 0)
    { faultState with nextPc := faultState.pc + d.instrLen } d { env with memFault := false }
  have hnone (s : CPUState) (hcsr : s.csr = faultState.csr) (hpriv : s.priv = prvM)
      (type : AccessType) := dataPaddr_beforeFault (e := { env with memFault := false }) hv ht hcsr
    hpriv type
  have haddr' : accessAddr { faultState with nextPc := faultState.pc + d.instrLen } d = 0x400000 :=
    haddr
  unfold ISS.executed beforeFault
  dsimp only
  generalize execute (issMemIf (socBus platformBus) fun _ => 0)
    { faultState with nextPc := faultState.pc + d.instrLen } d { env with memFault := false } = x
    at hacc ⊢
  cases hacc with
  | load _ _ _ hread =>
    have hflag := congrArg (fun y => y.2.memFault) hread
    dsimp only [issMemIf] at hflag
    rw [haddr', memRead_memFault, hnone] at hflag
    · exact hflag.symm
    · rfl
    · rfl
  | store =>
    dsimp only [done, issMemIf]
    rw [haddr', memWrite_memFault, hnone]
    · rfl
    · rfl
    · rfl
  | lr hk | scDone hk | scFailed hk | amo hk =>
    rw [hk] at hkind
    rcases hkind with hkind | hkind <;> cases hkind
  | quiet _ _ hq =>
    have hsome : d.type.memKind ≠ none := by
      rcases hkind with hkind | hkind <;> simp [hkind]
    exact absurd halign (hq hsome).1

theorem getReg_after_load {d : DecodedInstr} {env : Env (Option (BusPort Unit))}
    (hissue : (beforeFault b).issue (socBus platformBus) (fun _ => 0) = some (d, env))
    (hkind : d.type.memKind = some .load) (haddr : accessAddr faultState d = 0x400000)
    (halign : AccessAligned faultState d) (hv : PlatformView Unit env.bus (faultRam raw))
    (ht : env.tlb = flushTlb) :
    ((beforeFault b).iterate (socBus platformBus) fun _ => 0).2.refused = true ∧
      ((beforeFault b).iterate (socBus platformBus) fun _ => 0).1.state.regs =
        (faultState.setReg d.rd 0).regs := by
  have hflag := executed_beforeFault (b := b) (.inl hkind) haddr halign hv ht
  rw [(ISS.iterate_of_issue hissue).2]
  refine ⟨(ISS.stepInsn_refused_iff _).2 hflag, ?_⟩
  rw [ISS.stepInsn_refused _ hflag]
  have hx : RefusedAccess (socBus platformBus) 0x80000000 0x88000000 (PlatformView Unit)
      (fun _ => 0) faultState d { env with memFault := false } (faultRam raw)
      (ISS.executed (socBus platformBus) (fun _ => 0) { beforeFault b with env } d env) :=
    refusedAccess_execute platform_ramAt hv (haddr.symm ▸ tablesIn_faultRam) rfl hflag
  simp only [ISS.enterTrap, takeTrap_regs]
  cases hx.effect with
  | load _ hzero => exact hzero
  | store hk | lr hk | sc hk | amo hk => cases hk.symm.trans hkind

end Platform

/-- The store `sw x5, 0(x5)`. -/
theorem preciseFault_iff_sw : ∃ b, PlatformView Unit b (faultRam 0x0052A023) ∧ ∃ env,
    (beforeFault b).issue (socBus platformBus) (fun _ => 0) = some (decode 0x0052A023, env) ∧
    (PreciseFault (socBus platformBus) 0x80000000 0x88000000 (PlatformView Unit) faultState
        (decode 0x0052A023) (faultRam 0x0052A023)
        ((beforeFault b).iterate (socBus platformBus) fun _ => 0).1 ↔
      FaultHarmless faultState (decode 0x0052A023)
        (amoOld (socBus platformBus) (fun _ => 0) faultState (decode 0x0052A023)
          { env with memFault := false })) := by
  obtain ⟨b, hb⟩ := exists_faultRam 0x0052A023
  obtain ⟨env, hissue, hv, ht⟩ := issue_beforeFault hb
  refine ⟨b, hb, env, hissue, ?_⟩
  refine preciseFault_iff platform_ramAt (fun _ => 0) (beforeFault b) hissue hv tablesIn_faultRam ?_
  rw [(ISS.iterate_of_issue hissue).2, ISS.stepInsn_refused_iff]
  exact executed_beforeFault (d := decode 0x0052A023) (.inr (by decide)) (by decide)
    (by decide : _ &&& _ = _) hv ht

/-- The load `lw x5, 0(x5)` loses its own base address. -/
theorem not_preciseFault_lw :
    ¬ ∀ (iss : ISS (Option (BusPort Unit))) (pick : Tlb → ℕ) (d : DecodedInstr)
        (env : Env (Option (BusPort Unit))) (m : Ram),
      iss.issue (socBus platformBus) pick = some (d, env) → PlatformView Unit env.bus m →
        TablesIn 0x80000000 0x88000000 m iss.state.csr.satp (accessAddr iss.state d) →
        (iss.iterate (socBus platformBus) pick).2.refused →
          PreciseFault (socBus platformBus) 0x80000000 0x88000000 (PlatformView Unit) iss.state d m
            (iss.iterate (socBus platformBus) pick).1 := by
  intro h
  obtain ⟨b, hb⟩ := exists_faultRam 0x0002A283
  obtain ⟨env, hissue, hv, ht⟩ := issue_beforeFault hb
  obtain ⟨href, hregs⟩ := getReg_after_load hissue (by decide) (by decide)
    (by decide : _ &&& _ = _) hv ht
  have hkept := (h _ _ _ _ _ hissue hv tablesIn_faultRam href).regs
  have hrd : (faultState.setReg (decode 0x0002A283).rd 0).regs 5 = faultState.regs 5 :=
    congrFun (hregs.symm.trans hkept) 5
  exact absurd hrd (by decide)

end VirtualSoC
