import VirtualSoC.Cpu.BusRel
import VirtualSoC.Cpu.IssSpec
import VirtualSoC.Platform.GamingCpuVp

/-!
# Refused bus accesses

The bus port drops the response status of its transports, so the ISS never raises an access fault
(`iterate_not_accessFault`), whatever the bus answers.  `refusalsFault_iff` : refused accesses lead
to access faults in exactly the iterations that have none.
-/

namespace VirtualSoC

/-- The causes of access faults. -/
def IsAccessFault (cause : Word) : Prop :=
  cause = causeFetchAccess ∨ cause = causeLoadAccess ∨ cause = causeStoreAccess

instance (cause : Word) : Decidable (IsAccessFault cause) := inferInstanceAs (Decidable (_ ∨ _))

/-! ### The causes of traps -/

theorem not_isAccessFault_faultCause (type : AccessType) : ¬ IsAccessFault (faultCause type) := by
  cases type <;> decide

theorem irqCause_eq (active : Word) :
    let cause :=
      if active = 0 then 0
      else
        match irqPriority.find? fun bit => active &&& ((1 : Word) <<< bit) ≠ 0 with
        | some bit => intBit ||| BitVec.ofNat 32 bit
        | none => 0
    cause = 0 ∨ ∃ bit ∈ irqPriority, cause = intBit ||| BitVec.ofNat 32 bit := by
  dsimp only
  by_cases h : active = 0
  · exact .inl (if_pos h)
  rw [if_neg h]
  cases hb : irqPriority.find? fun bit => active &&& ((1 : Word) <<< bit) ≠ 0 with
  | none => exact .inl rfl
  | some bit => exact .inr ⟨bit, List.mem_of_find?_eq_some hb, rfl⟩

theorem checkPendingInterrupts_eq (s : CPUState) :
    checkPendingInterrupts s = 0 ∨
      ∃ bit ∈ irqPriority, checkPendingInterrupts s = intBit ||| BitVec.ofNat 32 bit := by
  unfold checkPendingInterrupts
  by_cases h : s.csr.getMip &&& s.csr.mie = 0
  · exact .inl (if_pos h)
  · dsimp only
    rw [if_neg h]
    exact irqCause_eq _

theorem not_isAccessFault_interrupt {s : CPUState} (h : checkPendingInterrupts s ≠ 0) :
    ¬ IsAccessFault (checkPendingInterrupts s) := by
  obtain ⟨bit, hmem, heq⟩ := (checkPendingInterrupts_eq s).resolve_left h
  rw [heq]
  have hall : ∀ bit ∈ irqPriority, ¬ IsAccessFault (intBit ||| BitVec.ofNat 32 bit) := by decide
  exact hall bit hmem

section Execute

variable {σ : Type*} {mi : MemIf σ} {s : CPUState} {d : DecodedInstr} {m : σ}

/-- An exception, if any, is no access fault. -/
structure NoAccessFault (x : Executed σ) : Prop where
  cause : x.res.exception → ¬ IsAccessFault x.res.cause

theorem noAccessFault_of_not {x : Executed σ} (h : ¬ x.res.exception) : NoAccessFault x :=
  ⟨fun he => absurd he h⟩

theorem noAccessFault_done (t : CPUState) (n : σ) : NoAccessFault (done t n) :=
  noAccessFault_of_not Bool.false_ne_true

theorem noAccessFault_makeException {cause : Word} (h : ¬ IsAccessFault cause) (tval : Word)
    (t : CPUState) (n : σ) : NoAccessFault (makeException cause tval t n) := ⟨fun _ => h⟩

theorem noAccessFault_illegal (tval : Word) (t : CPUState) (n : σ) :
    NoAccessFault (makeException causeIllegalInstr tval t n) :=
  noAccessFault_makeException (by decide) ..

theorem noAccessFault_csrWrite (t : CPUState) (v : Word) :
    NoAccessFault (csrWrite mi t d m v) := by
  unfold csrWrite
  split
  · exact noAccessFault_illegal ..
  · exact noAccessFault_done ..

theorem noAccessFault_execCsrrw (t : CPUState) (v : Word) :
    NoAccessFault (execCsrrw mi t d m v) := by
  unfold execCsrrw
  split
  · split
    · exact noAccessFault_illegal ..
    · exact noAccessFault_csrWrite ..
  · exact noAccessFault_csrWrite ..

theorem noAccessFault_execCsrrsc (t : CPUState) (f : Word → Word) :
    NoAccessFault (execCsrrsc mi t d m f) := by
  unfold execCsrrsc
  split
  · exact noAccessFault_illegal ..
  · dsimp only
    split
    · exact noAccessFault_csrWrite ..
    · exact noAccessFault_done ..

/-- The misalignment checks of the memory instructions. -/
theorem noAccessFault_ite {c : Prop} [Decidable c] {cause tval : Word} {t : CPUState} {n : σ}
    {x : Executed σ} (h : ¬ IsAccessFault cause) (hx : NoAccessFault x) :
    NoAccessFault (if c then makeException cause tval t n else x) := by
  split
  · exact noAccessFault_makeException h ..
  · exact hx

theorem noAccessFault_execute (mi : MemIf σ) (s : CPUState) (d : DecodedInstr) (m : σ) :
    NoAccessFault (execute mi s d m) := by
  have hl : ¬ IsAccessFault causeMisalignedLoad := by decide
  have hs : ¬ IsAccessFault causeMisalignedStore := by decide
  have hi : ¬ IsAccessFault causeIllegalInstr := by decide
  have hb : ¬ IsAccessFault causeBreakpoint := by decide
  cases h : d.type
  all_goals simp only [execute, h]
  case lb | lh | lw | lbu | lhu => exact noAccessFault_ite hl (noAccessFault_done ..)
  case sb | sh | sw => exact noAccessFault_ite hs (noAccessFault_done ..)
  case lrW => exact noAccessFault_ite hl (noAccessFault_done ..)
  case scW =>
    refine noAccessFault_ite hs ?_
    split
    · exact noAccessFault_done ..
    · exact noAccessFault_done ..
  case amoswapW | amoaddW | amoxorW | amoandW | amoorW | amominW | amomaxW | amominuW | amomaxuW =>
    exact noAccessFault_ite hs (noAccessFault_done ..)
  case csrrw | csrrwi => exact noAccessFault_execCsrrw ..
  case csrrs | csrrc | csrrsi | csrrci => exact noAccessFault_execCsrrsc ..
  case ecall =>
    exact noAccessFault_ite (by decide)
      (noAccessFault_ite (by decide) (noAccessFault_makeException (by decide) ..))
  case mret => exact noAccessFault_ite hi (noAccessFault_done ..)
  case sret => exact noAccessFault_ite hi (noAccessFault_ite hi (noAccessFault_done ..))
  case sfenceVma =>
    exact noAccessFault_ite hi (noAccessFault_ite hi (noAccessFault_of_not Bool.false_ne_true))
  case ebreak => exact noAccessFault_makeException hb ..
  case uret | illegal => exact noAccessFault_makeException hi ..
  case wfi | fencei => exact noAccessFault_of_not Bool.false_ne_true
  all_goals exact noAccessFault_done ..

end Execute

section Mmu

variable {β : Type*} (pm : PtMem β) (pick : Tlb → ℕ) (vaddr : Word) (type : AccessType)
  (priv : Priv) (satp mstatus : Word) (tlb : Tlb)

theorem walkLeaf_cause (level : ℕ) (addr pte : Word)
    (hr : ¬ (pte &&& pteR = 0 ∧ pte &&& pteW ≠ 0)) (b : β)
    (h : (walkLeaf pm pick vaddr type priv mstatus level addr pte hr tlb b).1.fault) :
    (walkLeaf pm pick vaddr type priv mstatus level addr pte hr tlb b).1.cause =
      faultCause type := by
  unfold walkLeaf at h ⊢
  dsimp only at h ⊢
  split
  · rfl
  next h1 =>
    split
    · rfl
    next h2 =>
      rw [if_neg h1, if_neg h2] at h
      cases h

theorem walkFrom_cause (level : ℕ) (a : Word) (b : β)
    (h : (walkFrom pm pick vaddr type priv mstatus level a tlb b).1.fault) :
    (walkFrom pm pick vaddr type priv mstatus level a tlb b).1.cause = faultCause type := by
  rw [walkFrom.eq_def] at h ⊢
  dsimp only at h ⊢
  generalize pm.read (a + vpn vaddr level * 4) b = x at h ⊢
  by_cases h1 : x.1 &&& pteV = 0
  · rw [if_pos h1]
    rfl
  rw [if_neg h1] at h ⊢
  by_cases h2 : x.1 &&& pteR = 0 ∧ x.1 &&& pteW ≠ 0
  · rw [dif_pos h2]
    rfl
  rw [dif_neg h2] at h ⊢
  by_cases h3 : x.1 &&& (pteR ||| pteW ||| pteX) ≠ 0
  · rw [if_pos h3] at h ⊢
    exact walkLeaf_cause pm pick vaddr type priv mstatus tlb level _ _ h2 _ h
  rw [if_neg h3] at h ⊢
  cases level with
  | zero => rfl
  | succ level => exact walkFrom_cause level _ _ h

theorem translate_cause (b : β)
    (h : (translate pm pick vaddr type priv satp mstatus tlb b).1.fault) :
    (translate pm pick vaddr type priv satp mstatus tlb b).1.cause = faultCause type := by
  unfold translate at h ⊢
  split
  next h0 =>
    rw [if_pos h0] at h
    cases h
  next h0 =>
    rw [if_neg h0] at h
    cases hl : tlb.lookup (vaddr >>> pageShift) with
    | none =>
      rw [hl] at h
      exact walkFrom_cause pm pick vaddr type priv mstatus tlb 1 _ b h
    | some e =>
      rw [hl] at h
      dsimp only [TLBEntry.translate] at h ⊢
      split
      next hp =>
        rw [if_pos hp] at h
        cases h
      · rfl

end Mmu

/-! ### The run loop raises no access fault -/

section Run

variable {β : Type*} {bus : PhysBus β} {pick : Tlb → ℕ}

/-- The recorded fault of the environment is no access fault. -/
def Env.NoAccessFault (e : Env β) : Prop := e.memFault → ¬ IsAccessFault e.memFaultCause

theorem noAccessFault_dataPaddr {s : CPUState} {e : Env β} (he : e.NoAccessFault) (vaddr : Word)
    (type : AccessType) : (dataPaddr bus pick s vaddr type e).2.NoAccessFault := by
  refine dataPaddr_cases (P := fun x => x.2.NoAccessFault) (fun _ => he) (fun _ hf _ => ?_)
    fun _ _ => he
  have hc : (dataTranslate pick s vaddr type e bus).1.cause = faultCause type :=
    translate_cause _ _ _ _ _ _ _ _ _ hf
  dsimp only
  rw [hc]
  exact not_isAccessFault_faultCause type

theorem noAccessFault_memRead {s : CPUState} {e : Env β} (he : e.NoAccessFault) (vaddr : Word)
    (n : ℕ) : (memRead bus pick s vaddr n e).2.NoAccessFault := by
  rw [memRead_env]
  exact noAccessFault_dataPaddr he vaddr .load

theorem noAccessFault_memWrite {s : CPUState} {e : Env β} (he : e.NoAccessFault)
    (vaddr data : Word) (n : ℕ) : (memWrite bus pick s vaddr data n e).NoAccessFault := by
  rw [memWrite_env]
  exact noAccessFault_dataPaddr he vaddr .store

theorem fetch_cause {s : CPUState} {e e' : Env β} {cause : Word}
    (h : fetch bus pick s e = (.error cause, e')) : cause = faultCause .fetch := by
  unfold fetch at h
  split at h
  · have hc := translate_cause bus.ptMem pick s.pc .fetch s.priv s.csr.satp s.csr.mstatus e.tlb
      e.bus
    generalize translate bus.ptMem pick s.pc .fetch s.priv s.csr.satp s.csr.mstatus e.tlb
      e.bus = x at hc h
    obtain ⟨r, tlb, b⟩ := x
    dsimp only at hc h
    split at h
    next hf =>
      cases h
      exact hc hf
    next => cases h
  · cases h

theorem issMemIf_noAccessFault :
    MemIf.Rel (fun e f : Env β => e = f ∧ e.NoAccessFault) (issMemIf bus pick)
      (issMemIf bus pick) where
  read := by
    rintro e _ ⟨rfl, he⟩ s a k
    exact ⟨rfl, rfl, noAccessFault_memRead he a k⟩
  write := by
    rintro e _ ⟨rfl, he⟩ s a v k
    exact ⟨rfl, noAccessFault_memWrite he a v k⟩
  onSatpWrite := by
    rintro e _ ⟨rfl, he⟩
    exact ⟨rfl, he⟩

namespace ISS

variable {iss : ISS β}

theorem stepInsn_not_accessFault {d : DecodedInstr} {c : Word}
    (h : (stepInsn bus pick iss d).2.trap = some c) : ¬ IsAccessFault c := by
  let e : Env β := { iss.env with memFault := false }
  have hi : MemIf.Rel _ (issMemIf bus pick) (issMemIf bus pick) := issMemIf_noAccessFault
  have hm := execute_rel hi (show e = e ∧ e.NoAccessFault from ⟨rfl, nofun⟩)
    { iss.state with nextPc := iss.state.pc + d.instrLen } d
  have hmem : (iss.executed bus pick d iss.env).mem.NoAccessFault := hm.mem.2
  have hres : NoAccessFault (iss.executed bus pick d iss.env) := noAccessFault_execute ..
  by_cases hf : (iss.executed bus pick d iss.env).mem.memFault
  · rw [stepInsn_refused d hf] at h
    cases h
    exact hmem hf
  · rw [stepInsn_retired d hf] at h
    unfold retire at h
    dsimp only at h
    split at h
    · cases h
    · split at h
      next hx =>
        cases h
        exact hres.cause hx
      · split at h <;> cases h

/-- **The ISS raises no access fault.** -/
theorem iterate_not_accessFault {c : Word} (h : (iss.iterate bus pick).2.trap = some c) :
    ¬ IsAccessFault c := by
  unfold iterate at h
  split at h
  · cases h
  split at h
  · cases h
  dsimp only at h
  split at h
  next hirq =>
    cases h
    exact not_isAccessFault_interrupt hirq
  split at h
  · cases h
    decide
  split at h
  next cause env hfetch =>
    cases h
    rw [fetch_cause hfetch]
    exact not_isAccessFault_faultCause .fetch
  next => exact stepInsn_not_accessFault h

end ISS

end Run

/-! ### Refused accesses -/

section Refused

variable {δ : Type} [TlmDevice δ] (bus : TlmBus)

/-- The response status of the transport that an operation makes; the fast path makes none. -/
def BusOp.status (op : BusOp) (w : Option (BusPort δ)) : Option TlmResponse := do
  let w ← w
  match op with
  | .read addr bytes =>
    if w.dmiHit addr bytes then none
    else
      let x ← bus.bTransport w.targets (readTrans addr bytes)
      return x.1.response
  | .write addr data bytes =>
    if w.dmiHit addr bytes then none
    else
      let trans ← writeTrans addr data bytes
      let x ← bus.bTransport w.targets trans
      return x.1.response
  | .dropDmi => none

/-- The bus or the target answers the operation with a status other than `TLM_OK_RESPONSE`. -/
def BusOp.refused (op : BusOp) (w : Option (BusPort δ)) : Bool :=
  (op.status bus w).any fun r => r ≠ .ok

namespace ISS

variable (pick : Tlb → ℕ) (iss : ISS (Option (BusPort δ)))

/-- How many of the operations of an iteration are made by its fetch. -/
def fetchOps : ℕ :=
  (fetch (socBus bus).logged pick iss.state iss.logged.env).2.bus.2.length

/-- The access fault that the `k`-th operation of an iteration should raise. -/
def accessFaultCause (k : ℕ) : Word :=
  if k < iss.fetchOps bus pick then causeFetchAccess
  else
    match (iss.issue (socBus bus) pick).bind fun x => x.1.type.memKind with
    | some .load | some .lr => causeLoadAccess
    | _ => causeStoreAccess

/-- Every refused access of the iteration leads to its access fault, and no register is written. -/
def RefusalsFault : Prop :=
  ∀ k x, (iss.busOps (socBus bus) pick)[k]? = some x → x.1.refused bus x.2 →
    (iss.iterate (socBus bus) pick).2.trap = some (iss.accessFaultCause bus pick k) ∧
      (iss.iterate (socBus bus) pick).1.state.regs = iss.state.regs

variable {bus pick iss}

theorem isAccessFault_accessFaultCause (k : ℕ) :
    IsAccessFault (iss.accessFaultCause bus pick k) := by
  unfold accessFaultCause
  split
  · exact .inl rfl
  · split
    · exact .inr (.inl rfl)
    · exact .inr (.inl rfl)
    · exact .inr (.inr rfl)

end ISS

/-- **Refused accesses lead to access faults in exactly the iterations that have none.** -/
theorem refusalsFault_iff (pick : Tlb → ℕ) (iss : ISS (Option (BusPort δ))) :
    iss.RefusalsFault bus pick ↔
      ∀ x ∈ iss.busOps (socBus bus) pick, ¬ x.1.refused bus x.2 := by
  constructor
  · intro h x hx hr
    obtain ⟨k, hk⟩ := List.getElem?_of_mem hx
    exact ISS.iterate_not_accessFault (h k x hk hr).1 (ISS.isAccessFault_accessFaultCause k)
  · intro h k x hk hr
    exact absurd hr (h x (List.mem_of_getElem? hk))

end Refused

/-- `lw x1, -4(x0)`: nothing is mapped at the address. -/
def loadUnmapped : ISS (Option (BusPort Unit)) :=
  barePlatform [] [0xFFC02083] nil_fits (by decide)

/-- The load reads zero and retires. -/
theorem not_refusalsFault_lw : ¬ loadUnmapped.RefusalsFault platformBus fun _ => 0 := by
  intro h
  have hload : ((loadUnmapped.busOps (socBus platformBus) fun _ => 0)[1]?).any
      fun x => x.1.refused platformBus x.2 := by
    decide +kernel
  obtain ⟨x, hx, hr⟩ := (Option.any_eq_true _ _).1 hload
  have htrap := (h 1 x hx hr).1
  exact absurd htrap (by decide +kernel)

end VirtualSoC
