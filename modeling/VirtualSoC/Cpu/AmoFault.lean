import VirtualSoC.Cpu.PageFault

/-!
# Page faults of AMOs and SC.W

An AMO loads before it stores, and the callbacks share one flag with one cause.  Whatever mapping
refuses the load refuses the store too, so the cause that the trap reports is that of a store
(`amo_fault_store`).
-/

namespace VirtualSoC

section

variable {β : Type*} (bus : PhysBus β) (pick : Tlb → ℕ) (s : CPUState) (d : DecodedInstr)
  (e : Env β)

/-- The MMU refuses an access. -/
def RefusesAccess (vaddr : Word) (type : AccessType) (e : Env β) : Prop :=
  (dataPaddr bus pick s vaddr type e).1 = none

/-- One of the data accesses of an AMO or of SC.W is refused: the load half or the store half that
follows it; SC.W accesses memory when its reservation holds. -/
def AtomicAccessFaults : Prop :=
  match d.type.memKind with
  | some .amo =>
    RefusesAccess bus pick s (accessAddr s d) .load e ∨
      RefusesAccess bus pick s (accessAddr s d) .store
        (memRead bus pick s (accessAddr s d) 4 e).2
  | some .sc =>
    s.lrSc.check (accessAddr s d) ∧ RefusesAccess bus pick s (accessAddr s d) .store e
  | _ => False

variable {bus pick s d e}

theorem memRead_memFault_of_refuses {vaddr : Word} {n : ℕ}
    (h : RefusesAccess bus pick s vaddr .load e) : (memRead bus pick s vaddr n e).2.memFault := by
  rw [memRead_memFault, h]
  rfl

theorem memWrite_memFault_of_refuses {vaddr data : Word} {n : ℕ}
    (h : RefusesAccess bus pick s vaddr .store e) :
    (memWrite bus pick s vaddr data n e).memFault := by
  rw [memWrite_memFault, h]
  rfl

theorem memWrite_memFault_of_memFault {vaddr data : Word} {n : ℕ} (h : e.memFault) :
    (memWrite bus pick s vaddr data n e).memFault := by
  rw [memWrite_memFault, h, Bool.or_true]

/-- The flag is set at the end of an instruction with a refused access. -/
theorem execute_memFault (ha : AccessAligned s d) (h : AtomicAccessFaults bus pick s d e) :
    (execute (issMemIf bus pick) s d e).mem.memFault := by
  have hacc := execute_accesses (issMemIf bus pick) s d e
  unfold AtomicAccessFaults at h
  generalize execute (issMemIf bus pick) s d e = x at hacc ⊢
  cases hacc with
  | load ht | store ht | lr ht =>
    rw [ht] at h
    exact h.elim
  | scDone ht =>
    rw [ht] at h
    exact memWrite_memFault_of_refuses h.2
  | scFailed ht _ hc =>
    rw [ht] at h
    exact absurd h.1 hc
  | @amo v m' ht _ hr =>
    rw [ht] at h
    change memRead bus pick s (accessAddr s d) 4 e = (v, m') at hr
    change (memWrite bus pick ((s.falling d).setReg d.rd v) _ _ 4 _).memFault
    rw [memWrite_congr (s := s) (by simp) (by simp)]
    rcases h with h | h
    · have hload := memRead_memFault_of_refuses (n := 4) h
      rw [hr] at hload
      exact memWrite_memFault_of_memFault hload
    · rw [hr] at h
      exact memWrite_memFault_of_refuses h
  | quiet _ _ hq =>
    cases ht : d.type.memKind with
    | none =>
      rw [ht] at h
      exact h.elim
    | some k => exact absurd ha (hq (by rw [ht]; exact Option.some_ne_none k)).1

end

/-- **AMO and SC page faults are reported as store/AMO page faults**, at the address that the
instruction accesses, on a bus with RAM and the page tables of the access in it. -/
theorem amo_fault_store {β : Type*} {bus : PhysBus β} {lo hi : ℕ} {View : β → Ram → Prop}
    (hr : RamAt bus lo hi View) (pick : Tlb → ℕ) (iss : ISS β) {d : DecodedInstr} {env : Env β}
    (hissue : iss.issue bus pick = some (d, env))
    (hkind : d.type.memKind = some .amo ∨ d.type.memKind = some .sc)
    (halign : AccessAligned iss.state d) {m : Ram} (hv : View env.bus m)
    (htab : TablesIn lo hi m iss.state.csr.satp (iss.state.getReg d.rs1))
    (hfault : AtomicAccessFaults bus pick iss.state d { env with memFault := false }) :
    (iss.iterate bus pick).2.trap = some causeStorePageFault ∧
      TrapEntered iss.state causeStorePageFault (iss.state.getReg d.rs1)
        (iss.iterate bus pick).1.state := by
  obtain ⟨heven, hiter⟩ := ISS.iterate_of_issue hissue
  have haddr : accessAddr iss.state d = iss.state.getReg d.rs1 := by
    rcases hkind with h | h
    · rw [accessAddr, h]
    · rw [accessAddr, h]
  have htype : faultCause (faultType d) = causeStorePageFault := by
    rcases hkind with h | h
    · rw [faultType, h]
      rfl
    · rw [faultType, h]
      rfl
  have hflag : (ISS.executed bus pick { iss with env } d env).mem.memFault :=
    execute_memFault halign hfault
  have hx : RefusedAccess bus lo hi View pick iss.state d { env with memFault := false } m
      (ISS.executed bus pick { iss with env } d env) :=
    refusedAccess_execute hr hv (haddr.symm ▸ htab) rfl hflag
  rw [hiter, ISS.stepInsn_refused d hflag]
  generalize ISS.executed bus pick { iss with env } d env = x at hx
  have hcause : x.mem.memFaultCause = causeStorePageFault := hx.cause.trans htype
  have htval : x.mem.memFaultVaddr = iss.state.getReg d.rs1 := hx.vaddr.trans haddr
  refine ⟨congrArg some hcause, ?_⟩
  have hentered := trapEntered_takeTrap hx.pc hx.priv hx.csr heven x.mem.memFaultCause
    x.mem.memFaultVaddr
  rw [hcause, htval] at hentered
  dsimp only [ISS.enterTrap]
  rw [hcause, htval]
  exact hentered

/-- `amoswap.w x5, x5, (x5)` at an address that is not mapped: the load half is refused first. -/
theorem amo_fault_store_amoswap : ∃ b, PlatformView Unit b (faultRam 0x0852A2AF) ∧
    ((beforeFault b).iterate (socBus platformBus) fun _ => 0).2.trap = some causeStorePageFault ∧
      TrapEntered faultState causeStorePageFault 0x400000
        ((beforeFault b).iterate (socBus platformBus) fun _ => 0).1.state := by
  obtain ⟨b, hb⟩ := exists_faultRam 0x0852A2AF
  obtain ⟨env, hissue, hv, ht⟩ := issue_beforeFault hb
  have halign : AccessAligned faultState (decode 0x0852A2AF) := (by decide : _ &&& _ = _)
  refine ⟨b, hb, amo_fault_store platform_ramAt (fun _ => 0) (beforeFault b) hissue
    (.inl (by decide)) halign hv tablesIn_faultRam (.inl ?_)⟩
  exact dataPaddr_beforeFault (e := { env with memFault := false }) hv ht rfl rfl .load

end VirtualSoC
