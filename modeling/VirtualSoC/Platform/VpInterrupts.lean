import VirtualSoC.Cpu.AccessFault
import VirtualSoC.Cpu.InterruptSpec
import VirtualSoC.Cpu.Retired
import VirtualSoC.Io.GpioSpec
import VirtualSoC.Io.TimerSpec
import VirtualSoC.Platform.VpRun

/-!
# The interrupts of the platform

From the devices over the CLINT, the PLIC and `mip` to the trap: `vp_interrupts` says which
interrupt the CPU takes in a reachable state of the platform, in terms of the registers of the
devices.  An iteration of the run loop itself leaves the bits of the lines (`iterate_keepsMip`),
and every step of the platform ends with `mip` driven (`Vp.mip_run`).
-/

namespace VirtualSoC

open Cfg

/-! ### `mip` in an iteration -/

/-- Software writes SSIP only, and leaves the bits of the lines. -/
structure KeepsMip (c c' : CSRFile) : Prop where
  hw : c'.hwMip = c.hwMip
  sw : c'.swMip = c.swMip ∨ ∃ v, c'.swMip = v &&& (1 <<< 1)

theorem KeepsMip.refl (c : CSRFile) : KeepsMip c c := ⟨rfl, .inl rfl⟩

theorem CSRFile.writeReg_keepsMip {c : CSRFile} {addr : BitVec 16} {v : Word} :
    ∀ c', c.writeReg addr v = some c' → KeepsMip c c' := by
  unfold writeReg
  repeat' apply forall_some_ite
  all_goals first | rintro rfl c' ⟨⟩ | rintro c' ⟨⟩
  all_goals first | exact ⟨rfl, .inl rfl⟩ | exact ⟨rfl, .inr ⟨v, rfl⟩⟩

theorem CsrEffect.keepsMip {s : CPUState} {d : DecodedInstr} {c : CSRFile} (h : CsrEffect s d c) :
    KeepsMip s.csr c := by
  cases h with
  | kept h => exact h ▸ .refl _
  | status _ h =>
    rw [h]
    exact ⟨rfl, .inl rfl⟩
  | write v b _ h =>
    obtain ⟨-, -, hreg, -⟩ := CSRFile.write_eq_some h
    exact CSRFile.writeReg_keepsMip _ hreg

theorem takeTrap_mip (s : CPUState) (cause tval : Word) :
    (takeTrap s cause tval).csr.hwMip = s.csr.hwMip ∧
      (takeTrap s cause tval).csr.swMip = s.csr.swMip := by
  unfold takeTrap
  split
  · exact ⟨rfl, rfl⟩
  · exact ⟨rfl, rfl⟩

section

variable {β : Type*} {bus : PhysBus β} {pick : Tlb → ℕ}

theorem retire_mip (iss : ISS β) (r : ExecResult) (d : DecodedInstr) :
    (iss.retire bus r d).1.state.csr.hwMip = iss.state.csr.hwMip ∧
      (iss.retire bus r d).1.state.csr.swMip = iss.state.csr.swMip := by
  unfold ISS.retire
  dsimp only
  split
  · exact ⟨rfl, rfl⟩
  · split
    · exact takeTrap_mip ..
    · split
      · exact ⟨rfl, rfl⟩
      · exact ⟨rfl, rfl⟩

theorem stepInsn_keepsMip (iss : ISS β) (d : DecodedInstr) :
    KeepsMip iss.state.csr (ISS.stepInsn bus pick iss d).1.state.csr := by
  have hout := execute_outcome (issMemIf bus pick)
    (iss.state.fallThrough (iss.state.pc + d.instrLen)) d { iss.env with memFault := false }
  have hkept : KeepsMip iss.state.csr (iss.executed bus pick d iss.env).cpu.csr :=
    hout.csr.keepsMip
  by_cases hm : (iss.executed bus pick d iss.env).mem.memFault
  · rw [ISS.stepInsn_refused d hm]
    obtain ⟨hhw, hsw⟩ := takeTrap_mip (iss.executed bus pick d iss.env).cpu
      (iss.executed bus pick d iss.env).mem.memFaultCause
      (iss.executed bus pick d iss.env).mem.memFaultVaddr
    exact ⟨hhw.trans hkept.hw, hsw.symm ▸ hkept.sw⟩
  · rw [ISS.stepInsn_retired d hm]
    exact ⟨(retire_mip ..).1.trans hkept.hw, (retire_mip ..).2.symm ▸ hkept.sw⟩

theorem idle_keepsMip {iss : ISS β} {x : ISS β × Event} (h : ISS.Idle bus iss x) :
    KeepsMip iss.state.csr x.1.state.csr := by
  cases h with
  | wake => exact .refl _
  | halted => exact .refl _
  | trap env cause tval =>
    obtain ⟨hhw, hsw⟩ := takeTrap_mip iss.state cause tval
    exact ⟨hhw, .inl hsw⟩

theorem iterate_keepsMip (iss : ISS β) :
    KeepsMip iss.state.csr (iss.iterate bus pick).1.state.csr := by
  cases hissue : iss.issue bus pick with
  | none => exact idle_keepsMip (ISS.iterate_idle hissue)
  | some x =>
    obtain ⟨d, env⟩ := x
    rw [(ISS.iterate_of_issue hissue).2]
    exact stepInsn_keepsMip { iss with env } d

end

/-! ### The lines -/

theorem getLsbD_setHwBit (c : CSRFile) {bit : ℕ} (hbit : bit < 32) (v : Bool) (b : ℕ) :
    (c.setHwBit bit v).hwMip.getLsbD b = if b = bit then v else c.hwMip.getLsbD b := by
  have hone : ((1 : Word) <<< bit).getLsbD b = decide (b = bit) := by
    rw [show (1 : Word) <<< bit = BitVec.twoPow 32 bit from (BitVec.twoPow_eq 32 bit).symm,
      BitVec.getLsbD_twoPow, decide_eq_true hbit, Bool.true_and]
    exact decide_eq_decide.2 eq_comm
  unfold CSRFile.setHwBit
  cases v with
  | true =>
    rw [if_pos rfl, BitVec.getLsbD_or, hone]
    by_cases hb : b = bit <;> simp [hb]
  | false =>
    rw [if_neg Bool.false_ne_true, BitVec.getLsbD_and, BitVec.getLsbD_not, hone]
    by_cases hb : b = bit
    · simp [hb]
    · by_cases hlt : b < 32
      · simp [hb, hlt]
      · simp [hb, BitVec.getLsbD_of_ge _ _ (Nat.not_lt.1 hlt)]

theorem getLsbD_setLines (c : CSRFile) (w : BusPort Device) (b : ℕ) :
    (c.setLines w).hwMip.getLsbD b =
      if b = 3 then w.swLine else if b = 7 then w.timerLine else if b = 11 then w.externalLine
      else c.hwMip.getLsbD b := by
  unfold CSRFile.setLines
  rw [getLsbD_setHwBit _ (by decide), getLsbD_setHwBit _ (by decide),
    getLsbD_setHwBit _ (by decide)]
  by_cases h3 : b = 3
  · simp [h3]
  by_cases h7 : b = 7
  · simp [h7]
  by_cases h11 : b = 11 <;> simp [h3, h7, h11]

theorem swMip_setLines (c : CSRFile) (w : BusPort Device) : (c.setLines w).swMip = c.swMip := by
  have hset (c : CSRFile) (bit : ℕ) (v : Bool) : (c.setHwBit bit v).swMip = c.swMip := by
    unfold CSRFile.setHwBit
    split
    · rfl
    · rfl
  unfold CSRFile.setLines
  rw [hset, hset, hset]

/-- The bits of `mip`, with the lines of the devices `w`. -/
structure MipDriven (c : CSRFile) (w : BusPort Device) : Prop where
  hw : ∀ b, c.hwMip.getLsbD b =
    if b = 3 then w.swLine else if b = 7 then w.timerLine else if b = 11 then w.externalLine
    else false
  sw : ∀ b, c.swMip.getLsbD b = true → b = 1

/-- The bits of `mip` that nothing drives are clear. -/
structure MipClear (c : CSRFile) : Prop where
  hw : ∀ b, b ≠ 3 → b ≠ 7 → b ≠ 11 → c.hwMip.getLsbD b = false
  sw : ∀ b, c.swMip.getLsbD b = true → b = 1

theorem KeepsMip.clear {c c' : CSRFile} (h : KeepsMip c c') (hc : MipClear c) : MipClear c' where
  hw := h.hw.symm ▸ hc.hw
  sw b hb := by
    rcases h.sw with hsw | ⟨v, hv⟩
    · exact hc.sw b (hsw ▸ hb)
    · have hone : ((1 : Word) <<< 1).getLsbD b = true := by
        rw [hv, BitVec.getLsbD_and, Bool.and_eq_true] at hb
        exact hb.2
      rw [show (1 : Word) <<< 1 = BitVec.twoPow 32 1 from rfl, BitVec.getLsbD_twoPow] at hone
      simpa [eq_comm] using hone

theorem MipClear.driven {c : CSRFile} (hc : MipClear c) (w : BusPort Device) :
    MipDriven (c.setLines w) w where
  hw b := by
    rw [getLsbD_setLines]
    split_ifs with h3 h7 h11
    · rfl
    · rfl
    · rfl
    · exact hc.hw b h3 h7 h11
  sw b hb := hc.sw b (swMip_setLines c w ▸ hb)

theorem MipDriven.clear {c : CSRFile} {w : BusPort Device} (h : MipDriven c w) : MipClear c where
  hw b h3 h7 h11 := by rw [h.hw, if_neg h3, if_neg h7, if_neg h11]
  sw := h.sw

namespace Vp

variable {s : Vp}

theorem keepsMip_act (s : Vp) (i : VpInput) :
    KeepsMip s.iss.state.csr (s.act i).1.iss.state.csr := by
  cases i with
  | cycle pick => exact iterate_keepsMip s.iss
  | dmaThread buf =>
    unfold act onThread
    dsimp only
    split
    · exact .refl _
    · exact .refl _
  | sdThread buf =>
    unfold act onThread
    dsimp only
    split
    · exact .refl _
    · exact .refl _
  | _ => exact .refl _

theorem clear_reset : MipClear {} where
  hw _ _ _ _ := BitVec.getLsbD_zero
  sw b hb := by cases (BitVec.getLsbD_zero (w := 32) (i := b)).symm.trans hb

theorem mip_driven (h : MipClear s.iss.state.csr) : MipClear s.driven.iss.state.csr ∧
    ∀ w ∈ s.driven.iss.env.bus, MipDriven s.driven.iss.state.csr w := by
  cases hb : s.iss.env.bus with
  | none =>
    have hdriven : s.driven = s := by
      unfold driven
      rw [hb]
    rw [hdriven]
    exact ⟨h, fun w hw => by cases hb.symm.trans hw⟩
  | some w =>
    have hcsr : s.driven.iss.state.csr = s.iss.state.csr.setLines w := by
      unfold driven
      rw [hb]
    rw [hcsr, driven_bus, hb]
    refine ⟨(h.driven w).clear, fun w' hw' => ?_⟩
    cases hw'
    exact h.driven w

theorem mip_run (rom : Vector Byte bootRomSize.toNat) (ram : Vector Byte ramSize.toNat)
    (card : Option SDCardModel) (is : List VpInput) :
    MipClear (vpMachine.run (Vp.reset rom ram card) is).iss.state.csr ∧
      ∀ w ∈ (vpMachine.run (Vp.reset rom ram card) is).iss.env.bus,
        MipDriven (vpMachine.run (Vp.reset rom ram card) is).iss.state.csr w := by
  refine Machine.run_invariant (M := vpMachine)
    (I := fun s => MipClear s.iss.state.csr ∧ ∀ w ∈ s.iss.env.bus, MipDriven s.iss.state.csr w)
    ⟨clear_reset, fun w hw => ?_⟩ (fun s i h => mip_driven ((keepsMip_act s i).clear h.1)) is
  cases hw
  refine ⟨fun b => ?_, clear_reset.sw⟩
  split_ifs
  all_goals exact BitVec.getLsbD_zero

end Vp

/-! ### What the loop does about interrupts -/

section

variable {β : Type*} {bus : PhysBus β} {pick : Tlb → ℕ}

theorem intBit_or_ne : ∀ bit ∈ irqPriority, intBit ||| BitVec.ofNat 32 bit ≠ causeMisalignedFetch ∧
    intBit ||| BitVec.ofNat 32 bit ≠ causeFetchPageFault := by decide

/-- An iteration takes an interrupt if and only if one is selected. -/
theorem iterate_takes_iff (iss : ISS β) (hwfi : iss.inWfi = false) (hhalt : iss.halted = false)
    {bit : ℕ} (hbit : bit ∈ irqPriority) :
    (iss.iterate bus pick).2 = { trap := some (intBit ||| BitVec.ofNat 32 bit) } ↔
      checkPendingInterrupts iss.state = intBit ||| BitVec.ofNat 32 bit := by
  have hne := intBit_or_ne bit hbit
  obtain ⟨s, e, _, _, _, _, _⟩ := iss
  dsimp only at hwfi hhalt
  subst hwfi hhalt
  by_cases h : checkPendingInterrupts s = 0
  · refine iff_of_false ?_ fun hirq => intBit_or_ne_zero bit hbit (hirq.symm.trans h)
    unfold ISS.iterate
    simp only [h, Bool.false_eq_true, if_false, ne_eq, not_true_eq_false]
    split
    · exact fun he => hne.1 (Option.some.inj (congrArg Event.trap he)).symm
    · split
      next cause env hf =>
        exact fun he => hne.2 ((Option.some.inj (congrArg Event.trap he)).symm.trans
          (fetch_cause hf))
      next raw env hf =>
        intro he
        cases (ISS.stepInsn_spec (decode raw)).2.2.symm.trans (congrArg Event.insn he)
  · rw [ISS.iterate_of_interrupt bus pick rfl rfl h]
    exact ⟨fun he => Option.some.inj (congrArg Event.trap he), fun hirq => by rw [hirq]⟩

end

/-! ### From the devices to the CPU -/

/-- An interrupt is asked for: by software, by the CLINT, or by the PLIC. -/
def InterruptDue (csr : CSRFile) (c : Clint) (p : Plic) (bit : ℕ) : Prop :=
  bit = 1 ∧ csr.swMip.getLsbD 1 = true ∨ bit = 3 ∧ c.msip.getLsbD 0 = true ∨
    bit = 7 ∧ c.mtimecmp.toNat ≤ c.mtime.toNat ∨ bit = 11 ∧ ∃ i, p.Eligible i

/-- The CPU may take the interrupt now. -/
structure InterruptReady (s : CPUState) (c : Clint) (p : Plic) (bit : ℕ) : Prop where
  mem : bit ∈ irqPriority
  due : InterruptDue s.csr c p bit
  enabled : s.csr.mie.getLsbD bit = true
  level : (destination s bit).Enabled s

theorem SocInv.exists_clint {th : DmaThread} {t : ℕ → Target Device} (h : SocInv (th, t)) :
    ∃ c, t 2 = .device ⟨.clint c, none⟩ ∧ ∃ is, clintMachine.run {} is = c := by
  obtain ⟨u, hu, hsocket, hr⟩ := h.device 2 (by decide) (by decide)
  cases u with
  | clint c => exact ⟨c, hu, hr⟩
  | _ => cases hsocket

theorem SocInv.exists_plic_run {th : DmaThread} {t : ℕ → Target Device} (h : SocInv (th, t)) :
    ∃ p, t 3 = .device ⟨.plic p, none⟩ ∧ ∃ is, plicMachine.run {} is = p := by
  obtain ⟨u, hu, hsocket, hr⟩ := h.device 3 (by decide) (by decide)
  cases u with
  | plic p => exact ⟨p, hu, hr⟩
  | _ => cases hsocket

theorem SocInv.exists_lines {th : DmaThread} {w : BusPort Device} (h : SocInv (th, w.targets)) :
    ∃ c p, w.targets 2 = .device ⟨.clint c, none⟩ ∧ w.targets 3 = .device ⟨.plic p, none⟩ ∧
      (w.swLine = true ↔ c.msip.getLsbD 0 = true) ∧
      (w.timerLine = true ↔ c.mtimecmp.toNat ≤ c.mtime.toNat) ∧
      (w.externalLine = true ↔ ∃ i, p.Eligible i) := by
  obtain ⟨c, hc, cs, rfl⟩ := h.exists_clint
  obtain ⟨p, hp, ps, rfl⟩ := h.exists_plic_run
  have hlines := Clint.lines_run cs
  refine ⟨_, _, hc, hp, ?_, ?_, ?_⟩
  · unfold BusPort.swLine
    rw [hc]
    exact hlines.sw
  · unfold BusPort.timerLine
    rw [hc]
    exact hlines.timer
  · unfold BusPort.externalLine
    rw [hp]
    exact Plic.settled_run ps

theorem getMip_iff {c : CSRFile} {w : BusPort Device} (h : MipDriven c w) {cl : Clint} {p : Plic}
    (hsw : w.swLine = true ↔ cl.msip.getLsbD 0 = true)
    (htimer : w.timerLine = true ↔ cl.mtimecmp.toNat ≤ cl.mtime.toNat)
    (hext : w.externalLine = true ↔ ∃ i, p.Eligible i) (bit : ℕ) :
    c.getMip.getLsbD bit = true ↔ InterruptDue c cl p bit := by
  unfold CSRFile.getMip InterruptDue
  rw [BitVec.getLsbD_or, Bool.or_eq_true, h.hw, ← hsw, ← htimer, ← hext]
  refine or_congr ⟨fun hb => ?_, ?_⟩ ?_
  · obtain rfl := h.sw bit hb
    exact ⟨rfl, hb⟩
  · rintro ⟨rfl, hb⟩
    exact hb
  · by_cases h3 : bit = 3
    · simp [h3]
    by_cases h7 : bit = 7
    · simp [h7]
    by_cases h11 : bit = 11 <;> simp [h3, h7, h11]

/-- In every reachable state of the platform, whatever the CPU, the host, the debugger, the ticks
and the other masters of the bus have done and in whatever order: `mip` shows the interrupts that
are asked for at this moment, and a CPU that runs takes the interrupt `bit` next if and only if it
is the first one, in the order of the scan, that is asked for and enabled. -/
theorem vp_interrupts (rom : Vector Byte bootRomSize.toNat) (ram : Vector Byte ramSize.toNat)
    (card : Option SDCardModel) (is : List VpInput) :
    let s := (vpMachine.run (Vp.reset rom ram card) is).iss
    ∀ w ∈ s.env.bus, ∃ c p,
      w.targets 2 = .device ⟨.clint c, none⟩ ∧ w.targets 3 = .device ⟨.plic p, none⟩ ∧
      (∀ bit, s.state.csr.getMip.getLsbD bit = true ↔ InterruptDue s.state.csr c p bit) ∧
      (s.inWfi = false → s.halted = false → ∀ pick, ∀ bit ∈ irqPriority,
        ((s.iterate vpBus pick).2 = { trap := some (intBit ||| BitVec.ofNat 32 bit) } ↔
          InterruptReady s.state c p bit ∧ ∀ b, InterruptReady s.state c p b →
            irqPriority.idxOf bit ≤ irqPriority.idxOf b)) := by
  intro s w hw
  obtain ⟨c, p, hc, hp, hsw, htimer, hext⟩ := (Vp.inv_run rom ram card is w hw).exists_lines
  have hmip := getMip_iff ((Vp.mip_run rom ram card is).2 w hw) hsw htimer hext
  refine ⟨c, p, hc, hp, hmip, fun hwfi hhalt pick bit hbit => ?_⟩
  have hready (b : ℕ) : InterruptReady s.state c p b ↔ Takeable s.state b :=
    ⟨fun h => ⟨h.mem, (hmip b).2 h.due, h.enabled, h.level⟩,
      fun h => ⟨h.1, (hmip b).1 h.2.1, h.2.2.1, h.2.2.2⟩⟩
  rw [iterate_takes_iff s hwfi hhalt hbit]
  simp only [hready]
  rcases checkPendingInterrupts_cases (s := s.state) with ⟨hzero, hnone⟩ | ⟨b, hirq, htake, hfirst⟩
  · refine iff_of_false (fun h => intBit_or_ne_zero bit hbit (h.symm.trans hzero)) fun h => ?_
    exact hnone bit h.1
  · constructor
    · intro h
      obtain rfl := intBit_or_inj b htake.1 bit hbit (hirq.symm.trans h)
      exact ⟨htake, hfirst⟩
    · rintro ⟨hb, hall⟩
      have hidx := Nat.le_antisymm (hall b htake) (hfirst bit hb)
      rw [hirq, (List.idxOf_inj hbit).1 hidx]

/-- After a tick. -/
theorem vp_interrupts_tick :
    let s := (vpMachine.run (Vp.reset (.replicate _ 0) (.replicate _ 0) none) [.clintTick]).iss
    ∃ w ∈ s.env.bus, ∃ c p,
      w.targets 2 = .device ⟨.clint c, none⟩ ∧ w.targets 3 = .device ⟨.plic p, none⟩ ∧
      ∀ bit, s.state.csr.getMip.getLsbD bit = true ↔ InterruptDue s.state.csr c p bit := by
  intro s
  obtain ⟨c, p, hc, hp, hmip, -⟩ :=
    vp_interrupts (.replicate _ 0) (.replicate _ 0) none [.clintTick] _ rfl
  exact ⟨_, rfl, c, p, hc, hp, hmip⟩

end VirtualSoC
