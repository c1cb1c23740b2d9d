import VirtualSoC.Platform.VpInterrupts

/-!
# The requests at the PLIC

`vp_requests_raised` : in a run that does not write the pending word, a request that is pending at
the PLIC is one of a device that drives its line high at this moment, and that shows the cause where
its registers can, so no claim returns another source.
-/

namespace VirtualSoC

open Cfg

/-! ### What the lines of the devices stand for -/

/-- The registers of the device show the cause of an interrupt.  Those of the DMA engine and of the
SD controller have no place for it: a new transfer can be under way while the end of the last one
has not been acknowledged. -/
def Peripheral.Raised : Peripheral → Prop
  | uart u => u.ier &&& Uart.ierRxAvail ≠ 0 ∧ u.rxFifo ≠ [] ∨ u.ier &&& Uart.ierTxEmpty ≠ 0
  | gpio g => g.irqStatus &&& g.irqMask ≠ 0
  | timer t => t.ctrl.getLsbD 0 = true ∧ t.cmp.toNat ≤ t.time.toNat
  | sdCtrl _ | dma _ => True
  | fbCtrl f => f.vsyncPending = 1
  | _ => False

theorem Uart.raised_of_run (is : List UartInput) (h : (uartMachine.run {} is).irq = true) :
    (Peripheral.uart (uartMachine.run {} is)).Raised := by
  obtain ⟨hvalid, -⟩ := Uart.run_conserves is
  rw [← hvalid.line] at h
  generalize uartMachine.run {} is = u at h ⊢
  unfold updateIrq at h
  dsimp only at h
  split at h
  next htx => exact .inr htx.1
  next =>
    split at h
    next hrx => exact .inl ⟨hrx.1, u.isEmpty_eq_false_iff.1 hrx.2⟩
    next => cases h

theorem Gpio.line_run (is : List GpioInput) : (gpioMachine.run {} is).Line :=
  Machine.run_invariant (by rw [Line]; decide) (fun _ i h => h.next i) is

theorem Peripheral.raised_of_irq {th : DmaThread} {u : Peripheral} (hr : u.Reached th)
    (h : u.irq = true) : u.Raised := by
  cases u with
  | clint c => cases h
  | plic p => cases h
  | spi s => cases h
  | uart u =>
    obtain ⟨is, rfl⟩ := hr
    exact Uart.raised_of_run is h
  | gpio g =>
    obtain ⟨is, rfl⟩ := hr
    exact (Gpio.line_run is).1 h
  | timer t =>
    obtain ⟨is, rfl⟩ := hr
    exact (Timer.line_run is).1 h
  | sdCtrl c => exact trivial
  | dma e => exact trivial
  | fbCtrl f =>
    obtain ⟨is, rfl⟩ := hr
    have hafter := FBCtrl.after_run is
    have hdue : vsyncDue (regWrites is) = true := hafter.irq.symm.trans h
    exact hafter.vsyncPending.trans (if_pos hdue)
  | audio o =>
    obtain ⟨is, rfl⟩ := hr
    cases (AudioOut.after_run is).irq.symm.trans h

/-! ### Runs -/

/-- The step writes the pending word of the PLIC. -/
def VpInput.WritesPending (s : Vp) : VpInput → Prop
  | .cycle pick => ∃ x ∈ s.iss.busOps vpBus pick, ∃ v, x.1 = .write (plicBase + 0x1000) v 4
  | .dmaThread _ => ∃ src, s.dmaThread = .copying 4 src (plicBase + 0x1000)
  | _ => False

theorem not_writesPending_of_writeTrans {a v : Word} {n : ℕ} {trans : Payload 4}
    (h : writeTrans a v n = some trans) (hne : ¬ (a = plicBase + 0x1000 ∧ n = 4)) :
    ¬ trans.WritesPending := by
  obtain ⟨buf, hbuf, hx⟩ := Option.bind_eq_some_iff.1 h
  cases hx
  rintro ⟨-, hlen, haddr⟩
  rw [setWidth_setWidth_word] at haddr
  refine hne ⟨haddr, ?_⟩
  have hn : n ≤ 4 := by
    by_contra hlt
    rw [Buffer.copy_eq_none_iff.2 (.inr (by omega))] at hbuf
    cases hbuf
  have htoNat := congrArg BitVec.toNat hlen
  rw [toNat_ofNat_bytes hn] at htoNat
  exact htoNat

theorem allowed_of_not_writesPending {s : Vp} {i : VpInput} (h : ¬ i.WritesPending s) :
    i.Allowed (fun trans => ¬ trans.WritesPending) s := by
  cases i with
  | cycle pick =>
    intro x hx
    obtain ⟨op, w⟩ := x
    cases op with
    | read a n => exact fun hw => by cases hw.1
    | write a v n =>
      refine fun trans htr => not_writesPending_of_writeTrans htr ?_
      rintro ⟨rfl, rfl⟩
      exact h ⟨_, hx, v, rfl⟩
    | dropDmi => trivial
  | dmaThread buf =>
    intro src dst remaining buf' hth _
    refine ⟨fun hw => (by cases hw.1), fun hw => ?_⟩
    obtain ⟨-, hlen, haddr⟩ := hw
    have hdst : dst = plicBase + 0x1000 := (setWidth_setWidth_word dst).symm.trans haddr
    have hrem : remaining = 4 := by
      have htoNat : (DmaEngine.chunk remaining).toNat = 4 := congrArg BitVec.toNat hlen
      rw [DmaEngine.toNat_chunk] at htoNat
      apply BitVec.eq_of_toNat_eq
      change _ = 4
      omega
    exact h ⟨src, by rw [hth, hdst, hrem]⟩
  | sdThread buf => exact fun dest block hw => absurd hw.2.1 (show (512 : Word) ≠ 4 by decide)
  | _ => trivial

section

variable (rom : Vector Byte bootRomSize.toNat) (ram : Vector Byte ramSize.toNat)
  (card : Option SDCardModel)

theorem Vp.heard_run {is : List VpInput}
    (h : vpMachine.Along (fun s i => ¬ i.WritesPending s) (Vp.reset rom ram card) is) :
    ∀ w ∈ (vpMachine.run (Vp.reset rom ram card) is).iss.env.bus, Heard w.targets := by
  refine (Machine.run_invariant_along (M := vpMachine)
    (I := fun s => s.Inv ∧ ∀ w ∈ s.iss.env.bus, Heard w.targets)
    ⟨Vp.inv_reset rom ram card, Vp.heard_reset rom ram card⟩ (fun s i hs hi => ?_) h).2
  refine ⟨hs.1.next i, fun w' hw' => ?_⟩
  obtain ⟨w, hw, hsteps⟩ := Vp.steps_next hs.1 (allowed_of_not_writesPending hi) w' hw'
  exact Heard.steps (s := (s.dmaThread, w.targets)) (hs.2 w hw) (hs.1 w hw) hsteps

theorem exists_wire : ∀ i : Source, i ≠ 0 → ∃ l ∈ irqWires, l.2.toNat = i := by decide

/-- In a run of the platform that does not write the pending word of the PLIC, every request that is
pending, and every source that a claim returns, is the one of a device whose line is high: a UART, a
GPIO block, a timer or a framebuffer whose registers show the cause, the DMA engine or the SD
controller.  The audio output never has one. -/
theorem vp_requests_raised (is : List VpInput)
    (h : vpMachine.Along (fun s i => ¬ i.WritesPending s) (Vp.reset rom ram card) is) :
    ∀ w ∈ (vpMachine.run (Vp.reset rom ram card) is).iss.env.bus, ∃ p,
      w.targets 3 = .device ⟨.plic p, none⟩ ∧ ∀ i : Source, i ≠ 0 →
        p.pending.getLsbD i = true ∨ p.claimBest.1 = i →
        ∃ l ∈ irqWires, l.2.toNat = i ∧ ∃ u, w.targets l.1 = .device ⟨u, none⟩ ∧
          u.irq = true ∧ u.Raised := by
  intro w hw
  have hinv := Vp.inv_run rom ram card is w hw
  obtain ⟨p, hp⟩ := hinv.exists_plic
  refine ⟨p, hp, fun i hi hreq => ?_⟩
  have hpending : p.pending.getLsbD i = true := by
    rcases hreq with hpending | hclaim
    · exact hpending
    · rcases Plic.claimBest_cases p with ⟨hc, -⟩ | ⟨j, hc, hbest⟩
      · exact absurd (hclaim.symm.trans (congrArg Prod.fst hc)) hi
      · rw [hc] at hclaim
        exact hclaim ▸ hbest.eligible.pending
  obtain ⟨l, hl, hli⟩ := exists_wire i hi
  obtain ⟨hlo, hhi, -⟩ := irqWires_ne l hl
  obtain ⟨u, hu, -, hr⟩ := hinv.device l.1 hlo hhi
  have hirq := Vp.heard_run rom ram card h w hw l hl p u hp hu (hli ▸ hpending)
  exact ⟨l, hl, hli, u, hu, hirq, u.raised_of_irq hr hirq⟩

end

/-- The iterations of the run loop do not write the word. -/
def VpInput.leavesPending (s : Vp) : VpInput → Bool
  | .cycle pick => (s.iss.busOps vpBus pick).all fun x => match x.1 with
    | .write a _ _ => a ≠ plicBase + 0x1000
    | _ => true
  | .dmaThread _ => s.dmaThread = .waiting
  | _ => true

theorem VpInput.not_writesPending {s : Vp} {i : VpInput} (h : i.leavesPending s) :
    ¬ i.WritesPending s := by
  cases i with
  | cycle pick =>
    rintro ⟨x, hx, v, hop⟩
    have hne := List.all_eq_true.1 h x hx
    rw [hop] at hne
    exact of_decide_eq_true hne rfl
  | dmaThread buf =>
    rintro ⟨src, hth⟩
    cases hth.symm.trans (of_decide_eq_true h)
  | _ => exact id

/-- The pending word of the PLIC. -/
def BusPort.pendingWord (w : BusPort Device) : Word :=
  match w.targets 3 with
  | .device ⟨.plic p, _⟩ => p.pending
  | _ => 0

/-- The program `lui x1, 0x10000; addi x2, x0, 1; sb x2, 1(x1)` enables the receive interrupt. -/
def uartProgram : Vector Byte ramSize.toNat :=
  wordsBuf [0x100000B7, 0x00100113, 0x002080A3] (by decide)

/-- Then a byte arrives. -/
def uartRun : List VpInput :=
  [.cycle fun _ => 0, .cycle fun _ => 0, .cycle fun _ => 0, .pushRx 0x41]

/-- The source of the UART is pending, with its cause. -/
theorem vp_requests_raised_push :
    ∃ w ∈ (vpMachine.run (Vp.reset (.replicate _ 0) uartProgram none) uartRun).iss.env.bus, ∃ p,
      w.targets 3 = .device ⟨.plic p, none⟩ ∧ p.pending.getLsbD 1 = true ∧
        ∃ l ∈ irqWires, l.2.toNat = 1 ∧ ∃ u, w.targets l.1 = .device ⟨u, none⟩ ∧
          u.irq = true ∧ u.Raised := by
  have hpending : ((vpMachine.run (Vp.reset (.replicate _ 0) uartProgram none)
      uartRun).iss.env.bus.map fun w => w.pendingWord.getLsbD 1) = some true := by decide +kernel
  obtain ⟨w, hw, hbit⟩ := Option.map_eq_some_iff.1 hpending
  have hrun : vpMachine.tests (fun s i => i.leavesPending s)
      (Vp.reset (.replicate _ 0) uartProgram none) uartRun := by decide +kernel
  obtain ⟨p, hp, hraised⟩ := vp_requests_raised _ _ none uartRun
    (Machine.along_of_tests (fun _ _ => VpInput.not_writesPending) hrun) w hw
  unfold BusPort.pendingWord at hbit
  rw [hp] at hbit
  exact ⟨w, hw, p, hp, hbit, hraised 1 (by decide) (.inl hbit)⟩

end VirtualSoC
