import VirtualSoC.Platform.VpInterrupts
import VirtualSoC.Platform.VpTransfer

/-!
# Interrupts preempt programs

A program that has one interrupt enabled runs as the manual says as long as the line of the
interrupt is low, and the iteration of the run loop that finds it high enters the handler with the
state of the program saved (`Vp.Beside.preempt`).  `vp_preempts_user` : the timer of the CLINT, at
its deadline.
-/

namespace VirtualSoC

open Cfg

/-! ### A program that awaits an interrupt -/

/-- The interrupts with a line to the CPU. -/
def lineBits : List ℕ := [3, 7, 11]

/-- The level of the line, with the devices `t`. -/
def mipLine (t : ℕ → Target Device) (bit : ℕ) : Bool :=
  let w : BusPort Device := { targets := t }
  if bit = 3 then w.swLine else if bit = 7 then w.timerLine else if bit = 11 then w.externalLine
  else false

theorem mipLine_congr {t t' : ℕ → Target Device} (h : SameDevices t t') (bit : ℕ) :
    mipLine t bit = mipLine t' bit := by
  unfold mipLine BusPort.swLine BusPort.timerLine BusPort.externalLine
  simp only [h 2 (by decide), h 3 (by decide)]

/-- The cause of an interrupt. -/
def irqCause (bit : ℕ) : Word := intBit ||| BitVec.ofNat 32 bit

theorem mem_irqPriority_of_mem_lineBits : ∀ bit ∈ lineBits, bit ∈ irqPriority := by decide

theorem ne_one_of_mem_lineBits : ∀ bit ∈ lineBits, bit ≠ 1 := by decide

theorem getLsbD_line_iff : ∀ bit ∈ lineBits, ∀ b ∈ irqPriority,
    ((1 : Word) <<< bit).getLsbD b = true ↔ b = bit := by decide

theorem CSRFile.setLines_keeps (f : CSRFile → Word)
    (hf : ∀ (c : CSRFile) (hwMip : Word), f { c with hwMip } = f c) (c : CSRFile)
    (w : BusPort Device) : f (c.setLines w) = f c := by
  unfold CSRFile.setLines CSRFile.setHwBit
  split_ifs <;> exact (hf ..).trans ((hf ..).trans (hf ..))

theorem Vp.driven_keeps (f : CSRFile → Word)
    (hf : ∀ (c : CSRFile) (hwMip : Word), f { c with hwMip } = f c) (s : Vp) :
    f s.driven.iss.state.csr = f s.iss.state.csr := by
  unfold Vp.driven
  split
  · rfl
  · exact CSRFile.setLines_keeps f hf ..

theorem Vp.next_cycle {s : Vp} {pick : Tlb → ℕ} {w : BusPort Device}
    (hbus : (s.iss.iterate vpBus pick).1.env.bus = some w) :
    (vpMachine.next s (.cycle pick)).iss =
      { (s.iss.iterate vpBus pick).1 with state :=
        { (s.iss.iterate vpBus pick).1.state with
          csr := (s.iss.iterate vpBus pick).1.state.csr.setLines w } } := by
  have hact : (s.act (.cycle pick)).1.iss.env.bus = some w := hbus
  change (s.act (.cycle pick)).1.driven.iss = _
  unfold Vp.driven
  rw [hact]
  rfl

/-- `mip` shows the lines, and the interrupt `bit` has its handler at `tvec` in machine mode. -/
structure Vp.Awaits (bit : ℕ) (tvec : Word) (s : Vp) : Prop where
  clear : MipClear s.iss.state.csr
  mip : ∀ w ∈ s.iss.env.bus, MipDriven s.iss.state.csr w
  mideleg : s.iss.state.csr.mideleg.getLsbD bit = false
  mtvec : s.iss.state.csr.mtvec = tvec

namespace Vp.Awaits

variable {bit : ℕ} {tvec : Word} {s : Vp}

/-- Counting cycles and instructions changes nothing of it. -/
theorem next (h : s.Awaits bit tvec) (i : VpInput) (hc : Vp.Beside.Counts s i) :
    (vpMachine.next s i).Awaits bit tvec := by
  have hcsr (f : CSRFile → Word) (hinc : ∀ c : CSRFile, f c.incMcycle.incMinstret = f c) :
      f (s.act i).1.iss.state.csr = f s.iss.state.csr := by
    rcases hc with hc | hc
    · rw [hc]
    · rw [hc, hinc]
  have hclear : MipClear (s.act i).1.iss.state.csr :=
    ⟨(hcsr CSRFile.hwMip fun _ => rfl).symm ▸ h.clear.hw,
      (hcsr CSRFile.swMip fun _ => rfl).symm ▸ h.clear.sw⟩
  obtain ⟨hdriven, hmip⟩ := Vp.mip_driven hclear
  refine ⟨hdriven, hmip, ?_, ?_⟩
  · rw [← h.mideleg, ← hcsr CSRFile.mideleg fun _ => rfl]
    exact congrArg (·.getLsbD bit) (Vp.driven_keeps CSRFile.mideleg (fun _ _ => rfl) _)
  · rw [← h.mtvec, ← hcsr CSRFile.mtvec fun _ => rfl]
    exact Vp.driven_keeps CSRFile.mtvec (fun _ _ => rfl) _

variable {c : HartMode} {t : ℕ → Target Device} {r : Ram} (h : s.Awaits bit tvec)
  (hbit : bit ∈ lineBits) (hmode : s.iss.state.mode = c) (hmie : c.mie = (1 : Word) <<< bit)
  (hpriv : c.priv < prvM) (hv : VpFrame t s.iss.env.bus r)

include h

theorem destination : VirtualSoC.destination s.iss.state bit = .m := by
  unfold VirtualSoC.destination
  rw [h.mideleg]
  rfl

include hbit

theorem enterTrap : s.iss.enterTrap (irqCause bit) 0 = { s.iss with state :=
    { s.iss.state with
      csr :=
        { s.iss.state.csr with
          mepc := s.iss.state.pc &&& ~~~0x1, mcause := irqCause bit, mtval := 0
          mstatus := mtrapMstatus s.iss.state.csr.mstatus s.iss.state.priv }
      priv := prvM
      nextPc := trapTarget s.iss.state.csr.mtvec (irqCause bit)
      pc := trapTarget s.iss.state.csr.mtvec (irqCause bit) } } := by
  have hdel : ¬ trapDelegated s.iss.state (irqCause bit) := fun hdel => by
    have hdest :=
      ((trapDelegated_interrupt (mem_irqPriority_of_mem_lineBits bit hbit)).1 hdel).2
    cases hdest.symm.trans h.destination
  unfold ISS.enterTrap takeTrap
  rw [if_neg hdel]

include hmode hmie hpriv hv

/-- Only this interrupt is enabled, and its line tells whether it is pending. -/
theorem takeable_iff (b : ℕ) : Takeable s.iss.state b ↔ b = bit ∧ mipLine t bit = true := by
  obtain ⟨w, hw, -, -, hsame⟩ := hv
  have hmip := h.mip w hw
  subst hmode
  have hmie : s.iss.state.csr.mie = (1 : Word) <<< bit := hmie
  have hpriv : s.iss.state.priv < prvM := hpriv
  have hpending : s.iss.state.csr.getMip.getLsbD bit = mipLine t bit := by
    have hhw : s.iss.state.csr.hwMip.getLsbD bit = mipLine t bit :=
      (hmip.hw bit).trans (mipLine_congr hsame bit)
    have hsw : s.iss.state.csr.swMip.getLsbD bit = false := by
      rw [Bool.eq_false_iff]
      exact fun hb => ne_one_of_mem_lineBits bit hbit (hmip.sw bit hb)
    rw [CSRFile.getMip, BitVec.getLsbD_or, hhw, hsw, Bool.false_or]
  unfold Takeable
  rw [hmie]
  constructor
  · rintro ⟨hmem, hdue, hen, -⟩
    obtain rfl := (getLsbD_line_iff bit hbit b hmem).1 hen
    exact ⟨rfl, hpending ▸ hdue⟩
  · rintro ⟨rfl, hline⟩
    have hmem := mem_irqPriority_of_mem_lineBits b hbit
    refine ⟨hmem, hpending.trans hline, (getLsbD_line_iff b hbit b hmem).2 rfl, ?_⟩
    rw [h.destination]
    exact .inl hpriv

theorem checkPendingInterrupts_eq :
    checkPendingInterrupts s.iss.state = if mipLine t bit then irqCause bit else 0 := by
  have htake := h.takeable_iff hbit hmode hmie hpriv hv
  rcases checkPendingInterrupts_cases (s := s.iss.state) with ⟨hzero, hnone⟩ | ⟨b, hirq, hb, -⟩
  · rw [hzero, if_neg fun hline => hnone bit ((htake bit).2 ⟨rfl, hline⟩)]
  · obtain ⟨rfl, hline⟩ := (htake b).1 hb
    rw [hirq, if_pos hline]
    rfl

end Vp.Awaits

/-- A hart that has entered the handler of an interrupt: the state of the program is saved. -/
structure Preempted (cause : Word) (c : HartMode) (View : Option (BusPort Device) → Ram → Prop)
    (Q : Tlb → Ram → Isa.Mem → Prop) (tvec : Word) (iss : ISS (Option (BusPort Device)))
    (h : Isa.State) : Prop where
  priv : iss.state.priv = prvM
  pc : iss.state.pc = trapTarget tvec cause
  mepc : iss.state.csr.mepc = h.pc &&& ~~~1
  mcause : iss.state.csr.mcause = cause
  mstatus : iss.state.csr.mstatus = mtrapMstatus c.mstatus c.priv
  regs : iss.state.regFile = h.regs
  mem : Sees View Q iss.env h.mem

namespace Vp.Beside

variable {c : HartMode} {Q : Tlb → Ram → Isa.Mem → Prop} {A : Isa.Space} {K : Set ℕ}
  {x : ℕ → Transfer} {p : ℕ × (ℕ → Target Device)} {s : Vp} {h h' : Isa.State} {bit : ℕ}
  {tvec : Word}

theorem preempted (hs : s.Beside c Q K x p h) (ha : s.Awaits bit tvec) (hbit : bit ∈ lineBits)
    (hmie : c.mie = (1 : Word) <<< bit) (hpriv : c.priv < prvM) (hline : mipLine p.2 bit = true)
    (pick : Tlb → ℕ) :
    vpMachine.out s (.cycle pick) = { trap := some (irqCause bit) } ∧
      Preempted (irqCause bit) c (VpFrame p.2) (Keeping K (x p.1).ram Q) tvec
        (vpMachine.next s (.cycle pick)).iss h := by
  obtain ⟨r, hv, hq⟩ := hs.cpu.mem
  have hmem := mem_irqPriority_of_mem_lineBits bit hbit
  have hirq : checkPendingInterrupts s.iss.state = irqCause bit :=
    (ha.checkPendingInterrupts_eq hbit hs.cpu.mode hmie hpriv hv).trans (if_pos hline)
  have hne : checkPendingInterrupts s.iss.state ≠ 0 := by
    rw [hirq]
    exact intBit_or_ne_zero bit hmem
  have hstep := ISS.iterate_of_interrupt vpBus pick hs.cpu.inWfi hs.cpu.halted hne
  rw [hirq, ha.enterTrap hbit] at hstep
  refine ⟨congrArg Prod.snd hstep, ?_⟩
  obtain ⟨w, hw, hframe⟩ := hv
  have hbus : (s.iss.iterate vpBus pick).1.env.bus = some w := by
    rw [hstep]
    exact hw
  rw [Vp.next_cycle hbus, hstep]
  have hmode := hs.cpu.mode
  exact
    { priv := rfl
      pc := congrArg (trapTarget · (irqCause bit)) ha.mtvec
      mepc := (CSRFile.setLines_keeps CSRFile.mepc (fun _ _ => rfl) ..).trans
        (congrArg (· &&& ~~~1) hs.cpu.pc)
      mcause := CSRFile.setLines_keeps CSRFile.mcause (fun _ _ => rfl) ..
      mstatus := by
        refine (CSRFile.setLines_keeps CSRFile.mstatus (fun _ _ => rfl) ..).trans ?_
        rw [← hmode]
        rfl
      regs := hs.cpu.regs
      mem := ⟨r, ⟨w, hw, hframe⟩, hq⟩ }

/-- **A program runs until its interrupt comes.**  It makes its iterations while the line is low;
then come steps that are no iterations; and the first iteration after the line has become high
enters the handler. -/
theorem preempt (hs : s.Beside c Q K x p h) (ha : s.Awaits bit tvec) (hbit : bit ∈ lineBits)
    (hmie : c.mie = (1 : Word) <<< bit) (hpriv : c.priv < prvM) (hturns : Turns K x)
    (hignore : Ignores K Q)
    (hserve : ∀ t f, Serves vpBus (VpFrame t) c A (Keeping K f Q)) {pre post : List VpInput}
    (hi : ∀ i ∈ pre ++ post, i.Running)
    (hpre : ∀ js, js <+: pre → mipLine (js.foldl (VpInput.beside x) p).2 bit = false)
    (hpost : ∀ i ∈ post, i.isCycle = false)
    (hdue : mipLine ((pre ++ post).foldl (VpInput.beside x) p).2 bit = true)
    (hrun : Isa.Steps A h (pre.countP (·.isCycle)) h') :
    (∀ e ∈ vpMachine.trace s (pre ++ post), e.trap = none) ∧ ∀ pick,
      vpMachine.out (vpMachine.run s (pre ++ post)) (.cycle pick) =
        { trap := some (irqCause bit) } ∧
      Preempted (irqCause bit) c (VpFrame ((pre ++ post).foldl (VpInput.beside x) p).2)
        (Keeping K (x (p.1 + (pre ++ post).countP (·.isTurn))).ram Q) tvec
        (vpMachine.run s (pre ++ post ++ [.cycle pick])).iss h' := by
  obtain ⟨hmid, ha', htrap, -⟩ := hs.run ha (fun s i h hc => h.next i hc) hturns hignore hserve
    (fun i hmem => hi i (List.mem_append_left _ hmem))
    (fun js pick hp s h ha hb => by
      obtain ⟨r, hv, -⟩ := hb.cpu.mem
      rw [ha.checkPendingInterrupts_eq hbit hb.cpu.mode hmie hpriv hv,
        hpre js ((List.prefix_append ..).trans hp)]
      rfl) hrun
  have hstay : Isa.Steps A h' (post.countP (·.isCycle)) h' := by
    rw [List.countP_eq_zero.2 fun i hmem => Bool.eq_false_iff.1 (hpost i hmem)]
    exact .refl
  obtain ⟨hend, ha'', htrap', -⟩ := hmid.run ha' (fun s i h hc => h.next i hc) hturns hignore
    hserve (fun i hmem => hi i (List.mem_append_right _ hmem))
    (fun js pick hp => by
      have hmem := hp.subset (List.mem_append_right _ (List.mem_singleton_self _))
      exact absurd (hpost _ hmem) Bool.noConfusion)
    hstay
  rw [← Machine.run_append, ← List.foldl_append] at hend
  rw [← Machine.run_append] at ha''
  refine ⟨fun e he => ?_, fun pick => ?_⟩
  · rw [Machine.trace_append] at he
    rcases List.mem_append.1 he with he | he
    · exact htrap e he
    · exact htrap' e he
  · have hlast := hend.preempted ha'' hbit hmie hpriv hdue pick
    rw [foldl_beside_fst] at hlast
    rw [Machine.run_snoc]
    exact hlast

end Vp.Beside

/-! ### The CLINT -/

/-- The CLINT at its socket. -/
def ClintAt (t : ℕ → Target Device) (x : Clint) : Prop := t 2 = .device ⟨.clint x, none⟩

/-- A tick of the CLINT. -/
def VpInput.isTick : VpInput → Bool
  | .clintTick => true
  | _ => false

section Clint

variable {t : ℕ → Target Device} {x : Clint}

/-- Only its ticks change it, as long as no other master writes to it. -/
theorem ClintAt.devices (h : ClintAt t x) (th : DmaThread) (i : VpInput) :
    ClintAt (i.devices th t) (if i.isTick then x.tick else x) := by
  have hother (j : ℕ) (hj : 2 ≠ j) (f : Peripheral → Device) : ClintAt (changeDevice t j f) x :=
    deliver_device ((Function.update_of_ne hj ..).trans h) (nofun)
  cases i with
  | clintTick =>
    have hu : Function.update t 2 ((t 2).mapDevice fun d => d.unit.clintTick) 2 =
        .device ⟨.clint x.tick, none⟩ := by
      rw [Function.update_self, h]
      rfl
    exact deliver_device hu (nofun)
  | timerTick => exact hother 6 (by decide) _
  | pushRx byte => exact hother 4 (by decide) _
  | setInput pins => exact hother 5 (by decide) _
  | dmaThread buf => exact hother 9 (by decide) _
  | cycle | sdThread | halt | resume | step => exact h

/-- What the lines show, and how far the counter is. -/
structure ClintRuns (x₀ x : Clint) (n : ℕ) : Prop where
  lines : x.Lines
  mtime : x.mtime = x₀.mtime + BitVec.ofNat 64 n
  mtimecmp : x.mtimecmp = x₀.mtimecmp

theorem ClintRuns.toNat_mtime {x₀ : Clint} {n : ℕ} (h : ClintRuns x₀ x n)
    (hn : x₀.mtime.toNat + n < 2 ^ 64) : x.mtime.toNat = x₀.mtime.toNat + n := by
  rw [h.mtime, BitVec.toNat_add, BitVec.toNat_ofNat]
  omega

theorem ClintRuns.tick {x₀ : Clint} {n : ℕ} (h : ClintRuns x₀ x n) :
    ClintRuns x₀ x.tick (n + 1) where
  lines := Clint.lines_updateTimerIrq h.lines.sw
  mtime := by
    change x.mtime + 1 = _
    rw [h.mtime, BitVec.ofNat_add, BitVec.add_assoc]
    rfl
  mtimecmp := h.mtimecmp

theorem ClintAt.foldl {x₀ : Clint} {p : ℕ × (ℕ → Target Device)} (h : ClintAt p.2 x₀)
    (hl : x₀.Lines) (y : ℕ → Transfer) (is : List VpInput) :
    ∃ x, ClintAt (is.foldl (VpInput.beside y) p).2 x ∧ ClintRuns x₀ x (is.countP (·.isTick)) := by
  induction is using List.reverseRecOn with
  | nil => exact ⟨x₀, h, hl, (BitVec.add_zero _).symm, rfl⟩
  | append_singleton is i ih =>
    obtain ⟨x, hx, hruns⟩ := ih
    refine ⟨if i.isTick then x.tick else x, ?_, ?_⟩
    · rw [List.foldl_concat]
      exact hx.devices _ i
    · rw [List.countP_append, List.countP_singleton]
      by_cases hi : i.isTick
      · rw [if_pos hi, if_pos hi]
        exact hruns.tick
      · rw [if_neg hi, if_neg hi]
        exact hruns

theorem ClintAt.mipLine (h : ClintAt t x) (hl : x.Lines) :
    mipLine t 7 = decide (x.mtimecmp.toNat ≤ x.mtime.toNat) := by
  have hline : VirtualSoC.mipLine t 7 = x.timerIrq := by
    change BusPort.timerLine { targets := t } = _
    unfold BusPort.timerLine
    dsimp only
    rw [h]
  rw [hline, Bool.eq_iff_iff, decide_eq_true_iff]
  exact hl.timer

end Clint

/-! ### The deadline -/

theorem MastersIdle.foldl_beside {y : ℕ → Transfer} (hy : ∀ j, (y j).dma.thread = .waiting)
    {p : ℕ × (ℕ → Target Device)} (h : MastersIdle p.2) (is : List VpInput) :
    MastersIdle (is.foldl (VpInput.beside y) p).2 := by
  induction is using List.reverseRecOn with
  | nil => exact h
  | append_singleton is i ih =>
    rw [List.foldl_concat]
    unfold VpInput.beside
    rw [hy]
    exact ih.devices i

/-- Where no transfer is started, the thread of the DMA engine stays at its `wait`. -/
theorem Vp.Shows.beside {c : HartMode} {Q : Tlb → Ram → Isa.Mem → Prop} {s : Vp} {h : Isa.State}
    (hs : s.Shows c Q h) (hheard : ∀ w ∈ s.iss.env.bus, AllHeard w.targets) :
    ∃ w e r, s.iss.env.bus = some w ∧ e.startEvent = false ∧ MastersIdle w.targets ∧
      s.Beside c Q ∅ (fun _ => ⟨⟨e, .waiting⟩, r⟩) (0, w.targets) h := by
  obtain ⟨⟨hhalt, hwfi, hstep, hmode, hregs, hpc, r, ⟨w, hw, hram, hidle⟩, hq⟩, hdma, hsd⟩ := hs
  have hheard := hheard w hw
  obtain ⟨e, d, h9, he⟩ := hidle.dma
  obtain rfl : d = none := by
    have hcall := hheard 9
    rwa [h9] at hcall
  exact ⟨w, e, r, hw, he, hidle, ⟨hhalt, hwfi, hstep, hmode, hregs, hpc, r,
    ⟨w, hw, hram, hheard, fun _ _ => rfl⟩, hq, fun _ hk => hk.elim⟩, h9, hdma, hidle.sd, hsd⟩

/-- The counter of the CLINT reaches its compare register at the `k`-th tick from now on, `mip` is
driven, and the timer interrupt is not delegated. -/
structure Vp.TimerSet (s : Vp) (k : ℕ) : Prop where
  clint : ∀ w ∈ s.iss.env.bus, ∃ x, ClintAt w.targets x ∧ x.Lines ∧
    x.mtime.toNat + k = x.mtimecmp.toNat
  heard : ∀ w ∈ s.iss.env.bus, AllHeard w.targets
  mip : ∀ w ∈ s.iss.env.bus, MipDriven s.iss.state.csr w
  mideleg : s.iss.state.csr.mideleg.getLsbD 7 = false

/-- A program in an address space with the timer interrupt enabled runs as the manual says in the
iterations before the `k`-th tick; and the first one after it enters the handler, with the program
counter, the privilege, the registers and the memory of the program as they were.  Bytes and pin
changes may arrive, and the other timer may tick, at any time. -/
theorem vp_preempts_user {r₀ : Ram} {c : HartMode}
    (hspace : AddressSpace r₀ c 0x80000000 0x88000000) (hmie : c.mie = (1 : Word) <<< 7) {s : Vp}
    {h h' : Isa.State} {k : ℕ} (hs : s.Shows c (Virtual r₀ c) h) (hset : s.TimerSet k)
    {pre post : List VpInput} (hi : ∀ i ∈ pre ++ post, i.Running)
    (hpre : pre.countP (·.isTick) < k) (hpost : ∀ i ∈ post, i.isCycle = false)
    (hdue : k ≤ (pre ++ post).countP (·.isTick))
    (hwrap : ∀ w ∈ s.iss.env.bus, ∀ x, ClintAt w.targets x →
      x.mtime.toNat + (pre ++ post).countP (·.isTick) < 2 ^ 64)
    (hrun : Isa.Steps (virtualSpace r₀ c) h (pre.countP (·.isCycle)) h') :
    (∀ e ∈ vpMachine.trace s (pre ++ post), e.trap = none) ∧ ∀ pick,
      vpMachine.out (vpMachine.run s (pre ++ post)) (.cycle pick) = { trap := some (irqCause 7) } ∧
        Preempted (irqCause 7) c VpView (Virtual r₀ c) s.iss.state.csr.mtvec
          (vpMachine.run s (pre ++ post ++ [.cycle pick])).iss h' := by
  obtain ⟨w, e, r, hw, he, hidle, hbeside⟩ := hs.beside hset.heard
  obtain ⟨x, hx, hl, hk⟩ := hset.clint w hw
  have hawaits : s.Awaits 7 s.iss.state.csr.mtvec :=
    ⟨(hset.mip w hw).clear, hset.mip, hset.mideleg, rfl⟩
  have hempty := SpaceApart.empty r₀ c
  have hticks {js : List VpInput} (hjs : js.countP (·.isTick) ≤ (pre ++ post).countP (·.isTick)) :
      mipLine (js.foldl (VpInput.beside fun _ => ⟨⟨e, .waiting⟩, r⟩) (0, w.targets)).2 7 =
        decide (k ≤ js.countP (·.isTick)) := by
    obtain ⟨x', hx', hclint⟩ := ClintAt.foldl (p := (0, w.targets)) hx hl _ js
    have hlt := hwrap w hw x hx
    rw [hx'.mipLine hclint.lines, hclint.mtimecmp, hclint.toNat_mtime (by omega), ← hk]
    exact decide_eq_decide.2 (by omega)
  obtain ⟨htrap, hlast⟩ := hbeside.preempt hawaits (by decide) hmie hspace.priv (turns_idle he r)
    (ignores_virtual hempty)
    (fun t f => serves_virtual_keeping hspace (vp_ramAt_frame t) hempty f) hi
    (fun js hjs => by
      have hle := hjs.sublist.countP_le (p := (·.isTick))
      rw [hticks (by rw [List.countP_append]; omega)]
      exact decide_eq_false (by omega)) hpost
    (by rw [hticks le_rfl]; exact decide_eq_true hdue) hrun
  refine ⟨htrap, fun pick => ⟨(hlast pick).1, ?_⟩⟩
  obtain ⟨hpriv', hpc', hmepc, hmcause, hmstatus, hregs', r', ⟨w', hw', hram', -, hsame⟩, hq', -⟩ :=
    (hlast pick).2
  have hidle' := hidle.foldl_beside (p := (0, w.targets)) (y := fun _ => ⟨⟨e, .waiting⟩, r⟩)
    (fun _ => rfl) (pre ++ post)
  exact ⟨hpriv', hpc', hmepc, hmcause, hmstatus, hregs', r', ⟨w', hw', hram',
    hidle'.congr (hsame 8 (by decide)) (hsame 9 (by decide))⟩, hq'⟩

/-! The platform of the superpage, with the timer set to the next tick. -/

/-- User mode with the machine timer interrupt enabled. -/
def timerMode : HartMode := { userMode with mie := 0x80 }

/-- The platform before the tick. -/
def timerPlatform : Vp :=
  let s := userPlatform.onDevice 2 fun _ => ⟨.clint { mtimecmp := 1 }, none⟩
  { s with iss := { s.iss with state :=
      { s.iss.state with csr := { s.iss.state.csr with mie := 0x80 } } } }

theorem clintAt_onDevice (w : BusPort Device) {d : Device} (hd : w.targets 2 = .device d)
    (x : Clint) : ClintAt (w.onDevice 2 fun _ => ⟨.clint x, none⟩).targets x := by
  have hu : Function.update w.targets 2 ((w.targets 2).mapDevice fun _ => ⟨.clint x, none⟩) 2 =
      .device ⟨.clint x, none⟩ := by
    rw [Function.update_self, hd]
    rfl
  exact deliver_device hu (nofun)

theorem timerPlatform_clint : ∀ w ∈ timerPlatform.iss.env.bus,
    ClintAt w.targets { mtimecmp := 1 } ∧ AllHeard w.targets := by
  rintro w ⟨⟩
  exact ⟨clintAt_onDevice _ rfl _, allHeard_deliver _⟩

theorem timerPlatform_shows :
    timerPlatform.Shows timerMode (Virtual userRam timerMode) (sled 0 0) := by
  have hview : VpView timerPlatform.iss.env.bus userRam :=
    (vpView_filledPlatform 1).onDevice ⟨by decide, by decide⟩ _
  have hvirt := virtual_filledRam 1
  exact ⟨⟨rfl, rfl, rfl, rfl, regFile_sled 0 0, rfl, userRam, hview,
    ⟨hvirt.tables, hvirt.content, hvirt.cached⟩⟩, rfl, rfl⟩

theorem timerPlatform_set : timerPlatform.TimerSet 1 where
  clint w hw := ⟨_, (timerPlatform_clint w hw).1, ⟨by decide, by decide⟩, rfl⟩
  heard w hw := (timerPlatform_clint w hw).2
  mip := by
    rintro w ⟨⟩
    refine ⟨fun b => ?_, Vp.clear_reset.sw⟩
    split_ifs
    all_goals exact BitVec.getLsbD_zero
  mideleg := rfl

/-- An instruction, the tick, and the trap. -/
theorem vp_preempts_user_sled :
    let is : List VpInput := [.cycle fun _ => 0] ++ [.clintTick]
    (∀ e ∈ vpMachine.trace timerPlatform is, e.trap = none) ∧ ∀ pick,
      vpMachine.out (vpMachine.run timerPlatform is) (.cycle pick) = { trap := some (irqCause 7) } ∧
        Preempted (irqCause 7) timerMode VpView (Virtual userRam timerMode)
          timerPlatform.iss.state.csr.mtvec
          (vpMachine.run timerPlatform (is ++ [.cycle pick])).iss (sled 0 1) := by
  have huser := addressSpace_filledRam 1
  have hspace : AddressSpace userRam timerMode 0x80000000 0x88000000 :=
    ⟨huser.priv, huser.sv32, huser.frame, huser.unaliased, huser.tables, huser.apart⟩
  have hstep : Isa.Step (virtualSpace userRam timerMode) (sled 0 0) (sled 0 1) :=
    sled_step (by decide) (filledSpace_fetch (by decide) (by decide))
  refine vp_preempts_user hspace rfl timerPlatform_shows timerPlatform_set
    (by simp [VpInput.Running]) (by decide) (by simp [VpInput.isCycle]) (by decide)
    (fun w hw x hx => ?_) (.tail .refl hstep)
  cases (timerPlatform_clint w hw).1.symm.trans hx
  decide

end VirtualSoC
