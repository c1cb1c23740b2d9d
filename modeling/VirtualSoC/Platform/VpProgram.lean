import VirtualSoC.Cpu.ProgramSpec
import VirtualSoC.Platform.RamFrame
import VirtualSoC.Platform.VpRun

/-!
# The platform runs programs

`vp_runs_program` : as long as the DMA engine and the SD controller are idle and the debugger lets
the core run, a program in the RAM does on the platform what `Isa.Steps` says, one instruction an
iteration, in whatever order the timers tick and bytes and pin changes arrive.
-/

namespace VirtualSoC

open Cfg

/-! ### The RAM and the masters of the bus -/

/-- The SD controller has no transfer to start. -/
def SdIdle (t : ℕ → Target Device) : Prop :=
  ∃ k c, t 8 = .device ⟨.sdCtrl k, c⟩ ∧ k.startEvent = false

/-- Neither the DMA engine nor the SD controller has a transfer to start. -/
structure MastersIdle (t : ℕ → Target Device) : Prop where
  dma : ∃ e c, t 9 = .device ⟨.dma e, c⟩ ∧ e.startEvent = false
  sd : SdIdle t

/-- The platform with `m` in its RAM, and no other master than the CPU. -/
def VpView (b : Option (BusPort Device)) (m : Ram) : Prop :=
  ∃ w, b = some w ∧ w.PlatformRam m ∧ MastersIdle w.targets

section

variable {w : BusPort Device} {m : Ram}

theorem MastersIdle.congr {t t' : ℕ → Target Device} (h : MastersIdle t) (h8 : t' 8 = t 8)
    (h9 : t' 9 = t 9) : MastersIdle t' where
  dma := h9.symm ▸ h.dma
  sd := by
    unfold SdIdle
    rw [h8]
    exact h.sd

theorem SdIdle.deliver {t : ℕ → Target Device} (h : SdIdle t) : SdIdle (deliver t) := by
  obtain ⟨k, c, h8, hk⟩ := h
  exact ⟨k, none, deliver_device h8 (nofun), hk⟩

theorem MastersIdle.deliver {t : ℕ → Target Device} (h : MastersIdle t) :
    MastersIdle (deliver t) := by
  obtain ⟨⟨e, c, h9, he⟩, hsd⟩ := h
  exact ⟨⟨e, none, deliver_device h9 (nofun), he⟩, hsd.deliver⟩

theorem Target.getDirectMemPtr_mapDevice {δ : Type} (t : Target δ) (f : δ → δ) :
    (t.mapDevice f).getDirectMemPtr = t.getDirectMemPtr := by
  cases t <;> rfl

theorem BusPort.PlatformRam.mapDevices (h : w.PlatformRam m) (f : ℕ → Device → Device) :
    { w with targets := fun i => (w.targets i).mapDevice (f i) }.PlatformRam m where
  window := h.window.targets fun i => Target.getDirectMemPtr_mapDevice _ _
  grants i := (Target.getDirectMemPtr_mapDevice _ _).trans (h.grants i)
  ram := by
    obtain ⟨mem, ht, hbytes⟩ := h.ram
    refine ⟨mem, ?_, hbytes⟩
    dsimp only
    rw [ht]
    rfl

theorem BusPort.PlatformRam.deliver (h : w.PlatformRam m) : w.deliver.PlatformRam m :=
  h.mapDevices fun _ d => { unit := d.unit.hear w.targets }

theorem BusPort.PlatformRam.onDevice (h : w.PlatformRam m) (i : ℕ) (f : Peripheral → Device) :
    (w.onDevice i f).PlatformRam m := by
  have hmap := h.mapDevices fun j d => if j = i then f d.unit else d
  have htargets : (fun j => (w.targets j).mapDevice fun d => if j = i then f d.unit else d) =
      Function.update w.targets i ((w.targets i).mapDevice fun d => f d.unit) := by
    funext j
    by_cases hj : j = i
    · subst hj
      simp
    · rw [Function.update_of_ne hj]
      cases hw : w.targets j <;> simp [Target.mapDevice, hj]
  rw [htargets] at hmap
  exact hmap.deliver

end

/-- The platform has RAM for the CPU, and the accesses to it start no transfer. -/
theorem vp_ramAt : RamAt vpBus 0x80000000 0x88000000 VpView := by
  have hview {b : Option (BusPort Device)} {m : Ram} {others : ℕ → Target Device}
      (h : PlatformFrame Device others b m) (hidle : MastersIdle others) :
      VpView (b.map (·.deliver)) m := by
    obtain ⟨w, rfl, hw, hothers⟩ := h
    exact ⟨_, rfl, hw.deliver,
      (hidle.congr (hothers 8 (by decide)) (hothers 9 (by decide))).deliver⟩
  have hframe {w : BusPort Device} {m : Ram} (h : w.PlatformRam m) :
      PlatformFrame Device w.targets (some w) m := ⟨w, rfl, h, fun _ _ => rfl⟩
  exact
    { read := by
        rintro _ m ⟨w, rfl, hw, hidle⟩ a n hn hlo hhi
        obtain ⟨hval, hv⟩ := (platform_ramAt_frame w.targets).read (hframe hw) hn hlo hhi
        exact ⟨hval, hview hv hidle⟩
      readPast := by
        rintro _ m ⟨w, rfl, hw, hidle⟩ a n hn hlo hlt hhi
        obtain ⟨hval, hv⟩ := (platform_ramAt_frame w.targets).readPast (hframe hw) hn hlo hlt hhi
        exact ⟨hval, hview hv hidle⟩
      write := by
        rintro _ m ⟨w, rfl, hw, hidle⟩ a n hn hlo hhi v
        exact hview ((platform_ramAt_frame w.targets).write (hframe hw) hn hlo hhi v) hidle
      writePast := by
        rintro _ m ⟨w, rfl, hw, hidle⟩ a n hn hlo hlt hhi v
        exact hview ((platform_ramAt_frame w.targets).writePast (hframe hw) hn hlo hlt hhi v)
          hidle }

theorem VpView.onDevice {b : Option (BusPort Device)} {m : Ram} (h : VpView b m) {i : ℕ}
    (hi : i ≠ 8 ∧ i ≠ 9) (f : Peripheral → Device) : VpView (b.map (·.onDevice i f)) m := by
  obtain ⟨w, rfl, hw, hidle⟩ := h
  refine ⟨_, rfl, hw.onDevice i f, MastersIdle.deliver (hidle.congr ?_ ?_)⟩
  · exact Function.update_of_ne hi.1.symm ..
  · exact Function.update_of_ne hi.2.symm ..

theorem Peripheral.dmaResume_waiting (r r' q q' : TlmResponse) :
    dmaResume .waiting r r' = dmaResume .waiting q q' := by
  funext u
  cases u <;> rfl

section

variable {w : BusPort Device} (h : MastersIdle w.targets)

include h

theorem MastersIdle.resume_waiting (r r' : TlmResponse) :
    Dma.resume ⟨w.dmaEngine, .waiting⟩ r r' = (⟨w.dmaEngine, .waiting⟩, []) := by
  obtain ⟨⟨e, c, h9, he⟩, -⟩ := h
  have hengine : w.dmaEngine = e := by
    unfold BusPort.dmaEngine
    rw [h9]
  rw [hengine]
  exact if_neg (by rw [he]; exact Bool.false_ne_true)

theorem MastersIdle.dmaThread (buf : DmaBuf) :
    w.dmaThread .waiting buf = some (.waiting, w.onDevice 9 (·.dmaResume .waiting .ok .ok)) := by
  unfold BusPort.dmaThread BusPort.dmaNext
  dsimp only
  rw [h.resume_waiting, Peripheral.dmaResume_waiting _ _ .ok .ok]

omit h in
theorem SdIdle.sdThread (h : SdIdle w.targets) (buf : SdBlock) :
    w.sdThread .waiting buf = some (.waiting, w) := by
  obtain ⟨k, c, h8, hk⟩ := h
  have hctrl : w.sdCtrl = k := by
    unfold BusPort.sdCtrl
    rw [h8]
  unfold BusPort.sdThread
  dsimp only
  rw [hctrl, hk, if_neg Bool.false_ne_true]

end

theorem MastersIdle.dmaResume {t : ℕ → Target Device} (h : MastersIdle t) :
    MastersIdle (Function.update t 9
      ((t 9).mapDevice fun d => d.unit.dmaResume .waiting .ok .ok)) := by
  obtain ⟨⟨e, c, h9, he⟩, hsd⟩ := h
  have hwait : Dma.resume ⟨e, .waiting⟩ .ok .ok = (⟨e, .waiting⟩, []) :=
    if_neg (by rw [he]; exact Bool.false_ne_true)
  refine ⟨⟨e, none, ?_, he⟩, ?_⟩
  · rw [Function.update_self, h9]
    dsimp only [Target.mapDevice, Peripheral.dmaResume]
    rw [hwait]
    rfl
  · unfold SdIdle
    rw [Function.update_of_ne (by decide)]
    exact hsd

theorem VpView.dmaThread {w : BusPort Device} {m : Ram} (h : VpView (some w) m) :
    VpView (some (w.onDevice 9 (·.dmaResume .waiting .ok .ok))) m := by
  obtain ⟨_, ⟨⟩, hw, hidle⟩ := h
  exact ⟨_, rfl, hw.onDevice 9 _, hidle.dmaResume.deliver⟩

/-! ### Runs -/

/-- The platform in the state of a program: the CPU shows it, and the other masters wait. -/
structure Vp.Shows (c : HartMode) (Q : Tlb → Ram → Isa.Mem → Prop) (s : Vp) (h : Isa.State) :
    Prop where
  cpu : VirtualSoC.Shows VpView c Q s.iss h
  dma : s.dmaThread = .waiting
  sd : s.sdThread = .waiting

/-- An iteration of the run loop. -/
def VpInput.isCycle : VpInput → Bool
  | .cycle _ => true
  | _ => false

/-- The debugger lets the core run. -/
def VpInput.Running : VpInput → Prop
  | .halt | .step => False
  | _ => True

theorem Isa.Steps.of_snoc {A : Isa.Space} {h h' : Isa.State} {is : List VpInput} {i : VpInput}
    (hrun : Isa.Steps A h ((is ++ [i]).countP (·.isCycle)) h') :
    ∃ t, Isa.Steps A h (is.countP (·.isCycle)) t ∧
      if i.isCycle then Isa.Step A t h' else h' = t := by
  rw [List.countP_append, List.countP_singleton] at hrun
  by_cases hc : i.isCycle
  · rw [if_pos hc] at hrun
    cases hrun with
    | tail hpre hstep => exact ⟨_, hpre, by rwa [if_pos hc]⟩
  · rw [if_neg hc] at hrun
    exact ⟨h', hrun, by rw [if_neg hc]⟩

/-- Driving the lines changes nothing that a program sees. -/
theorem Shows.driven {View : Option (BusPort Device) → Ram → Prop} {c : HartMode}
    {Q : Tlb → Ram → Isa.Mem → Prop} {s : Vp} {h : Isa.State} (hs : Shows View c Q s.iss h) :
    Shows View c Q s.driven.iss h := by
  unfold Vp.driven
  split
  · exact hs
  next w hw =>
    have hmode : CPUState.mode { s.iss.state with csr := s.iss.state.csr.setLines w } =
        s.iss.state.mode := by
      unfold CSRFile.setLines CSRFile.setHwBit CPUState.mode
      split_ifs <;> rfl
    exact { hs with mode := hmode.trans hs.mode }

namespace Vp.Shows

variable {c : HartMode} {Q : Tlb → Ram → Isa.Mem → Prop} {A : Isa.Space} {s : Vp}
  {h h' : Isa.State}

theorem driven (hs : s.Shows c Q h) : s.driven.Shows c Q h where
  cpu := hs.cpu.driven
  dma := (Vp.driven_dmaThread s).trans hs.dma
  sd := (Vp.driven_sdThread s).trans hs.sd

theorem withBus (hs : s.Shows c Q h) {b : Option (BusPort Device)}
    (hb : ∀ m, VpView s.iss.env.bus m → VpView b m) : (s.withBus b).Shows c Q h := by
  obtain ⟨r, hv, hq⟩ := hs.cpu.mem
  exact ⟨{ hs.cpu with mem := ⟨r, hb r hv, hq⟩ }, hs.dma, hs.sd⟩

/-- A step that is not an iteration of the run loop. -/
theorem act (hs : s.Shows c Q h) {i : VpInput} (hi : i.Running) (hc : i.isCycle = false) :
    (s.act i).1.Shows c Q h ∧ (s.act i).2 = {} := by
  obtain ⟨-, ⟨w, hw, -, hidle⟩, -⟩ := hs.cpu.mem
  cases i with
  | cycle pick => cases hc
  | clintTick => exact ⟨hs.withBus fun _ hv => hv.onDevice (by decide) _, rfl⟩
  | timerTick => exact ⟨hs.withBus fun _ hv => hv.onDevice (by decide) _, rfl⟩
  | pushRx byte => exact ⟨hs.withBus fun _ hv => hv.onDevice (by decide) _, rfl⟩
  | setInput pins => exact ⟨hs.withBus fun _ hv => hv.onDevice (by decide) _, rfl⟩
  | dmaThread buf =>
    dsimp only [Vp.act]
    rw [hs.dma, hw, Option.bind_some, hidle.dmaThread buf]
    obtain ⟨hcpu, hdma, hsd⟩ := hs.withBus fun m hv => VpView.dmaThread (hw ▸ hv)
    exact ⟨⟨hcpu, rfl, hsd⟩, rfl⟩
  | sdThread buf =>
    dsimp only [Vp.act]
    rw [hs.sd, hw, Option.bind_some, hidle.sd.sdThread buf]
    obtain ⟨hcpu, hdma, hsd⟩ := hs.withBus (b := some w) fun _ hv => hw ▸ hv
    exact ⟨⟨hcpu, hdma, rfl⟩, rfl⟩
  | resume => exact ⟨⟨{ hs.cpu with halted := rfl, singleStep := rfl }, hs.dma, hs.sd⟩, rfl⟩
  | halt | step => cases hi

variable (hserve : Serves vpBus VpView c A Q) (hquiet : c.Quiet)

include hserve hquiet

/-- A step of the platform is a step of the program or none. -/
theorem next (hs : s.Shows c Q h) {i : VpInput} (hi : i.Running)
    (hstep : if i.isCycle then Isa.Step A h h' else h' = h) :
    (vpMachine.next s i).Shows c Q h' ∧ (vpMachine.out s i).trap = none ∧
      ((vpMachine.out s i).insn.isSome ↔ i.isCycle) := by
  by_cases hc : i.isCycle
  · rw [if_pos hc] at hstep
    cases i with
    | cycle pick =>
      have hirq := CPUState.checkPendingInterrupts_of_quiet (hs.cpu.mode.symm ▸ hquiet)
      obtain ⟨hnext, -, d, hout⟩ := hs.cpu.iterate hserve hirq pick hstep
      have hshows : ({ s with iss := (s.iss.iterate vpBus pick).1 } : Vp).Shows c Q h' :=
        ⟨hnext, hs.dma, hs.sd⟩
      refine ⟨hshows.driven, ?_⟩
      change (s.iss.iterate vpBus pick).2.trap = none ∧
        ((s.iss.iterate vpBus pick).2.insn.isSome ↔ _)
      rw [hout]
      exact ⟨rfl, iff_of_true rfl hc⟩
    | _ => cases hc
  · rw [if_neg hc] at hstep
    subst hstep
    obtain ⟨hnext, hout⟩ := hs.act hi (Bool.eq_false_iff.2 hc)
    refine ⟨hnext.driven, ?_⟩
    change (s.act i).2.trap = none ∧ ((s.act i).2.insn.isSome ↔ _)
    rw [hout]
    exact ⟨rfl, iff_of_false Bool.false_ne_true hc⟩

/-- **A run of the platform is a run of the program.** -/
theorem run (hs : s.Shows c Q h) {is : List VpInput} (hi : ∀ i ∈ is, i.Running)
    (hrun : Isa.Steps A h (is.countP (·.isCycle)) h') :
    (vpMachine.run s is).Shows c Q h' ∧ (∀ e ∈ vpMachine.trace s is, e.trap = none) ∧
      (vpMachine.trace s is).countP (·.insn.isSome) = is.countP (·.isCycle) := by
  induction is using List.reverseRecOn generalizing h' with
  | nil =>
    cases hrun
    exact ⟨hs, (fun _ he => by cases he), rfl⟩
  | append_singleton is i ih =>
    have hi' : ∀ j ∈ is, j.Running := fun j hj => hi j (List.mem_append_left _ hj)
    have hlast := hi i (List.mem_append_right _ (List.mem_singleton_self i))
    obtain ⟨t, hpre, hstep⟩ := hrun.of_snoc
    obtain ⟨hshows, htrap, hcount⟩ := ih hi' hpre
    obtain ⟨hnext, hout, hinsn⟩ := hshows.next hserve hquiet hlast hstep
    refine ⟨Machine.run_snoc (M := vpMachine) s is i ▸ hnext, fun e he => ?_, ?_⟩
    · rw [Machine.trace_snoc] at he
      rcases List.mem_append.1 he with he | he
      · exact htrap e he
      · rw [List.mem_singleton.1 he]
        exact hout
    · rw [Machine.trace_snoc, List.countP_append, List.countP_append, hcount,
        List.countP_singleton, List.countP_singleton]
      simp only [hinsn]

end Vp.Shows

/-- A program in machine mode with interrupts off runs on the platform as the manual says: after
as many instructions as the run loop has made iterations, the registers, the program counter and
the RAM are those of the program. -/
theorem vp_runs_program {c : HartMode} (hbare : c.Bare) (hquiet : c.Quiet) {s : Vp}
    {h h' : Isa.State} {is : List VpInput} (hs : s.Shows c Direct h) (hi : ∀ i ∈ is, i.Running)
    (hrun : Isa.Steps (.memory 0x80000000 0x88000000) h (is.countP (·.isCycle)) h') :
    (vpMachine.run s is).Shows c Direct h' ∧ (∀ e ∈ vpMachine.trace s is, e.trap = none) ∧
      (vpMachine.trace s is).countP (·.insn.isSome) = is.countP (·.isCycle) :=
  hs.run (serves_bare hbare vp_ramAt (by decide)) hquiet hi hrun

/-! A RAM of `c.addi x2, 0` parcels. -/

theorem VpView.congr {b : Option (BusPort Device)} {m m' : Ram} (h : VpView b m)
    (heq : ∀ a : Word, 0x80000000 ≤ a.toNat → a.toNat < 0x88000000 → m a = m' a) :
    VpView b m' := by
  obtain ⟨w, rfl, hw, hidle⟩ := h
  obtain ⟨_, ⟨⟩, hw'⟩ := PlatformView.congr ⟨w, rfl, hw⟩ heq
  exact ⟨w, rfl, hw', hidle⟩

theorem vpView_reset (rom : Vector Byte bootRomSize.toNat) (ram : Vector Byte ramSize.toNat)
    (card : Option SDCardModel) : VpView (Vp.reset rom ram card).iss.env.bus (ramContent ram) := by
  obtain ⟨w, hw, hram⟩ := platformView_reset rom ram (initialDevices card)
  refine ⟨w, hw, hram, ?_⟩
  cases hw
  exact ⟨⟨{}, none, rfl, rfl⟩, { card }, none, rfl, rfl⟩

/-- The platform starts in the state of the program in its RAM. -/
theorem Vp.shows_reset (rom : Vector Byte bootRomSize.toNat) (ram : Vector Byte ramSize.toNat)
    (card : Option SDCardModel) {m : Ram}
    (hm : ∀ a : Word, 0x80000000 ≤ a.toNat → a.toNat < 0x88000000 → ramContent ram a = m a) :
    (Vp.reset rom ram card).Shows (CPUState.mode {}) Direct
      ⟨CPUState.regFile {}, ramBase, m⟩ :=
  ⟨⟨rfl, rfl, rfl, rfl, rfl, rfl, m, (vpView_reset rom ram card).congr hm, rfl⟩, rfl, rfl⟩

/-- The state after `n` parcels from `base` on. -/
def sled (base : Word) (n : ℕ) : Isa.State where
  regs := ⟨fun _ => 0, rfl⟩
  pc := base + BitVec.ofNat 32 (2 * n)
  mem _ := 1

theorem sled_step {A : Isa.Space} {base : Word} {n : ℕ} (heven : 2 ∣ (sled base n).pc.toNat)
    (hpc : A.fetch (sled base n).pc) : Isa.Step A (sled base n) (sled base (n + 1)) := by
  have hparcel : Isa.Rvc.expand ((sled base n).mem.half (sled base n).pc) =
      some (.opImm .addi 2 2 0) := by
    change Isa.Rvc.expand ((1 : Byte) ++ (1 : Byte)) = _
    decide
  have hregs : (sled base n).regs.write 2 0 = (sled base (n + 1)).regs := by
    ext r : 2
    exact ite_self _
  have hnext : (sled base n).pc + 2 = (sled base (n + 1)).pc := by
    change base + _ + 2 = base + BitVec.ofNat 32 (2 * n + 2)
    rw [BitVec.add_assoc, BitVec.ofNat_add]
    rfl
  refine .retire (.parcel hparcel) heven hpc trivial ?_
  change some (Isa.Outcome.retire
    ⟨(sled base n).regs.write 2 0, (sled base n).pc + 2, fun _ => 1⟩) = _
  rw [hregs, hnext]
  rfl

theorem regFile_sled (base : Word) (n : ℕ) : CPUState.regFile {} = (sled base n).regs := by
  ext r : 2
  exact ite_self _

/-- Three instructions, and a tick and a byte between them. -/
theorem vp_runs_program_sled :
    let s := Vp.reset (.replicate _ 0) (.replicate _ 1) none
    let is : List VpInput :=
      [.cycle fun _ => 0, .clintTick, .cycle fun _ => 0, .pushRx 0x41, .cycle fun _ => 0]
    (vpMachine.run s is).Shows (CPUState.mode {}) Direct (sled ramBase 3) ∧
      (∀ e ∈ vpMachine.trace s is, e.trap = none) ∧
      (vpMachine.trace s is).countP (·.insn.isSome) = is.countP (·.isCycle) := by
  have hreset := Vp.shows_reset (.replicate _ 0) (.replicate _ 1) none (m := fun _ => 1)
    fun a hlo hhi => by
      have hlt : a.toNat - 0x80000000 < ramSize.toNat := by
        rw [toNat_ramSize]
        omega
      rw [ramContent, Vector.getElem?_eq_getElem hlt, Option.getD_some, Vector.getElem_replicate]
  have hstart : (⟨CPUState.regFile {}, ramBase, fun _ => 1⟩ : Isa.State) = sled ramBase 0 := by
    rw [regFile_sled ramBase 0]
    rfl
  rw [hstart] at hreset
  have hstep (n : ℕ) (hn : n < 3) : Isa.Step (.memory 0x80000000 0x88000000) (sled ramBase n)
      (sled ramBase (n + 1)) := by
    interval_cases n
    all_goals exact sled_step (by decide) ⟨by decide, by decide⟩
  exact vp_runs_program ⟨rfl, by decide⟩ (.inr ⟨rfl, by decide⟩) hreset
    (by simp [VpInput.Running])
    (.tail (.tail (.tail .refl (hstep 0 (by decide))) (hstep 1 (by decide))) (hstep 2 (by decide)))

end VirtualSoC
