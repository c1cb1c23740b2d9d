import VirtualSoC.Cpu.Enclosure
import VirtualSoC.Platform.VpUser

/-!
# User code is confined on the platform

`vp_confines_user` : whatever code runs in user mode inside an `Enclosure`, up to the trap that
ends it the RAM changes in the writable frames only, but for A and D bits, and the devices go
through the very states that they would go through if the CPU stood still.
-/

namespace VirtualSoC

open Cfg

/-! ### The devices -/

/-- The PLIC has heard of all calls of `on_irq`. -/
def AllHeard (t : ℕ → Target Device) : Prop := ∀ j, (t j).call = none

/-- The targets but the RAM are the same. -/
def SameDevices (t t' : ℕ → Target Device) : Prop := ∀ j ≠ 1, t j = t' j

/-- The device at a socket changes by itself, and its call is heard. -/
def changeDevice (t : ℕ → Target Device) (i : ℕ) (f : Peripheral → Device) : ℕ → Target Device :=
  deliver (Function.update t i ((t i).mapDevice fun d => f d.unit))

section Devices

variable {t t' : ℕ → Target Device} {i : ℕ}

theorem hear_of_allHeard (h : AllHeard t) (u : Peripheral) : u.hear t = u := by
  unfold Peripheral.hear
  induction irqWires with
  | nil => rfl
  | cons l wires ih =>
    have hwire : u.hearWire t l = u := by
      unfold Peripheral.hearWire
      rw [h l.1]
    rw [List.foldl_cons, hwire, ih]

theorem deliver_of_allHeard (h : AllHeard t) : deliver t = t := by
  funext j
  have hj := h j
  dsimp only [deliver]
  cases ht : t j with
  | memory m | bootRom m => rfl
  | device d =>
    rw [ht] at hj
    obtain ⟨u, c⟩ := d
    cases hj
    dsimp only [Target.mapDevice]
    rw [hear_of_allHeard h]

theorem allHeard_deliver (t : ℕ → Target Device) : AllHeard (deliver t) := by
  intro j
  dsimp only [deliver]
  cases t j <;> rfl

theorem hear_congr (h : SameDevices t t') (u : Peripheral) : u.hear t = u.hear t' := by
  have hwires : ∀ l ∈ irqWires, l.1 ≠ 1 := by decide
  refine List.foldl_ext _ _ _ fun u l hl => ?_
  unfold Peripheral.hearWire
  rw [h l.1 (hwires l hl)]

theorem SameDevices.deliver (h : SameDevices t t') :
    SameDevices (deliver t) (VirtualSoC.deliver t') := by
  intro j hj
  dsimp only [VirtualSoC.deliver]
  rw [h j hj]
  cases t' j with
  | memory m | bootRom m => rfl
  | device d =>
    dsimp only [Target.mapDevice]
    rw [hear_congr h]

theorem SameDevices.change (h : SameDevices t t') (hi : i ≠ 1) (f : Peripheral → Device) :
    SameDevices (changeDevice t i f) (changeDevice t' i f) := by
  refine SameDevices.deliver fun j hj => ?_
  by_cases hji : j = i
  · subst hji
    rw [Function.update_self, Function.update_self, h j hi]
  · rw [Function.update_of_ne hji, Function.update_of_ne hji, h j hj]

end Devices

/-- The platform with `m` in its RAM, and the other targets as in `t`. -/
def VpFrame (t : ℕ → Target Device) (b : Option (BusPort Device)) (m : Ram) : Prop :=
  ∃ w, b = some w ∧ w.PlatformRam m ∧ AllHeard w.targets ∧ SameDevices w.targets t

section Frame

variable {t : ℕ → Target Device} {b : Option (BusPort Device)} {m : Ram}

/-- The accesses to the RAM are heard by no device. -/
theorem vp_ramAt_frame (t : ℕ → Target Device) :
    RamAt vpBus 0x80000000 0x88000000 (VpFrame t) := by
  have hview {b : Option (BusPort Device)} {m : Ram} {others : ℕ → Target Device}
      (h : PlatformFrame Device others b m) (hheard : AllHeard others)
      (hsame : SameDevices others t) : VpFrame t (b.map (·.deliver)) m := by
    obtain ⟨w, rfl, hw, hothers⟩ := h
    refine ⟨_, rfl, hw.deliver, allHeard_deliver _, fun j hj => ?_⟩
    have hdeliver : SameDevices (deliver w.targets) (deliver others) := SameDevices.deliver hothers
    rw [deliver_of_allHeard hheard] at hdeliver
    exact (hdeliver j hj).trans (hsame j hj)
  have hframe {w : BusPort Device} {m : Ram} (h : w.PlatformRam m) :
      PlatformFrame Device w.targets (some w) m := ⟨w, rfl, h, fun _ _ => rfl⟩
  exact
    { read := by
        rintro _ m ⟨w, rfl, hw, hheard, hsame⟩ a n hn hlo hhi
        obtain ⟨hval, hv⟩ := (platform_ramAt_frame w.targets).read (hframe hw) hn hlo hhi
        exact ⟨hval, hview hv hheard hsame⟩
      readPast := by
        rintro _ m ⟨w, rfl, hw, hheard, hsame⟩ a n hn hlo hlt hhi
        obtain ⟨hval, hv⟩ := (platform_ramAt_frame w.targets).readPast (hframe hw) hn hlo hlt hhi
        exact ⟨hval, hview hv hheard hsame⟩
      write := by
        rintro _ m ⟨w, rfl, hw, hheard, hsame⟩ a n hn hlo hhi v
        exact hview ((platform_ramAt_frame w.targets).write (hframe hw) hn hlo hhi v) hheard hsame
      writePast := by
        rintro _ m ⟨w, rfl, hw, hheard, hsame⟩ a n hn hlo hlt hhi v
        exact hview ((platform_ramAt_frame w.targets).writePast (hframe hw) hn hlo hlt hhi v)
          hheard hsame }

theorem VpFrame.dropDmi (h : VpFrame t b m) : VpFrame t (vpBus.dropDmi b) m := by
  obtain ⟨w, rfl, hw, hdevices⟩ := h
  exact ⟨w.dropDmi, rfl, ⟨BusPort.windowGranted_dropDmi, hw.grants, hw.ram⟩, hdevices⟩

theorem VpFrame.change (h : VpFrame t b m) {i : ℕ} (hi : i ≠ 1) (f : Peripheral → Device) :
    VpFrame (changeDevice t i f) (b.map (·.onDevice i f)) m := by
  obtain ⟨w, rfl, hw, -, hsame⟩ := h
  exact ⟨_, rfl, hw.onDevice i f, allHeard_deliver _, hsame.change hi f⟩

end Frame

/-! ### Runs -/

/-- A turn of the thread of the DMA engine. -/
def VpInput.isTurn : VpInput → Bool
  | .dmaThread _ => true
  | _ => false

/-- What an input does to the devices, if it is no iteration of the run loop and no blocks are to be
read from the card.  The thread of the DMA engine is at `th`, and the bus answers it. -/
def VpInput.devices (th : DmaThread) (t : ℕ → Target Device) : VpInput → ℕ → Target Device
  | .clintTick => changeDevice t 2 (·.clintTick)
  | .timerTick => changeDevice t 6 (·.timerTick)
  | .pushRx byte => changeDevice t 4 (·.pushRx byte)
  | .setInput pins => changeDevice t 5 (·.setInput pins)
  | .dmaThread _ => changeDevice t 9 (·.dmaResume th .ok .ok)
  | .cycle _ | .sdThread _ | .halt | .resume | .step => t

theorem SdIdle.change {t : ℕ → Target Device} (h : SdIdle t) {j : ℕ} (hj : j ≠ 8)
    (f : Peripheral → Device) : SdIdle (changeDevice t j f) := by
  refine SdIdle.deliver ?_
  unfold SdIdle
  rw [Function.update_of_ne hj.symm]
  exact h

theorem SdIdle.devices {t : ℕ → Target Device} (h : SdIdle t) (th : DmaThread) (i : VpInput) :
    SdIdle (i.devices th t) := by
  have hother (j : ℕ) (hj : j ≠ 8) (f : Peripheral → Device) : SdIdle (changeDevice t j f) :=
    h.change hj f
  cases i with
  | clintTick => exact hother 2 (by decide) _
  | timerTick => exact hother 6 (by decide) _
  | pushRx byte => exact hother 4 (by decide) _
  | setInput pins => exact hother 5 (by decide) _
  | dmaThread buf => exact hother 9 (by decide) _
  | cycle | sdThread | halt | resume | step => exact h

theorem MastersIdle.devices {t : ℕ → Target Device} (h : MastersIdle t) (i : VpInput) :
    MastersIdle (i.devices .waiting t) := by
  have hother (j : ℕ) (hj : j ≠ 8 ∧ j ≠ 9) (f : Peripheral → Device) :
      MastersIdle (changeDevice t j f) :=
    (h.congr (Function.update_of_ne hj.1.symm ..) (Function.update_of_ne hj.2.symm ..)).deliver
  cases i with
  | clintTick => exact hother 2 (by decide) _
  | timerTick => exact hother 6 (by decide) _
  | pushRx byte => exact hother 4 (by decide) _
  | setInput pins => exact hother 5 (by decide) _
  | dmaThread buf => exact h.dmaResume.deliver
  | cycle | sdThread | halt | resume | step => exact h

/-- What the platform does at an input that is no iteration of the run loop. -/
structure Vp.Acts (th : DmaThread) (t : ℕ → Target Device) (s : Vp) (i : VpInput) : Prop where
  frame {m : Ram} (h : VpFrame t s.iss.env.bus m) :
    VpFrame (i.devices th t) (s.act i).1.iss.env.bus m
  tlb : (s.act i).1.iss.env.tlb = s.iss.env.tlb
  state : (s.act i).1.iss.state = s.iss.state
  inWfi : (s.act i).1.iss.inWfi = s.iss.inWfi
  dma : (s.act i).1.dmaThread = s.dmaThread
  sd : (s.act i).1.sdThread = s.sdThread
  halted (hi : i.Running) (h : s.iss.halted = false) : (s.act i).1.iss.halted = false
  singleStep (hi : i.Running) (h : s.iss.singleStep = false) : (s.act i).1.iss.singleStep = false
  out : (s.act i).2 = {}

section Acts

variable {t : ℕ → Target Device} {s : Vp} {m : Ram} (hv : VpFrame t s.iss.env.bus m)
  (hsd : s.sdThread = .waiting) {i : VpInput} (hc : i.isCycle = false)

include hv hsd hc

theorem Vp.acts_of_not_turn (hidle : SdIdle t) (th : DmaThread) (hturn : i.isTurn = false) :
    s.Acts th t i := by
  have hown {i : ℕ} (hi : i ≠ 1) (f : Peripheral → Device) {m : Ram}
      (h : VpFrame t s.iss.env.bus m) :
      VpFrame (changeDevice t i f) (s.onDevice i f).iss.env.bus m := h.change hi f
  obtain ⟨w, hw, -, -, hsame⟩ := hv
  have hidle : SdIdle w.targets := by
    unfold SdIdle
    rw [hsame 8 (by decide)]
    exact hidle
  cases i with
  | cycle pick => cases hc
  | dmaThread buf => cases hturn
  | clintTick =>
    exact ⟨hown (i := 2) (by decide) _, rfl, rfl, rfl, rfl, rfl, fun _ h => h, fun _ h => h, rfl⟩
  | timerTick =>
    exact ⟨hown (i := 6) (by decide) _, rfl, rfl, rfl, rfl, rfl, fun _ h => h, fun _ h => h, rfl⟩
  | pushRx byte =>
    exact ⟨hown (i := 4) (by decide) _, rfl, rfl, rfl, rfl, rfl, fun _ h => h, fun _ h => h, rfl⟩
  | setInput pins =>
    exact ⟨hown (i := 5) (by decide) _, rfl, rfl, rfl, rfl, rfl, fun _ h => h, fun _ h => h, rfl⟩
  | sdThread buf =>
    have hact : (s.act (.sdThread buf)).1 = s := by
      obtain ⟨⟨_, ⟨_, _, _, _, _⟩, _, _, _, _, _⟩, _, _⟩ := s
      cases hw
      cases hsd
      dsimp only [Vp.act, Option.bind_some]
      rw [hidle.sdThread buf]
      rfl
    refine ⟨fun h => ?_, ?_, ?_, ?_, ?_, ?_, fun _ h => ?_, fun _ h => ?_, rfl⟩
    all_goals rw [hact]
    all_goals exact h
  | halt => exact ⟨id, rfl, rfl, rfl, rfl, rfl, nofun, nofun, rfl⟩
  | resume => exact ⟨id, rfl, rfl, rfl, rfl, rfl, fun _ _ => rfl, fun _ _ => rfl, rfl⟩
  | step => exact ⟨id, rfl, rfl, rfl, rfl, rfl, nofun, nofun, rfl⟩

theorem Vp.acts (hidle : MastersIdle t) (hdma : s.dmaThread = .waiting) : s.Acts .waiting t i := by
  cases i with
  | dmaThread buf =>
    obtain ⟨w, hw, -, -, hsame⟩ := hv
    have hidle : MastersIdle w.targets := hidle.congr (hsame 8 (by decide)) (hsame 9 (by decide))
    have hact : (s.act (.dmaThread buf)).1 = s.onDevice 9 (·.dmaResume .waiting .ok .ok) := by
      obtain ⟨⟨_, ⟨_, _, _, _, _⟩, _, _, _, _, _⟩, _, _⟩ := s
      cases hw
      cases hdma
      dsimp only [Vp.act, Option.bind_some]
      rw [hidle.dmaThread buf]
      rfl
    refine ⟨fun h => ?_, ?_, ?_, ?_, ?_, ?_, fun _ h => ?_, fun _ h => ?_, rfl⟩
    all_goals rw [hact]
    · exact h.change (i := 9) (by decide) _
    · rfl
    · rfl
    · rfl
    · rfl
    · rfl
    · exact h
    · exact h
  | _ => exact acts_of_not_turn hv hsd hc hidle.sd _ rfl

end Acts

/-- The RAM and the TLB keep the enclosure, the devices are those of `t`, and no master but the CPU
has anything to do. -/
structure Vp.Confined (r₀ : Ram) (c : HartMode) (t : ℕ → Target Device) (s : Vp) : Prop where
  mem : s.iss.env.Holds fun tlb b => ∃ r, VpFrame t b r ∧ Enclosed r₀ c tlb r
  idle : MastersIdle t
  dma : s.dmaThread = .waiting
  sd : s.sdThread = .waiting

namespace Vp.Confined

variable {r₀ : Ram} {c : HartMode} {t : ℕ → Target Device} {s : Vp}

theorem driven (h : s.Confined r₀ c t) : s.driven.Confined r₀ c t := by
  unfold Vp.driven
  split
  · exact h
  · exact ⟨h.mem, h.idle, h.dma, h.sd⟩

theorem mode_driven (s : Vp) : s.driven.iss.state.mode = s.iss.state.mode := by
  unfold Vp.driven
  split
  · rfl
  · unfold CSRFile.setLines CSRFile.setHwBit CPUState.mode
    dsimp only
    split_ifs <;> rfl

/-- A step that is not an iteration of the run loop. -/
theorem act (h : s.Confined r₀ c t) {i : VpInput} (hc : i.isCycle = false) :
    (s.act i).1.Confined r₀ c (i.devices .waiting t) ∧
      (s.act i).1.iss.state.mode = s.iss.state.mode := by
  obtain ⟨r, hv, henc⟩ := h.mem
  have hacts := Vp.acts hv h.sd hc h.idle h.dma
  refine ⟨⟨⟨r, hacts.frame hv, ?_⟩, h.idle.devices i, hacts.dma.trans h.dma,
    hacts.sd.trans h.sd⟩, ?_⟩
  · rw [hacts.tlb]
    exact henc
  · rw [hacts.state]

theorem next (h : s.Confined r₀ c t) (hspace : Enclosure r₀ c 0x80000000 0x88000000)
    (hmode : s.iss.state.mode = c) (i : VpInput) :
    (vpMachine.next s i).Confined r₀ c (i.devices .waiting t) ∧
      ((vpMachine.out s i).trap = none → (vpMachine.next s i).iss.state.mode = c) := by
  by_cases hc : i.isCycle
  · cases i with
    | cycle pick =>
      have hkeeps := hspace.keeps (vp_ramAt_frame t) VpFrame.dropDmi
      have hs : (s.act (.cycle pick)).1.Confined r₀ c t :=
        ⟨hkeeps.iterate pick hmode h.mem, h.idle, h.dma, h.sd⟩
      refine ⟨hs.driven, fun htrap => ?_⟩
      have hu : s.iss.state.priv = prvU := by
        have hpriv := hspace.priv
        rwa [← hmode] at hpriv
      exact (mode_driven _).trans ((ISS.iterate_mode hu htrap).trans hmode)
    | _ => cases hc
  · obtain ⟨hs, hm⟩ := h.act (Bool.eq_false_iff.2 hc)
    exact ⟨hs.driven, fun _ => (mode_driven _).trans (hm.trans hmode)⟩

/-- A run of user code, and what its inputs do to the devices. -/
theorem run (hspace : Enclosure r₀ c 0x80000000 0x88000000) (h : s.Confined r₀ c t)
    (hmode : s.iss.state.mode = c) (is : List VpInput)
    (htrap : ∀ e ∈ vpMachine.trace s is, e.trap = none) :
    (vpMachine.run s is).Confined r₀ c (is.foldl (fun t i => i.devices .waiting t) t) ∧
      (vpMachine.run s is).iss.state.mode = c := by
  induction is using List.reverseRecOn with
  | nil => exact ⟨h, hmode⟩
  | append_singleton is i ih =>
    rw [Machine.trace_snoc] at htrap
    obtain ⟨hs, hm⟩ := ih fun e he => htrap e (List.mem_append_left _ he)
    obtain ⟨hnext, hmode'⟩ := hs.next hspace hm i
    rw [Machine.run_snoc, List.foldl_concat]
    exact ⟨hnext, hmode' (htrap _ List.mem_concat_self)⟩

end Vp.Confined

theorem trace_of_not_cycle (s : Vp) {is : List VpInput} (h : ∀ i ∈ is, i.isCycle = false) :
    ∀ e ∈ vpMachine.trace s is, e.trap = none := by
  induction is generalizing s with
  | nil => exact nofun
  | cons i is ih =>
    intro e he
    rcases List.mem_cons.1 he with rfl | he
    · have hi := h i List.mem_cons_self
      cases i with
      | cycle pick => cases hi
      | _ => rfl
    · exact ih _ (fun i hi => h i (List.mem_cons_of_mem _ hi)) e he

/-- The devices do not see the iterations of the run loop. -/
theorem foldl_devices_filter (t : ℕ → Target Device) (is : List VpInput) :
    (is.filter fun i => !i.isCycle).foldl (fun t i => i.devices .waiting t) t =
      is.foldl (fun t i => i.devices .waiting t) t := by
  induction is generalizing t with
  | nil => rfl
  | cons i is ih =>
    cases i with
    | cycle pick => exact ih t
    | _ => exact ih _

/-- What is bound to the sockets of the bus. -/
def Vp.targets (s : Vp) : ℕ → Option (Target Device) := fun j => s.iss.env.bus.map (·.targets j)

/-- The platform as it starts user code: `r₀` is in the RAM, and no transfer is started. -/
structure Vp.Hosts (s : Vp) (r₀ : Ram) (c : HartMode) : Prop where
  mode : s.iss.state.mode = c
  ram : VpView s.iss.env.bus r₀
  heard : ∀ w ∈ s.iss.env.bus, AllHeard w.targets
  cached : CachesLeaves r₀ c s.iss.env.tlb
  dma : s.dmaThread = .waiting
  sd : s.sdThread = .waiting

theorem Vp.Hosts.confined {s : Vp} {r₀ : Ram} {c : HartMode} (h : s.Hosts r₀ c) :
    ∃ t, s.Confined r₀ c t := by
  obtain ⟨w, hw, hram, hidle⟩ := h.ram
  refine ⟨w.targets, ⟨r₀, ⟨w, hw, hram, h.heard w hw, fun _ _ => rfl⟩, ?_⟩, hidle, h.dma, h.sd⟩
  exact ⟨fun _ _ _ => .refl _, fun _ _ _ => rfl, h.cached⟩

/-- Whatever code runs in user mode inside an enclosure, with whatever traps at the last step: the
RAM is as it was but for the writable frames and the A and D bits of the tables, and the devices
are as they would be if the run loop had not made an iteration. -/
theorem vp_confines_user {r₀ : Ram} {c : HartMode} (hspace : Enclosure r₀ c 0x80000000 0x88000000)
    {s : Vp} (hs : s.Hosts r₀ c) (is : List VpInput) (i : VpInput)
    (htrap : ∀ e ∈ vpMachine.trace s is, e.trap = none) :
    let s' := vpMachine.run s (is ++ [i])
    (∃ r, VpView s'.iss.env.bus r ∧
      (∀ q, ¬ Writable r₀ c q → ¬ InTables r₀ c q → r q = r₀ q) ∧
      ∀ a, ∀ x ∈ tableWords r₀ c a, PteEq (pteAt r x) (pteAt r₀ x)) ∧
    ∀ j ≠ 1, s'.targets j =
      (vpMachine.run s ((is ++ [i]).filter fun i => !i.isCycle)).targets j := by
  obtain ⟨t, ht⟩ := hs.confined
  have hworld := (ht.run hspace hs.mode ((is ++ [i]).filter fun i => !i.isCycle)
    (trace_of_not_cycle s fun i hi => by simpa using (List.mem_filter.1 hi).2)).1
  obtain ⟨hrun, hmode⟩ := ht.run hspace hs.mode is htrap
  have hlast := (hrun.next hspace hmode i).1
  rw [foldl_devices_filter, List.foldl_concat] at hworld
  rw [← Machine.run_snoc] at hlast
  obtain ⟨r, ⟨w, hw, hram, -, hsame⟩, henc⟩ := hlast.mem
  obtain ⟨-, ⟨w', hw', -, -, hsame'⟩, -⟩ := hworld.mem
  have hidle : MastersIdle w.targets :=
    hlast.idle.congr (hsame 8 (by decide)) (hsame 9 (by decide))
  refine ⟨⟨r, ⟨w, hw, hram, hidle⟩, henc.kept, henc.tables⟩, fun j hj => ?_⟩
  unfold Vp.targets
  rw [hw, hw', Option.map_some, Option.map_some, hsame j hj, hsame' j hj]

/-! The platform of the superpage, full of `c.sw x8, 4(x9)` parcels: the store at 0 changes the
program at 4. -/

theorem tableWords_filledRam_lt {b : Byte} {a x : Word}
    (h : x ∈ tableWords (filledRam b) userMode a) :
    0x80000000 ≤ x.toNat ∧ x.toNat + 4 ≤ 0x80001000 := by
  have hroot : rootTable userMode.satp = 0x80000000 := by decide
  by_cases ha : a.toNat < 2 ^ 22
  · rw [tableWords_filledRam ha, List.mem_singleton] at h
    rw [h]
    decide
  · have hends : EndsWalk 0 := by decide
    rw [tableWords, hroot, walkWords.eq_def] at h
    simp only [pteAt_filledRam ha, if_pos hends, List.mem_singleton] at h
    have hlt := a.isLt
    rw [h, BitVec.toNat_add, BitVec.toNat_mul, toNat_pageIndex_one]
    change 2147483648 ≤ (2147483648 + a.toNat / 2 ^ 22 * 4 % 4294967296) % 4294967296 ∧
      (2147483648 + a.toNat / 2 ^ 22 * 4 % 4294967296) % 4294967296 + 4 ≤ 2147487744
    omega

theorem enclosure_filledRam (b : Byte) :
    Enclosure (filledRam b) userMode 0x80000000 0x88000000 where
  priv := rfl
  sv32 := by decide
  frame h := (addressSpace_filledRam b).frame h
  tables a x hx := by
    obtain ⟨hlo, hhi⟩ := tableWords_filledRam_lt hx
    exact ⟨hlo, by omega⟩
  apart := by
    rintro q ⟨a, ha⟩ ⟨b, x, hx, hlt⟩
    obtain ⟨-, hq⟩ := maps_filledRam.1 ha
    obtain ⟨-, hhi⟩ := tableWords_filledRam_lt hx
    rw [BitVec.toNat_sub_of_le (BitVec.le_def.2 (by omega))] at hlt
    omega

theorem allHeard_reset (rom : Vector Byte bootRomSize.toNat) (ram : Vector Byte ramSize.toNat)
    (card : Option SDCardModel) : AllHeard (platformTargets rom ram (initialDevices card)) := by
  have hdevices (i : ℕ) : (initialDevices card i).call = none := by
    unfold initialDevices
    split <;> rfl
  intro j
  unfold platformTargets
  split
  · rfl
  · rfl
  · exact hdevices _

theorem filledPlatform_hosts (b : Byte) : (filledPlatform b).Hosts (filledRam b) userMode where
  mode := rfl
  ram := vpView_filledPlatform b
  heard := by
    rintro w ⟨⟩
    exact allHeard_reset _ _ none
  cached _ _ h := by cases h
  dma := rfl
  sd := rfl

/-- The program after `n` of its stores. -/
def stores (n : ℕ) : Isa.State where
  regs := (sled 0 0).regs
  pc := BitVec.ofNat 32 (2 * n)
  mem := Nat.iterate (fun m : Isa.Mem => m.storeWord 4 0) n fun _ => 0xC0

theorem stores_step {n : ℕ} (hn : n < 2) :
    Isa.Step (virtualSpace (filledRam 0xC0) userMode) (stores n) (stores (n + 1)) := by
  have hstore : ∃ p, Maps (filledRam 0xC0) userMode .store 4 p :=
    ⟨0x80400004, maps_filledRam.2 ⟨by decide, by decide⟩⟩
  interval_cases n
  all_goals
    exact .retire (.parcel (i := .store .sw 9 8 4) (by decide)) (by decide)
      (filledSpace_fetch (by decide) (by decide)) hstore rfl

/-- Two stores with a tick between them, and then the illegal parcel that they have written. -/
theorem vp_confines_user_stores :
    let is : List VpInput := [.cycle fun _ => 0, .clintTick, .cycle fun _ => 0]
    let s' := vpMachine.run (filledPlatform 0xC0) (is ++ [.cycle fun _ => 0])
    (∃ r, VpView s'.iss.env.bus r ∧
      (∀ q, ¬ Writable (filledRam 0xC0) userMode q → ¬ InTables (filledRam 0xC0) userMode q →
        r q = filledRam 0xC0 q) ∧
      ∀ a, ∀ x ∈ tableWords (filledRam 0xC0) userMode a,
        PteEq (pteAt r x) (pteAt (filledRam 0xC0) x)) ∧
    ∀ j ≠ 1, s'.targets j =
      (vpMachine.run (filledPlatform 0xC0)
        ((is ++ [VpInput.cycle fun _ => 0]).filter fun i => !i.isCycle)).targets j := by
  have hshows : (filledPlatform 0xC0).Shows userMode (Virtual (filledRam 0xC0) userMode)
      (stores 0) :=
    ⟨⟨rfl, rfl, rfl, rfl, regFile_sled 0 0, rfl, _, vpView_filledPlatform 0xC0,
      virtual_filledRam 0xC0⟩, rfl, rfl⟩
  intro is
  have hrun := hshows.run (serves_virtual (addressSpace_filledRam 0xC0) vp_ramAt) (.inl rfl)
    (show ∀ i ∈ is, i.Running by simp [is, VpInput.Running])
    (.tail (.tail .refl (stores_step (by decide))) (stores_step (by decide)))
  exact vp_confines_user (enclosure_filledRam 0xC0) (filledPlatform_hosts 0xC0) is
    (.cycle fun _ => 0) hrun.2.1

end VirtualSoC
