import VirtualSoC.Platform.VpPreempt

/-!
# The end of a transfer interrupts a program

`vp_signals_transfer` : from the DMA engine over the PLIC and `mip` to the handler, while a program
runs in virtual memory.
-/

namespace VirtualSoC

open Cfg

/-! ### The request at the PLIC -/

namespace Plic

/-- Only the source `i` is enabled, and it may be claimed as soon as it is asked for, which is so
if `b` is. -/
structure Expects (i : Source) (b : Bool) (p : Plic) : Prop where
  enabled : p.enabled = bit i
  threshold : p.threshold < p.priority i
  notClaimed : p.claimed.getLsbD i = false
  pending : p.pending.getLsbD i = b
  settled : p.Settled

variable {i : Source} {b : Bool} {p : Plic}

theorem Expects.setPending (h : p.Expects i b) (hi : i ≠ 0) (id : Word) (v : Bool) :
    (p.setPending id v).Expects i (if id.toNat = i then v else b) := by
  have hpending := getLsbD_setPending hi p id v
  rw [h.pending] at hpending
  refine ⟨?_, ?_, (congrArg (·.getLsbD i) (claimed_setPending ..)).trans h.notClaimed, hpending, ?_⟩
  all_goals unfold Plic.setPending
  all_goals split_ifs
  all_goals first
    | exact h.enabled
    | exact h.threshold
    | exact h.settled
    | exact settled_evaluateIrq _

theorem Expects.eligible_iff (h : p.Expects i b) (hi : i ≠ 0) (j : Source) :
    p.Eligible j ↔ j = i ∧ b = true := by
  constructor
  · intro hj
    have hbit := hj.enabled
    rw [h.enabled, BitVec.getLsbD_twoPow, Bool.and_eq_true] at hbit
    obtain rfl : j = i := Fin.ext (of_decide_eq_true hbit.2).symm
    exact ⟨rfl, h.pending.symm.trans hj.pending⟩
  · rintro ⟨rfl, rfl⟩
    refine ⟨hi, h.pending, ?_, h.notClaimed, h.threshold⟩
    rw [h.enabled, BitVec.getLsbD_twoPow, decide_eq_true (j.2.trans (by decide)), Bool.true_and,
      decide_eq_true rfl]

theorem Expects.externalIrq (h : p.Expects i b) (hi : i ≠ 0) : p.externalIrq = b := by
  refine Bool.eq_iff_iff.2 (h.settled.trans ?_)
  constructor
  · rintro ⟨j, hj⟩
    exact ((h.eligible_iff hi j).1 hj).2
  · exact fun hb => ⟨i, (h.eligible_iff hi i).2 ⟨rfl, hb⟩⟩

theorem Expects.claimBest (h : p.Expects i true) (hi : i ≠ 0) : p.claimBest.1 = i := by
  rcases claimBest_cases p with ⟨-, hnone⟩ | ⟨j, hc, hbest⟩
  · exact absurd ((h.eligible_iff hi i).2 ⟨rfl, rfl⟩) (hnone i)
  · rw [hc]
    exact ((h.eligible_iff hi j).1 hbest.eligible).1

end Plic

/-- The source of the DMA engine. -/
def dmaSource : Source := 5

section Hear

variable {b : Bool} {p : Plic}

theorem Plic.Expects.hearWires (h : p.Expects dmaSource b) (targets : ℕ → Target Device)
    (wires : List (ℕ × Word)) (hne : ∀ l ∈ wires, l.2.toNat ≠ dmaSource) :
    ∃ q, wires.foldl (Peripheral.hearWire targets) (.plic p) = .plic q ∧
      q.Expects dmaSource b := by
  induction wires generalizing p with
  | nil => exact ⟨p, rfl, h⟩
  | cons l wires ih =>
    have hne' := fun l' hl' => hne l' (List.mem_cons_of_mem _ hl')
    rw [List.foldl_cons]
    unfold Peripheral.hearWire
    cases (targets l.1).call with
    | none => exact ih h hne'
    | some v =>
      have hset := h.setPending (by decide) l.2 v
      rw [if_neg (hne l List.mem_cons_self)] at hset
      exact ih hset hne'

theorem Plic.Expects.hear (h : p.Expects dmaSource b) (targets : ℕ → Target Device) :
    ∃ q, (Peripheral.plic p).hear targets = .plic q ∧
      q.Expects dmaSource ((targets 9).call.getD b) := by
  obtain ⟨q, hq, hexp⟩ := h.hearWires targets
    [(4, irqUart), (5, irqGpio), (6, irqTimer), (8, irqSd)] (by decide)
  obtain ⟨q', hq', hexp'⟩ : ∃ q', (Peripheral.plic q).hearWire targets (9, irqDma) = .plic q' ∧
      q'.Expects dmaSource ((targets 9).call.getD b) := by
    unfold Peripheral.hearWire
    dsimp only
    cases (targets 9).call with
    | none => exact ⟨q, rfl, hexp⟩
    | some v => exact ⟨_, rfl, hexp.setPending (by decide) irqDma v⟩
  obtain ⟨q'', hq'', hexp''⟩ := hexp'.hearWires targets [(10, irqVideo), (11, irqAudio)] (by decide)
  refine ⟨q'', ?_, hexp''⟩
  rw [← hq'', ← hq', ← hq]
  rfl

end Hear

/-! ### The end of the transfer -/

/-- The transfer has ended within `j` turns. -/
def DmaEngine.ended (e : DmaEngine) (j : ℕ) : Bool := e.byteCount.toNat + 512 ≤ 256 * j

section Ended

variable {e : DmaEngine} {m : Ram} {j : ℕ}

theorem transfer_ctrl (e : DmaEngine) (m : Ram) (j : ℕ) :
    (e.transfer m j).dma.engine.ctrl = e.ctrl := by
  cases j with
  | zero => rfl
  | succ j =>
    unfold DmaEngine.transfer
    dsimp only
    split_ifs <;> rfl

/-- The thread waits before the start and after the end. -/
theorem transfer_waiting_iff :
    (e.transfer m j).dma.thread = .waiting ↔ j = 0 ∨ e.ended j = true := by
  unfold DmaEngine.ended
  rw [decide_eq_true_iff]
  cases j with
  | zero => exact iff_of_true rfl (.inl rfl)
  | succ j =>
    by_cases hj : 256 * j < e.byteCount.toNat + 256
    · rw [transfer_copying hj]
      exact iff_of_false nofun (by omega)
    · rw [transfer_done hj]
      exact iff_of_true rfl (by omega)

theorem transfer_of_ended (h : e.ended j = true) : e.transfer m j =
    ⟨⟨{ e with
          startEvent := false, status := 2, irq := if e.ctrl &&& 2 ≠ 0 then true else e.irq },
      .waiting⟩, moved m e.params e.byteCount.toNat⟩ := by
  have hj : e.byteCount.toNat + 512 ≤ 256 * j := of_decide_eq_true h
  cases j with
  | zero => omega
  | succ j => exact transfer_done (by omega)

/-- The turn that ends the transfer calls `on_irq`. -/
theorem call_dmaResume (hstart : e.startEvent = true) (hirq : e.ctrl &&& 2 ≠ 0) :
    ((Peripheral.dma (e.transfer m j).dma.engine).dmaResume (e.transfer m j).dma.thread .ok
      .ok).call.getD (e.ended j) = e.ended (j + 1) := by
  have hnext := resume_transfer hstart m j
  have hended : e.ended (j + 1) = (e.ended j || decide ((e.transfer m j).dma.thread ≠ .waiting ∧
      (e.transfer m (j + 1)).dma.thread = .waiting)) := by
    simp only [ne_eq, transfer_waiting_iff, DmaEngine.ended]
    by_cases h : e.byteCount.toNat + 512 ≤ 256 * j
    · have h' : e.byteCount.toNat + 512 ≤ 256 * (j + 1) := by omega
      simp [h, h']
    · by_cases h0 : j = 0
      · subst h0
        simp
      · simp [h, h0]
  unfold Peripheral.dmaResume
  dsimp only
  rw [hended, show (⟨(e.transfer m j).dma.engine, (e.transfer m j).dma.thread⟩ : Dma) =
    (e.transfer m j).dma from rfl, hnext, transfer_ctrl]
  by_cases hend : (e.transfer m j).dma.thread ≠ .waiting ∧
      (e.transfer m (j + 1)).dma.thread = .waiting
  · rw [decide_eq_true hend, if_pos ⟨rfl, hirq⟩, Bool.or_true]
    rfl
  · rw [decide_eq_false hend, if_neg fun h => Bool.false_ne_true h.1, Bool.or_false]
    rfl

end Ended

/-- The devices while the transfer goes on: its end is asked for at the PLIC, nothing else is. -/
structure Signals (e : DmaEngine) (m : Ram) (p : ℕ × (ℕ → Target Device)) : Prop where
  heard : AllHeard p.2
  engine : p.2 9 = .device ⟨.dma (e.transfer m p.1).dma.engine, none⟩
  plic : ∃ q, p.2 3 = .device ⟨.plic q, none⟩ ∧ q.Expects dmaSource (e.ended p.1)

namespace Signals

variable {e : DmaEngine} {m : Ram} {p : ℕ × (ℕ → Target Device)}

theorem plic_change (h : Signals e m p) {a : ℕ} (ha : 3 ≠ a) (f : Peripheral → Device) :
    ∃ q, changeDevice p.2 a f 3 = .device ⟨.plic q, none⟩ ∧ q.Expects dmaSource
      ((Function.update p.2 a ((p.2 a).mapDevice fun d => f d.unit) 9).call.getD
        (e.ended p.1)) := by
  obtain ⟨q, hq, hexp⟩ := h.plic
  obtain ⟨q', hq', hexp'⟩ :=
    hexp.hear (Function.update p.2 a ((p.2 a).mapDevice fun d => f d.unit))
  refine ⟨q', ?_, hexp'⟩
  unfold changeDevice deliver
  rw [Function.update_of_ne ha, hq, ← hq']
  rfl

theorem other (h : Signals e m p) {a : ℕ} (ha : 3 ≠ a) (ha' : 9 ≠ a) (f : Peripheral → Device) :
    Signals e m (p.1, changeDevice p.2 a f) := by
  obtain ⟨q, hq, hexp⟩ := h.plic_change ha f
  rw [Function.update_of_ne ha', h.heard] at hexp
  exact ⟨allHeard_deliver _,
    deliver_device ((Function.update_of_ne ha' ..).trans h.engine) (nofun), q, hq, hexp⟩

theorem next (hstart : e.startEvent = true) (hirq : e.ctrl &&& 2 ≠ 0) (h : Signals e m p)
    (i : VpInput) : Signals e m (i.beside (e.transfer m) p) := by
  cases i with
  | clintTick => exact h.other (a := 2) (by decide) (by decide) _
  | timerTick => exact h.other (a := 6) (by decide) (by decide) _
  | pushRx byte => exact h.other (a := 4) (by decide) (by decide) _
  | setInput pins => exact h.other (a := 5) (by decide) (by decide) _
  | dmaThread buf =>
    obtain ⟨q, hq, hexp⟩ :=
      h.plic_change (a := 9) (by decide) (·.dmaResume (e.transfer m p.1).dma.thread .ok .ok)
    have h9 := changeDevice_dma (d := (e.transfer m p.1).dma) h.engine
    rw [resume_transfer hstart] at h9
    rw [Function.update_self, h.engine] at hexp
    refine ⟨allHeard_deliver _, h9, q, hq, ?_⟩
    have hcall := call_dmaResume (m := m) (j := p.1) hstart hirq
    exact hcall ▸ hexp
  | cycle | sdThread | halt | resume | step => exact h

theorem foldl (hstart : e.startEvent = true) (hirq : e.ctrl &&& 2 ≠ 0) (h : Signals e m p)
    (is : List VpInput) : Signals e m (is.foldl (VpInput.beside (e.transfer m)) p) := by
  induction is using List.reverseRecOn with
  | nil => exact h
  | append_singleton is i ih =>
    rw [List.foldl_concat]
    exact ih.next hstart hirq i

theorem mipLine (h : Signals e m p) : mipLine p.2 11 = e.ended p.1 := by
  obtain ⟨q, hq, hexp⟩ := h.plic
  rw [← hexp.externalIrq (by decide)]
  change BusPort.externalLine { targets := p.2 } = _
  unfold BusPort.externalLine
  dsimp only
  rw [hq]

end Signals

/-- The platform with a program in the state `h` and the transfer `e` started: the end of it is to
interrupt the program. -/
structure Vp.Offloads (e : DmaEngine) (m : Ram) (c : HartMode) (Q : Tlb → Ram → Isa.Mem → Prop)
    (t : ℕ → Target Device) (s : Vp) (h : Isa.State) : Prop where
  beside : s.Beside c Q e.params.addresses (e.transfer m) (0, t) h
  signals : Signals e m (0, t)
  awaits : s.Awaits 11 s.iss.state.csr.mtvec

/-- A program in an address space with the external interrupt enabled, and a transfer between
other addresses of the RAM: the program runs as the manual says in the iterations before the last
turn of the transfer, and the first one after it enters the handler with the state of the program
saved; then the bytes have been moved, the engine shows that it is done, and a claim at the PLIC
returns its source.  Bytes and pin changes may arrive, and the timers may tick, at any time. -/
theorem vp_signals_transfer {r₀ : Ram} {c : HartMode}
    (hspace : AddressSpace r₀ c 0x80000000 0x88000000) (hmie : c.mie = (1 : Word) <<< 11)
    {e : DmaEngine} (hstart : e.startEvent = true) (hin : e.params.InRam) (hirq : e.ctrl &&& 2 ≠ 0)
    (hapart : SpaceApart e.params.addresses r₀ c) {m : Ram} {t : ℕ → Target Device} {s : Vp}
    {h h' : Isa.State} (hs : s.Offloads e m c (Virtual r₀ c) t h) {pre post : List VpInput}
    (hi : ∀ i ∈ pre ++ post, i.Running) (hpre : e.ended (pre.countP (·.isTurn)) = false)
    (hpost : ∀ i ∈ post, i.isCycle = false)
    (hdue : e.ended ((pre ++ post).countP (·.isTurn)) = true)
    (hrun : Isa.Steps (virtualSpace r₀ c) h (pre.countP (·.isCycle)) h') :
    (∀ e ∈ vpMachine.trace s (pre ++ post), e.trap = none) ∧ ∀ pick,
      vpMachine.out (vpMachine.run s (pre ++ post)) (.cycle pick) =
        { trap := some (irqCause 11) } ∧
      ∃ t', Preempted (irqCause 11) c (VpFrame t')
          (Keeping e.params.addresses (moved m e.params e.byteCount.toNat) (Virtual r₀ c))
          s.iss.state.csr.mtvec (vpMachine.run s (pre ++ post ++ [.cycle pick])).iss h' ∧
        t' 9 = .device ⟨.dma { e with startEvent := false, status := 2, irq := true }, none⟩ ∧
        ∃ q, t' 3 = .device ⟨.plic q, none⟩ ∧ q.claimBest.1 = dmaSource := by
  have hline (js : List VpInput) :
      mipLine (js.foldl (VpInput.beside (e.transfer m)) (0, t)).2 11 =
        e.ended (js.countP (·.isTurn)) := by
    have hsignals := (hs.signals.foldl hstart hirq js).mipLine
    rwa [foldl_beside_fst, Nat.zero_add] at hsignals
  obtain ⟨htrap, hlast⟩ := hs.beside.preempt hs.awaits (by decide) hmie hspace.priv
    (turns_transfer hstart hin m) (ignores_virtual hapart)
    (fun t f => serves_virtual_keeping hspace (vp_ramAt_frame t) hapart f) hi
    (fun js hjs => by
      have hle := hjs.sublist.countP_le (p := (·.isTurn))
      have hlt : ¬ e.byteCount.toNat + 512 ≤ 256 * pre.countP (·.isTurn) :=
        of_decide_eq_false hpre
      rw [hline]
      exact decide_eq_false (by omega)) hpost
    ((hline _).trans hdue) hrun
  refine ⟨htrap, fun pick => ⟨(hlast pick).1,
    ((pre ++ post).foldl (VpInput.beside (e.transfer m)) (0, t)).2, ?_, ?_⟩⟩
  · have hsaved := (hlast pick).2
    rwa [Nat.zero_add, transfer_of_ended hdue] at hsaved
  · have hend := hs.signals.foldl hstart hirq (pre ++ post)
    obtain ⟨q, hq, hexp⟩ := hend.plic
    have h9 := hend.engine
    rw [foldl_beside_fst, Nat.zero_add] at h9 hexp
    rw [hdue] at hexp
    rw [transfer_of_ended hdue, if_pos hirq] at h9
    exact ⟨h9, q, hq, hexp.claimBest (by decide)⟩

/-! The platform of the superpage, with four bytes to be moved in the pages after the tables. -/

/-- User mode with the machine external interrupt enabled. -/
def externalMode : HartMode := { userMode with mie := 0x800 }

/-- Four bytes are to be moved, with an interrupt at the end. -/
def signalEngine : DmaEngine := { sledEngine with ctrl := 2 }

/-- The source of the engine is enabled. -/
def signalPlic : Plic := { priority := fun _ => 1, enabled := Plic.bit dmaSource }

/-- The platform before the transfer. -/
def signalPlatform : Vp :=
  let s := (userPlatform.onDevice 9 fun _ => ⟨.dma signalEngine, none⟩).onDevice 3
    fun _ => ⟨.plic signalPlic, none⟩
  { s with iss := { s.iss with state :=
      { s.iss.state with csr := { s.iss.state.csr with mie := 0x800 } } } }

/-- A device is put at a socket while no call is under way. -/
theorem onDevice_targets {w : BusPort Device} (hheard : AllHeard w.targets) {j : ℕ} {d : Device}
    (hj : w.targets j = .device d) (u : Peripheral) :
    (w.onDevice j fun _ => ⟨u, none⟩).targets =
      Function.update w.targets j (.device ⟨u, none⟩) := by
  change deliver (Function.update w.targets j ((w.targets j).mapDevice fun _ => ⟨u, none⟩)) = _
  rw [hj]
  refine deliver_of_allHeard fun k => ?_
  by_cases hk : k = j
  · rw [hk, Function.update_self]
    rfl
  · rw [Function.update_of_ne hk]
    exact hheard k

theorem signalPlatform_bus : ∃ w, signalPlatform.iss.env.bus = some w ∧ w.PlatformRam userRam ∧
    SdIdle w.targets ∧ Signals signalEngine userRam (0, w.targets) ∧
    w.targets 2 = .device ⟨.clint {}, none⟩ := by
  obtain ⟨w, hw, hram, hidle⟩ := vpView_filledPlatform 1
  have hheard := (filledPlatform_hosts 1).heard w hw
  obtain ⟨e, c, h9, -⟩ := hidle.dma
  obtain ⟨h2, h3⟩ : w.targets 2 = .device ⟨.clint {}, none⟩ ∧
      w.targets 3 = .device ⟨.plic {}, none⟩ := by
    cases hw
    exact ⟨rfl, rfl⟩
  have ht := onDevice_targets hheard h9 (.dma signalEngine)
  have hheard₁ : AllHeard (w.onDevice 9 fun _ => ⟨.dma signalEngine, none⟩).targets :=
    allHeard_deliver _
  have ht' := onDevice_targets hheard₁ (j := 3)
    ((congrFun ht 3).trans ((Function.update_of_ne (by decide) ..).trans h3)) (.plic signalPlic)
  refine ⟨(w.onDevice 9 fun _ => ⟨.dma signalEngine, none⟩).onDevice 3
    fun _ => ⟨.plic signalPlic, none⟩, ?_, (hram.onDevice 9 _).onDevice 3 _, ?_,
    ⟨allHeard_deliver _, ?_, signalPlic, ?_, ?_⟩, ?_⟩
  · unfold signalPlatform Vp.onDevice
    rw [hw]
    rfl
  · exact (hidle.sd.change (j := 9) (by decide) fun _ => ⟨.dma signalEngine, none⟩).change (j := 3)
      (by decide) fun _ => ⟨.plic signalPlic, none⟩
  · dsimp only
    rw [ht', Function.update_of_ne (by decide), ht, Function.update_self]
    rfl
  · dsimp only
    rw [ht', Function.update_self]
  · exact ⟨rfl, by decide, by decide, show _ = signalEngine.ended 0 by decide,
      iff_of_false Bool.false_ne_true fun ⟨j, hj⟩ => by
        cases (BitVec.getLsbD_zero (w := 32) (i := j)).symm.trans hj.pending⟩
  · rw [ht', Function.update_of_ne (by decide), ht, Function.update_of_ne (by decide), h2]

theorem spaceApart_userRam : SpaceApart signalEngine.params.addresses userRam userMode := by
  have hrange {q : ℕ} (hq : q ∈ signalEngine.params.addresses) :
      0x80001000 ≤ q ∧ q < 0x80003000 := by
    rcases hq with ⟨hlo, hhi⟩ | ⟨hlo, hhi⟩
    · change 0x80001000 ≤ q at hlo
      change q < 0x80001004 at hhi
      omega
    · change 0x80002000 ≤ q at hlo
      change q < 0x80002004 at hhi
      omega
  refine ⟨fun h hq => ?_, fun h x hx q hq => ?_⟩
  · obtain ⟨-, hp⟩ := maps_filledRam.1 h
    have hlt := hrange hq
    omega
  · obtain ⟨hlo, -⟩ := hrange hq
    have hbase : (0x80000000 : Word).toNat = 0x80000000 := rfl
    rw [tableWords_filledRam (maps_filledRam.1 h).1, List.mem_singleton] at hx
    rw [hx, BitVec.toNat_sub_of_le (BitVec.le_def.2 (by omega)), hbase]
    omega

theorem signalPlatform_offloads {w : BusPort Device} (hw : signalPlatform.iss.env.bus = some w)
    (hram : w.PlatformRam userRam) (hsd : SdIdle w.targets)
    (hsignals : Signals signalEngine userRam (0, w.targets))
    (h2 : w.targets 2 = .device ⟨.clint {}, none⟩) :
    signalPlatform.Offloads signalEngine userRam externalMode (Virtual userRam externalMode)
      w.targets (sled 0 0) where
  beside := ⟨⟨rfl, rfl, rfl, rfl, regFile_sled 0 0, rfl, userRam,
    ⟨w, hw, hram, hsignals.heard, fun _ _ => rfl⟩,
    ⟨(virtual_filledRam 1).tables, (virtual_filledRam 1).content, (virtual_filledRam 1).cached⟩,
    fun _ _ => rfl⟩,
    hsignals.engine, rfl, hsd, rfl⟩
  signals := hsignals
  awaits := by
    refine ⟨⟨Vp.clear_reset.hw, Vp.clear_reset.sw⟩, fun w' hw' => ⟨fun b => ?_, Vp.clear_reset.sw⟩,
      rfl, rfl⟩
    cases hw.symm.trans hw'
    have hsw : w.swLine = false := by
      unfold BusPort.swLine
      rw [h2]
    have htimer : w.timerLine = false := by
      unfold BusPort.timerLine
      rw [h2]
    have hext : w.externalLine = false :=
      hsignals.mipLine.trans (show signalEngine.ended 0 = false by decide)
    rw [hsw, htimer, hext]
    split_ifs
    all_goals exact BitVec.getLsbD_zero

/-- Two instructions while four bytes are moved, and the trap. -/
theorem vp_signals_transfer_sled :
    let s := signalPlatform
    let turn : VpInput := .dmaThread (.replicate _ 0)
    let is : List VpInput :=
      [.cycle fun _ => 0, turn, turn, .cycle fun _ => 0] ++ [.clintTick, turn]
    (∀ e ∈ vpMachine.trace s is, e.trap = none) ∧ ∀ pick,
      vpMachine.out (vpMachine.run s is) (.cycle pick) = { trap := some (irqCause 11) } ∧
      ∃ t', Preempted (irqCause 11) externalMode (VpFrame t')
          (Keeping signalEngine.params.addresses (moved userRam signalEngine.params 4)
            (Virtual userRam externalMode))
          s.iss.state.csr.mtvec (vpMachine.run s (is ++ [.cycle pick])).iss (sled 0 2) ∧
        t' 9 = .device
          ⟨.dma { signalEngine with startEvent := false, status := 2, irq := true }, none⟩ ∧
        ∃ q, t' 3 = .device ⟨.plic q, none⟩ ∧ q.claimBest.1 = dmaSource := by
  obtain ⟨w, hw, hram, hsd, hsignals, h2⟩ := signalPlatform_bus
  have huser := addressSpace_filledRam 1
  have hspace : AddressSpace userRam externalMode 0x80000000 0x88000000 :=
    ⟨huser.priv, huser.sv32, huser.frame, huser.unaliased, huser.tables, huser.apart⟩
  have hapart : SpaceApart signalEngine.params.addresses userRam externalMode :=
    ⟨spaceApart_userRam.page, spaceApart_userRam.table⟩
  have hstep (n : ℕ) (hn : n < 2) : Isa.Step (virtualSpace userRam externalMode) (sled 0 n)
      (sled 0 (n + 1)) := by
    interval_cases n
    all_goals exact sled_step (by decide) (filledSpace_fetch (by decide) (by decide))
  exact vp_signals_transfer hspace rfl rfl ⟨by decide, by decide, by decide⟩ (by decide) hapart
    (signalPlatform_offloads hw hram hsd hsignals h2) (by simp [VpInput.Running]) (by decide)
    (by simp [VpInput.isCycle]) (by decide)
    (.tail (.tail .refl (hstep 0 (by decide))) (hstep 1 (by decide)))

end VirtualSoC
