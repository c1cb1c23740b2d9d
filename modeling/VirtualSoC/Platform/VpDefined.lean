import VirtualSoC.Cpu.AccessGuard
import VirtualSoC.Platform.VpRun

/-!
# The platform copies inside its buffers

A memory stays at its socket with its size, and a device with its kind (`Bound`); a DMI window is
the one of the boot ROM or of the RAM (`BusPort.WindowOk`).  So an access of the CPU is defined
unless it runs over the end of the address space, and a transaction unless it hands the UART more
than a word.

The CPU's accesses are aligned but for the fetch (`ISS.busOps_aligned`), which leaves three things
that a step must not do (`VpInput.Defined`); without them no run of the platform has undefined
behaviour (`vp_defined`).
-/

namespace VirtualSoC

open Cfg

/-! ### What is bound to the sockets -/

/-- What a target is, whatever its content. -/
inductive TargetKind
  | memory (size : Word)
  | bootRom (size : Word)
  /-- A device made for the socket. -/
  | device (socket : ℕ)

/-- The kind of a target. -/
def Target.kind : Target Device → TargetKind
  | .memory m => .memory m.size
  | .bootRom m => .bootRom m.size
  | .device d => .device d.unit.socket

/-- The constructor's `bind` calls. -/
def platformKind : ℕ → TargetKind
  | 0 => .bootRom bootRomSize
  | 1 => .memory ramSize
  | i => .device i

/-- Every target is at its socket. -/
def Bound (t : ℕ → Target Device) : Prop := ∀ i < 12, (t i).kind = platformKind i

section Kinds

variable {t t' : Target Device} {n : ℕ} {trans x : Payload n}

theorem Target.kind_bTransport (hn : 4 ≤ n) (h : t.bTransport trans = some (x, t')) :
    t'.kind = t.kind := by
  cases t with
  | memory m =>
    obtain ⟨⟨y, m'⟩, hm, hx⟩ := Option.map_eq_some_iff.1 h
    cases hx
    exact congrArg TargetKind.memory (Memory.size_of_bTransport hm)
  | bootRom m =>
    obtain ⟨⟨y, m'⟩, hm, hx⟩ := Option.map_eq_some_iff.1 h
    cases hx
    rw [BootRom.eq_of_bTransport hm]
  | device d =>
    obtain ⟨⟨y, d'⟩, hd, hx⟩ := Option.map_eq_some_iff.1 h
    cases hx
    exact congrArg TargetKind.device (evolves_transport hn .waiting hd).socket

theorem Target.kind_hostWrite {src : Vector Byte n} {off k : ℕ}
    (h : t.hostWrite src off k = some t') : t'.kind = t.kind := by
  cases t with
  | memory m | bootRom m =>
    obtain ⟨mem, -, rfl⟩ := Option.map_eq_some_iff.1 h
    rfl
  | device d => cases h

theorem Target.kind_mapDevice (t : Target Device) {f : Device → Device}
    (hf : ∀ d, (f d).unit.socket = d.unit.socket) : (t.mapDevice f).kind = t.kind := by
  cases t with
  | memory m | bootRom m => rfl
  | device d => exact congrArg TargetKind.device (hf d)

end Kinds

section

variable {t : ℕ → Target Device}

theorem Bound.update (h : Bound t) {j : ℕ} {X : Target Device} (hX : X.kind = (t j).kind) :
    Bound (Function.update t j X) := by
  intro i hi
  by_cases hij : i = j
  · subst hij
    rw [Function.update_self, hX, h i hi]
  · rw [Function.update_of_ne hij, h i hi]

theorem Bound.deliver (h : Bound t) : Bound (deliver t) := fun i hi =>
  ((t i).kind_mapDevice fun d =>
    have hhear : Evolves .waiting .waiting d.unit ⟨d.unit.hear t, none⟩ := evolves_hear t d.unit
    hhear.socket).trans (h i hi)

theorem Bound.exists_rom (h : Bound t) : ∃ mem, t 0 = .bootRom ⟨bootRomSize, mem⟩ := by
  have hk := h 0 (by decide)
  cases ht : t 0 with
  | bootRom m =>
    rw [ht] at hk
    obtain ⟨size, mem⟩ := m
    cases hk
    exact ⟨mem, rfl⟩
  | memory m | device d =>
    rw [ht] at hk
    cases hk

theorem Bound.exists_ram (h : Bound t) : ∃ mem, t 1 = .memory ⟨ramSize, mem⟩ := by
  have hk := h 1 (by decide)
  cases ht : t 1 with
  | memory m =>
    rw [ht] at hk
    obtain ⟨size, mem⟩ := m
    cases hk
    exact ⟨mem, rfl⟩
  | bootRom m | device d =>
    rw [ht] at hk
    cases hk

theorem Bound.exists_device (h : Bound t) {i : ℕ} (hlo : 2 ≤ i) (hhi : i < 12) :
    ∃ d, t i = .device d ∧ d.unit.socket = i := by
  have hk := h i hhi
  have hkind : platformKind i = .device i := by
    match i, hlo with
    | _ + 2, _ => rfl
  rw [hkind] at hk
  cases ht : t i with
  | device d =>
    rw [ht] at hk
    exact ⟨d, rfl, TargetKind.device.inj hk⟩
  | memory m | bootRom m =>
    rw [ht] at hk
    cases hk

end

/-! ### Transactions -/

/-- The addresses of the UART. -/
def InUart (a : Word) : Prop := uartBase ≤ a ∧ a < uartBase + uartSize

instance (a : Word) : Decidable (InUart a) := inferInstanceAs (Decidable (_ ∧ _))

/-- A word fits into the buffer, the length is the one of the buffer at most, and the UART is handed
a word at most. -/
structure Payload.Safe {n : ℕ} (trans : Payload n) : Prop where
  word : 4 ≤ n
  fits : trans.dataLength.toNat ≤ n
  short : n ≤ 512
  uart : InUart (trans.address.setWidth 32) → trans.dataLength.toNat ≤ 4

section

variable {n : ℕ} {trans : Payload n}

theorem Memory.exists_bTransport (m : Memory) (trans : Payload n) (hn : trans.dataLength.toNat ≤ n)
    (hwrap : (trans.address.setWidth 32).toNat + trans.dataLength.toNat < 2 ^ 32) :
    ∃ x, m.bTransport trans = some x := by
  unfold bTransport
  dsimp only
  split
  · exact ⟨_, rfl⟩
  next hle =>
    rw [gt_iff_lt, BitVec.not_lt, BitVec.le_def, BitVec.toNat_add, Nat.mod_eq_of_lt hwrap] at hle
    cases trans.command with
    | read =>
      obtain ⟨data, hdata⟩ := Buffer.exists_copy trans.data m.mem (i := 0)
        (k := trans.dataLength.toNat) (by omega) hle
      exact ⟨_, by dsimp only; rw [hdata]; rfl⟩
    | write =>
      obtain ⟨mem, hmem⟩ := Buffer.exists_copy m.mem trans.data (j := 0)
        (k := trans.dataLength.toNat) hle (by omega)
      exact ⟨_, by dsimp only; rw [hmem]; rfl⟩
    | ignore => exact ⟨_, rfl⟩

theorem BootRom.exists_bTransport (m : BootRom) (trans : Payload n)
    (hn : trans.dataLength.toNat ≤ n)
    (hwrap : (trans.address.setWidth 32).toNat + trans.dataLength.toNat < 2 ^ 32) :
    ∃ x, m.bTransport trans = some x := by
  unfold bTransport
  dsimp only
  split
  · exact ⟨_, rfl⟩
  next hle =>
    rw [gt_iff_lt, BitVec.not_lt, BitVec.le_def, BitVec.toNat_add, Nat.mod_eq_of_lt hwrap] at hle
    cases trans.command with
    | read =>
      obtain ⟨data, hdata⟩ := Buffer.exists_copy trans.data m.mem (i := 0)
        (k := trans.dataLength.toNat) (by omega) hle
      exact ⟨_, by dsimp only; rw [hdata]; rfl⟩
    | write | ignore => exact ⟨_, rfl⟩

theorem Peripheral.exists_transport (u : Peripheral) (trans : Payload n) (hn : 4 ≤ n)
    (hfits : trans.dataLength.toNat ≤ n) (hu : u.socket = 4 → trans.dataLength.toNat ≤ 4) :
    ∃ x, u.transport trans = some x := by
  cases u with
  | clint c =>
    obtain ⟨x, hx⟩ := Option.isSome_iff_exists.1 (c.isSome_bTransport trans hn)
    exact ⟨_, by rw [transport, hx]; rfl⟩
  | plic p =>
    obtain ⟨x, hx⟩ := Option.isSome_iff_exists.1 (p.isSome_bTransport trans hfits)
    exact ⟨_, by rw [transport, hx]; rfl⟩
  | uart u =>
    obtain ⟨x, hx⟩ := u.exists_bTransport trans (hu rfl) hfits
    exact ⟨_, by rw [transport, hx]; rfl⟩
  | gpio s | timer s | sdCtrl s | dma s | fbCtrl s | audio s =>
    obtain ⟨x, hx⟩ := Option.isSome_iff_exists.1 (isSome_regTransport s.access s hn)
    exact ⟨_, congrArg (Option.map _) hx⟩
  | spi s =>
    obtain ⟨x, hx⟩ := Option.isSome_iff_exists.1 (isSome_regTransport (s.access none) s hn)
    exact ⟨_, congrArg (Option.map _) hx⟩

theorem mem_ranges {r : MappedRange} (hr : r ∈ platformBus.ranges) :
    r = ⟨bootRomBase, bootRomSize, 0⟩ ∨ r = ramRange ∨
      2 ≤ r.targetIdx ∧ r.targetIdx < 12 ∧
        (r.targetIdx = 4 → r = ⟨uartBase, uartSize, 4⟩) := by
  revert r
  decide

theorem Bound.exists_bTransport {t : ℕ → Target Device} (h : Bound t) (hs : trans.Safe) :
    ∃ x, platformBus.bTransport t trans = some x ∧ Bound x.2 := by
  have hkeep (x : Payload n × (ℕ → Target Device))
      (hx : platformBus.bTransport t trans = some x) : Bound x.2 := by
    unfold TlmBus.bTransport at hx
    split at hx
    · cases hx
      exact h
    · obtain ⟨y, hy, hx⟩ := Option.bind_eq_some_iff.1 hx
      cases hx
      exact h.update (Target.kind_bTransport hs.word hy)
  suffices hex : ∃ x, platformBus.bTransport t trans = some x from
    hex.imp fun x hx => ⟨hx, hkeep x hx⟩
  unfold TlmBus.bTransport
  cases hd : platformBus.decode (trans.address.setWidth 32) with
  | none => exact ⟨_, rfl⟩
  | some r =>
    dsimp only
    have hin := List.find?_some (show platformBus.ranges.find? _ = some r from hd)
    obtain ⟨hlo, hhi⟩ := of_decide_eq_true hin
    suffices hex : ∃ y, (t r.targetIdx).bTransport { trans with
        address := ((trans.address.setWidth 32 : Word) - r.base).setWidth 64 } = some y by
      obtain ⟨y, hy⟩ := hex
      exact ⟨_, by rw [TlmBus.forward, hy]; rfl⟩
    have hshort := hs.fits.trans hs.short
    have hoff : (trans.address.setWidth 32 - r.base).toNat =
        (trans.address.setWidth 32).toNat - r.base.toNat := BitVec.toNat_sub_of_le hlo
    let x : Payload n := { trans with
      address := ((trans.address.setWidth 32 : Word) - r.base).setWidth 64 }
    have haddr : (x.address.setWidth 32).toNat = (trans.address.setWidth 32).toNat - r.base.toNat :=
      (congrArg BitVec.toNat (setWidth_setWidth_word _)).trans hoff
    rw [BitVec.lt_def] at hhi
    change ∃ y, (t r.targetIdx).bTransport x = some y
    rcases mem_ranges (List.mem_of_find?_eq_some hd) with rfl | rfl | ⟨h2, h12, huart⟩
    · obtain ⟨mem, hmem⟩ := h.exists_rom
      have hwrap : (x.address.setWidth 32).toNat + x.dataLength.toNat < 2 ^ 32 := by
        rw [haddr]
        change _ < 0x10000 at hhi
        change _ - 0 + trans.dataLength.toNat < 4294967296
        omega
      obtain ⟨y, hy⟩ := BootRom.exists_bTransport ⟨bootRomSize, mem⟩ x hs.fits hwrap
      exact ⟨_, by rw [hmem, Target.bTransport, hy]; rfl⟩
    · obtain ⟨mem, hmem⟩ := h.exists_ram
      have hwrap : (x.address.setWidth 32).toNat + x.dataLength.toNat < 2 ^ 32 := by
        rw [haddr, toNat_ramBase]
        change _ < 0x88000000 at hhi
        change _ - _ + trans.dataLength.toNat < 4294967296
        omega
      obtain ⟨y, hy⟩ := Memory.exists_bTransport ⟨ramSize, mem⟩ x hs.fits hwrap
      exact ⟨_, by rw [show ramRange.targetIdx = 1 from rfl, hmem, Target.bTransport, hy]; rfl⟩
    · obtain ⟨d, hd', hsocket⟩ := h.exists_device h2 h12
      have hu : d.unit.socket = 4 → x.dataLength.toNat ≤ 4 := by
        intro h4
        obtain rfl := huart (hsocket.symm.trans h4)
        exact hs.uart ⟨hlo, BitVec.lt_def.2 hhi⟩
      obtain ⟨y, hy⟩ := d.unit.exists_transport x hs.word hs.fits hu
      have ht : TlmDevice.transport x d = (d.unit.transport x).map _ := rfl
      rw [hd', Target.bTransport, ht, hy]
      exact ⟨_, rfl⟩

end

/-! ### The port of the CPU -/

namespace BusPort

variable (w : BusPort Device)

/-- A valid DMI window is the one of the boot ROM or of the RAM. -/
def WindowOk : Prop := w.dmiValid →
  w.dmiPtr = some 0 ∧ w.dmiStart = 0 ∧ w.dmiEnd = 0xFFFF ∨
    w.dmiPtr = some 1 ∧ w.dmiStart = 0x80000000 ∧ w.dmiEnd = 0x87FFFFFF

/-- The targets are at their sockets, and the window is in order. -/
structure Sane : Prop where
  bound : Bound w.targets
  window : w.WindowOk

variable {w}

theorem Sane.tryDmi (h : w.Sane) (a : Word) : (w.tryDmi platformBus a).Sane := by
  refine ⟨(tryDmi_targets w platformBus a).symm ▸ h.bound, ?_⟩
  obtain ⟨h, hw⟩ := h
  unfold BusPort.tryDmi TlmBus.getDirectMemPtr
  cases hd : platformBus.decode a with
  | none => exact hw
  | some r =>
    dsimp only
    rcases mem_ranges (List.mem_of_find?_eq_some hd) with rfl | rfl | ⟨h2, h12, -⟩
    · obtain ⟨mem, hmem⟩ := h.exists_rom
      have hstart : 0 + bootRomBase.setWidth 64 = (0 : BitVec 64) := by decide
      have hend : (bootRomSize - 1).setWidth 64 + bootRomBase.setWidth 64 =
          (0xFFFF : BitVec 64) := by decide
      rw [hmem]
      exact fun _ => .inl ⟨rfl, hstart, hend⟩
    · obtain ⟨mem, hmem⟩ := h.exists_ram
      have hstart : 0 + ramBase.setWidth 64 = (0x80000000 : BitVec 64) := by decide
      have hend : (ramSize - 1).setWidth 64 + ramBase.setWidth 64 =
          (0x87FFFFFF : BitVec 64) := by decide
      rw [show ramRange.targetIdx = 1 from rfl, hmem]
      exact fun _ => .inr ⟨rfl, hstart, hend⟩
    · obtain ⟨d, hd', -⟩ := h.exists_device h2 h12
      rw [hd']
      exact hw

theorem Sane.deliver (h : w.Sane) : w.deliver.Sane := ⟨h.bound.deliver, h.window⟩

variable {a : Word} {n : ℕ}

/-- The access does not run over the end of the address space. -/
def NoWrap (a : Word) (n : ℕ) : Prop := 0 < n ∧ n ≤ 4 ∧ a.toNat + n ≤ 2 ^ 32

/-- An access through the window copies inside the memory. -/
theorem Sane.exists_of_hit (h : w.Sane) (ha : NoWrap a n) (hit : w.dmiHit a n) :
    ∃ i, w.dmiPtr = some i ∧ (∃ v, (w.targets i).hostRead zeroBuf (w.dmiOffset a) n = some v) ∧
      ∀ v : Word, ∃ t, (w.targets i).hostWrite (Bytes.toLE v 4) (w.dmiOffset a) n = some t := by
  obtain ⟨hpos, h4, hwrap⟩ := ha
  obtain ⟨hvalid, hlo, hhi⟩ := of_decide_eq_true hit
  have hlast : ((a + BitVec.ofNat 32 n - 1).setWidth 64).toNat = a.toNat + n - 1 := by
    have hone : (1 : Word).toNat = 1 := rfl
    rw [BitVec.toNat_setWidth, BitVec.toNat_sub, BitVec.toNat_add, toNat_ofNat_bytes h4, hone]
    omega
  have haddr : (a.setWidth 64).toNat = a.toNat := by
    rw [BitVec.toNat_setWidth]
    omega
  rw [ge_iff_le, BitVec.le_def, haddr] at hlo
  rw [BitVec.le_def, hlast] at hhi
  have hoff : w.dmiOffset a = a.toNat - w.dmiStart.toNat := by
    rw [dmiOffset, BitVec.toNat_sub_of_le (BitVec.le_def.2 (haddr ▸ hlo)), haddr]
  -- the offset and the length fit into a memory of `size` bytes
  have hcopy {size : Word} (mem : Vector Byte size.toNat)
      (hin : w.dmiOffset a + n ≤ size.toNat) :
      (∃ v, Buffer.copy zeroBuf 0 mem (w.dmiOffset a) n = some v) ∧
        ∀ v : Word, ∃ m, Buffer.copy mem (w.dmiOffset a) (Bytes.toLE v 4) 0 n = some m :=
    ⟨Buffer.exists_copy _ _ (by omega) hin, fun v => Buffer.exists_copy _ _ hin (by omega)⟩
  rcases h.window hvalid with ⟨hptr, hstart, hend⟩ | ⟨hptr, hstart, hend⟩
  · obtain ⟨mem, hmem⟩ := h.bound.exists_rom
    have hin : w.dmiOffset a + n ≤ bootRomSize.toNat := by
      rw [hoff, hstart]
      rw [hend] at hhi
      change _ ≤ 0xFFFF at hhi
      change a.toNat - 0 + n ≤ 0x10000
      omega
    obtain ⟨hread, hwrite⟩ := hcopy mem hin
    refine ⟨0, hptr, hmem ▸ hread, fun v => ?_⟩
    obtain ⟨m, hm⟩ := hwrite v
    exact ⟨_, by rw [hmem, Target.hostWrite, hm]; rfl⟩
  · obtain ⟨mem, hmem⟩ := h.bound.exists_ram
    have hin : w.dmiOffset a + n ≤ ramSize.toNat := by
      rw [hoff, hstart]
      rw [hend] at hhi
      change _ ≤ 0x87FFFFFF at hhi
      change a.toNat - 0x80000000 + n ≤ 0x08000000
      omega
    obtain ⟨hread, hwrite⟩ := hcopy mem hin
    refine ⟨1, hptr, hmem ▸ hread, fun v => ?_⟩
    obtain ⟨m, hm⟩ := hwrite v
    exact ⟨_, by rw [hmem, Target.hostWrite, hm]; rfl⟩

theorem safe_cpu (trans : Payload 4) (hn : n ≤ 4) (hlen : trans.dataLength = BitVec.ofNat 32 n) :
    trans.Safe where
  word := le_rfl
  fits := by rwa [hlen, toNat_ofNat_bytes hn]
  short := by decide
  uart _ := by rwa [hlen, toNat_ofNat_bytes hn]

theorem Sane.exists_busRead (h : w.Sane) (ha : NoWrap a n) :
    ∃ v w', w.busRead platformBus a n = some (v, w') ∧ w'.Sane := by
  unfold busRead
  split
  next hit =>
    obtain ⟨i, hptr, ⟨v, hv⟩, -⟩ := h.exists_of_hit ha hit
    rw [hptr]
    exact ⟨_, w, by simp only [Option.bind_eq_bind, Option.bind_some, hv]; rfl, h⟩
  · obtain ⟨x, hx, hbound⟩ := h.bound.exists_bTransport (safe_cpu (readTrans a n) ha.2.1 rfl)
    obtain ⟨v, hv⟩ := Buffer.exists_copy zeroBuf x.1.data (i := 0) (j := 0) (k := n)
      (by have := ha.2.1; omega) (by have := ha.2.1; omega)
    refine ⟨_, _, by simp only [Option.bind_eq_bind, hx, Option.bind_some, hv]; rfl, ?_⟩
    have h' : { w with targets := x.2 }.Sane := ⟨hbound, h.window⟩
    split
    · exact h'
    · exact h'.tryDmi a

theorem Sane.exists_busWrite (h : w.Sane) (ha : NoWrap a n) (v : Word) :
    ∃ w', w.busWrite platformBus a v n = some w' ∧ w'.Sane := by
  unfold busWrite
  split
  next hit =>
    obtain ⟨i, hptr, -, hwrite⟩ := h.exists_of_hit ha hit
    obtain ⟨t, ht⟩ := hwrite v
    refine ⟨{ w with targets := Function.update w.targets i t }, ?_,
      h.bound.update (Target.kind_hostWrite ht), h.window⟩
    simp only [Option.bind_eq_bind, hptr, Option.bind_some, ht]
    rfl
  · obtain ⟨buf, hbuf⟩ := Buffer.exists_copy zeroBuf (Bytes.toLE v 4) (i := 0) (j := 0) (k := n)
      (by have := ha.2.1; omega) (by have := ha.2.1; omega)
    have htr : writeTrans a v n =
        some ⟨.write, a.setWidth 64, buf, BitVec.ofNat 32 n, .incomplete⟩ := by
      rw [writeTrans, hbuf]
      rfl
    obtain ⟨x, hx, hbound⟩ := h.bound.exists_bTransport
      (safe_cpu ⟨.write, a.setWidth 64, buf, BitVec.ofNat 32 n, .incomplete⟩ ha.2.1 rfl)
    rw [htr]
    refine ⟨{ w with targets := x.2 }, ?_, hbound, h.window⟩
    simp only [Option.bind_eq_bind, Option.bind_some, hx]
    rfl

/-- A transaction of another master copies inside its buffers. -/
theorem Sane.exists_transport (h : w.Sane) (trans : Payload n) (hs : trans.Safe) :
    ∃ x w', w.transport trans = some (x, w') ∧ w'.Sane := by
  obtain ⟨x, hx, hbound⟩ := h.bound.exists_bTransport hs
  have hsane : { w with targets := x.2 }.Sane := ⟨hbound, h.window⟩
  exact ⟨_, _, by rw [BusPort.transport, hx]; rfl, hsane.deliver⟩

/-- A device that changes by itself stays a device for its socket. -/
theorem Sane.onDevice (h : w.Sane) (i : ℕ) {f : Peripheral → Device}
    (hf : ∀ u, (f u).unit.socket = u.socket) : (w.onDevice i f).Sane := by
  have hsane : BusPort.Sane { w with
      targets := Function.update w.targets i ((w.targets i).mapDevice fun d => f d.unit) } :=
    ⟨h.bound.update ((w.targets i).kind_mapDevice fun d => hf d.unit), h.window⟩
  exact hsane.deliver

end BusPort

/-! ### Operations of the CPU -/

theorem AlignedAccess.noWrap {a : Word} {n : ℕ} (h : AlignedAccess a n) : BusPort.NoWrap a n := by
  have hlt := a.isLt
  rcases h with rfl | ⟨rfl, h2⟩ | ⟨rfl, h4⟩
  · exact ⟨by decide, by decide, by omega⟩
  · have hdvd : 2 ∣ a.toNat := (Bits.and_low_eq_zero_iff (k := 1) a (by decide)).1 h2
    exact ⟨by decide, by decide, by omega⟩
  · have hdvd := isAligned_iff.1 h4
    exact ⟨by decide, by decide, by omega⟩

/-- A fetch runs over the end of the address space at one address only. -/
theorem noWrap_fetch {a : Word} (h : a &&& 1 = 0) (hne : a ≠ 0xFFFFFFFE) :
    BusPort.NoWrap a 4 := by
  have hlt := a.isLt
  have hdvd : 2 ∣ a.toNat := (Bits.and_low_eq_zero_iff (k := 1) a (by decide)).1 h
  have hlast : a.toNat ≠ 0xFFFFFFFE := fun ha => hne (BitVec.eq_of_toNat_eq ha)
  exact ⟨by decide, by decide, by omega⟩

/-- The world behind the bus is known and in order. -/
def Defined (b : Option (BusPort Device)) : Prop := ∃ w, b = some w ∧ w.Sane

theorem Defined.apply {b : Option (BusPort Device)} (h : Defined b) {o : BusOp} (ho : o.Aligned)
    (hne : o ≠ .read 0xFFFFFFFE 4) : Defined (o.apply vpBus b) := by
  obtain ⟨w, rfl, hw⟩ := h
  cases o with
  | read a n =>
    have hwrap : BusPort.NoWrap a n := by
      rcases ho with ha | ⟨rfl, ha⟩
      · exact ha.noWrap
      · exact noWrap_fetch ha fun h => hne (congrArg (BusOp.read · 4) h)
    obtain ⟨v, w', hr, hw'⟩ := hw.exists_busRead hwrap
    refine ⟨w'.deliver, ?_, hw'.deliver⟩
    dsimp only [BusOp.apply, vpBus, socBus, Option.bind_some]
    rw [hr]
    rfl
  | write a v n =>
    have ha : AlignedAccess a n := ho
    obtain ⟨w', hr, hw'⟩ := hw.exists_busWrite ha.noWrap v
    refine ⟨w'.deliver, ?_, hw'.deliver⟩
    dsimp only [BusOp.apply, vpBus, socBus, Option.bind_some]
    rw [hr]
    rfl
  | dropDmi => exact ⟨w.dropDmi, rfl, hw.bound, nofun⟩

/-! ### The other masters -/

namespace BusPort.Sane

variable {w : BusPort Device} (h : w.Sane)

include h

theorem dmaNext (thread : DmaThread) (rresp wresp : TlmResponse) :
    (w.dmaNext thread rresp wresp).2.Sane :=
  h.onDevice 9 fun u => by cases u <;> rfl

theorem exists_dmaBurst (access : DmaAccess) (hlen : access.dataLength.toNat ≤ 256)
    (hu : 4 < access.dataLength.toNat → ¬ InUart access.address) (buf : DmaBuf) :
    ∃ x w', w.transport (DmaAccess.payload access buf) = some (x, w') ∧ w'.Sane := by
  refine h.exists_transport _ ⟨by decide, hlen, by decide, fun hin => ?_⟩
  by_contra hlong
  exact hu (not_le.1 hlong) (setWidth_setWidth_word access.address ▸ hin)

theorem exists_dmaThread (thread : DmaThread) (buf : DmaBuf)
    (hu : ∀ remaining src dst, thread = .copying remaining src dst → 4 < remaining →
      ¬ InUart src ∧ ¬ InUart dst) :
    ∃ x w', w.dmaThread thread buf = some (x, w') ∧ w'.Sane := by
  cases thread with
  | waiting => exact ⟨_, _, rfl, h.dmaNext _ _ _⟩
  | copying remaining src dst =>
    unfold BusPort.dmaThread
    dsimp only
    split
    · have hlen := DmaEngine.toNat_chunk remaining
      have huart (hlong : 4 < (DmaEngine.chunk remaining).toNat) :=
        hu remaining src dst rfl (BitVec.lt_def.2 (by change 4 < _; omega))
      obtain ⟨x, w₁, hr, h₁⟩ := h.exists_dmaBurst ⟨.read, src, DmaEngine.chunk remaining⟩
        (by dsimp only; omega) (fun hlong => (huart hlong).1) buf
      obtain ⟨y, w₂, hw, h₂⟩ := h₁.exists_dmaBurst ⟨.write, dst, DmaEngine.chunk remaining⟩
        (by dsimp only; omega) (fun hlong => (huart hlong).2) x.data
      rw [hr]
      simp only [Option.bind_eq_bind, Option.bind_some]
      split
      · exact ⟨_, _, rfl, h₁.dmaNext _ _ _⟩
      · rw [hw]
        exact ⟨_, _, rfl, h₂.dmaNext _ _ _⟩
    · exact ⟨_, _, rfl, h.dmaNext _ _ _⟩

theorem exists_sdThread (thread : SdThread) (buf : SdBlock)
    (hu : ∀ i blocks blockAddr dest, thread = .looping i blocks blockAddr dest true → i < blocks →
      ¬ InUart dest) :
    ∃ x w', w.sdThread thread buf = some (x, w') ∧ w'.Sane := by
  cases thread with
  | waiting =>
    unfold BusPort.sdThread
    dsimp only
    split
    · exact ⟨_, _, rfl, h.onDevice 8 fun u => by cases u <;> rfl⟩
    · exact ⟨_, _, rfl, h⟩
  | looping i blocks blockAddr dest ok =>
    unfold BusPort.sdThread
    dsimp only
    split
    next hloop =>
      obtain ⟨hi, rfl⟩ := hloop
      have hread := h.onDevice 8 (f := (·.sdRead (blockAddr + i) buf)) fun u => by
        cases u with
        | sdCtrl c => rfl
        | _ => rfl
      split
      · obtain ⟨x, w', hx, h'⟩ := hread.exists_transport
          (SdOnBus.payload dest (w.sdCtrl.readBlock (blockAddr + i) buf).2.1)
          ⟨by decide, le_rfl, le_rfl, fun hin =>
            absurd (setWidth_setWidth_word dest ▸ hin) (hu i blocks blockAddr dest rfl hi)⟩
        rw [hx]
        exact ⟨_, _, rfl, h'⟩
      · exact ⟨_, _, rfl, hread.onDevice 8 fun u => by cases u <;> rfl⟩
    · exact ⟨_, _, rfl, h.onDevice 8 fun u => by cases u <;> rfl⟩

end BusPort.Sane

/-! ### Steps and runs -/

/-- The step fetches no instruction at the last halfword of the address space, and hands the UART no
burst of more than a word and no block. -/
def VpInput.Defined (s : Vp) : VpInput → Prop
  | .cycle pick => ∀ x ∈ s.iss.busOps vpBus pick, x.1 ≠ .read 0xFFFFFFFE 4
  | .dmaThread _ => ∀ remaining src dst, s.dmaThread = .copying remaining src dst →
      4 < remaining → ¬ InUart src ∧ ¬ InUart dst
  | .sdThread _ => ∀ i blocks blockAddr dest, s.sdThread = .looping i blocks blockAddr dest true →
      i < blocks → ¬ InUart dest
  | _ => True

namespace Vp

variable {s : Vp}

theorem defined_onDevice (h : VirtualSoC.Defined s.iss.env.bus) (i : ℕ) {f : Peripheral → Device}
    (hf : ∀ u, (f u).unit.socket = u.socket) :
    VirtualSoC.Defined (s.onDevice i f).iss.env.bus := by
  obtain ⟨w, hw, hsane⟩ := h
  exact ⟨_, congrArg (Option.map _) hw, hsane.onDevice i hf⟩

/-- **A step that meets the condition leaves the world known.** -/
theorem defined_next (h : VirtualSoC.Defined s.iss.env.bus) {i : VpInput} (hi : i.Defined s) :
    VirtualSoC.Defined (vpMachine.next s i).iss.env.bus := by
  change VirtualSoC.Defined (s.act i).1.driven.iss.env.bus
  rw [driven_bus]
  cases i with
  | cycle pick =>
    exact ISS.iterate_of_busOps (P := VirtualSoC.Defined) h fun x hx hx2 =>
      hx2.apply (ISS.busOps_aligned vpBus pick s.iss x hx) (hi x hx)
  | clintTick | timerTick => exact defined_onDevice h _ fun u => by cases u <;> rfl
  | pushRx byte => exact defined_onDevice h _ fun u => by cases u <;> rfl
  | setInput pins => exact defined_onDevice h _ fun u => by cases u <;> rfl
  | dmaThread buf =>
    obtain ⟨w, hw, hsane⟩ := h
    obtain ⟨x, w', hx, h'⟩ := hsane.exists_dmaThread s.dmaThread buf hi
    dsimp only [act]
    rw [hw, Option.bind_some, hx]
    exact ⟨w', rfl, h'⟩
  | sdThread buf =>
    obtain ⟨w, hw, hsane⟩ := h
    obtain ⟨x, w', hx, h'⟩ := hsane.exists_sdThread s.sdThread buf hi
    dsimp only [act]
    rw [hw, Option.bind_some, hx]
    exact ⟨w', rfl, h'⟩
  | halt | resume | step => exact h

theorem defined_reset (rom : Vector Byte bootRomSize.toNat) (ram : Vector Byte ramSize.toNat)
    (card : Option SDCardModel) : VirtualSoC.Defined (Vp.reset rom ram card).iss.env.bus := by
  refine ⟨_, rfl, fun i hi => ?_, nofun⟩
  interval_cases i
  all_goals rfl

end Vp

/-- A test for the condition. -/
def VpInput.definedTest (s : Vp) : VpInput → Bool
  | .cycle pick => (s.iss.busOps vpBus pick).all fun x => x.1 ≠ .read 0xFFFFFFFE 4
  | .dmaThread _ =>
    match s.dmaThread with
    | .waiting => true
    | .copying _ src dst => ¬ InUart src ∧ ¬ InUart dst
  | .sdThread _ => s.sdThread = .waiting
  | _ => true

theorem VpInput.defined_of_test {s : Vp} {i : VpInput} (h : i.definedTest s) : i.Defined s := by
  cases i with
  | cycle pick => exact fun x hx => of_decide_eq_true (List.all_eq_true.1 h x hx)
  | dmaThread buf =>
    intro remaining src dst hth _
    unfold definedTest at h
    dsimp only at h
    rw [hth] at h
    exact of_decide_eq_true h
  | sdThread buf =>
    intro i blocks blockAddr dest hth
    cases hth.symm.trans (of_decide_eq_true h)
  | _ => trivial

/-- A program that starts the DMA engine: 64 bytes from the beginning of the RAM are copied up by a
megabyte. -/
def dmaProgram : Vector Byte ramSize.toNat :=
  wordsBuf [0x100050B7, 0x80000137, 0x0020A023, 0x801001B7, 0x0030A223, 0x04000213, 0x0040A423,
    0x00100293, 0x0050A623] (by decide)

/-- The program, and then the start and the burst of the transfer. -/
def dmaRun : List VpInput :=
  .replicate 9 (.cycle fun _ => 0) ++ .replicate 2 (.dmaThread (.replicate _ 0))

end VirtualSoC
