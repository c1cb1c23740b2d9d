import VirtualSoC.Platform.VpConfined

/-!
# A DMA transfer beside a program

A transfer between two ranges of the RAM goes on while the CPU runs a program that uses neither of
them.  `vp_transfers_beside` : in whatever order the run loop, the thread of the DMA engine and
the rest of the platform take their turns, the program runs as the manual says and the transfer
moves the bytes that it was asked to move.
-/

namespace VirtualSoC

open Cfg

/-! ### Transactions of the RAM -/

theorem inRam_platform {targets : ℕ → Target Device}
    (hsize : (targets ramRange.targetIdx).ramSize = 0x08000000) {a : Word} {n : ℕ}
    (hlo : 0x80000000 ≤ a.toNat) (hhi : a.toNat + n ≤ 0x88000000) :
    InRam platformBus targets ramRange a n := by
  intro i hi
  have hadd : (a + BitVec.ofNat 32 i).toNat = a.toNat + i := toNat_add_of_lt (by omega)
  refine ⟨platform_decode (by omega) (by omega), ?_⟩
  rw [hsize, MappedRange.offset, ramOffset (by omega), hadd]
  omega

theorem getElem?_of_ramCopy {l n : ℕ} {mem mem' : Vector Byte ramSize.toNat} {data : Vector Byte l}
    {m m' : Ram} {a : Word} (hlo : 0x80000000 ≤ a.toNat) (hhi : a.toNat + n ≤ 0x88000000)
    (hbytes : ∀ q : Word, 0x80000000 ≤ q.toNat → q.toNat < 0x88000000 →
      mem[q.toNat - 0x80000000]? = some (m q))
    (hcopy : Buffer.copy mem (a.toNat - 0x80000000) data 0 n = some mem')
    (hin : ∀ i < n, data[i]? = some (m' (a + BitVec.ofNat 32 i)))
    (hout : ∀ q : Word, ¬ (a.toNat ≤ q.toNat ∧ q.toNat < a.toNat + n) → m' q = m q) {q : Word}
    (hqlo : 0x80000000 ≤ q.toNat) (hqhi : q.toNat < 0x88000000) :
    mem'[q.toNat - 0x80000000]? = some (m' q) := by
  rw [Buffer.getElem?_of_copy hcopy]
  by_cases hq : a.toNat ≤ q.toNat ∧ q.toNat < a.toNat + n
  · have hadd : a + BitVec.ofNat 32 (q.toNat - a.toNat) = q := by
      apply BitVec.eq_of_toNat_eq
      rw [toNat_add_of_lt (by omega)]
      omega
    have hq' := hin (q.toNat - a.toNat) (by omega)
    rw [hadd] at hq'
    rw [if_pos (by omega), ← hq']
    exact congrArg (data[·]?) (by omega)
  · rw [if_neg (by omega), hbytes q hqlo hqhi, hout q hq]

section

variable {w : BusPort Device} {m : Ram} (h : w.PlatformRam m) (hheard : AllHeard w.targets)
  {l n : ℕ} {trans : Payload l} {a : Word} (hn : 0 < n ∧ n ≤ l) (hlo : 0x80000000 ≤ a.toNat)
  (hhi : a.toNat + n ≤ 0x88000000) (ha : trans.address = a.setWidth 64)
  (hlen : trans.dataLength.toNat = n)

include h hheard hn hlo hhi ha hlen

theorem BusPort.PlatformRam.transport_read (hc : trans.command = .read) :
    ∃ data, w.transport trans = some ({ trans with data, response := .ok }, w) ∧
      ∀ i < n, data[i]? = some (m (a + BitVec.ofNat 32 i)) := by
  obtain ⟨mem, ht, hbytes⟩ := h.ram
  have hin : InRam platformBus w.targets ramRange a n :=
    inRam_platform (by rw [ht]; exact toNat_ramSize) hlo hhi
  obtain ⟨data, hread, hdata⟩ := hin.read hn.1 trans ha hlen hn.2 hc
  refine ⟨data, ?_, fun i hi => ?_⟩
  · unfold BusPort.transport BusPort.deliver
    rw [hread, Option.bind_eq_bind, Option.bind_some, deliver_of_allHeard hheard]
    rfl
  · have hadd : (a + BitVec.ofNat 32 i).toNat = a.toNat + i := toNat_add_of_lt (by omega)
    rw [hdata i hi, ht, ← hbytes _ (by omega) (by omega), hadd, MappedRange.offset, ramOffset hlo]
    exact congrArg (mem[·]?) (by omega)

theorem BusPort.PlatformRam.transport_write (hc : trans.command = .write) :
    ∃ w', w.transport trans = some ({ trans with response := .ok }, w') ∧ AllHeard w'.targets ∧
      SameDevices w'.targets w.targets ∧ ∀ m' : Ram,
        (∀ i < n, trans.data[i]? = some (m' (a + BitVec.ofNat 32 i))) →
        (∀ q : Word, ¬ (a.toNat ≤ q.toNat ∧ q.toNat < a.toNat + n) → m' q = m q) →
        w'.PlatformRam m' := by
  obtain ⟨mem, ht, hbytes⟩ := h.ram
  have hin : InRam platformBus w.targets ramRange a n :=
    inRam_platform (by rw [ht]; exact toNat_ramSize) hlo hhi
  have hoff : ramRange.offset a = a.toNat - 0x80000000 := ramOffset hlo
  have hfit : ramRange.offset a + n ≤ ramSize.toNat := by
    rw [hoff, toNat_ramSize]
    omega
  obtain ⟨mem', hcopy⟩ := Buffer.exists_copy mem trans.data hfit (show 0 + n ≤ l by omega)
  have hwrite := Memory.bTransport_write ⟨ramSize, mem⟩
    { trans with address := (a - ramRange.base).setWidth 64 } hc (by rwa [InRam.toNat_local, hlen])
  rw [InRam.toNat_local, hlen, hcopy, Option.map_some] at hwrite
  obtain ⟨t, htargets⟩ : ∃ t, t = Function.update w.targets 1 (.memory ⟨ramSize, mem'⟩) := ⟨_, rfl⟩
  have hself : t 1 = .memory ⟨ramSize, mem'⟩ := by rw [htargets, Function.update_self]
  have hsame : SameDevices t w.targets := fun j hj => by rw [htargets, Function.update_of_ne hj]
  have hgrants : SameGrants w.targets t := by
    rw [htargets]
    refine SameGrants.update ?_
    rw [show w.targets 1 = _ from ht]
    rfl
  have hheard' : AllHeard t := by
    intro j
    by_cases hj : j = 1
    · rw [hj, hself]
      rfl
    · rw [hsame j hj]
      exact hheard j
  refine ⟨{ w with targets := t }, ?_, hheard', hsame, fun m' hin' hout =>
    ⟨h.window.targets hgrants, fun j => (hgrants j).trans (h.grants j), mem', hself,
      fun q hqlo hqhi => ?_⟩⟩
  · have htr : platformBus.bTransport w.targets trans =
        some ({ trans with response := .ok }, t) := by
      rw [hin.bTransport_eq hn.1 trans ha ht, hwrite, htargets]
      rfl
    unfold BusPort.transport BusPort.deliver
    rw [htr, Option.bind_eq_bind, Option.bind_some]
    dsimp only
    rw [deliver_of_allHeard hheard']
    rfl
  · rw [hoff] at hcopy
    exact getElem?_of_ramCopy hlo hhi hbytes hcopy hin' hout hqlo hqhi

end

/-! ### The transfer -/

/-- The RAM after `n` bytes of a transfer. -/
def moved (m : Ram) (p : DmaParams) (n : ℕ) : Ram := fun a =>
  if p.dst.toNat ≤ a.toNat ∧ a.toNat < p.dst.toNat + n then m (p.src + (a - p.dst)) else m a

/-- The addresses of a transfer. -/
def DmaParams.addresses (p : DmaParams) : Set ℕ :=
  Set.Ico p.src.toNat (p.src.toNat + p.count.toNat) ∪
    Set.Ico p.dst.toNat (p.dst.toNat + p.count.toNat)

/-- Both ranges are in the RAM, and are disjoint or copied downwards. -/
structure DmaParams.InRam (p : DmaParams) : Prop where
  src : 0x80000000 ≤ p.src.toNat ∧ p.src.toNat + p.count.toNat ≤ 0x88000000
  dst : 0x80000000 ≤ p.dst.toNat ∧ p.dst.toNat + p.count.toNat ≤ 0x88000000
  order : p.src.toNat + p.count.toNat ≤ p.dst.toNat ∨ p.dst.toNat ≤ p.src.toNat

/-- A transfer on its way. -/
structure Transfer where
  dma : Dma
  ram : Ram

/-- The transfer that a start has been written for, after `j` turns of the thread: the first turn
leaves the `wait`, and the last one finds nothing remaining. -/
def DmaEngine.transfer (e : DmaEngine) (m : Ram) : ℕ → Transfer
  | 0 => ⟨⟨e, .waiting⟩, m⟩
  | j + 1 =>
    let n := min (256 * j) e.byteCount.toNat
    if 256 * j < e.byteCount.toNat + 256 then
      ⟨⟨{ e with startEvent := false, status := 1 },
        .copying (e.byteCount - BitVec.ofNat 32 n) (e.srcAddr + BitVec.ofNat 32 n)
          (e.dstAddr + BitVec.ofNat 32 n)⟩, moved m e.params n⟩
    else
      ⟨⟨{ e with
            startEvent := false, status := 2, irq := if e.ctrl &&& 2 ≠ 0 then true else e.irq },
        .waiting⟩, moved m e.params n⟩

section Turn

variable {e : DmaEngine} {m : Ram} {j : ℕ}

theorem moved_zero (m : Ram) (p : DmaParams) : moved m p 0 = m := by
  funext a
  exact if_neg (by omega)

theorem moved_add {p : DmaParams} (hin : p.InRam) {n c : ℕ} (hn : n + c ≤ p.count.toNat)
    (a : Word) : moved m p (n + c) a =
      if p.dst.toNat + n ≤ a.toNat ∧ a.toNat < p.dst.toNat + n + c then
        moved m p n (p.src + (a - p.dst)) else moved m p n a := by
  have hsrc := hin.src
  have hdst := hin.dst
  have horder := hin.order
  unfold moved
  by_cases hnew : p.dst.toNat + n ≤ a.toNat ∧ a.toNat < p.dst.toNat + n + c
  · have hsub : (a - p.dst).toNat = a.toNat - p.dst.toNat :=
      BitVec.toNat_sub_of_le (BitVec.le_def.2 (by omega))
    have hadd : (p.src + (a - p.dst)).toNat = p.src.toNat + (a.toNat - p.dst.toNat) := by
      rw [BitVec.toNat_add, hsub]
      omega
    rw [if_pos (by omega), if_pos hnew, if_neg (by rw [hadd]; omega)]
  · rw [if_neg hnew]
    by_cases hold : p.dst.toNat ≤ a.toNat ∧ a.toNat < p.dst.toNat + n
    · rw [if_pos hold, if_pos (by omega)]
    · rw [if_neg hold, if_neg (by omega)]

/-- A burst moves the next bytes, and changes no others. -/
theorem moved_burst {p : DmaParams} (hin : p.InRam) {n c : ℕ} (hn : n + c ≤ p.count.toNat) {r : Ram}
    (hkeep : ∀ q : Word, q.toNat ∈ p.addresses → r q = moved m p n q) (remaining : Word) :
    let r' := moved r ⟨p.src + BitVec.ofNat 32 n, p.dst + BitVec.ofNat 32 n, remaining⟩ c
    (∀ q : Word, q.toNat ∉ p.addresses → r' q = r q) ∧
      ∀ q : Word, q.toNat ∈ p.addresses → r' q = moved m p (n + c) q := by
  have hsrc := hin.src
  have hdst := hin.dst
  have hadd : (p.dst + BitVec.ofNat 32 n).toNat = p.dst.toNat + n := toNat_add_of_lt (by omega)
  refine ⟨fun q hq => if_neg fun hnew => hq (.inr ?_), fun q hq => ?_⟩
  · dsimp only at hnew
    exact ⟨by omega, by omega⟩
  · rw [moved_add hin hn, ← hkeep q hq]
    by_cases hnew : p.dst.toNat + n ≤ q.toNat ∧ q.toNat < p.dst.toNat + n + c
    · have hsub : (q - p.dst).toNat = q.toNat - p.dst.toNat :=
        BitVec.toNat_sub_of_le (BitVec.le_def.2 (by omega))
      have hfrom : (p.src + (q - p.dst)).toNat = p.src.toNat + (q.toNat - p.dst.toNat) := by
        rw [BitVec.toNat_add, hsub]
        omega
      rw [if_pos hnew, ← hkeep _ (.inl ⟨by omega, by omega⟩)]
      unfold moved
      dsimp only
      rw [if_pos (by omega), ← sub_sub, add_add_sub_cancel]
    · rw [if_neg hnew]
      exact if_neg (by dsimp only; omega)

theorem transfer_copying (hj : 256 * j < e.byteCount.toNat + 256) : e.transfer m (j + 1) =
    ⟨⟨{ e with startEvent := false, status := 1 },
      .copying (e.byteCount - BitVec.ofNat 32 (min (256 * j) e.byteCount.toNat))
        (e.srcAddr + BitVec.ofNat 32 (min (256 * j) e.byteCount.toNat))
        (e.dstAddr + BitVec.ofNat 32 (min (256 * j) e.byteCount.toNat))⟩,
      moved m e.params (min (256 * j) e.byteCount.toNat)⟩ :=
  if_pos hj

theorem transfer_done (hj : ¬ 256 * j < e.byteCount.toNat + 256) : e.transfer m (j + 1) =
    ⟨⟨{ e with
          startEvent := false, status := 2, irq := if e.ctrl &&& 2 ≠ 0 then true else e.irq },
      .waiting⟩, moved m e.params e.byteCount.toNat⟩ := by
  have hn : min (256 * j) e.byteCount.toNat = e.byteCount.toNat := by omega
  rw [DmaEngine.transfer, if_neg hj, hn]

theorem resume_transfer (hstart : e.startEvent = true) (m : Ram) (j : ℕ) :
    (Dma.resume (e.transfer m j).dma .ok .ok).1 = (e.transfer m (j + 1)).dma := by
  cases j with
  | zero =>
    rw [transfer_copying (by omega)]
    change (Dma.resume ⟨e, .waiting⟩ .ok .ok).1 = _
    rw [Dma.resume]
    dsimp only
    rw [if_pos hstart, Nat.mul_zero, Nat.zero_min, BitVec.sub_zero, BitVec.add_zero,
      BitVec.add_zero]
  | succ j =>
    by_cases hj : 256 * j < e.byteCount.toNat + 256
    · rw [transfer_copying hj]
      by_cases hlast : 256 * j < e.byteCount.toNat
      · -- a burst
        have hn : min (256 * j) e.byteCount.toNat = 256 * j := by omega
        have hn' : min (256 * (j + 1)) e.byteCount.toNat =
            256 * j + min (e.byteCount.toNat - 256 * j) 256 := by omega
        obtain ⟨hpos, hchunk⟩ := DmaEngine.chunk_sub hlast rfl
        rw [transfer_copying (by omega), hn, hn', Dma.resume]
        dsimp only
        rw [if_pos hpos, if_neg (not_not.2 rfl), if_neg (not_not.2 rfl)]
        change Dma.mk _ (.copying (_ - DmaEngine.chunk _) (_ + DmaEngine.chunk _)
          (_ + DmaEngine.chunk _)) = _
        rw [hchunk, BitVec.ofNat_add, ← BitVec.sub_sub, ← BitVec.add_assoc, ← BitVec.add_assoc]
      · have hn : min (256 * j) e.byteCount.toNat = e.byteCount.toNat := by omega
        rw [transfer_done (by omega), hn, Dma.resume]
        dsimp only
        rw [if_neg (by simp)]
        rfl
    · rw [transfer_done hj, transfer_done (by omega)]
      rfl

/-- The responses do not matter when nothing is transferred. -/
theorem resume_congr {d : Dma} (h : ∀ remaining src dst, d.thread = .copying remaining src dst →
    ¬ remaining > 0) (r r' q q' : TlmResponse) : d.resume r r' = d.resume q q' := by
  unfold Dma.resume
  cases hd : d.thread with
  | waiting => rfl
  | copying remaining src dst =>
    dsimp only
    rw [if_neg (h remaining src dst hd), if_neg (h remaining src dst hd)]

theorem transfer_cases (e : DmaEngine) (m : Ram) (j : ℕ) :
    ((∀ remaining src dst, (e.transfer m j).dma.thread = .copying remaining src dst →
      ¬ remaining > 0) ∧ (e.transfer m (j + 1)).ram = (e.transfer m j).ram) ∨
    ∃ remaining n c, remaining > 0 ∧ DmaEngine.chunk remaining = BitVec.ofNat 32 c ∧
      (0 < c ∧ c ≤ 256) ∧ n + c ≤ e.byteCount.toNat ∧
      (e.transfer m j).dma.thread =
        .copying remaining (e.srcAddr + BitVec.ofNat 32 n) (e.dstAddr + BitVec.ofNat 32 n) ∧
      (e.transfer m j).ram = moved m e.params n ∧
        (e.transfer m (j + 1)).ram = moved m e.params (n + c) := by
  cases j with
  | zero =>
    refine .inl ⟨nofun, ?_⟩
    rw [transfer_copying (by omega), Nat.mul_zero, Nat.zero_min, moved_zero]
    rfl
  | succ j =>
    by_cases hj : 256 * j < e.byteCount.toNat + 256
    · rw [transfer_copying hj]
      by_cases hlast : 256 * j < e.byteCount.toNat
      · have hn : min (256 * j) e.byteCount.toNat = 256 * j := by omega
        have hn' : min (256 * (j + 1)) e.byteCount.toNat =
            256 * j + min (e.byteCount.toNat - 256 * j) 256 := by omega
        obtain ⟨hpos, hchunk⟩ := DmaEngine.chunk_sub hlast rfl
        rw [transfer_copying (by omega), hn, hn']
        exact .inr ⟨_, _, _, hpos, hchunk, by omega, by omega, rfl, rfl, rfl⟩
      · have hn : min (256 * j) e.byteCount.toNat = e.byteCount.toNat := by omega
        rw [transfer_done (by omega), hn]
        refine .inl ⟨?_, rfl⟩
        rintro remaining src dst ⟨⟩
        simp
    · rw [transfer_done hj, transfer_done (by omega)]
      exact .inl ⟨nofun, rfl⟩

end Turn

/-! ### A turn of the thread -/

section

variable {w : BusPort Device} {d : Dma} (h9 : w.targets 9 = .device ⟨.dma d.engine, none⟩)

include h9

theorem BusPort.dmaNext_eq {r r' : TlmResponse} (h : d.resume r r' = d.resume .ok .ok) :
    w.dmaNext d.thread r r' =
      ((d.resume .ok .ok).1.thread, w.onDevice 9 (·.dmaResume d.thread .ok .ok)) := by
  have hengine : w.dmaEngine = d.engine := by
    unfold BusPort.dmaEngine
    rw [h9]
  have hdma : (⟨d.engine, d.thread⟩ : Dma) = d := rfl
  have hdevice : (Peripheral.dma d.engine).dmaResume d.thread r r' =
      (Peripheral.dma d.engine).dmaResume d.thread .ok .ok := by
    unfold Peripheral.dmaResume
    dsimp only
    rw [hdma, h]
  unfold BusPort.dmaNext BusPort.onDevice
  rw [hengine, hdma, h, h9]
  dsimp only [Target.mapDevice]
  rw [hdevice]

end

theorem VpFrame.burst {t : ℕ → Target Device} {w : BusPort Device} {r : Ram}
    (hv : VpFrame t (some w) r) {remaining src dst : Word} (hpos : remaining > 0) {c : ℕ}
    (hlen : (DmaEngine.chunk remaining).toNat = c) (hc : 0 < c ∧ c ≤ 256)
    (hsrc : 0x80000000 ≤ src.toNat ∧ src.toNat + c ≤ 0x88000000)
    (hdst : 0x80000000 ≤ dst.toNat ∧ dst.toNat + c ≤ 0x88000000) (buf : DmaBuf) :
    ∃ w', w.dmaThread (.copying remaining src dst) buf =
        some (w'.dmaNext (.copying remaining src dst) .ok .ok) ∧
      VpFrame t (some w') (moved r ⟨src, dst, remaining⟩ c) := by
  obtain ⟨_, ⟨⟩, hw, hheard, hsame⟩ := hv
  obtain ⟨data, hread, hdata⟩ := hw.transport_read hheard hc hsrc.1 hsrc.2
    (show (DmaAccess.payload ⟨.read, src, DmaEngine.chunk remaining⟩ buf).address = _ from rfl)
    hlen rfl
  obtain ⟨w', hwrite, hheard', hsame', hram⟩ := hw.transport_write hheard hc hdst.1 hdst.2
    (show (DmaAccess.payload ⟨.write, dst, DmaEngine.chunk remaining⟩ data).address = _ from rfl)
    hlen rfl
  refine ⟨w', ?_, w', rfl, hram _ (fun i hi => ?_) fun q hq => if_neg hq, hheard',
    fun j hj => (hsame' j hj).trans (hsame j hj)⟩
  · unfold BusPort.dmaThread
    dsimp only
    rw [if_pos hpos, hread, Option.bind_eq_bind, Option.bind_some]
    dsimp only
    rw [if_neg (not_not.2 rfl), hwrite]
    rfl
  · have hi' : (dst + BitVec.ofNat 32 i).toNat = dst.toNat + i := toNat_add_of_lt (by omega)
    refine (hdata i hi).trans (congrArg some ?_)
    unfold moved
    dsimp only
    rw [if_pos (by omega), add_sub_cancel_left]

/-- What the thread of the DMA engine does in its turns: `x j` tells where it is after `j` of them,
and what the RAM is at the addresses `K`. -/
def Turns (K : Set ℕ) (x : ℕ → Transfer) : Prop :=
  ∀ ⦃j t w r⦄, t 9 = .device ⟨.dma (x j).dma.engine, none⟩ → VpFrame t (some w) r →
    (∀ q : Word, q.toNat ∈ K → r q = (x j).ram q) → ∀ buf, ∃ w' r',
      w.dmaThread (x j).dma.thread buf = some ((x (j + 1)).dma.thread, w') ∧
      VpFrame (changeDevice t 9 (·.dmaResume (x j).dma.thread .ok .ok)) (some w') r' ∧
      changeDevice t 9 (·.dmaResume (x j).dma.thread .ok .ok) 9 =
        .device ⟨.dma (x (j + 1)).dma.engine, none⟩ ∧
      (∀ q : Word, q.toNat ∉ K → r' q = r q) ∧ ∀ q : Word, q.toNat ∈ K → r' q = (x (j + 1)).ram q

theorem changeDevice_dma {t : ℕ → Target Device} {d : Dma}
    (h9 : t 9 = .device ⟨.dma d.engine, none⟩) :
    changeDevice t 9 (·.dmaResume d.thread .ok .ok) 9 =
      .device ⟨.dma (d.resume .ok .ok).1.engine, none⟩ := by
  have hu : Function.update t 9 ((t 9).mapDevice fun u => u.unit.dmaResume d.thread .ok .ok) 9 =
      .device ((Peripheral.dma d.engine).dmaResume d.thread .ok .ok) := by
    rw [Function.update_self, h9]
    rfl
  exact deliver_device hu (nofun)

/-- Only the turns of the thread change the registers. -/
theorem devices_engine {t : ℕ → Target Device} {e : DmaEngine} (h9 : t 9 = .device ⟨.dma e, none⟩)
    (th : DmaThread) {i : VpInput} (hturn : i.isTurn = false) :
    i.devices th t 9 = .device ⟨.dma e, none⟩ := by
  have hother (j : ℕ) (hj : 9 ≠ j) (f : Peripheral → Device) :
      changeDevice t j f 9 = .device ⟨.dma e, none⟩ :=
    deliver_device ((Function.update_of_ne hj ..).trans h9) (nofun)
  cases i with
  | clintTick => exact hother 2 (by decide) _
  | timerTick => exact hother 6 (by decide) _
  | pushRx byte => exact hother 4 (by decide) _
  | setInput pins => exact hother 5 (by decide) _
  | dmaThread buf => cases hturn
  | cycle | sdThread | halt | resume | step => exact h9

theorem turns_idle {e : DmaEngine} (he : e.startEvent = false) (m : Ram) :
    Turns ∅ fun _ => ⟨⟨e, .waiting⟩, m⟩ := by
  intro j t w r h9 hv hkeep buf
  obtain ⟨_, ⟨⟩, hw, hheard, hsame⟩ := hv
  have hresume (r r' : TlmResponse) : Dma.resume ⟨e, .waiting⟩ r r' = (⟨e, .waiting⟩, []) :=
    if_neg (by rw [he]; exact Bool.false_ne_true)
  have hnext := BusPort.dmaNext_eq (d := ⟨e, .waiting⟩) ((hsame 9 (by decide)).trans h9)
    ((hresume .incomplete .incomplete).trans (hresume .ok .ok).symm)
  have h9' := changeDevice_dma (d := ⟨e, .waiting⟩) h9
  rw [hresume] at hnext h9'
  exact ⟨_, r, congrArg some hnext, VpFrame.change ⟨w, rfl, hw, hheard, hsame⟩ (by decide) _, h9',
    fun _ _ => rfl, fun _ hq => hq.elim⟩

/-- **A transfer in the RAM, turn by turn.** -/
theorem turns_transfer {e : DmaEngine} (hstart : e.startEvent = true) (hin : e.params.InRam)
    (m : Ram) : Turns e.params.addresses (e.transfer m) := by
  intro j t w r h9 hv hkeep buf
  obtain ⟨_, ⟨⟩, hw, hheard, hsame⟩ := hv
  have hnext (w' : BusPort Device) (hsame' : SameDevices w'.targets t) {r r' : TlmResponse}
      (hresp : (e.transfer m j).dma.resume r r' = (e.transfer m j).dma.resume .ok .ok) :
      w'.dmaNext (e.transfer m j).dma.thread r r' = ((e.transfer m (j + 1)).dma.thread,
        w'.onDevice 9 (·.dmaResume (e.transfer m j).dma.thread .ok .ok)) := by
    rw [BusPort.dmaNext_eq ((hsame' 9 (by decide)).trans h9) hresp, resume_transfer hstart]
  have hframe (w' : BusPort Device) {r' : Ram} (hv : VpFrame t (some w') r') :
      VpFrame (changeDevice t 9 (·.dmaResume (e.transfer m j).dma.thread .ok .ok))
        (some (w'.onDevice 9 (·.dmaResume (e.transfer m j).dma.thread .ok .ok))) r' :=
    hv.change (by decide) _
  have h9' := changeDevice_dma h9
  rw [resume_transfer hstart] at h9'
  rcases transfer_cases e m j with ⟨hnone, hram⟩ | ⟨remaining, n, c, hpos, hchunk, hc, hn, hthread,
    hram, hram'⟩
  · refine ⟨_, r, ?_, hframe w ⟨w, rfl, hw, hheard, hsame⟩, h9', fun _ _ => rfl, fun q hq => ?_⟩
    · have hresp := hnext w hsame (resume_congr hnone .incomplete .incomplete .ok .ok)
      unfold BusPort.dmaThread
      cases hthread : (e.transfer m j).dma.thread with
      | waiting =>
        rw [hthread] at hresp
        exact congrArg some hresp
      | copying remaining src dst =>
        rw [hthread] at hresp
        dsimp only
        rw [if_neg (hnone remaining src dst hthread), hresp]
    · rw [hkeep q hq, hram]
  · -- a burst
    have hsrc := hin.src
    have hdst := hin.dst
    have hcount : e.params.count.toNat = e.byteCount.toNat := rfl
    have hlen : (DmaEngine.chunk remaining).toNat = c := by
      rw [hchunk, BitVec.toNat_ofNat, Nat.mod_eq_of_lt (by omega)]
    have hsrcn : (e.params.src + BitVec.ofNat 32 n).toNat = e.params.src.toNat + n :=
      toNat_add_of_lt (by omega)
    have hdstn : (e.params.dst + BitVec.ofNat 32 n).toNat = e.params.dst.toNat + n :=
      toNat_add_of_lt (by omega)
    have hsrcc : 0x80000000 ≤ (e.params.src + BitVec.ofNat 32 n).toNat ∧
        (e.params.src + BitVec.ofNat 32 n).toNat + c ≤ 0x88000000 := by omega
    have hdstc : 0x80000000 ≤ (e.params.dst + BitVec.ofNat 32 n).toNat ∧
        (e.params.dst + BitVec.ofNat 32 n).toNat + c ≤ 0x88000000 := by omega
    obtain ⟨w', hturn, hv'⟩ :=
      VpFrame.burst ⟨w, rfl, hw, hheard, hsame⟩ hpos hlen hc hsrcc hdstc buf
    have hresp := hnext w' (by obtain ⟨_, ⟨⟩, -, -, h⟩ := hv'; exact h) rfl
    obtain ⟨hother, hmoved⟩ := moved_burst hin hn (fun q hq => hram ▸ hkeep q hq) remaining
    refine ⟨_, _, ?_, hframe w' hv', h9', hother, fun q hq => ?_⟩
    · rw [hthread] at hresp ⊢
      exact hturn.trans (congrArg some hresp)
    · rw [hram']
      exact hmoved q hq

/-! ### Runs -/

/-- The turns that the thread has had, and the devices, after an input. -/
def VpInput.beside (x : ℕ → Transfer) (p : ℕ × (ℕ → Target Device)) (i : VpInput) :
    ℕ × (ℕ → Target Device) :=
  (if i.isTurn then p.1 + 1 else p.1, i.devices (x p.1).dma.thread p.2)

/-- The CPU shows a program that leaves the addresses `K` alone, and the thread of the DMA engine
has had its turns. -/
structure Vp.Beside (c : HartMode) (Q : Tlb → Ram → Isa.Mem → Prop) (K : Set ℕ) (x : ℕ → Transfer)
    (p : ℕ × (ℕ → Target Device)) (s : Vp) (h : Isa.State) : Prop where
  cpu : VirtualSoC.Shows (VpFrame p.2) c (Keeping K (x p.1).ram Q) s.iss h
  engine : p.2 9 = .device ⟨.dma (x p.1).dma.engine, none⟩
  dma : s.dmaThread = (x p.1).dma.thread
  sdIdle : SdIdle p.2
  sd : s.sdThread = .waiting

namespace Vp.Beside

variable {c : HartMode} {Q : Tlb → Ram → Isa.Mem → Prop} {A : Isa.Space} {K : Set ℕ}
  {x : ℕ → Transfer} {p : ℕ × (ℕ → Target Device)} {s : Vp} {h h' : Isa.State}

theorem driven (hs : s.Beside c Q K x p h) : s.driven.Beside c Q K x p h where
  cpu := hs.cpu.driven
  engine := hs.engine
  dma := (Vp.driven_dmaThread s).trans hs.dma
  sdIdle := hs.sdIdle
  sd := (Vp.driven_sdThread s).trans hs.sd

/-- A step that is not an iteration of the run loop. -/
theorem act (hs : s.Beside c Q K x p h) (hturns : Turns K x) (hignore : Ignores K Q) {i : VpInput}
    (hi : i.Running) (hc : i.isCycle = false) :
    (s.act i).1.Beside c Q K x (i.beside x p) h ∧ (s.act i).1.iss.state = s.iss.state ∧
      (s.act i).2 = {} := by
  obtain ⟨r, hv, hq, hkeep⟩ := hs.cpu.mem
  by_cases hturn : i.isTurn
  · cases i with
    | dmaThread buf =>
      obtain ⟨w, hw, -⟩ := id hv
      obtain ⟨w', r', hd, hv', h9, hout, hin⟩ := hturns hs.engine (hw ▸ hv) hkeep buf
      have hact : (s.act (.dmaThread buf)).1 =
          { s.withBus (some w') with dmaThread := (x (p.1 + 1)).dma.thread } := by
        dsimp only [Vp.act]
        rw [hs.dma, hw, Option.bind_some, hd]
        rfl
      rw [hact]
      refine ⟨⟨{ hs.cpu with mem := ⟨r', hv', hignore hq hout, hin⟩ }, h9, rfl,
        hs.sdIdle.devices _ (.dmaThread buf), hs.sd⟩, rfl, rfl⟩
    | _ => cases hturn
  · have hturn := Bool.eq_false_iff.2 hturn
    have hacts := Vp.acts_of_not_turn hv hs.sd hc hs.sdIdle (x p.1).dma.thread hturn
    have hp : i.beside x p = (p.1, i.devices (x p.1).dma.thread p.2) :=
      Prod.ext (if_neg (Bool.eq_false_iff.1 hturn)) rfl
    have hstate := hacts.state
    rw [hp]
    exact ⟨⟨⟨hacts.halted hi hs.cpu.halted, hacts.inWfi.trans hs.cpu.inWfi,
      hacts.singleStep hi hs.cpu.singleStep, hstate ▸ hs.cpu.mode, hstate ▸ hs.cpu.regs,
      hstate ▸ hs.cpu.pc, r, hacts.frame hv, hacts.tlb ▸ hq, hkeep⟩,
      devices_engine hs.engine _ hturn, hacts.dma.trans hs.dma, hs.sdIdle.devices _ i,
      hacts.sd.trans hs.sd⟩, hstate, hacts.out⟩

/-- What a step does to the CSRs, before the lines are driven. -/
def Counts (s : Vp) (i : VpInput) : Prop :=
  (s.act i).1.iss.state.csr = s.iss.state.csr ∨
    (s.act i).1.iss.state.csr = s.iss.state.csr.incMcycle.incMinstret

/-- A step of the platform is a step of the program, a turn of the thread, or neither. -/
theorem next (hs : s.Beside c Q K x p h) (hturns : Turns K x) (hignore : Ignores K Q)
    (hserve : ∀ t f, Serves vpBus (VpFrame t) c A (Keeping K f Q)) {i : VpInput} (hi : i.Running)
    (hirq : i.isCycle → checkPendingInterrupts s.iss.state = 0)
    (hstep : if i.isCycle then Isa.Step A h h' else h' = h) :
    (vpMachine.next s i).Beside c Q K x (i.beside x p) h' ∧
      Counts s i ∧ (vpMachine.out s i).trap = none ∧
      ((vpMachine.out s i).insn.isSome ↔ i.isCycle) := by
  by_cases hc : i.isCycle
  · rw [if_pos hc] at hstep
    cases i with
    | cycle pick =>
      obtain ⟨hnext, hcsr, d, hout⟩ := hs.cpu.iterate (hserve _ _) (hirq rfl) pick hstep
      have hbeside : (s.act (.cycle pick)).1.Beside c Q K x p h' :=
        ⟨hnext, hs.engine, hs.dma, hs.sdIdle, hs.sd⟩
      refine ⟨hbeside.driven, .inr hcsr, ?_⟩
      change (s.iss.iterate vpBus pick).2.trap = none ∧
        ((s.iss.iterate vpBus pick).2.insn.isSome ↔ _)
      rw [hout]
      exact ⟨rfl, iff_of_true rfl hc⟩
    | _ => cases hc
  · rw [if_neg hc] at hstep
    subst hstep
    obtain ⟨hnext, hstate, hout⟩ := hs.act hturns hignore hi (Bool.eq_false_iff.2 hc)
    refine ⟨hnext.driven, .inl (congrArg CPUState.csr hstate), ?_⟩
    change (s.act i).2.trap = none ∧ ((s.act i).2.insn.isSome ↔ _)
    rw [hout]
    exact ⟨rfl, iff_of_false Bool.false_ne_true hc⟩

/-- **A run of the platform is a run of the program and one of the thread**, as long as no
interrupt is to be taken.  `I` tells what holds of the CSRs in between. -/
theorem run {I : Vp → Prop} (hI : I s) (hcounts : ∀ s i, I s → Counts s i → I (vpMachine.next s i))
    (hs : s.Beside c Q K x p h) (hturns : Turns K x) (hignore : Ignores K Q)
    (hserve : ∀ t f, Serves vpBus (VpFrame t) c A (Keeping K f Q)) {is : List VpInput}
    (hi : ∀ i ∈ is, i.Running)
    (hirq : ∀ pre pick, pre ++ [.cycle pick] <+: is → ∀ s h, I s →
      s.Beside c Q K x (pre.foldl (VpInput.beside x) p) h → checkPendingInterrupts s.iss.state = 0)
    (hrun : Isa.Steps A h (is.countP (·.isCycle)) h') :
    (vpMachine.run s is).Beside c Q K x (is.foldl (VpInput.beside x) p) h' ∧
      I (vpMachine.run s is) ∧ (∀ e ∈ vpMachine.trace s is, e.trap = none) ∧
      (vpMachine.trace s is).countP (·.insn.isSome) = is.countP (·.isCycle) := by
  induction is using List.reverseRecOn generalizing h' with
  | nil =>
    cases hrun
    exact ⟨hs, hI, (fun _ he => by cases he), rfl⟩
  | append_singleton is i ih =>
    obtain ⟨h₁, hpre, hstep⟩ := hrun.of_snoc
    obtain ⟨hruns, hI', htrap, hcount⟩ := ih (fun j hj => hi j (List.mem_append_left _ hj))
      (fun pre pick hp => hirq pre pick (hp.trans (List.prefix_append ..))) hpre
    have hlast := hi i (List.mem_append_right _ (List.mem_singleton_self i))
    have hquiet (hc : i.isCycle) : checkPendingInterrupts (vpMachine.run s is).iss.state = 0 := by
      cases i with
      | cycle pick => exact hirq is pick (List.prefix_refl _) _ h₁ hI' hruns
      | _ => cases hc
    obtain ⟨hnext, hcsr, hout, hinsn⟩ := hruns.next hturns hignore hserve hlast hquiet hstep
    rw [Machine.run_snoc, Machine.trace_snoc, List.foldl_concat]
    refine ⟨hnext, hcounts _ i hI' hcsr, fun e he => ?_, ?_⟩
    · rcases List.mem_append.1 he with he | he
      · exact htrap e he
      · rw [List.mem_singleton.1 he]
        exact hout
    · rw [List.countP_append, List.countP_append, hcount, List.countP_singleton,
        List.countP_singleton]
      simp only [hinsn]

end Vp.Beside

theorem foldl_beside_fst (x : ℕ → Transfer) (p : ℕ × (ℕ → Target Device)) (is : List VpInput) :
    (is.foldl (VpInput.beside x) p).1 = p.1 + is.countP (·.isTurn) := by
  induction is using List.reverseRecOn with
  | nil => rfl
  | append_singleton is i ih =>
    rw [List.foldl_concat, List.countP_append, List.countP_singleton, ← Nat.add_assoc, ← ih]
    by_cases hi : i.isTurn
    · rw [if_pos hi]
      exact if_pos hi
    · rw [if_neg hi]
      exact if_neg hi

/-- The addresses that a transfer does not use keep their bytes. -/
theorem transfer_ram_of_not_mem {e : DmaEngine} {m : Ram} {a : Word}
    (ha : a.toNat ∉ e.params.addresses) (j : ℕ) : (e.transfer m j).ram a = m a := by
  have hmoved {n : ℕ} (hn : n ≤ e.byteCount.toNat) : moved m e.params n a = m a :=
    if_neg fun h => ha (.inr ⟨h.1, Nat.lt_of_lt_of_le h.2 (Nat.add_le_add_left hn _)⟩)
  cases j with
  | zero => rfl
  | succ j =>
    unfold DmaEngine.transfer
    dsimp only
    split_ifs
    all_goals exact hmoved (Nat.min_le_right ..)

theorem Turns.mono {K K' : Set ℕ} {x : ℕ → Transfer} (h : Turns K x) (hK : K ⊆ K')
    (hram : ∀ j, ∀ q : Word, q.toNat ∉ K → (x (j + 1)).ram q = (x j).ram q) : Turns K' x := by
  intro j t w r h9 hv hkeep buf
  obtain ⟨w', r', hd, hv', h9', hout, hin⟩ := h h9 hv (fun q hq => hkeep q (hK hq)) buf
  refine ⟨w', r', hd, hv', h9', fun q hq => hout q fun h => hq (hK h), fun q hq => ?_⟩
  by_cases hq' : q.toNat ∈ K
  · exact hin q hq'
  · rw [hout q hq', hkeep q hq, hram j q hq']

/-- A machine-mode program in the RAM at the addresses `P`, with interrupts off, and a transfer
between other addresses: after any interleaving of iterations of the run loop, turns of the DMA
engine, ticks, bytes and pin changes, the program is as far as the manual says after that many
instructions, and the rest of the RAM, the registers of the engine and its thread are those of the
transfer after that many turns. -/
theorem vp_transfers_beside {c : HartMode} (hbare : c.Bare) (hquiet : c.Quiet) {P : Set ℕ}
    (hP : ∀ a ∈ P, 0x80000000 ≤ a ∧ a < 0x88000000) {e : DmaEngine} (hstart : e.startEvent = true)
    (hin : e.params.InRam) (hapart : Disjoint e.params.addresses P) {m : Ram}
    {t : ℕ → Target Device} {s : Vp} {h h' : Isa.State}
    (hs : s.Beside c (Region P) Pᶜ (e.transfer m) (0, t) h) {is : List VpInput}
    (hi : ∀ i ∈ is, i.Running) (hrun : Isa.Steps (.region P) h (is.countP (·.isCycle)) h') :
    (∃ t', (vpMachine.run s is).Beside c (Region P) Pᶜ (e.transfer m)
      (is.countP (·.isTurn), t') h') ∧
    (∀ e ∈ vpMachine.trace s is, e.trap = none) ∧
    (vpMachine.trace s is).countP (·.insn.isSome) = is.countP (·.isCycle) := by
  have hsub : e.params.addresses ⊆ Pᶜ := fun a ha => Set.disjoint_left.1 hapart ha
  have hturns : Turns Pᶜ (e.transfer m) := (turns_transfer hstart hin m).mono hsub fun j q hq => by
    rw [transfer_ram_of_not_mem hq, transfer_ram_of_not_mem hq]
  have hserve (t : ℕ → Target Device) (f : Ram) :
      Serves vpBus (VpFrame t) c (.region P) (Keeping Pᶜ f (Region P)) :=
    serves_region hbare (vp_ramAt_frame t) (by decide) hP disjoint_compl_left f
  obtain ⟨hrun, -, htrap, hcount⟩ := hs.run (I := fun _ => True) trivial (fun _ _ _ _ => trivial)
    hturns (ignores_region disjoint_compl_left) hserve hi
    (fun _ _ _ s _ _ hb =>
      CPUState.checkPendingInterrupts_of_quiet (hb.cpu.mode.symm ▸ hquiet)) hrun
  rw [← Prod.mk.eta (p := is.foldl _ _), foldl_beside_fst, Nat.zero_add] at hrun
  exact ⟨⟨_, hrun⟩, htrap, hcount⟩

/-! A RAM of `c.addi x2, 0` parcels, of which four bytes are moved while three of them are
executed. -/

/-- Four bytes are to be moved. -/
def sledEngine : DmaEngine :=
  { srcAddr := 0x80001000, dstAddr := 0x80002000, byteCount := 4, startEvent := true }

/-- The platform before the transfer. -/
def sledPlatform (e : DmaEngine) : Vp :=
  (Vp.reset (.replicate _ 0) (.replicate _ 1) none).onDevice 9 fun _ => ⟨.dma e, none⟩

theorem platformRam_sled (e : DmaEngine) :
    ∃ w, (sledPlatform e).iss.env.bus = some w ∧ w.PlatformRam (fun _ => 1) ∧ AllHeard w.targets ∧
      w.targets 9 = .device ⟨.dma e, none⟩ ∧ SdIdle w.targets := by
  have hview : VpView (Vp.reset (.replicate _ 0) (.replicate _ 1) none).iss.env.bus fun _ => 1 := by
    refine (vpView_reset _ _ none).congr fun a hlo hhi => ?_
    have hlt : a.toNat - 0x80000000 < ramSize.toNat := by
      rw [toNat_ramSize]
      omega
    rw [ramContent, Vector.getElem?_eq_getElem hlt, Option.getD_some, Vector.getElem_replicate]
  obtain ⟨w, hw, hram, hidle⟩ := hview
  refine ⟨w.onDevice 9 fun _ => ⟨.dma e, none⟩, ?_, hram.onDevice 9 _, allHeard_deliver _, ?_,
    hidle.sd.change (j := 9) (by decide) fun _ => ⟨.dma e, none⟩⟩
  · unfold sledPlatform Vp.onDevice
    rw [hw]
    rfl
  · obtain ⟨_, _, h9, -⟩ := hidle.dma
    have hu : Function.update w.targets 9 ((w.targets 9).mapDevice fun _ => ⟨.dma e, none⟩) 9 =
        .device (⟨.dma e, none⟩ : Device) := by
      rw [Function.update_self, h9]
      rfl
    exact deliver_device hu (show 9 ≠ 3 by decide)

/-- The program has the first page of the RAM. -/
theorem vp_transfers_beside_sled :
    let s := sledPlatform sledEngine
    let P := Set.Ico 0x80000000 0x80001000
    let is : List VpInput := [.cycle fun _ => 0, .dmaThread (.replicate _ 0), .cycle fun _ => 0,
      .dmaThread (.replicate _ 0), .clintTick, .dmaThread (.replicate _ 0), .cycle fun _ => 0]
    (∃ t', (vpMachine.run s is).Beside (CPUState.mode {}) (Region P) Pᶜ
      (sledEngine.transfer fun _ => 1) (is.countP (·.isTurn), t') (sled ramBase 3)) ∧
    (∀ e ∈ vpMachine.trace s is, e.trap = none) ∧
    (vpMachine.trace s is).countP (·.insn.isSome) = is.countP (·.isCycle) := by
  obtain ⟨w, hw, hram, hheard, h9, hsd⟩ := platformRam_sled sledEngine
  have hs : (sledPlatform sledEngine).Beside (CPUState.mode {})
      (Region (Set.Ico 0x80000000 0x80001000)) (Set.Ico 0x80000000 0x80001000)ᶜ
      (sledEngine.transfer fun _ => 1) (0, w.targets) (sled ramBase 0) :=
    ⟨⟨rfl, rfl, rfl, rfl, regFile_sled ramBase 0, rfl, fun _ => 1,
      ⟨w, hw, hram, hheard, fun _ _ => rfl⟩, fun _ _ => rfl, fun _ _ => rfl⟩, h9, rfl, hsd, rfl⟩
  have hstep (n : ℕ) (hn : n < 3) : Isa.Step (.region (Set.Ico 0x80000000 0x80001000))
      (sled ramBase n) (sled ramBase (n + 1)) := by
    have hpc : (sled ramBase n).pc.toNat = 0x80000000 + 2 * n := toNat_add_of_lt (by
      change 0x80000000 + 2 * n < 2 ^ 32
      omega)
    refine sled_step (by rw [hpc]; omega) fun i hi => ?_
    rw [hpc]
    exact ⟨by omega, by omega⟩
  refine vp_transfers_beside ⟨rfl, by decide⟩ (.inr ⟨rfl, by decide⟩) ?_ rfl
    ⟨by decide, by decide, by decide⟩ ?_ hs (by simp [VpInput.Running])
    (.tail (.tail (.tail .refl (hstep 0 (by decide))) (hstep 1 (by decide))) (hstep 2 (by decide)))
  · rintro a ⟨hlo, hhi⟩
    exact ⟨hlo, by omega⟩
  · refine Set.disjoint_left.2 ?_
    rintro a (⟨hlo, -⟩ | ⟨hlo, -⟩) ⟨-, hhi⟩
    · change 0x80001000 ≤ a at hlo
      omega
    · change 0x80002000 ≤ a at hlo
      omega

end VirtualSoC
