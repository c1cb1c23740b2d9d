import VirtualSoC.Bus.AddressMap
import VirtualSoC.Lib.FlatStore

/-!
# Ranges of a RAM

What a transaction on the bus does to the bytes of the memories.  Only a write that is answered OK
changes them (`TlmBus.byte?_of_bTransport`); inside a RAM, reads and writes are answered OK and
move all their bytes (`InRam.read`, `InRam.write`).
-/

namespace VirtualSoC

variable {δ : Type*}

/-! ### The bytes of a target -/

namespace Target

/-- The byte of a memory at a local address. -/
def byte? : Target δ → ℕ → Option Byte
  | memory m, i => m.mem[i]?
  | bootRom m, i => m.mem[i]?
  | device _, _ => none

/-- The number of bytes that can be written. -/
def ramSize : Target δ → ℕ
  | memory m => m.size.toNat
  | bootRom _ => 0
  | device _ => 0

end Target

/-- A transaction that is no write, or is refused, does not change the memory. -/
theorem Memory.eq_of_bTransport {n : ℕ} {m m' : Memory} {trans trans' : Payload n}
    (h : m.bTransport trans = some (trans', m'))
    (hno : trans.command ≠ .write ∨ trans'.response ≠ .ok) : m' = m := by
  unfold Memory.bTransport at h
  dsimp only at h
  split at h
  · cases h
    rfl
  · split at h
    · obtain ⟨data, -, hd⟩ := Option.bind_eq_some_iff.1 h
      cases hd
      rfl
    next hc =>
      obtain ⟨mem, -, hd⟩ := Option.bind_eq_some_iff.1 h
      cases hd
      exact absurd hno (not_or.2 ⟨not_not.2 hc, not_not.2 rfl⟩)
    · cases h
      rfl

namespace Target

variable [TlmDevice δ] {n : ℕ} {t t' : Target δ} {trans trans' : Payload n}

/-- Only a write that is answered OK changes the bytes. -/
theorem byte?_of_bTransport (h : t.bTransport trans = some (trans', t'))
    (hno : trans.command ≠ .write ∨ trans'.response ≠ .ok) : t'.byte? = t.byte? := by
  cases t with
  | memory m =>
    obtain ⟨⟨x, m'⟩, hm, hx⟩ := Option.map_eq_some_iff.1 h
    cases hx
    rw [Memory.eq_of_bTransport hm hno]
  | bootRom m =>
    obtain ⟨⟨x, m'⟩, hm, hx⟩ := Option.map_eq_some_iff.1 h
    cases hx
    rw [BootRom.eq_of_bTransport hm]
  | device d =>
    obtain ⟨x, -, hx⟩ := Option.map_eq_some_iff.1 h
    cases hx
    rfl

end Target

namespace TlmBus

variable [TlmDevice δ] {bus : TlmBus} {n : ℕ} {targets targets' : ℕ → Target δ}
  {trans trans' : Payload n}

/-- A transaction reaches one target at most, at its local address. -/
theorem exists_of_bTransport (h : bus.bTransport targets trans = some (trans', targets')) :
    targets' = targets ∨
      ∃ k addr x, (targets k).bTransport { trans with address := addr } = some x ∧
        x.1.response = trans'.response ∧ targets' = Function.update targets k x.2 := by
  unfold bTransport at h
  split at h
  · cases h
    exact .inl rfl
  · obtain ⟨x, hx, hret⟩ := Option.bind_eq_some_iff.1 h
    cases hret
    exact .inr ⟨_, _, x, hx, rfl, rfl⟩

/-- Only a write that is answered OK changes the bytes of the memories. -/
theorem byte?_of_bTransport (h : bus.bTransport targets trans = some (trans', targets'))
    (hno : trans.command ≠ .write ∨ trans'.response ≠ .ok) (j : ℕ) :
    (targets' j).byte? = (targets j).byte? := by
  rcases exists_of_bTransport h with rfl | ⟨k, addr, x, hx, hresp, rfl⟩
  · rfl
  · by_cases hjk : j = k
    · subst hjk
      rw [Function.update_self]
      exact Target.byte?_of_bTransport hx (by rwa [hresp])
    · rw [Function.update_of_ne hjk]

end TlmBus

/-! ### Ranges -/

/-- The local address. -/
def MappedRange.offset (r : MappedRange) (addr : Word) : ℕ := (addr - r.base).toNat

/-- The bus finds all `n` bytes from `addr` on in the RAM behind the range `r`. -/
def InRam (bus : TlmBus) (targets : ℕ → Target δ) (r : MappedRange) (addr : Word) (n : ℕ) : Prop :=
  ∀ i < n, bus.decode (addr + BitVec.ofNat 32 i) = some r ∧
    r.offset (addr + BitVec.ofNat 32 i) < (targets r.targetIdx).ramSize

/-- The `n` bytes of the RAM from `addr` on are `bytes`, and all other bytes of the memories are as
they were. -/
structure RamFilled (r : MappedRange) (addr : Word) (n : ℕ) (bytes : ℕ → Option Byte)
    (targets targets' : ℕ → Target δ) : Prop where
  ram : FlatStore.Filled (targets r.targetIdx).byte? (r.offset addr) n bytes
    (targets' r.targetIdx).byte?
  others : ∀ j ≠ r.targetIdx, (targets' j).byte? = (targets j).byte?

namespace RamFilled

variable {r : MappedRange} {addr : Word} {n l : ℕ} {bytes bytes' : ℕ → Option Byte}
  {targets targets' targets'' : ℕ → Target δ}

theorem nothing (r : MappedRange) (addr : Word) (bytes : ℕ → Option Byte)
    (targets : ℕ → Target δ) : RamFilled r addr 0 bytes targets targets :=
  ⟨.nothing .., fun _ _ => rfl⟩

theorem unchanged (h : RamFilled r addr n bytes targets targets')
    (hsame : ∀ j, (targets'' j).byte? = (targets' j).byte?) :
    RamFilled r addr n bytes targets targets'' := by
  refine ⟨?_, fun j hj => (hsame j).trans (h.others j hj)⟩
  rw [hsame]
  exact h.ram

theorem append (h : RamFilled r addr n bytes targets targets') {next : Word}
    (hnext : r.offset next = r.offset addr + n)
    (h' : RamFilled r next l bytes' targets' targets'')
    (hbytes : ∀ i < l, bytes' i = bytes (n + i)) :
    RamFilled r addr (n + l) bytes targets targets'' := by
  have hram := h'.ram
  rw [hnext] at hram
  exact ⟨h.ram.append hram hbytes, fun j hj => (h'.others j hj).trans (h.others j hj)⟩

end RamFilled

namespace InRam

variable {bus : TlmBus} {targets targets' : ℕ → Target δ} {r : MappedRange} {addr : Word} {n : ℕ}

theorem nothing : InRam bus targets r addr 0 := fun _ hi => absurd hi (Nat.not_lt_zero _)

/-- A range of the RAM does not reach the top of the address space: the bus does not find its last
address. -/
theorem noWrap (h : InRam bus targets r addr n) : addr.toNat + n < 2 ^ 32 := by
  by_contra hge
  have hlt := addr.isLt
  obtain ⟨hdec, -⟩ := h (2 ^ 32 - 1 - addr.toNat) (by omega)
  have htop : addr + BitVec.ofNat 32 (2 ^ 32 - 1 - addr.toNat) = BitVec.allOnes 32 := by
    apply BitVec.eq_of_toNat_eq
    rw [BitVec.toNat_add, BitVec.toNat_ofNat, BitVec.toNat_allOnes]
    omega
  rw [htop] at hdec
  have hmax := (TlmBus.inRange_of_decode hdec).2
  rw [BitVec.lt_def, BitVec.toNat_allOnes] at hmax
  omega

theorem toNat_add (h : InRam bus targets r addr n) {k : ℕ} (hk : k ≤ n) :
    (addr + BitVec.ofNat 32 k).toNat = addr.toNat + k := by
  have := h.noWrap
  rw [BitVec.toNat_add, BitVec.toNat_ofNat, Nat.mod_eq_of_lt (by omega), Nat.mod_eq_of_lt (by omega)]

theorem base_le (h : InRam bus targets r addr n) (hn : 0 < n) : r.base.toNat ≤ addr.toNat := by
  obtain ⟨hdec, -⟩ := h 0 hn
  have hge := (TlmBus.inRange_of_decode hdec).1
  rwa [ge_iff_le, BitVec.le_def, h.toNat_add (Nat.zero_le n), Nat.add_zero] at hge

theorem offset_eq (h : InRam bus targets r addr n) (hn : 0 < n) {k : ℕ} (hk : k ≤ n) :
    r.offset (addr + BitVec.ofNat 32 k) = addr.toNat + k - r.base.toNat := by
  have hle := h.base_le hn
  rw [MappedRange.offset, BitVec.toNat_sub_of_le (BitVec.le_def.2 (by rw [h.toNat_add hk]; omega)),
    h.toNat_add hk]

theorem offset_addr (h : InRam bus targets r addr n) (hn : 0 < n) :
    r.offset addr = addr.toNat - r.base.toNat := by
  rw [MappedRange.offset, BitVec.toNat_sub_of_le (BitVec.le_def.2 (h.base_le hn))]

theorem offset_add (h : InRam bus targets r addr n) {k : ℕ} (hk : k ≤ n) :
    r.offset (addr + BitVec.ofNat 32 k) = r.offset addr + k := by
  rcases Nat.eq_zero_or_pos n with rfl | hn
  · rw [Nat.le_zero.1 hk, BitVec.add_zero, Nat.add_zero]
  · have hle := h.base_le hn
    rw [h.offset_eq hn hk, h.offset_addr hn]
    omega

theorem part (h : InRam bus targets r addr n) {k l : ℕ} (hkl : k + l ≤ n) :
    InRam bus targets r (addr + BitVec.ofNat 32 k) l := by
  intro i hi
  rw [BitVec.add_assoc, ← BitVec.ofNat_add]
  exact h (k + i) (by omega)

theorem mono (h : InRam bus targets r addr n) {l : ℕ} (hl : l ≤ n) : InRam bus targets r addr l :=
  fun i hi => h i (by omega)

/-- The range stays in the RAM when the targets change. -/
theorem congr (h : InRam bus targets r addr n)
    (hsize : (targets' r.targetIdx).ramSize = (targets r.targetIdx).ramSize) :
    InRam bus targets' r addr n := by
  intro i hi
  rw [hsize]
  exact h i hi

theorem exists_memory (h : InRam bus targets r addr n) (hn : 0 < n) :
    ∃ m : Memory, targets r.targetIdx = .memory m ∧ r.offset addr + n ≤ m.size.toNat := by
  obtain ⟨-, hlt⟩ := h (n - 1) (by omega)
  rw [h.offset_add (by omega)] at hlt
  cases ht : targets r.targetIdx with
  | memory m =>
    rw [ht] at hlt
    refine ⟨m, rfl, ?_⟩
    dsimp only [Target.ramSize] at hlt
    omega
  | bootRom m | device d =>
    rw [ht] at hlt
    exact absurd hlt (Nat.not_lt_zero _)

/-! ### Transactions -/

section

variable [TlmDevice δ] {l : ℕ} (h : InRam bus targets r addr n) (hn : 0 < n) (trans : Payload l)
  (ha : trans.address = addr.setWidth 64) (hlen : trans.dataLength.toNat = n) (hl : n ≤ l)

include h hn ha

theorem bTransport_eq {m : Memory} (ht : targets r.targetIdx = .memory m) :
    bus.bTransport targets trans =
      (m.bTransport { trans with address := (addr - r.base).setWidth 64 }).map fun x =>
        ({ x.1 with address := trans.address },
          Function.update targets r.targetIdx (.memory x.2)) := by
  have haddr : (trans.address.setWidth 32 : Word) = addr := by
    rw [ha]
    exact BitVec.setWidth_setWidth_of_le addr (by decide)
  obtain ⟨hdec, -⟩ := h 0 hn
  rw [BitVec.add_zero] at hdec
  rw [TlmBus.bTransport, haddr, hdec]
  dsimp only
  rw [TlmBus.forward_memory ht, haddr, ha]

omit h hn ha in
theorem toNat_local : (((addr - r.base).setWidth 64).setWidth 32 : Word).toNat = r.offset addr := by
  rw [BitVec.setWidth_setWidth_of_le _ (by decide), MappedRange.offset, BitVec.setWidth_eq]

include hlen hl

theorem read (hc : trans.command = .read) :
    ∃ data, bus.bTransport targets trans = some ({ trans with data, response := .ok }, targets) ∧
      ∀ i < n, data[i]? = (targets r.targetIdx).byte? (r.offset addr + i) := by
  obtain ⟨m, ht, hfit⟩ := h.exists_memory hn
  obtain ⟨data, hcopy⟩ := Buffer.exists_copy trans.data m.mem (show 0 + n ≤ l by omega) hfit
  have hread := m.bTransport_read { trans with address := (addr - r.base).setWidth 64 } hc
    (by rwa [toNat_local, hlen])
  rw [toNat_local, hlen, hcopy, Option.map_some] at hread
  refine ⟨data, ?_, fun i hi => ?_⟩
  · rw [h.bTransport_eq hn trans ha ht, hread, Option.map_some, ← ht, Function.update_eq_self]
  · rw [Buffer.getElem?_of_copy hcopy, if_pos (by omega), Nat.sub_zero, ht]
    rfl

theorem write (hc : trans.command = .write) :
    ∃ targets', bus.bTransport targets trans = some ({ trans with response := .ok }, targets') ∧
      RamFilled r addr n (trans.data[·]?) targets targets' ∧
      ∀ j, (targets' j).ramSize = (targets j).ramSize := by
  obtain ⟨m, ht, hfit⟩ := h.exists_memory hn
  obtain ⟨mem, hcopy⟩ := Buffer.exists_copy m.mem trans.data hfit (show 0 + n ≤ l by omega)
  have hwrite := m.bTransport_write { trans with address := (addr - r.base).setWidth 64 } hc
    (by rwa [toNat_local, hlen])
  rw [toNat_local, hlen, hcopy, Option.map_some] at hwrite
  refine ⟨_, by rw [h.bTransport_eq hn trans ha ht, hwrite, Option.map_some], ⟨⟨?_, ?_⟩, ?_⟩, ?_⟩
  · intro i hi
    rw [Function.update_self]
    dsimp only [Target.byte?]
    rw [Buffer.getElem?_of_copy hcopy, if_pos (by omega)]
    exact congrArg (trans.data[·]?) (by omega)
  · intro i hi
    rw [Function.update_self, ht]
    dsimp only [Target.byte?]
    rw [Buffer.getElem?_of_copy hcopy, if_neg hi]
  · intro j hj
    rw [Function.update_of_ne hj]
  · intro j
    by_cases hj : j = r.targetIdx
    · rw [hj, Function.update_self, ht]
      rfl
    · rw [Function.update_of_ne hj]

end

end InRam

/-! ### Ranges of a mapped memory -/

/-- The bytes of a memory behind a range of the address map. -/
theorem Mapped.inRam {calls : List MapCall} {m : BusMap} (h : Mapped calls m)
    (hwrap : ∀ c ∈ calls, c.NoWrap) {targets : ℕ → Target δ} {k : ℕ} {c : MapCall}
    (hk : calls[k]? = some c) (hsize : (targets k).ramSize = c.size.toNat) {addr : Word} {n : ℕ}
    (hlo : c.base.toNat ≤ addr.toNat) (hhi : addr.toNat + n ≤ c.base.toNat + c.size.toNat) :
    InRam m.bus targets (c.range k) addr n := by
  intro i hi
  have hc : c.base.toNat + c.size.toNat < 2 ^ 32 := hwrap c (List.mem_of_getElem? hk)
  have hadd : (addr + BitVec.ofNat 32 i).toNat = addr.toNat + i := by
    rw [BitVec.toNat_add, BitVec.toNat_ofNat, Nat.mod_eq_of_lt (a := i) (by omega),
      Nat.mod_eq_of_lt (by omega)]
  refine ⟨h.decode_eq hwrap hk ⟨by omega, by omega⟩, ?_⟩
  have hbase : c.base ≤ addr + BitVec.ofNat 32 i := BitVec.le_def.2 (by omega)
  dsimp only [MappedRange.offset, MapCall.range]
  rw [hsize, BitVec.toNat_sub_of_le hbase, hadd]
  omega

/-! A bus with one page. -/

/-- One page of RAM at the target 0. -/
def pageMap : BusMap := ⟨⟨[⟨0x80000000, 0x1000, 0⟩]⟩, 1⟩

theorem mapped_pageMap : Mapped [⟨0x80000000, 0x1000⟩] pageMap :=
  ⟨.refl _, List.pairwise_singleton .., rfl, List.pairwise_singleton ..⟩

end VirtualSoC
