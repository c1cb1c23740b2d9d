import VirtualSoC.Bus.AddressMap
import VirtualSoC.Cpu.BusPort
import VirtualSoC.Platform.Config

/-!
# The platform

The bus that the constructor of `GamingCPU_VP` in `platform/gamingcpu_vp.cpp` builds from the memory
map, the targets behind it, and the ISS after reset.
-/

namespace VirtualSoC

open Cfg

/-- The twelve mapped ranges, ordered by base address; the sockets are numbered in the order of the
`bind` calls, boot ROM and RAM first. -/
def platformBus : TlmBus where
  ranges :=
    [⟨bootRomBase, bootRomSize, 0⟩, ⟨clintBase, clintSize, 2⟩, ⟨plicBase, plicSize, 3⟩,
      ⟨uartBase, uartSize, 4⟩, ⟨gpioBase, gpioSize, 5⟩, ⟨timerBase, timerSize, 6⟩,
      ⟨spiBase, spiSize, 7⟩, ⟨sdBase, sdSize, 8⟩, ⟨dmaBase, dmaSize, 9⟩,
      ⟨videoBase, videoSize, 10⟩, ⟨audioBase, audioSize, 11⟩, ⟨ramBase, ramSize, 1⟩]

/-- The calls of `map` in the constructor. -/
def platformCalls : List MapCall :=
  [⟨bootRomBase, bootRomSize⟩, ⟨ramBase, ramSize⟩, ⟨clintBase, clintSize⟩, ⟨plicBase, plicSize⟩,
    ⟨uartBase, uartSize⟩, ⟨gpioBase, gpioSize⟩, ⟨timerBase, timerSize⟩, ⟨spiBase, spiSize⟩,
    ⟨sdBase, sdSize⟩, ⟨dmaBase, dmaSize⟩, ⟨videoBase, videoSize⟩, ⟨audioBase, audioSize⟩]

/-- The calls are accepted and build the bus of the platform, however the ranges are sorted. -/
theorem mapAll_platformCalls (std : StdSort) :
    BusMap.mapAll std platformCalls = some ⟨platformBus, 12⟩ := by
  obtain ⟨⟨bus, next⟩, hm⟩ := (exists_mapAll_iff std platformCalls).2 (by decide)
  have h := mapped_of_mapAll hm
  have hperm : bus.ranges.Perm platformBus.ranges := h.perm.trans (by decide)
  -- no two of the bases are equal, so there is one sorted order
  have hbases : ∀ a ∈ platformBus.ranges, ∀ b ∈ platformBus.ranges,
      ¬ b.base < a.base → ¬ a.base < b.base → a = b := by decide
  have hranges : bus.ranges = platformBus.ranges :=
    hperm.eq_of_pairwise (fun a b ha hb => hbases a (hperm.mem_iff.1 ha) b hb) h.sorted (by decide)
  have hnext : next = 12 := h.next
  have hbus : bus = platformBus := congrArg TlmBus.mk hranges
  rw [hm, hnext, hbus]

/-- The targets of the platform: the boot ROM, the RAM, and the devices at the other sockets. -/
def platformTargets {δ : Type*} (rom : Vector Byte bootRomSize.toNat)
    (ram : Vector Byte ramSize.toNat) (devices : ℕ → δ) : ℕ → Target δ
  | 0 => .bootRom ⟨bootRomSize, rom⟩
  | 1 => .memory ⟨ramSize, ram⟩
  | i => .device (devices i)

section

variable {δ : Type}

/-- The ISS after reset, on the platform with the given memories. -/
def platformReset (rom : Vector Byte bootRomSize.toNat) (ram : Vector Byte ramSize.toNat)
    (devices : ℕ → δ) : ISS (Option (BusPort δ)) :=
  .reset ramBase (some { targets := platformTargets rom ram devices }) false

end

/-! ### A platform without devices -/

instance : TlmDevice Unit where
  transport trans d := some (trans, d)

/-- A buffer that starts with the little-endian words `ws`, and holds zeros after them. -/
def wordsBuf {n : ℕ} (ws : List Word) (h : 4 * ws.length ≤ n) : Vector Byte n :=
  ⟨(ws.flatMap (fun w => (Bytes.toLE w 4).toList) ++
    List.replicate (n - 4 * ws.length) 0).toArray, by simp; omega⟩

/-- The platform after reset, with programs at the start of the boot ROM and of the RAM. -/
def barePlatform (rom ram : List Word) (hr : 4 * rom.length ≤ bootRomSize.toNat)
    (hm : 4 * ram.length ≤ ramSize.toNat) : ISS (Option (BusPort Unit)) :=
  platformReset (wordsBuf rom hr) (wordsBuf ram hm) fun _ => ()

theorem nil_fits : 4 * ([] : List Word).length ≤ bootRomSize.toNat := Nat.zero_le _

/-- `n` iterations of the run loop. -/
def cycles (n : ℕ) : List (Input (Option (BusPort Unit))) := .replicate n (.cycle fun _ => 0)

end VirtualSoC
