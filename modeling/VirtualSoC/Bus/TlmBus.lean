import Mathlib.Logic.Function.Basic
import VirtualSoC.Bus.Memory

/-!
# The bus

`TLM_Bus` of `bus/tlm_bus.h` and `bus/tlm_bus.cpp`: address decoding, routing of transactions and of
DMI requests.

The targets other than memories are values of a parameter `δ` that can serve a transaction
(`TlmDevice`).  None of them registers a DMI callback, so none grants DMI.
-/

namespace VirtualSoC

/-- `b_transport` of the targets that are no memories. -/
class TlmDevice (δ : Type*) where
  transport {n : ℕ} : Payload n → δ → Option (Payload n × δ)

/-- What is bound to the bus. -/
inductive Target (δ : Type*)
  | memory (m : Memory)
  | bootRom (m : BootRom)
  | device (d : δ)

namespace Target

variable {δ : Type*} {n : ℕ}

/-- `b_transport` of the target. -/
def bTransport [TlmDevice δ] (t : Target δ) (trans : Payload n) :
    Option (Payload n × Target δ) :=
  match t with
  | memory m => (m.bTransport trans).map fun x => (x.1, memory x.2)
  | bootRom m => (m.bTransport trans).map fun x => (x.1, bootRom x.2)
  | device d => (TlmDevice.transport trans d).map fun x => (x.1, device x.2)

/-- The grant of a target; a device has none to give. -/
def getDirectMemPtr : Target δ → Option TlmDmi
  | memory m => some m.getDirectMemPtr
  | bootRom m => some m.getDirectMemPtr
  | device _ => none

/-- `memcpy(dst, dmi_ptr + off, k)`. -/
def hostRead (dst : Vector Byte n) (off k : ℕ) : Target δ → Option (Vector Byte n)
  | memory m => Buffer.copy dst 0 m.mem off k
  | bootRom m => Buffer.copy dst 0 m.mem off k
  | device _ => none

/-- `memcpy(dmi_ptr + off, src, k)`. -/
def hostWrite (src : Vector Byte n) (off k : ℕ) : Target δ → Option (Target δ)
  | memory m => (Buffer.copy m.mem off src 0 k).map fun mem => memory { m with mem }
  | bootRom m => (Buffer.copy m.mem off src 0 k).map fun mem => bootRom { m with mem }
  | device _ => none

/-! No transaction and no host copy changes what a target grants. -/

section

variable {t t' : Target δ}

theorem getDirectMemPtr_of_bTransport [TlmDevice δ] {trans trans' : Payload n}
    (h : t.bTransport trans = some (trans', t')) : t'.getDirectMemPtr = t.getDirectMemPtr := by
  cases t with
  | memory m =>
    simp only [bTransport, Option.map_eq_some_iff] at h
    obtain ⟨⟨x, m'⟩, hm, hx⟩ := h
    cases hx
    simp only [getDirectMemPtr, Memory.getDirectMemPtr, Memory.size_of_bTransport hm]
  | bootRom m =>
    simp only [bTransport, Option.map_eq_some_iff] at h
    obtain ⟨⟨x, m'⟩, hm, hx⟩ := h
    cases hx
    rw [BootRom.eq_of_bTransport hm]
  | device d =>
    simp only [bTransport, Option.map_eq_some_iff] at h
    obtain ⟨x, -, hx⟩ := h
    cases hx
    rfl

theorem getDirectMemPtr_of_hostWrite {src : Vector Byte n} {off k : ℕ}
    (h : t.hostWrite src off k = some t') : t'.getDirectMemPtr = t.getDirectMemPtr := by
  cases t with
  | memory m | bootRom m =>
    simp only [hostWrite, Option.map_eq_some_iff] at h
    obtain ⟨mem, -, hx⟩ := h
    cases hx
    rfl
  | device d => cases h

end

end Target

/-! ### Address decoding -/

/-- A range of the address map and the target behind it. -/
structure MappedRange where
  base : Word
  size : Word
  targetIdx : ℕ
  deriving DecidableEq, Repr

/-- The mapped ranges, ordered by base address. -/
structure TlmBus where
  ranges : List MappedRange

namespace TlmBus

variable (bus : TlmBus)

/-- The first range that contains the address. -/
def decode (addr : Word) : Option MappedRange :=
  bus.ranges.find? fun r => addr ≥ r.base ∧ addr < r.base + r.size

section

variable {δ : Type*} {n : ℕ} (targets : ℕ → Target δ)

/-- A transaction goes to the target of the range, at its local address. -/
def forward [TlmDevice δ] (range : MappedRange) (trans : Payload n) :
    Option (Payload n × (ℕ → Target δ)) := do
  let addr : Word := trans.address.setWidth 32
  let x ← (targets range.targetIdx).bTransport
    { trans with address := (addr - range.base).setWidth 64 }
  return ({ x.1 with address := addr.setWidth 64 },
    Function.update targets range.targetIdx x.2)

theorem forward_memory [TlmDevice δ] {targets : ℕ → Target δ} {range : MappedRange} {m : Memory}
    (ht : targets range.targetIdx = .memory m) (trans : Payload n) :
    forward targets range trans =
      (m.bTransport { trans with
        address := ((trans.address.setWidth 32 : Word) - range.base).setWidth 64 }).map fun x =>
          ({ x.1 with address := (trans.address.setWidth 32 : Word).setWidth 64 },
            Function.update targets range.targetIdx (.memory x.2)) := by
  unfold forward
  rw [ht]
  dsimp only [Target.bTransport]
  cases m.bTransport { trans with
    address := ((trans.address.setWidth 32 : Word) - range.base).setWidth 64 } with
  | none => rfl
  | some x => rfl

theorem forward_device [TlmDevice δ] {targets : ℕ → Target δ} {range : MappedRange} {d : δ}
    (ht : targets range.targetIdx = .device d) (trans : Payload n) :
    forward targets range trans =
      (TlmDevice.transport { trans with
        address := ((trans.address.setWidth 32 : Word) - range.base).setWidth 64 } d).map fun x =>
          ({ x.1 with address := (trans.address.setWidth 32 : Word).setWidth 64 },
            Function.update targets range.targetIdx (.device x.2)) := by
  unfold forward
  rw [ht]
  dsimp only [Target.bTransport]
  cases TlmDevice.transport { trans with
    address := ((trans.address.setWidth 32 : Word) - range.base).setWidth 64 } d with
  | none => rfl
  | some x => rfl

/-- `TLM_Bus::b_transport`. -/
def bTransport [TlmDevice δ] (trans : Payload n) : Option (Payload n × (ℕ → Target δ)) :=
  match bus.decode (trans.address.setWidth 32) with
  | none => some ({ trans with response := .addressError }, targets)
  | some range => forward targets range trans

/-- `TLM_Bus::get_direct_mem_ptr`: the target that the pointer points into, and the grant in
global addresses. -/
def getDirectMemPtr (addr : Word) : Option (ℕ × TlmDmi) :=
  match bus.decode addr with
  | none => none
  | some range =>
    (targets range.targetIdx).getDirectMemPtr.map fun dmi =>
      (range.targetIdx,
        { dmi with
          startAddress := dmi.startAddress + range.base.setWidth 64
          endAddress := dmi.endAddress + range.base.setWidth 64 })

end

end TlmBus

end VirtualSoC
