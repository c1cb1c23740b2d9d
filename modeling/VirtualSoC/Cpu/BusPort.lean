import VirtualSoC.Bus.TlmBus
import VirtualSoC.Cpu.Iss
import VirtualSoC.Lib.Bytes

/-!
# The bus port of the ISS

`bus_read`, `bus_write`, `try_dmi` and `invalidate_dmi` of `cpu/iss.cpp`: the physical accesses of
the CPU, over the bus or through the cached DMI window.

Host memory is reached outside the bounds of an array only where the program would have undefined
behaviour; there the accesses return `none`.
-/

namespace VirtualSoC

/-- The DMI members of the ISS, and the targets behind the bus. -/
structure BusPort (δ : Type) where
  dmiValid : Bool := false
  /-- The target that `dmi_ptr_` points into, `none` for the null pointer. -/
  dmiPtr : Option ℕ := none
  dmiStart : BitVec 64 := 0
  dmiEnd : BitVec 64 := 0
  targets : ℕ → Target δ

/-- The payload of a read. -/
def readTrans (addr : Word) (bytes : ℕ) : Payload 4 where
  command := .read
  address := addr.setWidth 64
  data := zeroBuf
  dataLength := BitVec.ofNat 32 bytes

/-- The payload of a write. -/
def writeTrans (addr data : Word) (bytes : ℕ) : Option (Payload 4) := do
  let buf ← Buffer.copy zeroBuf 0 (Bytes.toLE data 4) 0 bytes
  return {
    command := .write
    address := addr.setWidth 64
    data := buf
    dataLength := BitVec.ofNat 32 bytes }

namespace BusPort

variable {δ : Type} (w : BusPort δ)

/-- The guard of the fast path: the last address is computed in 32 bits. -/
def dmiHit (addr : Word) (bytes : ℕ) : Bool :=
  w.dmiValid ∧ addr.setWidth 64 ≥ w.dmiStart ∧
    (addr + BitVec.ofNat 32 bytes - 1).setWidth 64 ≤ w.dmiEnd

/-- `addr - dmi_start_`. -/
def dmiOffset (addr : Word) : ℕ := (addr.setWidth 64 - w.dmiStart).toNat

/-- `dmi_valid_ = false; dmi_ptr_ = nullptr`. -/
def dropDmi : BusPort δ := { w with dmiValid := false, dmiPtr := none }

variable (bus : TlmBus)

/-- `ISS::try_dmi`. -/
def tryDmi (addr : Word) : BusPort δ :=
  match bus.getDirectMemPtr w.targets addr with
  | none => w
  | some (i, dmi) =>
    { w with
      dmiValid := true
      dmiPtr := some i
      dmiStart := dmi.startAddress
      dmiEnd := dmi.endAddress }

/-- `ISS::invalidate_dmi`: a window that the range meets is dropped. -/
def invalidateDmi (start finish : BitVec 64) : BusPort δ :=
  if w.dmiValid ∧ ¬ (finish < w.dmiStart ∨ start > w.dmiEnd) then w.dropDmi else w

section

variable [TlmDevice δ]

/-- `ISS::bus_read`. -/
def busRead (addr : Word) (bytes : ℕ) : Option (Word × BusPort δ) :=
  -- the window is used for reads and writes alike, whatever access it grants
  if w.dmiHit addr bytes then do
    let i ← w.dmiPtr
    let v ← (w.targets i).hostRead zeroBuf (w.dmiOffset addr) bytes
    return (Bytes.ofLE v, w)
  else do
    -- the response status is not looked at; the buffer has been zeroed before
    let x ← bus.bTransport w.targets (readTrans addr bytes)
    let w' := { w with targets := x.2 }
    let v ← Buffer.copy zeroBuf 0 x.1.data 0 bytes
    return (Bytes.ofLE v, if w.dmiValid then w' else w'.tryDmi bus addr)

/-- `ISS::bus_write`. -/
def busWrite (addr data : Word) (bytes : ℕ) : Option (BusPort δ) :=
  if w.dmiHit addr bytes then do
    let i ← w.dmiPtr
    let t ← (w.targets i).hostWrite (Bytes.toLE data 4) (w.dmiOffset addr) bytes
    return { w with targets := Function.update w.targets i t }
  else do
    let trans ← writeTrans addr data bytes
    let x ← bus.bTransport w.targets trans
    return { w with targets := x.2 }

end

end BusPort

/-! ### The physical bus of the platform -/

section

variable {δ : Type} [TlmDevice δ] (bus : TlmBus)

/-- The bus port as the physical bus of the ISS; `none` once a host access was out of bounds. -/
def socBus : PhysBus (Option (BusPort δ)) where
  read addr bytes w :=
    match w.bind (·.busRead bus addr bytes) with
    | none => (0, none)
    | some (v, w) => (v, some w)
  write addr data bytes w := w.bind (·.busWrite bus addr data bytes)
  dropDmi w := w.map (·.dropDmi)

/-- What the other processes do to the world behind the bus port. -/
inductive Elsewhere (δ : Type)
  /-- A transaction of another master. -/
  | transport {n : ℕ} (payload : Payload n)
  /-- The device at a socket changes its own state. -/
  | device (i : ℕ) (f : δ → δ)
  /-- A target withdraws its DMI grants for a range of its addresses. -/
  | invalidate (id : ℕ) (start finish : BitVec 64)

/-- `TLM_Bus::invalidate_direct_mem_ptr`. -/
def TlmBus.invalidateDirectMemPtr (id : ℕ) (start finish : BitVec 64) (w : BusPort δ) :
    BusPort δ :=
  match bus.ranges.find? fun r => r.targetIdx = id with
  | none => w
  | some r => w.invalidateDmi (start + r.base.setWidth 64) (finish + r.base.setWidth 64)

/-- A device changes its own state. -/
def Target.mapDevice (f : δ → δ) : Target δ → Target δ
  | .memory m => .memory m
  | .bootRom m => .bootRom m
  | .device d => .device (f d)

/-- A read of the platform bus that stays in bounds. -/
theorem socBus_read_eq_some {a : Word} {n : ℕ} {b : Option (BusPort δ)} {w' : BusPort δ} :
    ((socBus bus).read a n b).2 = some w' ↔
      ∃ w, b = some w ∧ ∃ v, w.busRead bus a n = some (v, w') := by
  cases b with
  | none => exact iff_of_false nofun nofun
  | some w =>
    change (match w.busRead bus a n with
      | none => (0, none)
      | some (v, w) => (v, some w)).2 = some w' ↔ _
    cases hr : w.busRead bus a n with
    | none => exact iff_of_false nofun (by simp [hr])
    | some x => simp [hr, Prod.ext_iff, eq_comm]

/-- The world after what another process does. -/
def Elsewhere.apply (w : BusPort δ) (o : Elsewhere δ) : Option (BusPort δ) :=
  match o with
  | transport payload => do
    let x ← bus.bTransport w.targets payload
    return { w with targets := x.2 }
  | device i f => some { w with targets := Function.update w.targets i ((w.targets i).mapDevice f) }
  -- the range is in addresses of the target
  | invalidate id start finish => some (bus.invalidateDirectMemPtr id start finish w)

/-- `f` is what another process does to the platform. -/
def FromElsewhere (f : Option (BusPort δ) → Option (BusPort δ)) : Prop :=
  ∃ o : Elsewhere δ, f = fun w => w.bind fun w => o.apply bus w

end

end VirtualSoC
