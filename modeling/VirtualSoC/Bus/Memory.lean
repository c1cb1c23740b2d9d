import VirtualSoC.Lib.Buffer
import VirtualSoC.Lib.Bytes
import VirtualSoC.Cpu.Rv32Defs

/-!
# The memory targets

The part of a TLM generic payload that the platform uses, and the two memories behind the bus:
`Memory` of `mem/memory.cpp` and `BootROM` of `mem/bootrom.cpp`.

A transport returns `none` where the program copies outside a buffer, which is undefined behaviour.
Where a transaction overruns a memory (`Memory.Overruns`) the program reports an error before it
answers; `SC_REPORT_ERROR` throws, unless the simulation has changed its actions.  The transports
give the answer of a report that returns, so what is said of such a transaction holds of a
simulation that goes on after it.  The delay argument and the latencies are left out.
-/

namespace VirtualSoC

/-! ### The payload -/

/-- `tlm_command`. -/
inductive TlmCommand | read | write | ignore
  deriving DecidableEq, Repr

/-- `tlm_response_status`, the values that the platform uses. -/
inductive TlmResponse | ok | incomplete | addressError | commandError | burstError
  deriving DecidableEq, Repr

/-- `tlm_generic_payload`, whose data pointer points to a buffer of `n` bytes. -/
structure Payload (n : ℕ) where
  command : TlmCommand
  address : BitVec 64
  data : Vector Byte n
  dataLength : Word
  response : TlmResponse := .incomplete

/-- `uint8_t buf[4] = {}`, or the bytes of `uint32_t v = 0`. -/
def zeroBuf : Vector Byte 4 := .replicate 4 0

namespace Payload

variable {n : ℕ} (trans : Payload n)

/-- `memcpy(&val, ptr, 4)`. -/
def getWord : Option Word := (Buffer.copy zeroBuf 0 trans.data 0 4).map Bytes.ofLE

/-- `memcpy(ptr, &val, 4)`. -/
def setWord (val : Word) : Option (Payload n) :=
  (Buffer.copy trans.data 0 (Bytes.toLE val 4) 0 4).map fun data => { trans with data }

theorem exists_getWord (h : 4 ≤ n) : ∃ v, trans.getWord = some v := by
  obtain ⟨buf, hbuf⟩ := Buffer.exists_copy zeroBuf trans.data (i := 0) (j := 0) (k := 4) le_rfl
    (by omega)
  exact ⟨_, by rw [getWord, hbuf]; rfl⟩

theorem exists_setWord (val : Word) (h : 4 ≤ n) : ∃ t, trans.setWord val = some t := by
  obtain ⟨buf, hbuf⟩ := Buffer.exists_copy trans.data (Bytes.toLE val 4) (i := 0) (j := 0) (k := 4)
    (by omega) le_rfl
  exact ⟨_, by rw [setWord, hbuf]; rfl⟩

variable {trans} {val : Word}

theorem getWord_of_setWord {t : Payload n} (h : trans.setWord val = some t) :
    t.getWord = some val := by
  obtain ⟨data, hcopy, rfl⟩ := Option.map_eq_some_iff.1 h
  rw [getWord, Buffer.copy_copy hcopy, Buffer.copy_self, Option.map_some,
    Bytes.ofLE_toLE val (by decide)]

end Payload

/-- The access that a DMI grant allows. -/
inductive DmiAccess | read | readWrite
  deriving DecidableEq, Repr

/-- `tlm_dmi`; the pointer points to the first byte of the target that grants. -/
structure TlmDmi where
  startAddress : BitVec 64
  endAddress : BitVec 64
  access : DmiAccess
  deriving DecidableEq, Repr

/-! ### Memory -/

/-- Unified RAM: `mem_` has `size_` bytes. -/
structure Memory where
  size : Word
  mem : Vector Byte size.toNat

namespace Memory

variable {n : ℕ}

/-- The constructor: a memory of zeros. -/
def new (size : Word) : Memory := ⟨size, .replicate _ 0⟩

/-- The transaction runs past the end of the memory, and is reported; the sum wraps around. -/
def Overruns (m : Memory) (trans : Payload n) : Prop :=
  trans.address.setWidth 32 + trans.dataLength > m.size

/-- `Memory::b_transport`; the report of an overrun is taken to return. -/
def bTransport (m : Memory) (trans : Payload n) : Option (Payload n × Memory) :=
  let addr : Word := trans.address.setWidth 32
  let len := trans.dataLength
  if addr + len > m.size then some ({ trans with response := .addressError }, m)
  else
    match trans.command with
    | .read => do
      let data ← Buffer.copy trans.data 0 m.mem addr.toNat len.toNat
      return ({ trans with data, response := .ok }, m)
    | .write => do
      let mem ← Buffer.copy m.mem addr.toNat trans.data 0 len.toNat
      return ({ trans with response := .ok }, { m with mem })
    | .ignore => return ({ trans with response := .commandError }, m)

/-- `Memory::get_direct_mem_ptr`: read/write access to the entire memory region. -/
def getDirectMemPtr (m : Memory) : TlmDmi :=
  ⟨0, (m.size - 1).setWidth 64, .readWrite⟩

theorem bTransport_read (m : Memory) (trans : Payload n) (hc : trans.command = .read)
    (h : (trans.address.setWidth 32).toNat + trans.dataLength.toNat ≤ m.size.toNat) :
    m.bTransport trans =
      (Buffer.copy trans.data 0 m.mem (trans.address.setWidth 32).toNat
        trans.dataLength.toNat).map fun data => ({ trans with data, response := .ok }, m) := by
  have hle : ¬ trans.address.setWidth 32 + trans.dataLength > m.size := by
    rw [gt_iff_lt, BitVec.lt_def, BitVec.toNat_add]
    omega
  rw [bTransport, if_neg hle, hc]
  exact (Option.map_eq_bind ..).symm

theorem bTransport_write (m : Memory) (trans : Payload n) (hc : trans.command = .write)
    (h : (trans.address.setWidth 32).toNat + trans.dataLength.toNat ≤ m.size.toNat) :
    m.bTransport trans =
      (Buffer.copy m.mem (trans.address.setWidth 32).toNat trans.data 0
        trans.dataLength.toNat).map fun mem =>
          ({ trans with response := .ok }, { m with mem }) := by
  have hle : ¬ trans.address.setWidth 32 + trans.dataLength > m.size := by
    rw [gt_iff_lt, BitVec.lt_def, BitVec.toNat_add]
    omega
  rw [bTransport, if_neg hle, hc]
  exact (Option.map_eq_bind ..).symm

theorem bTransport_of_overruns {m : Memory} {trans : Payload n} (h : m.Overruns trans) :
    m.bTransport trans = some ({ trans with response := .addressError }, m) :=
  if_pos h

/-- A transaction past the end of the memory, where the sum of address and length does not wrap. -/
theorem overruns_of_lt {m : Memory} {trans : Payload n}
    (h : m.size.toNat < (trans.address.setWidth 32).toNat + trans.dataLength.toNat)
    (hwrap : (trans.address.setWidth 32).toNat + trans.dataLength.toNat < 2 ^ 32) :
    m.Overruns trans := by
  rw [Overruns, gt_iff_lt, BitVec.lt_def, BitVec.toNat_add, Nat.mod_eq_of_lt hwrap]
  exact h

theorem size_of_bTransport {m m' : Memory} {trans trans' : Payload n}
    (h : m.bTransport trans = some (trans', m')) : m'.size = m.size := by
  unfold bTransport at h
  dsimp only at h
  split at h
  · cases h
    rfl
  · split at h
    · obtain ⟨data, -, hd⟩ := Option.bind_eq_some_iff.1 h
      cases hd
      rfl
    · obtain ⟨mem, -, hd⟩ := Option.bind_eq_some_iff.1 h
      cases hd
      rfl
    · cases h
      rfl

end Memory

/-! ### Boot ROM -/

/-- Read-only memory, filled before the simulation starts. -/
structure BootRom where
  size : Word
  mem : Vector Byte size.toNat

namespace BootRom

variable {n : ℕ}

/-- `BootROM::b_transport`: writes are rejected, and the reports are taken to return. -/
def bTransport (m : BootRom) (trans : Payload n) : Option (Payload n × BootRom) :=
  let addr : Word := trans.address.setWidth 32
  let len := trans.dataLength
  if addr + len > m.size then some ({ trans with response := .addressError }, m)
  else
    match trans.command with
    | .read => do
      let data ← Buffer.copy trans.data 0 m.mem addr.toNat len.toNat
      return ({ trans with data, response := .ok }, m)
    | .write => return ({ trans with response := .commandError }, m)
    | .ignore => return ({ trans with response := .commandError }, m)

/-- `BootROM::get_direct_mem_ptr`: DMI granted with read-only permission. -/
def getDirectMemPtr (m : BootRom) : TlmDmi :=
  ⟨0, (m.size - 1).setWidth 64, .read⟩

theorem eq_of_bTransport {m m' : BootRom} {trans trans' : Payload n}
    (h : m.bTransport trans = some (trans', m')) : m' = m := by
  unfold bTransport at h
  dsimp only at h
  split at h
  · cases h
    rfl
  · split at h
    · obtain ⟨data, -, hd⟩ := Option.bind_eq_some_iff.1 h
      cases hd
      rfl
    · cases h
      rfl
    · cases h
      rfl

end BootRom

end VirtualSoC
