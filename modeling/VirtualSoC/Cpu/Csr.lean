import Mathlib.Data.Nat.Notation
import VirtualSoC.Cpu.Rv32Defs

/-!
# The CSR file

`CSRFile` of `cpu/csr.h` and `cpu/csr.cpp`.  A refused access is `none`.  A successful write also
tells whether it invoked the `on_satp_write` callback; the callback itself belongs to whoever
connected it.
-/

namespace VirtualSoC

/-- The control and status registers. -/
structure CSRFile where
  mstatus : Word := 0
  misa : Word := misaValue
  medeleg : Word := 0
  mideleg : Word := 0
  mie : Word := 0
  mtvec : Word := 0
  mcounteren : Word := 0
  mscratch : Word := 0
  mepc : Word := 0
  mcause : Word := 0
  mtval : Word := 0
  stvec : Word := 0
  scounteren : Word := 0
  sscratch : Word := 0
  sepc : Word := 0
  scause : Word := 0
  stval : Word := 0
  satp : Word := 0
  mcycle : Word := 0
  mcycleh : Word := 0
  minstret : Word := 0
  minstreth : Word := 0
  /-- Bits driven by hardware (CLINT and PLIC). -/
  hwMip : Word := 0
  /-- Bits writable by software (SSIP only). -/
  swMip : Word := 0
  deriving DecidableEq, Repr

/-- The writable `mstatus` bits. -/
def mstatusWriteMask : Word :=
  1 <<< 1 ||| 1 <<< 3 ||| 1 <<< 5 ||| 1 <<< 7 ||| 1 <<< 8 ||| 3 <<< 11 |||
    1 <<< 17 ||| 1 <<< 18 ||| 1 <<< 19 ||| 1 <<< 20 ||| 1 <<< 21 ||| 1 <<< 22

/-- The `mstatus` bits that S-mode sees. -/
def sstatusMask : Word := 1 <<< 1 ||| 1 <<< 5 ||| 1 <<< 8 ||| 1 <<< 18 ||| 1 <<< 19

/-- The `mie` and `mip` bits that S-mode sees. -/
def sIntMask : Word := 1 <<< 1 ||| 1 <<< 5 ||| 1 <<< 9

namespace CSRFile

variable (c : CSRFile)

/-- `mip` as software reads it. -/
def getMip : Word := c.swMip ||| c.hwMip

/-- Drive a hardware bit of `mip`. -/
def setHwBit (bit : ℕ) (v : Bool) : CSRFile :=
  if v then { c with hwMip := c.hwMip ||| ((1 : Word) <<< bit) }
  else { c with hwMip := c.hwMip &&& ~~~((1 : Word) <<< bit) }

/-- `mcycle` counts, and carries into `mcycleh`. -/
def incMcycle : CSRFile :=
  let mcycle := c.mcycle + 1
  { c with mcycle, mcycleh := if mcycle = 0 then c.mcycleh + 1 else c.mcycleh }

/-- `minstret` counts, and carries into `minstreth`. -/
def incMinstret : CSRFile :=
  let minstret := c.minstret + 1
  { c with minstret, minstreth := if minstret = 0 then c.minstreth + 1 else c.minstreth }

/-- Bits 9:8 of the address are the lowest privilege that may access it. -/
def privOk (addr : BitVec 16) (priv : Priv) : Bool :=
  ((addr >>> 8) &&& 0x3).setWidth 8 ≤ priv

/-- Bits 11:10 of the address mark the read-only quadrant. -/
def isReadOnly (addr : BitVec 16) : Bool := (addr >>> 10) &&& 0x3 = 0x3

/-- The `switch` of `CSRFile::read`. -/
def readReg (addr : BitVec 16) : Option Word :=
  if addr = csrMvendorid then some 0
  else if addr = csrMarchid then some 0
  else if addr = csrMimpid then some 0
  else if addr = csrMhartid then some 0
  else if addr = csrMstatus then some c.mstatus
  else if addr = csrMisa then some c.misa
  else if addr = csrMedeleg then some c.medeleg
  else if addr = csrMideleg then some c.mideleg
  else if addr = csrMie then some c.mie
  else if addr = csrMtvec then some c.mtvec
  else if addr = csrMcounteren then some c.mcounteren
  else if addr = csrMscratch then some c.mscratch
  else if addr = csrMepc then some c.mepc
  else if addr = csrMcause then some c.mcause
  else if addr = csrMtval then some c.mtval
  else if addr = csrMip then some c.getMip
  else if addr = csrMcycle then some c.mcycle
  else if addr = csrMcycleh then some c.mcycleh
  else if addr = csrMinstret then some c.minstret
  else if addr = csrMinstreth then some c.minstreth
  else if addr = csrCycle then some c.mcycle
  else if addr = csrCycleh then some c.mcycleh
  else if addr = csrInstret then some c.minstret
  else if addr = csrInstreth then some c.minstreth
  else if addr = csrTime then some c.mcycle
  else if addr = csrTimeh then some c.mcycleh
  else if addr = csrSstatus then some (c.mstatus &&& sstatusMask)
  else if addr = csrSie then some (c.mie &&& sIntMask)
  else if addr = csrStvec then some c.stvec
  else if addr = csrScounteren then some c.scounteren
  else if addr = csrSscratch then some c.sscratch
  else if addr = csrSepc then some c.sepc
  else if addr = csrScause then some c.scause
  else if addr = csrStval then some c.stval
  else if addr = csrSip then some (c.getMip &&& sIntMask)
  else if addr = csrSatp then some c.satp
  else none

/-- `CSRFile::read`. -/
def read (addr : BitVec 16) (priv : Priv) : Option Word :=
  if !privOk addr priv then none else c.readReg addr

/-- The legal `mstatus` value for a written one: unwritable bits are dropped and the reserved
`MPP` value 2 becomes U. -/
def legalMstatus (val : Word) : Word :=
  let mstatus := val &&& mstatusWriteMask
  if (mstatus >>> 11) &&& 0x3 = 2 then mstatus &&& ~~~((3 : Word) <<< 11) else mstatus

/-- The `switch` of `CSRFile::write`. -/
def writeReg (addr : BitVec 16) (val : Word) : Option CSRFile :=
  if addr = csrMstatus then some { c with mstatus := legalMstatus val }
  else if addr = csrMisa then some c -- writes ignored
  else if addr = csrMedeleg then some { c with medeleg := val }
  else if addr = csrMideleg then some { c with mideleg := val }
  else if addr = csrMie then some { c with mie := val }
  else if addr = csrMtvec then some { c with mtvec := val }
  else if addr = csrMcounteren then some { c with mcounteren := val }
  else if addr = csrMscratch then some { c with mscratch := val }
  else if addr = csrMepc then some { c with mepc := val &&& ~~~0x1 }
  else if addr = csrMcause then some { c with mcause := val }
  else if addr = csrMtval then some { c with mtval := val }
  else if addr = csrMip then some { c with swMip := val &&& (1 <<< 1) }
  else if addr = csrMcycle then some { c with mcycle := val }
  else if addr = csrMcycleh then some { c with mcycleh := val }
  else if addr = csrMinstret then some { c with minstret := val }
  else if addr = csrMinstreth then some { c with minstreth := val }
  else if addr = csrSstatus then
    some { c with mstatus := (c.mstatus &&& ~~~sstatusMask) ||| (val &&& sstatusMask) }
  else if addr = csrSie then
    some { c with mie := (c.mie &&& ~~~sIntMask) ||| (val &&& sIntMask) }
  else if addr = csrStvec then some { c with stvec := val }
  else if addr = csrScounteren then some { c with scounteren := val }
  else if addr = csrSscratch then some { c with sscratch := val }
  else if addr = csrSepc then some { c with sepc := val &&& ~~~0x1 }
  else if addr = csrScause then some { c with scause := val }
  else if addr = csrStval then some { c with stval := val }
  else if addr = csrSip then some { c with swMip := val &&& (1 <<< 1) }
  else if addr = csrSatp then some { c with satp := val }
  else none

/-- `CSRFile::write`: the new file, and whether `on_satp_write` was invoked. -/
def write (addr : BitVec 16) (priv : Priv) (val : Word) : Option (CSRFile × Bool) :=
  if !privOk addr priv then none
  else if isReadOnly addr then none
  else (c.writeReg addr val).map fun c' => (c', addr = csrSatp)

end CSRFile

end VirtualSoC
