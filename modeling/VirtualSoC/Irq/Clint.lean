import VirtualSoC.Bus.Registers
import VirtualSoC.Lib.Halves
import VirtualSoC.Lib.Machine

/-!
# The CLINT

`CLINT` of `irq/clint.cpp`, with `on_timer_irq` and `on_sw_irq` connected: the counter with its
compare register, and the software interrupt.  A tick is one round of `tick_thread`, which the
kernel resumes after each tick period.
-/

namespace VirtualSoC

/-- The timer and the software interrupt of the hart. -/
structure Clint where
  mtime : BitVec 64 := 0
  mtimecmp : BitVec 64 := 0xFFFFFFFFFFFFFFFF
  msip : Word := 0
  /-- The level last driven on `on_timer_irq`, low before the first call. -/
  timerIrq : Bool := false
  /-- The level last driven on `on_sw_irq`, low before the first call. -/
  swIrq : Bool := false
  deriving DecidableEq, Repr

namespace Clint

variable (c : Clint) {n : ℕ}

/-- The line is driven with the comparison. -/
def updateTimerIrq : Clint := { c with timerIrq := c.mtime ≥ c.mtimecmp }

/-- `tick_thread` after its `wait`. -/
def tick : Clint := updateTimerIrq { c with mtime := c.mtime + 1 }

/-- The value read and the next state; `none` where no register is. -/
def access (isWrite : Bool) (addr val : Word) : Option (Word × Clint) :=
  if addr = 0x0000 then
    if isWrite then some (val, { c with msip := val &&& 1, swIrq := val &&& 1 ≠ 0 })
    else some (c.msip, c)
  else if addr = 0x4000 then
    if isWrite then some (val, updateTimerIrq { c with mtimecmp := Halves.setLo c.mtimecmp val })
    else some (Halves.lo c.mtimecmp, c)
  else if addr = 0x4004 then
    if isWrite then some (val, updateTimerIrq { c with mtimecmp := Halves.setHi c.mtimecmp val })
    else some (Halves.hi c.mtimecmp, c)
  else if addr = 0xBFF8 then
    if isWrite then some (val, updateTimerIrq { c with mtime := Halves.setLo c.mtime val })
    else some (Halves.lo c.mtime, c)
  else if addr = 0xBFFC then
    if isWrite then some (val, updateTimerIrq { c with mtime := Halves.setHi c.mtime val })
    else some (Halves.hi c.mtime, c)
  else none

/-- `CLINT::b_transport`: only accesses of 4 bytes are supported. -/
def bTransport (trans : Payload n) : Option (Payload n × Clint) :=
  if trans.dataLength ≠ 4 then some ({ trans with response := .burstError }, c)
  else regTransport c.access c trans

theorem isSome_bTransport (trans : Payload n) (fits : 4 ≤ n) : (c.bTransport trans).isSome := by
  rw [bTransport]
  split
  · rfl
  · exact isSome_regTransport _ _ fits

end Clint

/-- What acts on a device with a tick thread. -/
inductive TickInput
  | tick
  /-- A register access; a word fits into its buffer. -/
  | transport {n : ℕ} (payload : Payload n) (fits : 4 ≤ n)

/-- The CLINT; the outputs are the answers to the register accesses. -/
def clintMachine : Machine Clint TickInput (Option (Σ n, Payload n)) where
  step
    | c, .tick => (c.tick, none)
    | c, .transport payload fits =>
      let answer := (c.bTransport payload).get (c.isSome_bTransport payload fits)
      (answer.2, some ⟨_, answer.1⟩)

end VirtualSoC
