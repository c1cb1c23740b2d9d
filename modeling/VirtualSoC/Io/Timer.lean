import VirtualSoC.Irq.Clint

/-!
# The timer

`Timer` of `io/timer.cpp`, with `on_irq` connected.
-/

namespace VirtualSoC

/-- The counter, its compare register and its control. -/
structure Timer where
  time : BitVec 64 := 0
  cmp : BitVec 64 := 0xFFFFFFFFFFFFFFFF
  ctrl : Word := 0
  /-- The level last driven on `on_irq`, low before the first call. -/
  irq : Bool := false
  deriving DecidableEq, Repr

namespace Timer

variable (t : Timer) {n : ℕ}

/-- The line is driven with the comparison while the timer is enabled. -/
def updateIrq : Timer := { t with irq := t.ctrl &&& 1 ≠ 0 ∧ t.time ≥ t.cmp }

/-- `tick_thread` after its `wait`. -/
def tick : Timer := updateIrq { t with time := t.time + 1 }

/-- The value read and the next state; `none` where no register is. -/
def access (isWrite : Bool) (addr val : Word) : Option (Word × Timer) :=
  if addr = 0x00 then
    if isWrite then some (val, updateIrq { t with time := Halves.setLo t.time val })
    else some (Halves.lo t.time, t)
  else if addr = 0x04 then
    if isWrite then some (val, updateIrq { t with time := Halves.setHi t.time val })
    else some (Halves.hi t.time, t)
  else if addr = 0x08 then
    if isWrite then some (val, updateIrq { t with cmp := Halves.setLo t.cmp val })
    else some (Halves.lo t.cmp, t)
  else if addr = 0x0C then
    if isWrite then some (val, updateIrq { t with cmp := Halves.setHi t.cmp val })
    else some (Halves.hi t.cmp, t)
  else if addr = 0x10 then
    if isWrite then some (val, updateIrq { t with ctrl := val }) else some (t.ctrl, t)
  else none

/-- `Timer::b_transport`: every access is one of 4 bytes. -/
def bTransport (trans : Payload n) : Option (Payload n × Timer) :=
  regTransport t.access t trans

end Timer

/-- The timer; the outputs are the answers to the register accesses. -/
def timerMachine : Machine Timer TickInput (Option (Σ n, Payload n)) where
  step
    | t, .tick => (t.tick, none)
    | t, .transport payload fits =>
      let answer := (t.bTransport payload).get (isSome_regTransport _ _ fits)
      (answer.2, some ⟨_, answer.1⟩)

end VirtualSoC
