import VirtualSoC.Bus.Registers
import VirtualSoC.Lib.Machine

/-!
# The GPIO

`GPIO` of `io/gpio.cpp`, with `on_irq` connected.
-/

namespace VirtualSoC

/-- The registers of the pins. -/
structure Gpio where
  direction : Word := 0
  output : Word := 0
  input : Word := 0
  irqMask : Word := 0
  irqStatus : Word := 0
  /-- The level last driven on `on_irq`, low before the first call. -/
  irq : Bool := false
  deriving DecidableEq, Repr

namespace Gpio

variable (g : Gpio) {n : ℕ}

/-- The line is driven with the masked status. -/
def checkIrq : Gpio := { g with irq := g.irqStatus &&& g.irqMask ≠ 0 }

/-- The host shoves a new state of the input pins here. -/
def setInput (pins : Word) : Gpio :=
  let changed := g.input ^^^ pins
  checkIrq { g with input := pins, irqStatus := g.irqStatus ||| (changed &&& g.irqMask) }

/-- The value read and the next state; `none` where no register is. -/
def access (isWrite : Bool) (addr val : Word) : Option (Word × Gpio) :=
  if addr = 0x00 then
    if isWrite then some (val, { g with direction := val }) else some (g.direction, g)
  else if addr = 0x04 then
    if isWrite then some (val, { g with output := val }) else some (g.output, g)
  else if addr = 0x08 then some (g.input, g)
  else if addr = 0x0C then
    if isWrite then some (val, checkIrq { g with irqMask := val }) else some (g.irqMask, g)
  else if addr = 0x10 then
    -- write 1 to clear
    if isWrite then some (val, checkIrq { g with irqStatus := g.irqStatus &&& ~~~val })
    else some (g.irqStatus, g)
  else none

/-- `GPIO::b_transport`. -/
def bTransport (trans : Payload n) : Option (Payload n × Gpio) :=
  regTransport g.access g trans

end Gpio

/-- What acts on the GPIO. -/
inductive GpioInput
  | setInput (pins : Word)
  /-- A register access; a word fits into its buffer. -/
  | transport {n : ℕ} (payload : Payload n) (fits : 4 ≤ n)

/-- The GPIO; the outputs are the answers to the register accesses. -/
def gpioMachine : Machine Gpio GpioInput (Option (Σ n, Payload n)) where
  step
    | g, .setInput pins => (g.setInput pins, none)
    | g, .transport payload fits =>
      let answer := (g.bTransport payload).get (isSome_regTransport _ _ fits)
      (answer.2, some ⟨_, answer.1⟩)

end VirtualSoC
