import VirtualSoC.Bus.Registers
import VirtualSoC.Lib.Machine

/-!
# The DMA engine

`DMAEngine` of `dma/dma_engine.cpp`, with `on_irq` connected: the registers and the thread that
copies.

The kernel resumes the thread when its start event has been notified; a zero-time notification
that is pending absorbs further ones.  The thread runs without waiting from one `wait` to the next.
Here each burst of its loop is a step of its own, so that register accesses by the transfer itself
fall in between, and the answers of the bus to the burst are inputs of the step.
-/

namespace VirtualSoC

/-- The registers of the engine. -/
structure DmaEngine where
  srcAddr : Word := 0
  dstAddr : Word := 0
  byteCount : Word := 0
  ctrl : Word := 0
  status : Word := 0
  /-- A notification of `start_event_` is pending. -/
  startEvent : Bool := false
  /-- The level last driven on `on_irq`, low before the first call. -/
  irq : Bool := false
  deriving DecidableEq, Repr

namespace DmaEngine

/-- The bytes of a burst. -/
def burstSize : Word := 256

variable (e : DmaEngine) {n : ℕ}

/-- The value read and the next state; `none` where no register is. -/
def access (isWrite : Bool) (addr val : Word) : Option (Word × DmaEngine) :=
  if addr = 0x00 then
    if isWrite then some (val, { e with srcAddr := val }) else some (e.srcAddr, e)
  else if addr = 0x04 then
    if isWrite then some (val, { e with dstAddr := val }) else some (e.dstAddr, e)
  else if addr = 0x08 then
    if isWrite then some (val, { e with byteCount := val }) else some (e.byteCount, e)
  else if addr = 0x0C then
    if isWrite then
      -- a notification that is pending already absorbs this one
      some (val, { e with ctrl := val, startEvent := e.startEvent ∨ val &&& 1 ≠ 0 })
    else some (e.ctrl, e)
  else if addr = 0x10 then
    if isWrite then some (val, { e with status := 0, irq := false }) else some (e.status, e)
  else none

/-- `DMAEngine::b_transport`. -/
def bTransport (trans : Payload n) : Option (Payload n × DmaEngine) :=
  regTransport e.access e trans

end DmaEngine

/-! ### The thread -/

/-- Where `dma_thread` is: at its `wait`, or in the loop over the bursts with these locals. -/
inductive DmaThread
  | waiting
  | copying (remaining src dst : Word)
  deriving DecidableEq, Repr

/-- The engine and its thread. -/
structure Dma where
  engine : DmaEngine := {}
  thread : DmaThread := .waiting
  deriving DecidableEq, Repr

/-- A transaction of the engine. -/
structure DmaAccess where
  command : TlmCommand
  address : Word
  dataLength : Word
  deriving DecidableEq, Repr

namespace Dma

variable (d : Dma)

/-- The end of a transfer. -/
def finish (ok : Bool) : Dma where
  engine := { d.engine with
    status := if ok then 2 else 6
    irq := if d.engine.ctrl &&& 2 ≠ 0 then true else d.engine.irq }
  thread := .waiting

/-- `dma_thread` from its `wait` into the loop, or one round of the loop, in which the bus answers
`rresp` to the read and `wresp` to the write. -/
def resume (rresp wresp : TlmResponse) : Dma × List DmaAccess :=
  match d.thread with
  | .waiting =>
    if d.engine.startEvent then
      ({ engine := { d.engine with startEvent := false, status := 1 }
         -- the parameters are read now, not when the start was written
         thread := .copying d.engine.byteCount d.engine.srcAddr d.engine.dstAddr }, [])
    else (d, [])
  | .copying remaining src dst =>
    if remaining > 0 then
      let chunk := if DmaEngine.burstSize < remaining then DmaEngine.burstSize else remaining
      let rtrans : DmaAccess := ⟨.read, src, chunk⟩
      let wtrans : DmaAccess := ⟨.write, dst, chunk⟩
      if rresp ≠ .ok then (d.finish false, [rtrans])
      else if wresp ≠ .ok then (d.finish false, [rtrans, wtrans])
      else ({ d with thread := .copying (remaining - chunk) (src + chunk) (dst + chunk) },
        [rtrans, wtrans])
    else (d.finish true, [])

end Dma

/-- What acts on the engine. -/
inductive DmaInput
  /-- A register access; a word fits into its buffer. -/
  | transport {n : ℕ} (payload : Payload n) (fits : 4 ≤ n)
  /-- The kernel runs the thread. -/
  | resume (rresp wresp : TlmResponse)

/-- The engine; the outputs are the answers to the register accesses and its transactions. -/
def dmaMachine : Machine Dma DmaInput ((Σ n, Payload n) ⊕ List DmaAccess) where
  step
    | d, .transport payload fits =>
      let answer := (d.engine.bTransport payload).get (isSome_regTransport _ _ fits)
      ({ d with engine := answer.2 }, .inl ⟨_, answer.1⟩)
    | d, .resume rresp wresp =>
      let next := d.resume rresp wresp
      (next.1, .inr next.2)

end VirtualSoC
