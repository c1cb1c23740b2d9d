import VirtualSoC.Bus.Registers
import VirtualSoC.Bus.TlmBus
import VirtualSoC.Sd.SdCardModel

/-!
# The SD controller

`SDCtrl` of `sd/sd_ctrl.h` and `sd/sd_ctrl.cpp`, with `on_irq` connected: the registers, and the
thread that moves blocks of the card over the bus.

The kernel resumes the thread when its start event has been notified; a zero-time notification
that is pending absorbs further ones.  The thread runs without waiting from one `wait` to the next.
Here each round of its loop is a step of its own.
-/

namespace VirtualSoC

/-- The registers of the controller, the card, and the calls of `on_irq`. -/
structure SDCtrl where
  cmd : Word := 0
  arg : Word := 0
  dataAddr : Word := 0
  burstLen : Word := 1
  status : Word := 0
  /-- A notification of `start_event_` is pending. -/
  startEvent : Bool := false
  /-- What `set_card` has set. -/
  card : Option SDCardModel := none
  /-- The calls of `on_irq`, in order. -/
  irqCalls : List Bool := []

namespace SDCtrl

/-- READ_MULTIPLE_BLOCK. -/
def cmd18 : Word := 18

/-- A transfer is under way. -/
def statusBusy : Word := 1
/-- The transfer has ended. -/
def statusDone : Word := 2
/-- The transfer has failed. -/
def statusError : Word := 4

variable (c : SDCtrl) {n : ℕ}

/-- The value read and the next state; `none` where no register is. -/
def access (isWrite : Bool) (addr val : Word) : Option (Word × SDCtrl) :=
  if addr = 0x00 then
    if isWrite then some (val, { c with cmd := val }) else some (c.cmd, c)
  else if addr = 0x04 then
    if isWrite then some (val, { c with arg := val }) else some (c.arg, c)
  else if addr = 0x08 then
    if isWrite then some (val, { c with dataAddr := val }) else some (c.dataAddr, c)
  else if addr = 0x0C then
    if isWrite then some (val, { c with burstLen := val }) else some (c.burstLen, c)
  else if addr = 0x10 then
    if isWrite then some (val, { c with status := 0, irqCalls := c.irqCalls ++ [false] })
    else some (c.status, c)
  else if addr = 0x14 then
    -- nothing is stored, so a read finds 0
    if isWrite then some (val, { c with startEvent := c.startEvent ∨ val &&& 1 ≠ 0 })
    else some (0, c)
  else none

/-- `SDCtrl::b_transport`. -/
def bTransport (trans : Payload n) : Option (Payload n × SDCtrl) :=
  regTransport c.access c trans

/-- The number of blocks of the command. -/
def blocks : Word := if c.cmd = cmd18 then c.burstLen else 1

/-- `card_ && card_->read_block(block_addr, buf)`: whether it succeeded, the buffer, and the
controller. -/
def readBlock (blockAddr : Word) (buf : SdBlock) : Bool × SdBlock × SDCtrl :=
  match c.card with
  | none => (false, buf, c)
  | some card =>
    let (read, buf, card) := card.readBlock blockAddr buf
    (read, buf, { c with card := some card })

end SDCtrl

/-! ### The thread -/

/-- Where `transfer_thread` is: at its `wait`, or at the head of its loop with these locals. -/
inductive SdThread
  | waiting
  | looping (i blocks blockAddr dest : Word) (ok : Bool)
  deriving DecidableEq, Repr

/-- The controller with its thread, and the targets of the bus. -/
structure SdOnBus (δ : Type*) where
  ctrl : SDCtrl
  thread : SdThread := .waiting
  targets : ℕ → Target δ

namespace SdOnBus

variable {δ : Type*}

/-- The payload of the write of a block. -/
def payload (dest : Word) (buf : SdBlock) : Payload sdBlockSize where
  command := .write
  address := dest.setWidth 64
  data := buf
  dataLength := 512

/-- The end of a transfer. -/
def finish (s : SdOnBus δ) (ok : Bool) : SdOnBus δ :=
  { s with
    ctrl := { s.ctrl with
      status := if ok then SDCtrl.statusDone else SDCtrl.statusDone ||| SDCtrl.statusError
      irqCalls := s.ctrl.irqCalls ++ [true] }
    thread := .waiting }

/-- `transfer_thread` from its `wait` into the loop, or one round of the loop.  The array `buf` is
not initialised: its bytes are an input. -/
def resume [TlmDevice δ] (bus : TlmBus) (s : SdOnBus δ) (buf : SdBlock) : Option (SdOnBus δ) :=
  match s.thread with
  | .waiting =>
    if s.ctrl.startEvent then
      some { s with
        ctrl := { s.ctrl with startEvent := false, status := SDCtrl.statusBusy }
        thread := .looping 0 s.ctrl.blocks s.ctrl.arg s.ctrl.dataAddr true }
    else some s
  | .looping i blocks blockAddr dest ok =>
    if i < blocks ∧ ok then
      let (read, buf, ctrl) := s.ctrl.readBlock (blockAddr + i) buf
      if read then do
        let (answer, targets) ← bus.bTransport s.targets (payload dest buf)
        -- the loop ends at its head if the bus has refused the block
        return {
          ctrl
          thread := .looping (i + 1) blocks blockAddr (dest + 512) (answer.response = .ok)
          targets }
      else some ({ s with ctrl }.finish false)
    else some (s.finish ok)

end SdOnBus

end VirtualSoC
