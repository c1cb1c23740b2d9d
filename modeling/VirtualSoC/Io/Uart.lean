import VirtualSoC.Bus.Memory
import VirtualSoC.Lib.Machine

/-!
# The UART

`UART` of `io/uart.cpp`, with `on_irq` and `on_tx` connected: the receive queue, the interrupt
line and the register interface.

A transport copies as many bytes between the payload and its local word as the payload's length
says; it returns `none` where that is outside one of the two.
-/

namespace VirtualSoC

/-- The receive FIFO and the registers. -/
structure Uart where
  rxFifo : List Byte := []
  ier : Byte := 0
  lcr : Byte := 0
  mcr : Byte := 0
  scr : Byte := 0
  txEmpty : Bool := true
  /-- The level last driven on `on_irq`, low before the first call. -/
  irq : Bool := false
  /-- The bytes handed to `on_tx`. -/
  sent : List Byte := []
  deriving DecidableEq, Repr

namespace Uart

/-- The capacity of the receive FIFO. -/
def fifoSize : ℕ := 16

/-! ### Register offsets and bits -/

/-- Receiver buffer and transmitter holding register. -/
def regRbrThr : Word := 0
/-- Interrupt enable. -/
def regIer : Word := 1
/-- Interrupt identification and FIFO control. -/
def regIirFcr : Word := 2
/-- Line control. -/
def regLcr : Word := 3
/-- Modem control. -/
def regMcr : Word := 4
/-- Line status. -/
def regLsr : Word := 5
/-- Modem status. -/
def regMsr : Word := 6
/-- Scratch. -/
def regScr : Word := 7

/-- Received data. -/
def ierRxAvail : Byte := 0x01
/-- Transmitter empty. -/
def ierTxEmpty : Byte := 0x02

/-- Active-low pending bit. -/
def iirNoInt : Byte := 0x01
/-- The transmitter is empty. -/
def iirTxEmpty : Byte := 0x02
/-- Data has been received. -/
def iirRxAvail : Byte := 0x04
/-- FIFOs enabled indicator. -/
def iirFifoEn : Byte := 0xC0

/-- Data ready. -/
def lsrDr : Byte := 0x01
/-- Holding register empty. -/
def lsrThre : Byte := 0x20
/-- Transmitter empty. -/
def lsrTemt : Byte := 0x40

/-! ### Operations -/

variable (u : Uart)

/-- The line is high while an enabled cause is there. -/
def updateIrq : Uart :=
  let fire := false
  let fire := if u.ier &&& ierRxAvail ≠ 0 ∧ ¬ u.rxFifo.isEmpty then true else fire
  let fire := if u.ier &&& ierTxEmpty ≠ 0 ∧ u.txEmpty then true else fire
  { u with irq := fire }

/-- Shove a byte into the RX FIFO; a full FIFO drops it. -/
def pushRx (byte : Byte) : Uart :=
  updateIrq (if u.rxFifo.length < fifoSize then { u with rxFifo := u.rxFifo ++ [byte] } else u)

/-- What an IIR read reports: the highest priority pending interrupt. -/
def iir : Byte :=
  if u.ier &&& ierRxAvail ≠ 0 ∧ ¬ u.rxFifo.isEmpty then iirRxAvail ||| iirFifoEn
  else if u.ier &&& ierTxEmpty ≠ 0 ∧ u.txEmpty then iirTxEmpty ||| iirFifoEn
  else iirNoInt ||| iirFifoEn

/-- What an LSR read reports: the transmitter is always ready. -/
def lsr : Byte :=
  let lsr := lsrThre ||| lsrTemt
  if ¬ u.rxFifo.isEmpty then lsr ||| lsrDr else lsr

/-- The value read and the next state; `none` where no register is. -/
def access (isWrite : Bool) (reg val : Word) : Option (Word × Uart) :=
  if reg = regRbrThr then
    if isWrite then
      -- `tx_empty_` is false only during the callback
      some (val, updateIrq { u with sent := u.sent ++ [val.setWidth 8], txEmpty := true })
    else
      match u.rxFifo with
      | [] => some (0, u.updateIrq)
      | byte :: rest => some (byte.setWidth 32, updateIrq { u with rxFifo := rest })
  else if reg = regIer then
    if isWrite then some (val, updateIrq { u with ier := (val &&& 0x0F).setWidth 8 })
    else some (u.ier.setWidth 32, u)
  else if reg = regIirFcr then
    -- the FIFOs are always enabled: a write is accepted and ignored
    if isWrite then some (val, u) else some (u.iir.setWidth 32, u)
  else if reg = regLcr then
    if isWrite then some (val, { u with lcr := val.setWidth 8 }) else some (u.lcr.setWidth 32, u)
  else if reg = regMcr then
    if isWrite then some (val, { u with mcr := val.setWidth 8 }) else some (u.mcr.setWidth 32, u)
  else if reg = regLsr then some (u.lsr.setWidth 32, u)
  else if reg = regMsr then some (0, u)
  else if reg = regScr then
    if isWrite then some (val, { u with scr := val.setWidth 8 }) else some (u.scr.setWidth 32, u)
  else none

end Uart

namespace Payload

variable {n : ℕ} (trans : Payload n)

/-- `val = 0; memcpy(&val, ptr, len)`. -/
def getVal : Option Word :=
  (Buffer.copy zeroBuf 0 trans.data 0 trans.dataLength.toNat).map Bytes.ofLE

/-- `memcpy(ptr, &val, len)`. -/
def setVal (val : Word) : Option (Payload n) :=
  (Buffer.copy trans.data 0 (Bytes.toLE val 4) 0 trans.dataLength.toNat).map fun data =>
    { trans with data }

end Payload

/-- `UART::b_transport`; every command but a write reads. -/
def Uart.bTransport {n : ℕ} (u : Uart) (trans : Payload n) : Option (Payload n × Uart) :=
  if trans.command = .write then
    trans.getVal.map fun val =>
      match u.access true (trans.address.setWidth 32) val with
      | none => ({ trans with response := .addressError }, u)
      | some (_, u) => ({ trans with response := .ok }, u)
  else
    match u.access false (trans.address.setWidth 32) 0 with
    | none => some ({ trans with response := .addressError }, u)
    | some (val, u) => ({ trans with response := .ok }.setVal val).map fun trans => (trans, u)

/-! ### Runs -/

/-- A register access of 1 to 4 bytes, which its buffer holds. -/
structure UartAccess where
  {n : ℕ}
  payload : Payload n
  fits : payload.dataLength.toNat ≤ n
  pos : 0 < payload.dataLength.toNat
  le_four : payload.dataLength.toNat ≤ 4

/-- What acts on the UART. -/
inductive UartInput
  | pushRx (byte : Byte)
  | transport (a : UartAccess)

namespace Payload

variable {n : ℕ} (trans : Payload n)

theorem exists_getVal (h4 : trans.dataLength.toNat ≤ 4) (hn : trans.dataLength.toNat ≤ n) :
    ∃ v, trans.getVal = some v := by
  obtain ⟨buf, hbuf⟩ := Buffer.exists_copy zeroBuf trans.data (i := 0) (j := 0)
    (k := trans.dataLength.toNat) (by omega) (by omega)
  exact ⟨_, by rw [getVal, hbuf]; rfl⟩

theorem exists_setVal (val : Word) (h4 : trans.dataLength.toNat ≤ 4)
    (hn : trans.dataLength.toNat ≤ n) : ∃ t, trans.setVal val = some t := by
  obtain ⟨buf, hbuf⟩ := Buffer.exists_copy trans.data (Bytes.toLE val 4) (i := 0) (j := 0)
    (k := trans.dataLength.toNat) (by omega) (by omega)
  exact ⟨_, by rw [setVal, hbuf]; rfl⟩

end Payload

theorem Uart.exists_bTransport {n : ℕ} (u : Uart) (trans : Payload n)
    (h4 : trans.dataLength.toNat ≤ 4) (hn : trans.dataLength.toNat ≤ n) :
    ∃ x, u.bTransport trans = some x := by
  unfold bTransport
  split
  · obtain ⟨val, hval⟩ := trans.exists_getVal h4 hn
    rw [hval]
    exact ⟨_, rfl⟩
  · split
    · exact ⟨_, rfl⟩
    next val u _ =>
      obtain ⟨t, ht⟩ := { trans with response := .ok }.exists_setVal val h4 hn
      rw [ht]
      exact ⟨_, rfl⟩

theorem Uart.isSome_bTransport (u : Uart) (a : UartAccess) : (u.bTransport a.payload).isSome :=
  Option.isSome_iff_exists.2 (u.exists_bTransport a.payload a.le_four a.fits)

/-- The UART; the outputs are the answers to the register accesses. -/
def uartMachine : Machine Uart UartInput (Option (Σ n, Payload n)) where
  step
    | u, .pushRx byte => (u.pushRx byte, none)
    | u, .transport a =>
      let answer := (u.bTransport a.payload).get (u.isSome_bTransport a)
      (answer.2, some ⟨_, answer.1⟩)

end VirtualSoC
