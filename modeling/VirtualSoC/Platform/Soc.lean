import VirtualSoC.Audio.AudioOut
import VirtualSoC.Dma.DmaTransfer
import VirtualSoC.Io.Gpio
import VirtualSoC.Io.Spi
import VirtualSoC.Io.Timer
import VirtualSoC.Io.Uart
import VirtualSoC.Irq.Plic
import VirtualSoC.Platform.GamingCpuVp
import VirtualSoC.Sd.SdCtrl
import VirtualSoC.Video.FbCtrl

/-!
# The platform with its devices

`GamingCPU_VP` of `platform/gamingcpu_vp.h` and `platform/gamingcpu_vp.cpp` as one system: the CPU
and the devices behind the bus, the threads that are masters of the bus themselves, and the wiring
of the interrupt lines from the devices over the PLIC and from the CLINT to the CPU.

A SystemC process runs until it waits, so a step of the platform (`Vp.step`) is an iteration of the
run loop, a tick, a call of the host, or a part of one of the two other threads; the order of the
steps is an input.  The bursts of a transfer are steps of their own, so this has more runs than the
program.  Once a copy was out of bounds, nothing is known of the world behind the bus (`none`).
-/

namespace VirtualSoC

open Cfg

/-! ### The devices -/

/-- The members of `GamingCPU_VP` that are bound to the bus and are no memories. -/
inductive Peripheral
  | clint (c : Clint)
  | plic (p : Plic)
  | uart (u : Uart)
  | gpio (g : Gpio)
  | timer (t : Timer)
  -- `on_transfer` is not connected
  | spi (s : Spi Unit)
  | sdCtrl (c : SDCtrl)
  | dma (e : DmaEngine)
  | fbCtrl (f : FBCtrl)
  | audio (o : AudioOut)

namespace Peripheral

variable {n : ℕ}

/-- `b_transport` of the device. -/
def transport (trans : Payload n) : Peripheral → Option (Payload n × Peripheral)
  | clint c => (c.bTransport trans).map fun x => (x.1, clint x.2)
  | plic p => (p.bTransport trans).map fun x => (x.1, plic x.2)
  | uart u => (u.bTransport trans).map fun x => (x.1, uart x.2)
  | gpio g => (g.bTransport trans).map fun x => (x.1, gpio x.2)
  | timer t => (t.bTransport trans).map fun x => (x.1, timer x.2)
  | spi s => (s.bTransport none trans).map fun x => (x.1, spi x.2)
  | sdCtrl c => (c.bTransport trans).map fun x => (x.1, sdCtrl x.2)
  | dma e => (e.bTransport trans).map fun x => (x.1, dma x.2)
  | fbCtrl f => (f.bTransport trans).map fun x => (x.1, fbCtrl x.2)
  | audio o => (o.bTransport trans).map fun x => (x.1, audio x.2)

/-- The level last driven on `on_irq`, low before the first call. -/
def irq : Peripheral → Bool
  | clint _ | plic _ | spi _ => false
  | uart u => u.irq
  | gpio g => g.irq
  | timer t => t.irq
  | sdCtrl c => c.irqCalls.getLastD false
  | dma e => e.irq
  | fbCtrl f => f.irq
  | audio o => o.irq

/-- The accesses that call `on_irq`. -/
def callsIrq (isWrite : Bool) (addr : Word) : Peripheral → Bool
  | clint _ | plic _ | spi _ => false
  | uart _ => addr = Uart.regRbrThr ∨ isWrite ∧ addr = Uart.regIer
  | gpio _ => isWrite ∧ (addr = 0x0C ∨ addr = 0x10)
  | timer _ => isWrite ∧ (addr = 0x00 ∨ addr = 0x04 ∨ addr = 0x08 ∨ addr = 0x0C ∨ addr = 0x10)
  | sdCtrl _ | dma _ => isWrite ∧ addr = 0x10
  | fbCtrl _ => isWrite ∧ (addr = 0x10 ∨ addr = 0x14)
  | audio _ => isWrite ∧ addr = 0x18

end Peripheral

/-- What is bound to a socket. -/
structure Device where
  unit : Peripheral
  /-- The call of `on_irq` that the PLIC has not heard yet. -/
  call : Option Bool := none

namespace Device

/-- A device that has called `on_irq`. -/
def calling (u : Peripheral) : Device := ⟨u, some u.irq⟩

instance : TlmDevice Device where
  transport trans d := (d.unit.transport trans).map fun x =>
    (x.1, ⟨x.2, if d.unit.callsIrq (trans.command = .write) (trans.address.setWidth 32) then
      some x.2.irq else none⟩)

end Device

/-! ### The interrupt lines -/

/-- What the constructor connects to `plic.set_pending`: the sockets and their sources. -/
def irqWires : List (ℕ × Word) :=
  [(4, irqUart), (5, irqGpio), (6, irqTimer), (8, irqSd), (9, irqDma), (10, irqVideo),
    (11, irqAudio)]

/-- The call of `on_irq` at the socket. -/
def Target.call : Target Device → Option Bool
  | .device d => d.call
  | _ => none

/-- `plic.set_pending`. -/
def Peripheral.setPending (sourceId : Word) (pending : Bool) : Peripheral → Peripheral
  | plic p => plic (p.setPending sourceId pending)
  | u => u

/-- The call at the wire reaches the PLIC, if there is one. -/
def Peripheral.hearWire (targets : ℕ → Target Device) (u : Peripheral) (wire : ℕ × Word) :
    Peripheral :=
  match (targets wire.1).call with
  | some v => u.setPending wire.2 v
  | none => u

/-- The calls of `on_irq` reach the PLIC. -/
def Peripheral.hear (targets : ℕ → Target Device) (u : Peripheral) : Peripheral :=
  irqWires.foldl (hearWire targets) u

/-- The calls of `on_irq` have been made. -/
def deliver (targets : ℕ → Target Device) : ℕ → Target Device := fun i =>
  (targets i).mapDevice fun d => { unit := d.unit.hear targets }

namespace BusPort

variable {n : ℕ} (w : BusPort Device)

/-- The calls of `on_irq` reach the PLIC. -/
def deliver : BusPort Device := { w with targets := VirtualSoC.deliver w.targets }

/-- A transaction on the bus, with the calls of `on_irq` that it makes. -/
def transport (trans : Payload n) : Option (Payload n × BusPort Device) := do
  let x ← platformBus.bTransport w.targets trans
  return (x.1, deliver { w with targets := x.2 })

/-- The device at a socket changes by itself. -/
def onDevice (socket : ℕ) (f : Peripheral → Device) : BusPort Device :=
  deliver { w with
    targets := Function.update w.targets socket
      ((w.targets socket).mapDevice fun d => f d.unit) }

end BusPort

/-- The physical bus of the CPU. -/
def vpBus : PhysBus (Option (BusPort Device)) where
  read addr bytes w :=
    let x := (socBus platformBus).read addr bytes w
    (x.1, x.2.map (·.deliver))
  write addr data bytes w := ((socBus platformBus).write addr data bytes w).map (·.deliver)
  dropDmi w := (socBus platformBus).dropDmi w

/-! ### The threads and the host -/

namespace Peripheral

/-- A round of the tick thread of the CLINT. -/
def clintTick : Peripheral → Device
  | clint c => ⟨clint c.tick, none⟩
  | u => ⟨u, none⟩

/-- A round of the tick thread of the timer. -/
def timerTick : Peripheral → Device
  | timer t => .calling (timer t.tick)
  | u => ⟨u, none⟩

/-- A byte arrives at the UART. -/
def pushRx (byte : Byte) : Peripheral → Device
  | uart u => .calling (uart (u.pushRx byte))
  | u => ⟨u, none⟩

/-- The host changes the pins. -/
def setInput (pins : Word) : Peripheral → Device
  | gpio g => .calling (gpio (g.setInput pins))
  | u => ⟨u, none⟩

/-- `Dma.resume` on the engine. -/
def dmaResume (thread : DmaThread) (rresp wresp : TlmResponse) : Peripheral → Device
  | dma e =>
    let d := (Dma.resume ⟨e, thread⟩ rresp wresp).1
    -- the thread calls `on_irq` at the end of a transfer, if that is enabled
    let ended : Bool := thread ≠ .waiting ∧ d.thread = .waiting
    ⟨dma d.engine, if ended ∧ e.ctrl &&& 2 ≠ 0 then some true else none⟩
  | u => ⟨u, none⟩

/-- The start of a transfer of blocks. -/
def sdStart : Peripheral → Device
  | sdCtrl c => ⟨sdCtrl { c with startEvent := false, status := SDCtrl.statusBusy }, none⟩
  | u => ⟨u, none⟩

/-- The controller after a call of its card. -/
def sdRead (blockAddr : Word) (buf : SdBlock) : Peripheral → Device
  | sdCtrl c => ⟨sdCtrl (c.readBlock blockAddr buf).2.2, none⟩
  | u => ⟨u, none⟩

/-- The end of a transfer of blocks. -/
def sdFinish (ok : Bool) : Peripheral → Device
  | sdCtrl c => .calling (sdCtrl { c with
      status := if ok then SDCtrl.statusDone else SDCtrl.statusDone ||| SDCtrl.statusError
      irqCalls := c.irqCalls ++ [true] })
  | u => ⟨u, none⟩

end Peripheral

namespace BusPort

variable (w : BusPort Device)

/-- The registers of the DMA engine. -/
def dmaEngine : DmaEngine :=
  match w.targets 9 with
  | .device ⟨.dma e, _⟩ => e
  | _ => {}

/-- The registers of the SD controller. -/
def sdCtrl : SDCtrl :=
  match w.targets 8 with
  | .device ⟨.sdCtrl c, _⟩ => c
  | _ => {}

/-- `dma_thread` goes on after the answers of the bus. -/
def dmaNext (thread : DmaThread) (rresp wresp : TlmResponse) : DmaThread × BusPort Device :=
  ((Dma.resume ⟨w.dmaEngine, thread⟩ rresp wresp).1.thread,
    w.onDevice 9 (·.dmaResume thread rresp wresp))

/-- `dma_thread` from its `wait` into the loop, or one round of the loop; `buf` is not
initialised. -/
def dmaThread (thread : DmaThread) (buf : DmaBuf) : Option (DmaThread × BusPort Device) :=
  match thread with
  | .waiting => some (w.dmaNext .waiting .incomplete .incomplete)
  | .copying remaining src dst =>
    if remaining > 0 then do
      let chunk := DmaEngine.chunk remaining
      let (rtrans, w) ← w.transport (DmaAccess.payload ⟨.read, src, chunk⟩ buf)
      if rtrans.response ≠ .ok then
        return w.dmaNext thread rtrans.response .incomplete
      else
        let (wtrans, w) ← w.transport (DmaAccess.payload ⟨.write, dst, chunk⟩ rtrans.data)
        return w.dmaNext thread rtrans.response wtrans.response
    else some (w.dmaNext thread .incomplete .incomplete)

/-- `transfer_thread` from its `wait` into the loop, or one round of the loop; `buf` is not
initialised. -/
def sdThread (thread : SdThread) (buf : SdBlock) : Option (SdThread × BusPort Device) :=
  match thread with
  | .waiting =>
    if w.sdCtrl.startEvent then
      some (.looping 0 w.sdCtrl.blocks w.sdCtrl.arg w.sdCtrl.dataAddr true,
        w.onDevice 8 (·.sdStart))
    else some (thread, w)
  | .looping i blocks blockAddr dest ok =>
    if i < blocks ∧ ok then
      let (read, block, _) := w.sdCtrl.readBlock (blockAddr + i) buf
      let w := w.onDevice 8 (·.sdRead (blockAddr + i) buf)
      if read then do
        let (answer, w) ← w.transport (SdOnBus.payload dest block)
        return (.looping (i + 1) blocks blockAddr (dest + 512) (answer.response = .ok), w)
      else some (.waiting, w.onDevice 8 (·.sdFinish false))
    else some (.waiting, w.onDevice 8 (·.sdFinish ok))

/-! ### The lines of the CPU -/

/-- The level last driven on `on_timer_irq`. -/
def timerLine : Bool :=
  match w.targets 2 with
  | .device ⟨.clint c, _⟩ => c.timerIrq
  | _ => false

/-- The level last driven on `on_sw_irq`. -/
def swLine : Bool :=
  match w.targets 2 with
  | .device ⟨.clint c, _⟩ => c.swIrq
  | _ => false

/-- The level last driven on `on_external_irq`. -/
def externalLine : Bool :=
  match w.targets 3 with
  | .device ⟨.plic p, _⟩ => p.externalIrq
  | _ => false

end BusPort

/-- `set_mip_msip`, `set_mip_mtip` and `set_mip_meip` with the levels of the lines. -/
def CSRFile.setLines (c : CSRFile) (w : BusPort Device) : CSRFile :=
  ((c.setHwBit 3 w.swLine).setHwBit 7 w.timerLine).setHwBit 11 w.externalLine

/-! ### The system -/

/-- The platform: the CPU with what is behind the bus, and where the other threads are. -/
structure Vp where
  iss : ISS (Option (BusPort Device))
  dmaThread : DmaThread := .waiting
  sdThread : SdThread := .waiting

/-- What can happen next. -/
inductive VpInput
  /-- The run loop of the CPU makes an iteration. -/
  | cycle (pick : Tlb → ℕ)
  | clintTick
  | timerTick
  | pushRx (byte : Byte)
  | setInput (pins : Word)
  | dmaThread (buf : DmaBuf)
  | sdThread (buf : SdBlock)
  | halt
  | resume
  | step

namespace Vp

variable (s : Vp)

/-- The lines that a step has changed are driven. -/
def driven : Vp :=
  match s.iss.env.bus with
  | none => s
  | some w => { s with
      iss := { s.iss with state := { s.iss.state with csr := s.iss.state.csr.setLines w } } }

/-- The world behind the bus becomes `b`. -/
def withBus (b : Option (BusPort Device)) : Vp :=
  { s with iss := { s.iss with env := { s.iss.env with bus := b } } }

/-- The device at a socket changes by itself. -/
def onDevice (socket : ℕ) (f : Peripheral → Device) : Vp :=
  s.withBus (s.iss.env.bus.map (·.onDevice socket f))

/-- The step of a thread that is a master of the bus. -/
def onThread {τ : Type} (set : Vp → τ → Vp) (x : Option (τ × BusPort Device)) : Vp :=
  match x with
  | none => s.withBus none
  | some (thread, w) => set (s.withBus (some w)) thread

/-- A step, before the lines are driven. -/
def act : VpInput → Vp × Event
  | .cycle pick =>
    let x := s.iss.iterate vpBus pick
    ({ s with iss := x.1 }, x.2)
  | .clintTick => (s.onDevice 2 (·.clintTick), {})
  | .timerTick => (s.onDevice 6 (·.timerTick), {})
  | .pushRx byte => (s.onDevice 4 (·.pushRx byte), {})
  | .setInput pins => (s.onDevice 5 (·.setInput pins), {})
  | .dmaThread buf =>
    (s.onThread (fun s t => { s with dmaThread := t })
      (s.iss.env.bus.bind (·.dmaThread s.dmaThread buf)), {})
  | .sdThread buf =>
    (s.onThread (fun s t => { s with sdThread := t })
      (s.iss.env.bus.bind (·.sdThread s.sdThread buf)), {})
  | .halt => ({ s with iss := { s.iss with halted := true } }, {})
  | .resume => ({ s with iss := { s.iss with halted := false, singleStep := false } }, {})
  | .step => ({ s with iss := { s.iss with halted := false, singleStep := true } }, {})

end Vp

/-- The platform; the outputs tell what the iterations of the run loop did. -/
def vpMachine : Machine Vp VpInput Event where
  step s i := ((s.act i).1.driven, (s.act i).2)

/-- The devices after construction.  The bus has no socket beyond those listed. -/
def initialDevices (card : Option SDCardModel) : ℕ → Device
  | 2 => ⟨.clint {}, none⟩
  | 3 => ⟨.plic {}, none⟩
  | 4 => ⟨.uart {}, none⟩
  | 5 => ⟨.gpio {}, none⟩
  | 6 => ⟨.timer {}, none⟩
  | 7 => ⟨.spi { slave := () }, none⟩
  | 8 => ⟨.sdCtrl { card }, none⟩
  | 9 => ⟨.dma {}, none⟩
  | 10 => ⟨.fbCtrl {}, none⟩
  | _ => ⟨.audio {}, none⟩

/-- The platform when the threads start, with the contents of the memories and the card inserted. -/
def Vp.reset (rom : Vector Byte bootRomSize.toNat) (ram : Vector Byte ramSize.toNat)
    (card : Option SDCardModel) : Vp where
  iss := platformReset rom ram (initialDevices card)

end VirtualSoC
