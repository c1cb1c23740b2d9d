import Mathlib.Algebra.GroupWithZero.Nat
import VirtualSoC.Cpu.Rv32Defs

/-!
# The memory map

The memory map of `platform/platform_config.h`.
-/

namespace VirtualSoC

namespace Cfg

/-- The boot ROM. -/
def bootRomBase : Word := 0x00000000
/-- 64 KB. -/
def bootRomSize : Word := 0x00010000
/-- The on-chip SRAM, where nothing is mapped. -/
def sramBase : Word := 0x01000000
/-- The CLINT. -/
def clintBase : Word := 0x02000000
/-- 64 KB. -/
def clintSize : Word := 0x00010000
/-- The PLIC. -/
def plicBase : Word := 0x0C000000
/-- 64 MB. -/
def plicSize : Word := 0x04000000
/-- The UART. -/
def uartBase : Word := 0x10000000
/-- 4 KB. -/
def uartSize : Word := 0x00001000
/-- The GPIO. -/
def gpioBase : Word := 0x10001000
/-- 4 KB. -/
def gpioSize : Word := 0x00001000
/-- The timer. -/
def timerBase : Word := 0x10002000
/-- 4 KB. -/
def timerSize : Word := 0x00001000
/-- The SPI controller. -/
def spiBase : Word := 0x10003000
/-- 4 KB. -/
def spiSize : Word := 0x00001000
/-- The SD controller. -/
def sdBase : Word := 0x10004000
/-- 4 KB. -/
def sdSize : Word := 0x00001000
/-- The DMA engine. -/
def dmaBase : Word := 0x10005000
/-- 4 KB. -/
def dmaSize : Word := 0x00001000
/-- The framebuffer controller. -/
def videoBase : Word := 0x10006000
/-- 4 KB. -/
def videoSize : Word := 0x00001000
/-- The audio output. -/
def audioBase : Word := 0x10007000
/-- 4 KB. -/
def audioSize : Word := 0x00001000
/-- The RAM. -/
def ramBase : Word := 0x80000000
/-- 128 MB. -/
def ramSize : Word := 0x08000000

/-- The number of interrupt sources of the PLIC, with the reserved source 0. -/
abbrev irqNumSources : ℕ := 8

instance : NeZero irqNumSources := ⟨Nat.succ_ne_zero 7⟩

/-! ### Interrupt sources -/

/-- The UART. -/
def irqUart : Word := 1
/-- The GPIO. -/
def irqGpio : Word := 2
/-- The timer. -/
def irqTimer : Word := 3
/-- The SD controller. -/
def irqSd : Word := 4
/-- The DMA engine. -/
def irqDma : Word := 5
/-- The framebuffer controller. -/
def irqVideo : Word := 6
/-- The audio output. -/
def irqAudio : Word := 7

/-! ### Video and audio -/

/-- The first framebuffer. -/
def fb0Default : Word := 0x84000000
/-- The second framebuffer. -/
def fb1Default : Word := 0x84010000
/-- The palette. -/
def paletteDefault : Word := 0x84020000
/-- The ring of the audio output. -/
def audioRingDefault : Word := 0x84040000
/-- The bytes of the ring. -/
def audioRingSizeDefault : Word := 0x1000

end Cfg

end VirtualSoC
