import VirtualSoC.Cpu.Decode
import VirtualSoC.Isa.Encoding
import VirtualSoC.Cpu.DecodeSpec
import VirtualSoC.Cpu.Csr
import VirtualSoC.Cpu.Execute
import VirtualSoC.Isa.Semantics
import VirtualSoC.Lib.Bytes
import VirtualSoC.Cpu.ExecuteSpec
import VirtualSoC.Isa.Compressed
import VirtualSoC.Cpu.CompressedSpec
import VirtualSoC.Cpu.Mmu
import VirtualSoC.Lib.Machine
import VirtualSoC.Cpu.Iss
import VirtualSoC.Cpu.WellFormed
import VirtualSoC.Cpu.Confinement
import VirtualSoC.Cpu.MmuSpec
import VirtualSoC.Cpu.TlbSpec
import VirtualSoC.Cpu.Access
import VirtualSoC.Cpu.IssSpec
import VirtualSoC.Cpu.RamBus
import VirtualSoC.Cpu.PageFault
import VirtualSoC.Cpu.LrSc
import VirtualSoC.Bus.Memory
import VirtualSoC.Bus.TlmBus
import VirtualSoC.Cpu.BusPort
import VirtualSoC.Cpu.BusRel
import VirtualSoC.Cpu.DmiSpec
import VirtualSoC.Cpu.RomSpec
import VirtualSoC.Cpu.AccessFault
import VirtualSoC.Cpu.TrapReturn
import VirtualSoC.Lib.Arbiter
import VirtualSoC.Irq.Plic
import VirtualSoC.Irq.PlicRun
import VirtualSoC.Irq.PlicSpec
import VirtualSoC.Irq.PlicHistory
import VirtualSoC.Dma.DmaEngine
import VirtualSoC.Dma.DmaSpec
import VirtualSoC.Util.ElfLoader
import VirtualSoC.Platform.Construct
import VirtualSoC.Util.ElfSpec
import VirtualSoC.Platform.LoadSpec
import VirtualSoC.Util.ElfImage
import VirtualSoC.Util.ElfReject
import VirtualSoC.Util.ElfLoadSpec
import VirtualSoC.Lib.FileStream
import VirtualSoC.Sd.SdCardModel
import VirtualSoC.Sd.SdCardSpec
import VirtualSoC.Sd.SdCtrl
import VirtualSoC.Sd.SdTransfer
import VirtualSoC.Bus.AddressMap
import VirtualSoC.Lib.FlatStore
import VirtualSoC.Bus.ByteStore
import VirtualSoC.Bus.RamRange
import VirtualSoC.Lib.PartialRun
import VirtualSoC.Dma.DmaTransfer
import VirtualSoC.Platform.RamPort
import VirtualSoC.Cpu.FetchSpec
import VirtualSoC.Cpu.Atomic
import VirtualSoC.Isa.Sv32
import VirtualSoC.Cpu.Sv32Spec
import VirtualSoC.Cpu.AmoFault
import VirtualSoC.Cpu.InterruptSpec
import VirtualSoC.Lib.UndoLog
import VirtualSoC.Lib.Stoul
import VirtualSoC.Debug.GdbServer
import VirtualSoC.Debug.BreakpointSpec
import VirtualSoC.Debug.SingleStep
import VirtualSoC.Cpu.CsrAccess
import VirtualSoC.Cpu.CsrCoherence
import VirtualSoC.Cpu.TrapVirtualization
import VirtualSoC.Cpu.Rv32mSpec
import VirtualSoC.Cpu.SignedOps
import VirtualSoC.Cpu.SignedSpec
import VirtualSoC.Cpu.Exceptions
import VirtualSoC.Cpu.Retired
import VirtualSoC.Lib.Counter
import VirtualSoC.Bus.BoundsSpec
import VirtualSoC.Io.Uart
import VirtualSoC.Io.UartSpec
import VirtualSoC.Io.UartOverrun
import VirtualSoC.Lib.Halves
import VirtualSoC.Irq.Clint
import VirtualSoC.Io.Timer
import VirtualSoC.Io.TimerSpec
import VirtualSoC.Io.Gpio
import VirtualSoC.Io.GpioSpec
import VirtualSoC.Debug.GdbPackets
import VirtualSoC.Platform.RamFrame
import VirtualSoC.Debug.GdbPacketsSpec
import VirtualSoC.Debug.GdbClient
import VirtualSoC.Debug.GdbFrames
import VirtualSoC.Debug.GdbClientSpec
import VirtualSoC.Bus.RegisterRun
import VirtualSoC.Video.FbCtrl
import VirtualSoC.Audio.AudioOut
import VirtualSoC.Io.Spi
import VirtualSoC.Platform.Soc
import VirtualSoC.Platform.SocRun
import VirtualSoC.Platform.SocInv
import VirtualSoC.Platform.VpRun
import VirtualSoC.Platform.VpInterrupts
import VirtualSoC.Platform.VpRequests
import VirtualSoC.Cpu.AccessGuard
import VirtualSoC.Platform.VpDefined
import VirtualSoC.Isa.Program
import VirtualSoC.Cpu.ProgramSpec
import VirtualSoC.Platform.VpProgram
import VirtualSoC.Platform.VpBoot
import VirtualSoC.Cpu.VirtualSpace
import VirtualSoC.Platform.VpUser
import VirtualSoC.Cpu.Enclosure
import VirtualSoC.Platform.VpConfined
import VirtualSoC.Platform.VpTransfer
import VirtualSoC.Platform.VpPreempt
import VirtualSoC.Platform.VpCompletion
import VirtualSoC.Lib.Commute
import VirtualSoC.Platform.VpOrder
