import FrogOS.ByteMemory
import FrogOS.BoundedAccess
import FrogOS.LittleEndian
import FrogOS.LinkedChain
import FrogOS.Tiling
import FrogOS.OwnedRing
import FrogOS.CircularBuffer
import FrogOS.StringOps
import FrogOS.Heap
import FrogOS.HeapPartition
import FrogOS.Paging
import FrogOS.PagingAgreement
import FrogOS.Pcnet32
import FrogOS.Pcnet32Transmit
import FrogOS.Pcnet32Receive
import FrogOS.Pcnet32Interrupt
import FrogOS.HeapBump
import FrogOS.BumpAllocator
import FrogOS.HeapCalls
import FrogOS.AscendingBlocks
import FrogOS.HeapRefusal
import FrogOS.DmaContiguity
import FrogOS.PacketPool
import FrogOS.OnesComplement
import FrogOS.ShiftDivision
import FrogOS.Orbit
import FrogOS.TracedAccess
import FrogOS.Net
import FrogOS.NetReply
import FrogOS.NetAnswer
import FrogOS.NetContainment
import FrogOS.NetIdentity
import FrogOS.NetEcho
import FrogOS.InternetChecksum
import FrogOS.Udivmoddi4
import FrogOS.NetHistory
import FrogOS.NetFidelity
import FrogOS.NetArp
import FrogOS.NetFootprint
import FrogOS.NetBuffers
import FrogOS.TreeWalk
import FrogOS.StackWalk
import FrogOS.Pci
import FrogOS.PciEnumeration
import FrogOS.PciPreorder
import FrogOS.PciTable
import FrogOS.KbdQueue
import FrogOS.Keyboard
import FrogOS.KeyStream
import FrogOS.KeyModifiers
import FrogOS.CapsLatch
import FrogOS.KeyTables
import FrogOS.Irq
import FrogOS.IrqChains
import FrogOS.IrqDispatch
import FrogOS.Pcnet32Probe
import FrogOS.Pcnet32Init
import FrogOS.Conio
import FrogOS.Terminal
import FrogOS.TerminalBounds
import FrogOS.LongWalk
import FrogOS.LongMode
import FrogOS.LoaderTables
import FrogOS.PrintInfo
import FrogOS.PrintInfoLayout
import FrogOS.Lib
import FrogOS.LoaderIrqs
import FrogOS.X86Stack
import FrogOS.InterruptFrame
import FrogOS.MainLoop
import FrogOS.Emission
import FrogOS.Numeral
import FrogOS.Printf
import FrogOS.PrintfText
import FrogOS.PrintfSyntax
import FrogOS.PrintfGrammar
import FrogOS.PrintfArguments
import FrogOS.PrintfBuffer
import FrogOS.PrintfInteger
import FrogOS.PrintfPrefix
import FrogOS.PrintfScan
import FrogOS.Simulation
import FrogOS.ConsoleText
import FrogOS.AddressText
import FrogOS.Dump
import FrogOS.PrintfReport
import FrogOS.Reports
import FrogOS.Shell
import FrogOS.ShiftRegister
import FrogOS.PolynomialRemainder
import FrogOS.Crc32
import FrogOS.PicVectors
import FrogOS.KernelIdt
import FrogOS.BootInfo
import FrogOS.PciPorts
