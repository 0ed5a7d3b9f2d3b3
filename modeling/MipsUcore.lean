import MipsUcore.Cpu.Top
import MipsUcore.Cpu.Proofs.UserStore
import MipsUcore.Cpu.Proofs.TimerInterrupt
import MipsUcore.Cpu.Proofs.ZeroRegister
import MipsUcore.Soc.Proofs.SerialInterrupt
import MipsUcore.Isa.Instr
import MipsUcore.Lib.Bits
import MipsUcore.Isa.Proofs.Semantics
import MipsUcore.Kern.Mmu
import MipsUcore.Kern.Pmm
import MipsUcore.Kern.Proofs.TlbCoherence
import MipsUcore.Cpu.Arch
import MipsUcore.Lib.Log
import MipsUcore.Cpu.Proofs.Operands
import MipsUcore.Cpu.Proofs.CpReadAfterWrite
import MipsUcore.Cpu.Pipe
import MipsUcore.Cpu.Proofs.InFlight
import MipsUcore.Cpu.Sequential
import MipsUcore.Cpu.Proofs.InOrder
import MipsUcore.Cpu.Proofs.Entry
import MipsUcore.Cpu.Proofs.PreciseException
import MipsUcore.Cpu.Proofs.ExactlyOnce
import MipsUcore.Cpu.System
import MipsUcore.Cpu.Proofs.Refinement
import MipsUcore.Soc.Bus
import MipsUcore.Soc.Proofs.Ram
import MipsUcore.Kern.Buddy
import MipsUcore.Kern.Proofs.Buddy
import MipsUcore.Kern.Proofs.PageAllocation
import MipsUcore.Kern.Kmalloc
import MipsUcore.Lib.Chain
import MipsUcore.Kern.Proofs.Slab
import MipsUcore.Kern.Proofs.SlabCalls
import MipsUcore.Kern.Vm
import MipsUcore.Kern.Proofs.CopyRange
import MipsUcore.Kern.Proofs.Vm
import MipsUcore.Kern.Vmm
import MipsUcore.Kern.Exec
import MipsUcore.Kern.Proofs.LoadPages
import MipsUcore.Kern.Proofs.NewPage
import MipsUcore.Kern.Proc
import MipsUcore.Kern.Files
import MipsUcore.Kern.Fork
import MipsUcore.Kern.Proofs.AddressSpace
import MipsUcore.Kern.Proofs.ForkMemory
import MipsUcore.Kern.Proofs.FileCounts
import MipsUcore.Kern.Proofs.Fork
import MipsUcore.Lib.Links
import MipsUcore.Lib.Bytes
import MipsUcore.Lib.Owners
import MipsUcore.Kern.Proofs.Pid
import MipsUcore.Kern.ProcStep
import MipsUcore.Kern.Proofs.ProcBasic
import MipsUcore.Kern.Proofs.ProcTree
import MipsUcore.Kern.Proofs.Family
import MipsUcore.Kern.Proofs.RunQueue
import MipsUcore.Kern.Proofs.ProcCalls
import MipsUcore.Kern.Proofs.ProcTable
import MipsUcore.Kern.Tasks
import MipsUcore.Kern.Proofs.Tasks
import MipsUcore.Kern.Proofs.Waiting
import MipsUcore.Kern.Sem
import MipsUcore.Kern.Proofs.Sem
import MipsUcore.Kern.Trap
import MipsUcore.Kern.Proofs.Syscall
import MipsUcore.Kern.Sfs
import MipsUcore.Kern.Proofs.SfsBlocks
import MipsUcore.Kern.Proofs.SfsMaps
import MipsUcore.Kern.Proofs.SfsFiles
import MipsUcore.Kern.Proofs.SfsIo
import MipsUcore.Kern.Proofs.SfsRuns
import MipsUcore.Kern.Proofs.SfsAccounting
import MipsUcore.Kern.Proofs.SfsResize
import MipsUcore.Kern.Proofs.SfsContents
import MipsUcore.Soc.Proofs.AddressMap
import MipsUcore.Cpu.Proofs.FetchPairing
import MipsUcore.Cpu.Proofs.BusAddress
import MipsUcore.Cpu.Proofs.UserRegisters
import MipsUcore.Lib.RoundRobin
import MipsUcore.Kern.TlbMiss
import MipsUcore.Kern.Proofs.TlbProgress
import MipsUcore.Lib.Tally
import MipsUcore.Kern.FileTable
import MipsUcore.Kern.Proofs.FileTable
import MipsUcore.Kern.InodeCache
import MipsUcore.Kern.Proofs.InodeCache
import MipsUcore.Kern.Proofs.Areas
import MipsUcore.Kern.UserMem
import MipsUcore.Kern.Proofs.UserMem
import MipsUcore.Lib.Ring
import MipsUcore.Soc.Proofs.SerialDelivery
import MipsUcore.Kern.Proofs.PageCounts
import MipsUcore.Kern.Proofs.ExecArgs
import MipsUcore.Kern.Proofs.Teardown
import MipsUcore.Kern.Dirent
import MipsUcore.Kern.Proofs.Dirent
import MipsUcore.Kern.Proofs.Timers
import MipsUcore.Kern.Printfmt
import MipsUcore.Kern.Proofs.Printfmt
