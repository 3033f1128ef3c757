import MiniEuler.Library.NodeLists
import MiniEuler.Library.Rings
import MiniEuler.Library.Run
import MiniEuler.Library.HandOff
import MiniEuler.Library.CyclicBuffer
import MiniEuler.Library.Tally
import MiniEuler.Library.KeyOrder
import MiniEuler.Library.MaskedProg
import MiniEuler.Library.RadixTable
import MiniEuler.Library.Terminal
import MiniEuler.Library.Sink
import MiniEuler.Library.Bytes
import MiniEuler.Library.StoredBlocks
import MiniEuler.Library.Aarch64
import MiniEuler.Library.LabelledCode
import MiniEuler.Library.PackedFields
import MiniEuler.Library.MutexPool
import MiniEuler.Library.Lending
import MiniEuler.Kernel.State
import MiniEuler.Kernel.ListHeap
import MiniEuler.Kernel.Task
import MiniEuler.Kernel.Sem
import MiniEuler.Kernel.Effect
import MiniEuler.Kernel.Phase
import MiniEuler.Kernel.Move
import MiniEuler.Kernel.Block
import MiniEuler.Kernel.Step
import MiniEuler.Kernel.Calls
import MiniEuler.Kernel.Invariant
import MiniEuler.Kernel.Runs
import MiniEuler.Kernel.Errors
import MiniEuler.Kernel.Pool
import MiniEuler.Kernel.Stacks
import MiniEuler.Kernel.Reclaim
import MiniEuler.Kernel.Frame
import MiniEuler.Kernel.Units
import MiniEuler.Kernel.Preempt
import MiniEuler.Kernel.Mutex
import MiniEuler.Kernel.Inherit
import MiniEuler.Kernel.WakeOrder
import MiniEuler.Kernel.BasePriority
import MiniEuler.Kernel.Lending
import MiniEuler.Kernel.LendingRuns
import MiniEuler.Kernel.Parked
import MiniEuler.Kernel.Resume
import MiniEuler.Bsp.IrqMask
import MiniEuler.Bsp.IrqRuns
import MiniEuler.Kernel.HighestTask
import MiniEuler.Kernel.HeapKernel
import MiniEuler.Kernel.HeapLists
import MiniEuler.Kernel.HeapRefine
import MiniEuler.Kernel.HeapCreate
import MiniEuler.Kernel.HeapCalls
import MiniEuler.Kernel.HeapRuns
import MiniEuler.Kernel.CreateAtomic
import MiniEuler.Bsp.Hwi
import MiniEuler.Bsp.Gic
import MiniEuler.Bsp.Switch
import MiniEuler.Bsp.Console
import MiniEuler.Bsp.ConsoleInput
import MiniEuler.Bsp.Mmu
import MiniEuler.Bsp.MmuTables
import MiniEuler.Bsp.MmuMap
import MiniEuler.Bsp.MmuRegions
import MiniEuler.Bsp.MmuWalk
import MiniEuler.Bsp.MmuStores
import MiniEuler.Bsp.MmuRoom
import MiniEuler.Bsp.CacheAsm
import MiniEuler.Bsp.CacheLoops
import MiniEuler.Bsp.CacheMaintenance
import MiniEuler.Bsp.CacheLines
import MiniEuler.Bsp.MmuInit
import MiniEuler.Bsp.Context
import MiniEuler.Bsp.ContextRuns
import MiniEuler.Ipc.RingDemo
import MiniEuler.Ipc.RingUnits
import MiniEuler.Ipc.RingOrder
import MiniEuler.Ipc.RingProgress
import MiniEuler.Ipc.RingKernel
import MiniEuler.Ipc.RingSnapshot
import MiniEuler.Ipc.RingStart
import MiniEuler.Ipc.RingCompletion
import MiniEuler.Bsp.CString
import MiniEuler.Shell.Dispatch
import MiniEuler.Shell.Line
import MiniEuler.Shell.Session
import MiniEuler.Bsp.Printf
import MiniEuler.Bsp.PrintfText
import MiniEuler.Bsp.PrintfFormat
import MiniEuler.Bsp.PrintfBounded
import MiniEuler.Bsp.PrintNumber
import MiniEuler.Demo.Inversion
import MiniEuler.Demo.InversionKernel
import MiniEuler.Demo.InversionSteps
import MiniEuler.Demo.InversionRuns
import MiniEuler.Demo.NoInversion
