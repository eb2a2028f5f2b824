import Rayos.Dev.Ahci
import Rayos.Dev.BootTables
import Rayos.Dev.Gdt
import Rayos.Dev.Idt
import Rayos.Dev.Ioapic
import Rayos.Dev.IsrStubs
import Rayos.Dev.Madt
import Rayos.Dev.MadtWalk
import Rayos.Dev.Smp
import Rayos.Dev.Syscalls
import Rayos.Dev.Tsc
import Rayos.Dev.Uart
import Rayos.Dev.UartLine
import Rayos.Fs.BufferBounds
import Rayos.Fs.Descriptors
import Rayos.Fs.Fat32
import Rayos.Fs.Fat32Address
import Rayos.Fs.Fat32Alloc
import Rayos.Fs.Fat32Chain
import Rayos.Fs.Fat32Codec
import Rayos.Fs.Fat32Create
import Rayos.Fs.Fat32CreateEnds
import Rayos.Fs.Fat32Descriptors
import Rayos.Fs.Fat32Ends
import Rayos.Fs.Fat32File
import Rayos.Fs.Fat32Lookup
import Rayos.Fs.Fat32Mirror
import Rayos.Fs.Fat32Names
import Rayos.Fs.Fat32Read
import Rayos.Fs.Fat32Search
import Rayos.Fs.Fat32Volume
import Rayos.Fs.Fat32Walk
import Rayos.Fs.Fat32Write
import Rayos.Fs.Fatfs
import Rayos.Fs.FatfsErrors
import Rayos.Fs.KernelHeap
import Rayos.Fs.MountMatch
import Rayos.Fs.Offsets
import Rayos.Fs.OpenClose
import Rayos.Fs.OpenFailure
import Rayos.Fs.OpenRun
import Rayos.Fs.Tmpfs
import Rayos.Fs.TmpfsData
import Rayos.Fs.TmpfsMake
import Rayos.Fs.TmpfsMove
import Rayos.Fs.TmpfsNames
import Rayos.Fs.TmpfsPath
import Rayos.Fs.TmpfsResolve
import Rayos.Fs.TmpfsRun
import Rayos.Fs.TmpfsSpec
import Rayos.Fs.TmpfsTree
import Rayos.Fs.TmpfsTypes
import Rayos.Fs.Vfs
import Rayos.Fs.VfsDispatch
import Rayos.Fs.VfsRun
import Rayos.Fs.VfsSpec
import Rayos.Lib.AccessTrace
import Rayos.Lib.BitFields
import Rayos.Lib.ByteStore
import Rayos.Lib.CString
import Rayos.Lib.CasLoop
import Rayos.Lib.CellCopy
import Rayos.Lib.Holdings
import Rayos.Lib.KeyedList
import Rayos.Lib.Ledger
import Rayos.Lib.LinkedRing
import Rayos.Lib.LinkedStack
import Rayos.Lib.LittleEndian
import Rayos.Lib.LowestBit
import Rayos.Lib.NameTree
import Rayos.Lib.OutStream
import Rayos.Lib.ParentTree
import Rayos.Lib.Placement
import Rayos.Lib.Program
import Rayos.Lib.RadixTable
import Rayos.Lib.RingBuffer
import Rayos.Lib.RingFamily
import Rayos.Lib.SavedFrame
import Rayos.Lib.Scan
import Rayos.Lib.SharedCursor
import Rayos.Lib.UnitStore
import Rayos.Machine.Instr
import Rayos.Machine.State
import Rayos.Machine.Word
import Rayos.Mem.AllocRace
import Rayos.Mem.Bitmap
import Rayos.Mem.BitmapQuery
import Rayos.Mem.BitmapSet
import Rayos.Mem.BitmapSpec
import Rayos.Mem.BootHeap
import Rayos.Mem.BootMemory
import Rayos.Mem.FirstFit
import Rayos.Mem.Frames
import Rayos.Mem.Heap
import Rayos.Mem.HeapFailure
import Rayos.Mem.HeapLimits
import Rayos.Mem.HeapLock
import Rayos.Mem.HeapRun
import Rayos.Mem.HeapUse
import Rayos.Mem.LowerHalf
import Rayos.Mem.MapFailure
import Rayos.Mem.MapRollback
import Rayos.Mem.MemPool
import Rayos.Mem.Multiboot
import Rayos.Mem.OrderArith
import Rayos.Mem.PageAlloc
import Rayos.Mem.PageMap
import Rayos.Mem.PageRun
import Rayos.Mem.PageTable
import Rayos.Mem.Paging
import Rayos.Mem.Realloc
import Rayos.Mem.Room
import Rayos.Mem.Stores
import Rayos.Mem.StringCopy
import Rayos.Sync.AtomicWord
import Rayos.Sync.Interrupts
import Rayos.Sync.Mutex
import Rayos.Sync.MutexExclusion
import Rayos.Sync.MutexPlaces
import Rayos.Sync.MutexWake
import Rayos.Sync.Spinlock
import Rayos.Task.AddressSpace
import Rayos.Task.ContextSwitch
import Rayos.Task.Elf
import Rayos.Task.ElfLoad
import Rayos.Task.ElfReads
import Rayos.Task.ListRun
import Rayos.Task.LoadBalance
import Rayos.Task.QueueLinks
import Rayos.Task.RoundRobin
import Rayos.Task.RunProcess
import Rayos.Task.RunSafety
import Rayos.Task.Sched
import Rayos.Task.SchedRun
import Rayos.Task.ThreadStart
import Rayos.Task.UserRange
import Rayos.Task.UserSpace
import Rayos.Task.UserTable
import Rayos.Text.Printf
import Rayos.Text.PrintfGrammar
import Rayos.Text.PrintfInt
import Rayos.Text.PrintfSinks
