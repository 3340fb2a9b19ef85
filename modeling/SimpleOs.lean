import SimpleOs.Lib.Lts
import SimpleOs.Lib.Custody
import SimpleOs.Lib.BitField
import SimpleOs.Lib.LinkedList
import SimpleOs.Lib.Cover
import SimpleOs.Lib.Paged
import SimpleOs.Lib.Mutex
import SimpleOs.Lib.Scanf
import SimpleOs.Common
import SimpleOs.Loader
import SimpleOs.Timer
import SimpleOs.TimerInvariant
import SimpleOs.SlotBarrier
import SimpleOs.TimerProgress
import SimpleOs.Os
import SimpleOs.Dispatch
import SimpleOs.Threads
import SimpleOs.Shutdown
import SimpleOs.IdleCpu
import SimpleOs.SchedLock
import SimpleOs.Pte
import SimpleOs.Memphy
import SimpleOs.Teardown
import SimpleOs.PteHistory
import SimpleOs.Translation
import SimpleOs.PageDirs
import SimpleOs.FrameList
import SimpleOs.MemphyIo
import SimpleOs.InitMemphy
import SimpleOs.InitPte
import SimpleOs.FrameMapping
import SimpleOs.SwapCopy
import SimpleOs.SysMemmap
import SimpleOs.Fifo
import SimpleOs.Mm
import SimpleOs.VmAreas
import SimpleOs.FreeRegions
import SimpleOs.Libmem
import SimpleOs.MmLock
import SimpleOs.LiveRegions
import SimpleOs.SymbolTable
import SimpleOs.InitMm
import SimpleOs.Conservation
import SimpleOs.Reallocation
import SimpleOs.AllocSize
import SimpleOs.Access
import SimpleOs.Isolation
import SimpleOs.PageFault
import SimpleOs.Cpu
import SimpleOs.Lib.Ticks
import SimpleOs.TimerClock
import SimpleOs.Drain
import SimpleOs.Makespan
import SimpleOs.Lib.Product
import SimpleOs.SchedStub
import SimpleOs.Pager
import SimpleOs.ProgramRun
import SimpleOs.Boot
import SimpleOs.Lib.Serial
import SimpleOs.MmSerial
import SimpleOs.AllocLedger
import SimpleOs.SyscallTable
import SimpleOs.DevList
import SimpleOs.MainThread
