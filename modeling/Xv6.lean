import Xv6.Lib.Ring
import Xv6.Lib.ByteMem
import Xv6.Machine
import Xv6.PageAlloc
import Xv6.PageSets
import Xv6.PageAllocSpec
import Xv6.PageFreeSpec
import Xv6.PageSplit
import Xv6.Lib.Ledger
import Xv6.PageRuns
import Xv6.Lib.Fuel
import Xv6.PageContSearch
import Xv6.PageContSpec
import Xv6.PageContRuns
import Xv6.Tlb
import Xv6.PageTable
import Xv6.PageDirSpec
import Xv6.Lib.Radix
import Xv6.PageTree
import Xv6.PageTableSpec
import Xv6.PageTableRuns
import Xv6.PageTableAtomic
import Xv6.PageSplitExact
import Xv6.UserCopy
import Xv6.UserCopySpec
import Xv6.UserCopyRuns
import Xv6.Space
import Xv6.TlbSpec
import Xv6.Asid
import Xv6.AsidRuns
import Xv6.TlbRuns
import Xv6.Lib.RingQueue
import Xv6.Lib.IndexChain
import Xv6.Slab
import Xv6.SlabSpec
import Xv6.SlabOps
import Xv6.SlabRuns
import Xv6.SlabLifo
import Xv6.Kmalloc
import Xv6.HeapBlocks
import Xv6.HeapRuns
import Xv6.HeapScrub
import Xv6.Vm
import Xv6.VmAreas
import Xv6.VmSpec
import Xv6.VmMap
import Xv6.VmCreate
import Xv6.VmServed
import Xv6.VmReadBack
import Xv6.VmUnmap
import Xv6.VmRollback
import Xv6.VmOverlap
import Xv6.VmInside
import Xv6.VmRuns
import Xv6.VmAcross
import Xv6.VmDestroy
import Xv6.Exec
import Xv6.ExecSpec
import Xv6.ExecPerm
import Xv6.TlbEx
import Xv6.TlbExSpec
import Xv6.Sched
import Xv6.SchedSpec
import Xv6.Lib.Fifo
import Xv6.SchedRuns
import Xv6.SchedLoad
import Xv6.Clock
import Xv6.TaskList
import Xv6.TaskListRuns
import Xv6.Branch
import Xv6.BranchSpec
import Xv6.TaskTree
import Xv6.TaskTreeRemove
import Xv6.AsidTable
import Xv6.TlbRemove
import Xv6.PageTableReinsert
import Xv6.TaskSetup
import Xv6.KmallocLimits
import Xv6.Lib.Numerals
import Xv6.Snprintf
import Xv6.SnprintfSpec
import Xv6.Strtoul
import Xv6.BootEnv
import Xv6.Lib.Pieces
import Xv6.SnprintfFormat
import Xv6.SnprintfScan
import Xv6.Write
import Xv6.WriteSpec
import Xv6.Syscall
import Xv6.TaskArgv
import Xv6.Lib.Updates
import Xv6.Asm
import Xv6.StackFrame
import Xv6.SwitchContext
import Xv6.TrapRuns
import Xv6.TaskStart
import Xv6.KernelStacks
import Xv6.Lib.LinkedUpdate
import Xv6.Bitops
import Xv6.StringOps
import Xv6.Spaces
import Xv6.Processes
import Xv6.UserBytes
