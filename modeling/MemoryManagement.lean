import MemoryManagement.Library.BitFields
import MemoryManagement.Library.ByteMemory
import MemoryManagement.Library.DoublyLinked
import MemoryManagement.Library.Tiling
import MemoryManagement.Malloc.Layout
import MemoryManagement.Malloc.Lists
import MemoryManagement.Malloc.Model
import MemoryManagement.Malloc.Refine
import MemoryManagement.Malloc.Operations
import MemoryManagement.Malloc.Traversals
import MemoryManagement.Malloc.Correctness
import MemoryManagement.Malloc.Coalescing
import MemoryManagement.Malloc.Requests
import MemoryManagement.Malloc.Placement
import MemoryManagement.Malloc.Realloc
import MemoryManagement.Malloc.Reporting
import MemoryManagement.Kernel.MapLookup
import MemoryManagement.Kernel.Exception
import MemoryManagement.Kernel.Shrink
import MemoryManagement.Kernel.MappingCall
import MemoryManagement.Kernel.Fork
import MemoryManagement.Kernel.Checks
import MemoryManagement.Kernel.Startup
import MemoryManagement.Kernel.Isolation
import MemoryManagement.Kernel.Faults
import MemoryManagement.Kernel.Loading
import MemoryManagement.Kernel.Segments
import MemoryManagement.Kernel.SegmentContents
import MemoryManagement.Kernel.Booted
import MemoryManagement.Kernel.Interleaving
import MemoryManagement.Kernel.Frames
import MemoryManagement.Kernel.Families
import MemoryManagement.Kernel.Returns
import MemoryManagement.Kernel.Ownership
import MemoryManagement.Kernel.BreakSafety
import MemoryManagement.Kernel.SystemCalls
import MemoryManagement.Kernel.Descriptors
import MemoryManagement.Kernel.BootLoader
import MemoryManagement.Library.Numerals
import MemoryManagement.Shared.Printf
import MemoryManagement.Shared.Interpreter
import MemoryManagement.Shared.Console
import MemoryManagement.Shared.Panic
import MemoryManagement.Shared.Directives
import MemoryManagement.Shared.Numbers
import MemoryManagement.Library.RoundRobin
import MemoryManagement.Library.Simulation
import MemoryManagement.Kernel.Scheduling
import MemoryManagement.Kernel.ForkContents
import MemoryManagement.Kernel.PrivateMemory
import MemoryManagement.Kernel.Separation
import MemoryManagement.Kernel.Refinement
import MemoryManagement.Kernel.Forking
import MemoryManagement.Kernel.FreePages
import MemoryManagement.Kernel.PageBudget
import MemoryManagement.Library.Accesses
import MemoryManagement.Malloc.Code
import MemoryManagement.Malloc.InHeap
import MemoryManagement.Malloc.Calls
import MemoryManagement.Kernel.HeapAccess
import MemoryManagement.Kernel.FreshHeap
import MemoryManagement.Kernel.Hosting
import MemoryManagement.Kernel.HostedPrograms
import MemoryManagement.Kernel.HostedCompletion
import MemoryManagement.Kernel.HostedAllocator
import MemoryManagement.Kernel.ContextSwitch
import MemoryManagement.Kernel.Resumption
