import FerrumAlloc.Api.Acts
import FerrumAlloc.Api.ActsOs
import FerrumAlloc.Api.ActsPool
import FerrumAlloc.Api.ActsSlab
import FerrumAlloc.Api.Alloc
import FerrumAlloc.Api.AllocSteps
import FerrumAlloc.Api.Backends
import FerrumAlloc.Api.Blocks
import FerrumAlloc.Api.CallSteps
import FerrumAlloc.Api.Classify
import FerrumAlloc.Api.Discipline
import FerrumAlloc.Api.Drain
import FerrumAlloc.Api.Failure
import FerrumAlloc.Api.First
import FerrumAlloc.Api.FreeSteps
import FerrumAlloc.Api.Interleaving
import FerrumAlloc.Api.Isolation
import FerrumAlloc.Api.Ledger
import FerrumAlloc.Api.Locking
import FerrumAlloc.Api.Mapped
import FerrumAlloc.Api.Model
import FerrumAlloc.Api.Noninterference
import FerrumAlloc.Api.Owners
import FerrumAlloc.Api.Paths
import FerrumAlloc.Api.Process
import FerrumAlloc.Api.Programs
import FerrumAlloc.Api.Recovery
import FerrumAlloc.Api.Release
import FerrumAlloc.Api.Resize
import FerrumAlloc.Api.Returned
import FerrumAlloc.Api.Shift
import FerrumAlloc.Api.Sizes
import FerrumAlloc.Api.Solo
import FerrumAlloc.Api.Start
import FerrumAlloc.Api.Survival
import FerrumAlloc.Api.System
import FerrumAlloc.Api.Threads
import FerrumAlloc.Api.Twins
import FerrumAlloc.Api.View
import FerrumAlloc.Api.World
import FerrumAlloc.Arena
import FerrumAlloc.Arena.Book
import FerrumAlloc.Arena.Lifecycle
import FerrumAlloc.Arena.Record
import FerrumAlloc.Arena.System
import FerrumAlloc.Fuzz.AllocFreeLoop
import FerrumAlloc.Hooks.Model
import FerrumAlloc.Hooks.System
import FerrumAlloc.Huge
import FerrumAlloc.Lib.Bits
import FerrumAlloc.Lib.Bump
import FerrumAlloc.Lib.Counting
import FerrumAlloc.Lib.LinkedList
import FerrumAlloc.Lib.Memory
import FerrumAlloc.Lib.Threads
import FerrumAlloc.Lib.Transition
import FerrumAlloc.PageMeta
import FerrumAlloc.Platform
import FerrumAlloc.Rounding
import FerrumAlloc.SizeClass
import FerrumAlloc.Slab.Calls
import FerrumAlloc.Slab.Exhaustion
import FerrumAlloc.Slab.Footprint
import FerrumAlloc.Slab.Invariant
import FerrumAlloc.Slab.Model
import FerrumAlloc.Slab.NewPage
import FerrumAlloc.Slab.Ops
import FerrumAlloc.Slab.PageList
import FerrumAlloc.Slab.Refine
import FerrumAlloc.Slab.Roundtrip
import FerrumAlloc.Slab.System
import FerrumAlloc.ThreadCache.Model
import FerrumAlloc.ThreadCache.Progress
import FerrumAlloc.ThreadCache.Remote
import FerrumAlloc.ThreadCache.RemoteInv
import FerrumAlloc.ThreadCache.RemoteSystem
import FerrumAlloc.Tlsf.Alloc
import FerrumAlloc.Tlsf.Bins
import FerrumAlloc.Tlsf.Commute
import FerrumAlloc.Tlsf.Determined
import FerrumAlloc.Tlsf.Fit
import FerrumAlloc.Tlsf.Fragmentation
import FerrumAlloc.Tlsf.Free
import FerrumAlloc.Tlsf.Header
import FerrumAlloc.Tlsf.Indices
import FerrumAlloc.Tlsf.Layout
import FerrumAlloc.Tlsf.Lists
import FerrumAlloc.Tlsf.Mapping
import FerrumAlloc.Tlsf.Model
import FerrumAlloc.Tlsf.Opened
import FerrumAlloc.Tlsf.Pool
import FerrumAlloc.Tlsf.Roundtrip
import FerrumAlloc.Tlsf.Runs
import FerrumAlloc.Tlsf.Search
import FerrumAlloc.Tlsf.System
