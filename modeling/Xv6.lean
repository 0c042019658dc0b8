import Xv6.Lib.Transition
import Xv6.Lib.Result
import Xv6.Lib.Table
import Xv6.Lib.Ring
import Xv6.Lib.Circular
import Xv6.Lib.LittleEndian
import Xv6.Lib.Radix
import Xv6.Lib.RedoLog
import Xv6.Param
import Xv6.Bio.Cache
import Xv6.Bio.Pointers
import Xv6.Log.Reservation
import Xv6.Log.Header
import Xv6.Log.Commit
import Xv6.Log.View
import Xv6.Log.System
import Xv6.Log.Crash
import Xv6.Log.Progress
import Xv6.Log.Capacity
import Xv6.Log.Users
import Xv6.Log.Transparent
import Xv6.Vm.Kalloc
import Xv6.Vm.PageTable
import Xv6.Vm.Walk
import Xv6.Vm.Mapping
import Xv6.Vm.UserMemory
import Xv6.Vm.Copy
import Xv6.Vm.Fault
import Xv6.Vm.AddressSpace
import Xv6.Vm.Bytes
import Xv6.Lib.Scan
import Xv6.Vm.Strings
import Xv6.Vm.Lazy
import Xv6.Vm.FiniteMap
import Xv6.Vm.Contents
import Xv6.Vm.Allocation
import Xv6.Vm.Written
import Xv6.Process.Exec
import Xv6.Process.ExecSpec
import Xv6.Process.Kernel
import Xv6.Process.Ownership
import Xv6.Process.Memory
import Xv6.Process.Lifecycle
import Xv6.Process.Files
import Xv6.Process.Syscalls
import Xv6.Process.Children
import Xv6.Process.Machine
import Xv6.Process.Bounds
import Xv6.Process.Accounting
import Xv6.Process.Image
import Xv6.Process.Failure
import Xv6.Process.Independence
import Xv6.Process.References
import Xv6.Process.ExecImage
import Xv6.Process.ExecLoad
import Xv6.Process.ExecStack
import Xv6.Process.ExecCommit
import Xv6.Process.ExecResult
import Xv6.Pipes.Machine
import Xv6.Pipes.Fifo
import Xv6.Pipes.Sleepers
import Xv6.Pipes.Delivery
import Xv6.Console.Machine
import Xv6.Console.Discipline
import Xv6.Lib.Numeral
import Xv6.Console.Printf
import Xv6.Spinlock.Machine
import Xv6.Spinlock.Nesting
import Xv6.Sched.Machine
import Xv6.Sched.Code
import Xv6.Sched.Switch
import Xv6.Sched.Wakeup
import Xv6.Sched.Slots
import Xv6.Sched.Kill
import Xv6.Sched.Wait
import Xv6.Sched.Tree
import Xv6.Lib.Program
import Xv6.Fs.State
import Xv6.Fs.Code
import Xv6.Lib.Slots
import Xv6.Fs.Blocks
import Xv6.Fs.Part
import Xv6.Fs.Mapping
import Xv6.Fs.Contents
import Xv6.Fs.LogCost
import Xv6.Fs.ReadWrite
import Xv6.Fs.FailedWrite
import Xv6.Fs.FileRead
import Xv6.Fs.Chunks
import Xv6.Fs.FileWrite
import Xv6.Fs.Truncate
import Xv6.Fs.Reuse
import Xv6.Fs.Reclaim
import Xv6.Fs.Ownership
import Xv6.Lib.Segment
import Xv6.User.Printf
import Xv6.User.Memdump
import Xv6.User.Match
import Xv6.User.Ulib
import Xv6.Memmove
import Xv6.User.Grep
import Xv6.User.Shell
import Xv6.User.ShellGrammar
import Xv6.User.ShellParse
import Xv6.User.ShellRun
import Xv6.Lib.Blocks
import Xv6.User.Malloc
import Xv6.User.FreeList
import Xv6.User.MallocSafe
import Xv6.User.MallocRuns
