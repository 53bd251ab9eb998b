import Tg11Kernel.Fat32.Containment
import Tg11Kernel.Fat32.Allocation
import Tg11Kernel.Fat32.Paths
import Tg11Kernel.Ramfs.WorkingDirectory
import Tg11Kernel.Syscall.Descriptors
import Tg11Kernel.Syscall.Output
import Tg11Kernel.Syscall.Cursor
import Tg11Kernel.Sched.Preemption
import Tg11Kernel.Sched.Interrupt
import Tg11Kernel.Elf.Builtin
import Tg11Kernel.Elf.Census
import Tg11Kernel.Memory.BootMap
import Tg11Kernel.Memory.Splitting
import Tg11Kernel.Heap.Brk
import Tg11Kernel.Mmap.Demand
import Tg11Kernel.Heap.Sizes
import Tg11Kernel.Net.Sequence
import Tg11Kernel.E1000.Delivery
import Tg11Kernel.Net.Response
import Tg11Kernel.Net.Options
import Tg11Kernel.Basic.Division
import Tg11Kernel.Basic.Loops
import Tg11Kernel.Basic.Assignment
import Tg11Kernel.Basic.Substitution
import Tg11Kernel.Basic.DataRuns
import Tg11Kernel.Shell.Scoping
import Tg11Kernel.Shell.Lists
import Tg11Kernel.Shell.FatPaths
import Tg11Kernel.Shell.TextEditor
import Tg11Kernel.Shell.Globs
import Tg11Kernel.Shell.Redirection
import Tg11Kernel.Elf.Ksym
import Tg11Kernel.Basic.Numerals
import Tg11Kernel.Shell.Sorting
import Tg11Kernel.Net.Exchange
import Tg11Kernel.Elf.Unload
