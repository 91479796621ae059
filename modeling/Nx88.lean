import Nx88.Mmu.Probe
import Nx88.Mmu.DevMap
import Nx88.Ffs.Slots
import Nx88.Fd.Return
import Nx88.Ffs.Correct
import Nx88.Tlb.Invisible
import Nx88.Tlb.Modes
import Nx88.Memory.Bytes
import Nx88.Cpu.Undefined
import Nx88.Cpu.Abort
import Nx88.Clock.Monotone
import Nx88.Cpu.Interrupts
import Nx88.Web.Input
import Nx88.Console.Keystrokes
import Nx88.Disk.Complete
import Nx88.Web.Webin
import Nx88.Ffs.Safe
import Nx88.Memory.Straddle
import Nx88.Proc.Buffers
import Nx88.Console.Newline
import Nx88.Console.Cooked
import Nx88.Console.Poll
import Nx88.Console.Polled
import Nx88.Cpu.Kcall
import Nx88.Mmu.Mapping
import Nx88.Devices.Drain
import Nx88.Cpu.Fields
import Nx88.Cpu.Divide
import Nx88.Cpu.Registers
import Nx88.Memory.Watch
import Nx88.User.Stack
import Nx88.User.Files
import Nx88.Loader.Aout
import Nx88.Console.Kmsg
import Nx88.Disk.Label
import Nx88.Proc.Hostfile
import Nx88.Proc.UserCopy
import Nx88.Lib.Observed
import Nx88.Console.Input
import Nx88.Proc.ConsoleRead
import Nx88.Proc.Service
import Nx88.Observe.Unnoticed
import Nx88.M88k.Runner
import Nx88.Cpu.Restart
import Nx88.Tlb.Protect
import Nx88.Disk.Coherence
