import Nonux.Core.Isolation
import Nonux.Components.MmBuddy
import Nonux.Framework.HookLive
import Nonux.Framework.CallerSlot
import Nonux.Tools.ConfigBoot
import Nonux.Tools.GeneratedNames
import Nonux.Framework.RecomposeFailure
import Nonux.Core.SchedSwap
import Nonux.Framework.MessagePlaces
import Nonux.Framework.SlotRefs
import Nonux.Framework.EdgeOrigins
import Nonux.Framework.QueueLifetime
import Nonux.Framework.BlockingCalls
import Nonux.Framework.DrainRace
import Nonux.Framework.ResumeWaiters
import Nonux.Components.ProcfsListing
import Nonux.Components.ProcfsPid
import Nonux.Components.OpenFails
import Nonux.Syscall.Mmap
import Nonux.Syscall.ForkTable
import Nonux.Syscall.HandleReuse
import Nonux.Syscall.TrapFrame
import Nonux.Syscall.ReadvSleeps
import Nonux.Syscall.PipeEof
import Nonux.Syscall.Wait
