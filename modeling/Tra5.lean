import Tra5.Datapath.Compute
import Tra5.Hart.Sequential
import Tra5.Hart.Isolation
import Tra5.Hart.Start
import Tra5.Hart.Stale
import Tra5.Pipeline.Bus
import Tra5.Pipeline.Converge
import Tra5.Trap.Registers
import Tra5.Trap.TrapCsr
import Tra5.Trap.Status
import Tra5.Trap.Entry
import Tra5.Trap.NoDest
import Tra5.Trap.Return
import Tra5.Trap.System
import Tra5.Trap.Atomic
import Tra5.Sim.Ram
import Tra5.Sim.Consistency
import Tra5.Sim.Misaligned
import Tra5.Sim.Dump
import Tra5.Sim.Devices
import Tra5.System.Verify
import Tra5.Sim.Print
import Tra5.Sim.Entry
