import EventMachine.Registry.Agreement
import EventMachine.Registry.Atomicity
import EventMachine.Registry.Modify
import EventMachine.Registry.Ledger
import EventMachine.Registry.BackEnds
import EventMachine.Registry.OldDescriptor
import EventMachine.Registry.Frame
import EventMachine.Registry.Parallel
import EventMachine.Registry.TwoMachines
import EventMachine.Registry.Refinement
import EventMachine.Registry.WithoutRemove
import EventMachine.Dispatch.Trace
import EventMachine.Dispatch.Unregistered
import EventMachine.Dispatch.Handshake
import EventMachine.Dispatch.Safety
import EventMachine.Dispatch.Adequacy
import EventMachine.Lifecycle.Destroy
import EventMachine.Lifecycle.Ownership
import EventMachine.Lifecycle.WellFormed
import EventMachine.Lifecycle.DestroyedRunning
import EventMachine.Lifecycle.Builds
import EventMachine.Lifecycle.Buffers
import EventMachine.Lifecycle.NonBlocking
import EventMachine.Timers.Ownership
import EventMachine.Timers.Silence
import EventMachine.Timers.Milliseconds
import EventMachine.Timers.Creation
import EventMachine.Timers.NoTrace
import EventMachine.Timers.Forgetting
import EventMachine.Timers.References
import EventMachine.Timers.Assertions
import EventMachine.Timers.Conservation
import EventMachine.Timers.Arming
import EventMachine.Timers.Modes
import EventMachine.Example.StdinStdout
import EventMachine.Example.Connections
import EventMachine.Kqueue
import EventMachine.Lib.Blind
