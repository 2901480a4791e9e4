import Juice.Driver.Agreement
import Juice.Driver.Baseline
import Juice.Host.Delivery
import Juice.Host.Reconnect
import Juice.System.Mirror
import Juice.Host.Pointer
import Juice.Host.OrderedWriter
import Juice.Launch.PidSafety
import Juice.Zip.Guarantees
import Juice.Zip.Collisions
import Juice.Control.Import
import Juice.Jit.PoolSafety
import Juice.Jit.RegistrySafety
import Juice.Jit.CodeSpan
import Juice.Jit.Snapshot
import Juice.Fault.Replay
import Juice.Fault.Bounded
import Juice.Virtual.FixedSafety
import Juice.Launch.Matcher
import Juice.Launch.Sanitize
import Juice.Text.Paste
import Juice.Launch.Arguments
import Juice.Launch.DllOverrides
import Juice.Pe.Descriptor
import Juice.Release.Containment
import Juice.Bundle.SelfContained
import Juice.Display.ReadbackBudget
import Juice.Host.MetalPresenter
import Juice.Host.Deadline
import Juice.Driver.Vectors
