import Pynixd.Queue.Logs
import Pynixd.Substitution.Imports
import Pynixd.Wire.FramedWriter
import Pynixd.Proxy.Replies
import Pynixd.Store.PathInfoCache
import Pynixd.Scheduler.ExecuteBuild
import Pynixd.Handlers.BuildDerivation
import Pynixd.Goals.DispatchOrder
import Pynixd.Goals.Wanted
import Pynixd.Goals.Abandoned
import Pynixd.Scheduler.Dispatch
import Pynixd.Scheduler.LocalSlots
import Pynixd.Store.HandOut
import Pynixd.Liveness.AccessMarks
import Pynixd.Liveness.Protection
import Pynixd.Liveness.Handshake
import Pynixd.Proxy.Negotiation
import Pynixd.Http.Upload
import Pynixd.Gc.Safety
import Pynixd.Liveness.RootsReport
import Pynixd.Drv.Canonical
import Pynixd.Drv.HashDefinition
import Pynixd.Wirelog.Diff
import Pynixd.Gc.Target
import Pynixd.Scheduler.BuildLimit
import Pynixd.Store.ClosureWalk
import Pynixd.Substitution.NarinfoRace
import Pynixd.Goals.Subscriptions
import Pynixd.Queue.Activities
import Pynixd.Substitution.References
import Pynixd.Wirelog.Recording
import Pynixd.Protocol.DerivedPathSyntax
