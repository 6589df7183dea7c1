import Propd.Builtin.File
import Propd.Builtin.FilePaths
import Propd.Builtin.FileStdio
import Propd.Builtin.Memory
import Propd.Chain.Model
import Propd.Chain.Staleness
import Propd.Core.Buffer
import Propd.Core.CStringArray
import Propd.Core.Cache
import Propd.Core.CacheFailures
import Propd.Core.CacheHeap
import Propd.Core.CacheHeapItems
import Propd.Core.CacheHeapRefines
import Propd.Core.CacheHeapRuns
import Propd.Core.CacheHeapTree
import Propd.Core.CacheTimes
import Propd.Core.Cleaner
import Propd.Core.Hex
import Propd.Core.HexBuffer
import Propd.Core.Io
import Propd.Core.Misc
import Propd.Core.Prefix
import Propd.Core.Route
import Propd.Core.Storage
import Propd.Core.TimedMap
import Propd.Core.Types
import Propd.Core.Value
import Propd.Core.ValueParse
import Propd.Core.ValueRoundTrip
import Propd.Core.ValueText
import Propd.Ctrl.Bounds
import Propd.Ctrl.Client
import Propd.Ctrl.Datagram
import Propd.Ctrl.Exchange
import Propd.Ctrl.RegisterChild
import Propd.Ctrl.Registration
import Propd.Ctrl.Server
import Propd.Infra.NamedMutex
import Propd.Infra.NamedMutexSafety
import Propd.Infra.ThreadPool
import Propd.Infra.ThreadPoolFifo
import Propd.Infra.ThreadPoolWakeup
import Propd.Launch.Calls
import Propd.Launch.Handshake
import Propd.Launch.Model
import Propd.Launch.Start
import Propd.Launch.Stop
import Propd.Lib.Aligned
import Propd.Lib.Avoids
import Propd.Lib.BitField
import Propd.Lib.BitRun
import Propd.Lib.Blocks
import Propd.Lib.Bytes
import Propd.Lib.Cells
import Propd.Lib.Condition
import Propd.Lib.Control
import Propd.Lib.Counting
import Propd.Lib.Fuel
import Propd.Lib.KeyLock
import Propd.Lib.LastWrite
import Propd.Lib.Ledger
import Propd.Lib.Linearizability
import Propd.Lib.Numeral
import Propd.Lib.Overwrite
import Propd.Lib.RankTree
import Propd.Lib.Ring
import Propd.Lib.Transition
import Propd.Lib.WaitFor
import Propd.Memio.Layout
import Propd.Memio.Position
import Propd.Memio.PositionWrite
import Propd.Mesh.CircularWait
import Propd.Mesh.Model
import Propd.Node.Callbacks
import Propd.Node.Calls
import Propd.Node.Frame
import Propd.Node.Linearizable
import Propd.Node.Locks
import Propd.Node.Model
import Propd.Node.Ownership
import Propd.Node.Provenance
import Propd.Node.References
import Propd.Node.RouteSafety
import Propd.Node.Shutdown
import Propd.Node.Storages
import Propd.Server.Loops
import Propd.Server.Ownership
import Propd.Server.Runs
import Propd.Tree.Fuel
import Propd.Tree.Insert
import Propd.Tree.Model
import Propd.Tree.Ordered
import Propd.Tree.Remove
import Propd.Tree.Rotation
import Propd.Tree.Runs
import Propd.Tree.Shape
import Propd.Tree.Traversal
import Propd.Wire.Framing
import Propd.Wire.Key
import Propd.Wire.Package
import Propd.Wire.Session
import Propd.Wire.Transfer
import Propd.Wire.Untrusted
import Propd.Wire.Worker
