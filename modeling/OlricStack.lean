import OlricStack.Lib.Growth
import OlricStack.Lib.Run
import OlricStack.Lib.Sync
import OlricStack.Lib.LastWins
import OlricStack.Lib.ByteMemory
import OlricStack.Lib.KeyedSet
import OlricStack.Lib.Text
import OlricStack.Lib.Json
import OlricStack.Lib.ApiServer
import OlricStack.Store.Record
import OlricStack.Store.Codec
import OlricStack.Store.Json
import OlricStack.Store.Upsert
import OlricStack.Store.Table
import OlricStack.Ring.Model
import OlricStack.Ring.Layout
import OlricStack.Ring.Fifo
import OlricStack.Ring.Room
import OlricStack.Ring.Crash
import OlricStack.Ring.Lengths
import OlricStack.Ring.Damage
import OlricStack.Sidecar.Pending
import OlricStack.Sidecar.Server
import OlricStack.Sidecar.Flush
import OlricStack.Sidecar.Restart
import OlricStack.Sidecar.Stop
import OlricStack.Sidecar.Accounting
import OlricStack.Sidecar.MissRead
import OlricStack.Sidecar.Purge
import OlricStack.Sidecar.Drainers
import OlricStack.Sidecar.Calls
import OlricStack.Sidecar.Kept
import OlricStack.Sidecar.LastWrite
import OlricStack.Sidecar.Handoff
import OlricStack.Node.Fencing
import OlricStack.Node.Publish
import OlricStack.Node.Order
import OlricStack.Node.Ownership
import OlricStack.Node.Refill
import OlricStack.Node.LeaseHistory
import OlricStack.Node.FailStop
import OlricStack.Node.Acknowledge
import OlricStack.Node.Engine
import OlricStack.Node.Scan
import OlricStack.Node.Replication
import OlricStack.Node.Codec
import OlricStack.Node.Space
import OlricStack.Node.Deadline
import OlricStack.Node.Expiry
import OlricStack.Node.Shutdown
import OlricStack.Watchdog.Cluster
import OlricStack.Watchdog.Lifecycle
import OlricStack.Watchdog.Counters
import OlricStack.Topology.Service
import OlricStack.Topology.Durable
import OlricStack.Topology.Restart
import OlricStack.Topology.Membership
import OlricStack.Topology.Live
import OlricStack.Topology.Leadership
import OlricStack.Topology.Streams
import OlricStack.Topology.Replacement
import OlricStack.Topology.Grants
import OlricStack.Topology.Health
import OlricStack.Cluster.Merge
import OlricStack.Cluster.Migration
import OlricStack.Cluster.Removal
import OlricStack.Cluster.Routing
import OlricStack.Cluster.RoutingUpdate
import OlricStack.Dmap.Locker
import OlricStack.Dmap.Atomic
import OlricStack.Dmap.Lock
import OlricStack.Dmap.Iterator
import OlricStack.Dmap.Iteration
import OlricStack.Dmap.TwoReplicas
import OlricStack.Dmap.Fragments
import OlricStack.Dmap.ReadRepair
import OlricStack.Dmap.Pipeline
import OlricStack.Wire.Command
import OlricStack.Wire.RoundTrip
import OlricStack.Wire.Safety
import OlricStack.Wire.Session
import OlricStack.Operator.Workloads
import OlricStack.Operator.Reconcile
