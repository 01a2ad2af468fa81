import Wirebone.Lib.ByteString
import Wirebone.Lib.HashChain
import Wirebone.Lib.Lts
import Wirebone.Lib.Socket
import Wirebone.Crypto
import Wirebone.Noise.Agreement
import Wirebone.Noise.Record
import Wirebone.Noise.Integrity
import Wirebone.Noise.RoundTrip
import Wirebone.IpAlloc
import Wirebone.Lib.FirstMatch
import Wirebone.Store.Basic
import Wirebone.Store.Spec
import Wirebone.Store.Machine
import Wirebone.Store.OneShot
import Wirebone.Store.Registry
import Wirebone.Netmap
import Wirebone.Coordinator.Basic
import Wirebone.Coordinator.Effect
import Wirebone.Coordinator.Admission
import Wirebone.Coordinator.Fanout
import Wirebone.Store.Site
import Wirebone.Store.LostUpdate
import Wirebone.Store.LostKey
import Wirebone.Store.Restart
import Wirebone.Lib.CrashDisk
import Wirebone.Store.AtomicSave
import Wirebone.Http2.Session
import Wirebone.Lib.Framing
import Wirebone.Dns.Basic
import Wirebone.Http2.MapStream
import Wirebone.Coordinator.Confined
import Wirebone.Coordinator.Lifecycle
import Wirebone.Dns.Resolve
import Wirebone.Coordinator.Announce
import Wirebone.Coordinator.Online
import Wirebone.Netmap.Mutual
import Wirebone.Store.Failure
import Wirebone.Store.Expiry
import Wirebone.Store.Imported
import Wirebone.Store.Collision
import Wirebone.Coordinator.Total
import Wirebone.Http1
import Wirebone.Coordinator.Client
import Wirebone.Coordinator.Spent
import Wirebone.Coordinator.Stopping
import Wirebone.Netmap.Naming
import Wirebone.IpAlloc.Prefix
import Wirebone.Coordinator.Erasure
import Wirebone.Dns.Echo
import Wirebone.Dns.WellFormed
import Wirebone.Http1.Segments
import Wirebone.Http1.RoundTrip
import Wirebone.Crypto.Derive
import Wirebone.Crypto.KeyText
import Wirebone.Http2.Outgoing
import Wirebone.Http2.Serve
import Wirebone.Noise.Duplex
import Wirebone.Coordinator.Connect
import Wirebone.Http2.Requests
import Wirebone.Coordinator.MapOrder
import Wirebone.Coordinator.Keepalive
import Wirebone.Dns.Network
import Wirebone.Lib.LockOrder
import Wirebone.Coordinator.Locks
import Wirebone.Lib.CHeap
import Wirebone.CApi
import Wirebone.Store.NoiseKey
import Wirebone.Coordinator.Unseen
import Wirebone.Http2.Delivery
import Wirebone.Coordinator.Answers
import Wirebone.Coordinator.OpenKey
import Wirebone.Coordinator.Progress
import Wirebone.Coordinator.UpToDate
