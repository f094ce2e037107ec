import P2pVpn.Android.PacketQueue
import P2pVpn.Checkpoint.Effective
import P2pVpn.Checkpoint.Hostname
import P2pVpn.Checkpoint.HostnameRound
import P2pVpn.Checkpoint.Incarnation
import P2pVpn.Checkpoint.Invariant
import P2pVpn.Checkpoint.Legacy
import P2pVpn.Checkpoint.Monotone
import P2pVpn.Checkpoint.Objects
import P2pVpn.Checkpoint.Reachable
import P2pVpn.Checkpoint.Resync
import P2pVpn.Checkpoint.Sample
import P2pVpn.Checkpoint.Signing
import P2pVpn.Checkpoint.Snapshot
import P2pVpn.Checkpoint.State
import P2pVpn.Dns.Describe
import P2pVpn.Dns.Fallback
import P2pVpn.Dns.HostnameMerge
import P2pVpn.Dns.HostnameRecord
import P2pVpn.Dns.Label
import P2pVpn.Dns.Ownership
import P2pVpn.Dns.Reorder
import P2pVpn.Dns.Reverse
import P2pVpn.Dns.Serve
import P2pVpn.Dns.Zone
import P2pVpn.Forward.Coherence
import P2pVpn.Forward.Compile
import P2pVpn.Forward.Config
import P2pVpn.Forward.Delivery
import P2pVpn.Forward.Forwarder
import P2pVpn.Forward.LegacyAuthority
import P2pVpn.Forward.Outbound
import P2pVpn.Forward.Packets
import P2pVpn.Forward.PathIndependence
import P2pVpn.Forward.Projection
import P2pVpn.Forward.Refresh
import P2pVpn.Forward.ReplayTable
import P2pVpn.Forward.RouteOwnership
import P2pVpn.Forward.Sanitized
import P2pVpn.Forward.Window
import P2pVpn.Lib.Arrivals
import P2pVpn.Lib.Bytes
import P2pVpn.Lib.Cursor
import P2pVpn.Lib.Except
import P2pVpn.Lib.FirstMatch
import P2pVpn.Lib.Grouping
import P2pVpn.Lib.HashMap
import P2pVpn.Lib.IdealAead
import P2pVpn.Lib.LatestVersion
import P2pVpn.Lib.Links
import P2pVpn.Lib.Retain
import P2pVpn.Lib.RunningBest
import P2pVpn.Lib.SlidingWindow
import P2pVpn.Lib.SortedTable
import P2pVpn.Lib.StableSort
import P2pVpn.Lib.UndoLog
import P2pVpn.Lib.Units
import P2pVpn.Lib.Utf8
import P2pVpn.Membership.Authority
import P2pVpn.Membership.Clock
import P2pVpn.Membership.ClockSteps
import P2pVpn.Membership.Dominance
import P2pVpn.Membership.Effective
import P2pVpn.Membership.Elapse
import P2pVpn.Membership.Equivocation
import P2pVpn.Membership.Frame
import P2pVpn.Membership.History
import P2pVpn.Membership.Latest
import P2pVpn.Membership.Ledger
import P2pVpn.Membership.Merge
import P2pVpn.Membership.Projection
import P2pVpn.Membership.Record
import P2pVpn.Membership.Renaming
import P2pVpn.Membership.Replay
import P2pVpn.Membership.RootGrowth
import P2pVpn.Membership.Roots
import P2pVpn.Membership.Sample
import P2pVpn.Membership.StorageOrder
import P2pVpn.Membership.TrustPath
import P2pVpn.Net.AddressText
import P2pVpn.Net.Cidr
import P2pVpn.Net.Resolve
import P2pVpn.Net.Route
import P2pVpn.Net.SocketAddr
import P2pVpn.PacketPlane.Datagram
import P2pVpn.PacketPlane.Handshake
import P2pVpn.PacketPlane.Indexes
import P2pVpn.PacketPlane.KeyAgreement
import P2pVpn.PacketPlane.Lifetime
import P2pVpn.PacketPlane.Rekey
import P2pVpn.PacketPlane.Renewal
import P2pVpn.PacketPlane.Replay
import P2pVpn.PacketPlane.Session
import P2pVpn.Path.PathSet
import P2pVpn.Path.Tracking
import P2pVpn.PinnedStream.Behaviour
import P2pVpn.PinnedStream.Outcomes
import P2pVpn.Queue.Packet
import P2pVpn.Runtime.AddressRetention
import P2pVpn.Runtime.AutoRelay
import P2pVpn.Runtime.Handoff
import P2pVpn.Runtime.InFlight
import P2pVpn.Runtime.RateLimit
import P2pVpn.Runtime.RecoveryQueries
import P2pVpn.Runtime.SyncHistory
import P2pVpn.Tun.Cleanup
import P2pVpn.Tun.Config
import P2pVpn.Tun.Reconcile
import P2pVpn.Wire.Frame
import P2pVpn.Wire.Stream
