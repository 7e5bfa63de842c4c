import WgTcp.Foundation.BigEndian
import WgTcp.Foundation.FrameScan
import WgTcp.Foundation.Transition
import WgTcp.Wire.Header
import WgTcp.Wire.Frame
import WgTcp.Stream.Parser
import WgTcp.Stream.ParserSpec
import WgTcp.Stream.Reader
import WgTcp.Stream.Segmentation
import WgTcp.Stream.Handoff
import WgTcp.Peer.Endpoint
import WgTcp.Send.Staging
import WgTcp.Peer.State
import WgTcp.Peer.Sections
import WgTcp.Peer.Ownership
import WgTcp.Peer.Holder
import WgTcp.Peer.Machine
import WgTcp.Peer.Control
import WgTcp.Peer.ControlHolder
import WgTcp.Peer.ControlRuns
import WgTcp.Foundation.Outbox
import WgTcp.Peer.HolderMoves
import WgTcp.Peer.Moves
import WgTcp.Peer.WirePrefix
import WgTcp.Peer.Provisional
import WgTcp.Peer.Claims
import WgTcp.Peer.Flags
import WgTcp.Peer.Backing
import WgTcp.Peer.RetryFlag
import WgTcp.Peer.Connection
import WgTcp.Peer.Coherence
import WgTcp.Peer.Retirement
import WgTcp.Peer.Closing
import WgTcp.Peer.Promotion
import WgTcp.Peer.Roaming
import WgTcp.Foundation.RingBitmap
import WgTcp.Receive.Dispatch
import WgTcp.Receive.Provenance
import WgTcp.Receive.ReplayWindow
import WgTcp.Foundation.LatestWrite
import WgTcp.Foundation.PrefixTree
import WgTcp.AllowedIps.Trie
import WgTcp.AllowedIps.Shape
import WgTcp.AllowedIps.Table
import WgTcp.Peer.DialTarget
import WgTcp.Peer.PromotedClose
import WgTcp.Foundation.Fragments
import WgTcp.Netlink.Attr
import WgTcp.Netlink.Device
import WgTcp.Netlink.Dump
import WgTcp.Tools.Containers
import WgTcp.Netlink.Reassembly
import WgTcp.Netlink.Split
import WgTcp.Netlink.SplitEquiv
import WgTcp.Listener.AcceptThrottle
import WgTcp.Receive.FakeHeaders
import WgTcp.Stream.AllocFailure
import WgTcp.Stream.BufferBounds
import WgTcp.Foundation.FirstMatch
import WgTcp.Listener.Tracking
import WgTcp.Listener.Machine
import WgTcp.Listener.Admission
import WgTcp.Listener.Sweep
import WgTcp.Listener.Entries
import WgTcp.Listener.Rollback
import WgTcp.Noise.Keypairs
import WgTcp.Foundation.DepthFirst
import WgTcp.AllowedIps.Traversal
import WgTcp.Foundation.Command
import WgTcp.Netlink.Request
import WgTcp.Netlink.TransportAgreement
import WgTcp.Netlink.Consistency
import WgTcp.Netlink.Conf
import WgTcp.Tools.SyncConf
import WgTcp.Tools.SyncEquiv
import WgTcp.Foundation.LinkedQueue
import WgTcp.Queueing.Pipeline
import WgTcp.Queueing.Chain
import WgTcp.Queueing.Order
import WgTcp.Queueing.Progress
import WgTcp.Tools.Encoding
