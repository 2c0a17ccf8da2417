import Obsr.Lib.Run
import Obsr.Lib.Mutex
import Obsr.Lib.Slice
import Obsr.Lib.BigEndian
import Obsr.Lib.OrderedMap
import Obsr.Lib.Framing
import Obsr.Lib.Codec
import Obsr.Lib.LastWriter
import Obsr.Types.Value
import Obsr.Util.StateMachine
import Obsr.Util.HandleTable
import Obsr.Io.CircularBuffer
import Obsr.Io.CircularContent
import Obsr.Io.CircularRun
import Obsr.Io.CircularAlike
import Obsr.Io.Deserializer
import Obsr.Io.Serializer
import Obsr.Io.ValueRoundTrip
import Obsr.Storage.Entry
import Obsr.Storage.Storage
import Obsr.Net.Message
import Obsr.Net.MessageParser
import Obsr.Storage.Coherence
import Obsr.Net.Client
import Obsr.Storage.Ids
import Obsr.Net.LocalEdit
import Obsr.Net.Server
import Obsr.Net.ServerIds
import Obsr.Net.ServerAnnounce
import Obsr.Net.ServerInform
import Obsr.Net.Reader
import Obsr.Net.SocketIo
import Obsr.Net.Handshake
import Obsr.Net.HandshakeStep
import Obsr.Net.Contract
import Obsr.Net.Provenance
import Obsr.Net.Echo
import Obsr.Lib.Simulation
import Obsr.Net.Transport
import Obsr.Net.Line
import Obsr.Net.TransportLine
import Obsr.Net.SystemLine
import Obsr.Net.Link
import Obsr.Net.ReaderRun
import Obsr.Net.ServerIo
import Obsr.Net.ConnectionTable
import Obsr.Net.SocketSession
import Obsr.Net.Kept
import Obsr.Net.FirstMessage
import Obsr.Net.Restart
import Obsr.Net.Segmentation
import Obsr.Net.SocketOwner
import Obsr.Net.CallbackProtocol
import Obsr.Net.MessageSerializer
import Obsr.Net.Sending
import Obsr.Net.MessageRoundTrip
import Obsr.Net.MessageLimits
import Obsr.Storage.Effect
import Obsr.Storage.Remote
import Obsr.Storage.Received
import Obsr.Storage.Calls
import Obsr.Storage.Events
import Obsr.Storage.Pending
import Obsr.Util.Clock
import Obsr.Storage.Resync
import Obsr.Storage.Listeners
import Obsr.Storage.Restamp
import Obsr.Storage.Delivery
import Obsr.Net.NetworkClient
import Obsr.Net.TimeSync
import Obsr.Events.Looper
import Obsr.Events.Registry
import Obsr.Events.Dispatch
import Obsr.Events.Interest
import Obsr.Net.ClientHandover
import Obsr.Net.ClientHandshake
import Obsr.Net.ClientIds
import Obsr.Net.ClientNode
import Obsr.Net.ServerNode
import Obsr.Net.NodeLock
import Obsr.Storage.Foreign
import Obsr.Net.Collision
import Obsr.Io.CircularTake
import Obsr.Net.WholeFrame
import Obsr.Net.LoopEnds
import Obsr.Net.Garbage
import Obsr.Io.BufferView
import Obsr.Net.ParserVerdict
import Obsr.Net.Truncation
import Obsr.Lib.BufferWriter
import Obsr.Lib.Channel
import Obsr.Lib.Mirror
import Obsr.Storage.Registers
import Obsr.Storage.Provenance
import Obsr.Net.Packet
import Obsr.Net.System
import Obsr.Net.Wiring
import Obsr.Net.Feed
import Obsr.Net.Listener
import Obsr.Net.Replication
import Obsr.Io.BufferSerializer
import Obsr.Net.OutgoingQueue
import Obsr.Net.QueueAccount
import Obsr.Storage.Handles
import Obsr.Instance.Instance
import Obsr.Instance.ObjectTree
import Obsr.Storage.Atomic
import Obsr.Instance.Subtree
import Obsr.Instance.Paths
import Obsr.Instance.Walk
import Obsr.Instance.Lookup
import Obsr.Instance.Routes
import Obsr.Instance.Parents
import Obsr.Events.Timers
import Obsr.Util.SlotTable
