import Multicrew.Library.Machine
import Multicrew.Library.Table
import Multicrew.Library.Pool
import Multicrew.Library.Replication
import Multicrew.Library.Checked
import Multicrew.Library.Shuffle
import Multicrew.Library.Observation
import Multicrew.Library.Locks
import Multicrew.Library.Mailbox
import Multicrew.Library.Separator
import Multicrew.Library.Bytes
import Multicrew.Library.FreeLists
import Multicrew.Library.Sweep
import Multicrew.Library.Ownership
import Multicrew.Library.KeyedList
import Multicrew.Library.Memory
import Multicrew.Core.ChannelProtocol
import Multicrew.Core.Session
import Multicrew.Core.ClientConnection
import Multicrew.Core.Connection
import Multicrew.Core.ArrayPacket
import Multicrew.Core.AsyncCallbacks
import Multicrew.Core.ChannelNumbers
import Multicrew.Core.Delivery
import Multicrew.Core.LinkQueue
import Multicrew.Core.Ordering
import Multicrew.Core.InOrderTransport
import Multicrew.Core.FullState
import Multicrew.Core.PacketKey
import Multicrew.Core.SharedBuffer
import Multicrew.Core.BufferRanges
import Multicrew.Core.Packets
import Multicrew.Core.TypedPackets
import Multicrew.Core.Wire
import Multicrew.Core.FsuipcConfig
import Multicrew.Core.ConfigStore
import Multicrew.Core.ConfigCalls
import Multicrew.Core.ConfigFile
import Multicrew.Core.ConfigSaved
import Multicrew.Core.FsuipcModule
import Multicrew.Core.FsuipcMirror
import Multicrew.Core.PositionModule
import Multicrew.Core.PositionVelocity
import Multicrew.Core.PositionTracking
import Multicrew.Core.Callbacks
import Multicrew.Core.Signals
import Multicrew.Core.Emission
import Multicrew.Core.Registries
import Multicrew.Core.SmartPtr
import Multicrew.Core.StringUtilities
import Multicrew.Core.Threads
import Multicrew.Gauge.Metafile
import Multicrew.Gauge.MetafileStream
import Multicrew.Gauge.MetafileResync
import Multicrew.Gauge.MetafileFlow
import Multicrew.Gauge.DeltaBuffers
import Multicrew.Gauge.Elements
import Multicrew.Gauge.IconReplication
import Multicrew.Gauge.StaticReplication
import Multicrew.Gauge.ElementSession
import Multicrew.Gauge.LateChannels
import Multicrew.Gauge.Channels
import Multicrew.Gauge.WireFormat
import Multicrew.Gauge.UntrustedPackets
import Multicrew.Gauge.SessionIsolation
import Multicrew.Gauge.CriticalSections
import Multicrew.Gauge.MouseEvents
import Multicrew.Gauge.FrameProvider
import Multicrew.Gauge.ChannelIds
import Multicrew.Gauge.MetafileDisplay
import Multicrew.Gauge.StringChanges
import Multicrew.Gauge.Hooking
import Multicrew.Gauge.DetachedGauges
import Multicrew.Gauge.Wrapping
import Multicrew.Gauge.ModuleLoader
import Multicrew.Transport.NoLoss
