import LcmBridge.Library.Bytes
import LcmBridge.Library.Codec
import LcmBridge.Library.Checked
import LcmBridge.Library.Machine
import LcmBridge.Library.Tokens
import LcmBridge.Library.Charging
import LcmBridge.Library.ExpiringStore
import LcmBridge.Library.History
import LcmBridge.Library.Overlay
import LcmBridge.Library.Serial
import LcmBridge.Library.Windows
import LcmBridge.Library.Text
import LcmBridge.Library.Classes
import LcmBridge.Library.Records
import LcmBridge.Library.Potential
import LcmBridge.Library.Decimal
import LcmBridge.Core.Types
import LcmBridge.Core.Protocol
import LcmBridge.Core.Fragment
import LcmBridge.Core.Multicast
import LcmBridge.Core.Config
import LcmBridge.Core.Serde
import LcmBridge.Core.Mapping
import LcmBridge.Core.Url
import LcmBridge.Core.ZenohToLcm
import LcmBridge.Core.LcmToZenoh
import LcmBridge.Core.Bridge
import LcmBridge.Core.Network
import LcmBridge.Core.Arguments
import LcmBridge.Core.Plugin
import LcmBridge.Theory.Wire
import LcmBridge.Theory.Slot
import LcmBridge.Theory.Isolation
import LcmBridge.Theory.Rejection
import LcmBridge.Theory.Filled
import LcmBridge.Theory.Representation
import LcmBridge.Theory.Soundness
import LcmBridge.Theory.Family
import LcmBridge.Theory.Completeness
import LcmBridge.Theory.Duplicates
import LcmBridge.Theory.Offered
import LcmBridge.Theory.OwnChannel
import LcmBridge.Theory.Coverage
import LcmBridge.Theory.Fragmentation
import LcmBridge.Theory.FragmentSizes
import LcmBridge.Theory.Transmission
import LcmBridge.Theory.RoundTrip
import LcmBridge.Theory.Runs
import LcmBridge.Theory.LoopPrevention
import LcmBridge.Theory.Names
import LcmBridge.Theory.WireFilter
import LcmBridge.Theory.FailedSend
import LcmBridge.Theory.Directions
import LcmBridge.Theory.Transparency
import LcmBridge.Theory.SentWindow
import LcmBridge.Theory.PruneCost
import LcmBridge.Theory.Unpruned
import LcmBridge.Theory.Suppression
import LcmBridge.Theory.Reload
import LcmBridge.Theory.Urls
import LcmBridge.Theory.Publishers
import LcmBridge.Theory.Burst
import LcmBridge.Theory.Memory
import LcmBridge.Theory.Tasks
import LcmBridge.Theory.Progress
import LcmBridge.Theory.Relay
import LcmBridge.Theory.Network
import LcmBridge.Theory.Traffic
import LcmBridge.Theory.Storm
import LcmBridge.Theory.Across
import LcmBridge.Theory.UrlText
import LcmBridge.Theory.Format
import LcmBridge.Theory.Arguments
import LcmBridge.Theory.Startup
