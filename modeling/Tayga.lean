import Tayga.Addr
import Tayga.Aggregates
import Tayga.Assignment
import Tayga.AsyncTun
import Tayga.AsyncTunLaw
import Tayga.AsyncTunProofs
import Tayga.Built
import Tayga.Cache
import Tayga.CacheProofs
import Tayga.CacheRuns
import Tayga.Checksum
import Tayga.ChecksumLaw
import Tayga.ChecksumProofs
import Tayga.Codec
import Tayga.Config
import Tayga.Cutting
import Tayga.DataRuns
import Tayga.Datagrams
import Tayga.Device
import Tayga.DfLaw
import Tayga.Directives
import Tayga.Discovery
import Tayga.Dispatch
import Tayga.DispatchLaw
import Tayga.DispatchOrder
import Tayga.DispatchProofs
import Tayga.DispatchRuns
import Tayga.DnsLaw
import Tayga.DnsReads
import Tayga.Dynamic
import Tayga.DynamicFile
import Tayga.DynamicRoundTrip
import Tayga.Entries
import Tayga.FlowDispatch
import Tayga.FlowLaw
import Tayga.FlowReads
import Tayga.FragmentLaw
import Tayga.Frame
import Tayga.FrameRuns
import Tayga.Gcfg
import Tayga.GeneratedLaw
import Tayga.Grammars
import Tayga.Gso
import Tayga.Headers
import Tayga.IcmpLaw
import Tayga.IdentLaw
import Tayga.IdentRuns
import Tayga.Idling
import Tayga.Invariant
import Tayga.LeaseTable
import Tayga.LengthLaw
import Tayga.Lib.BitPrefix
import Tayga.Lib.Cut
import Tayga.Lib.Ebpf
import Tayga.Lib.FirstMatch
import Tayga.Lib.FreeRuns
import Tayga.Lib.OnesComplement
import Tayga.Lib.Program
import Tayga.Lib.Reassembly
import Tayga.Lib.Run
import Tayga.Lib.SlotPool
import Tayga.Lib.Threads
import Tayga.Lib.Tickets
import Tayga.LifetimeLaw
import Tayga.LifetimeProofs
import Tayga.LifetimeRuns
import Tayga.Lifetimes
import Tayga.Linking
import Tayga.LoadLaw
import Tayga.LoadProofs
import Tayga.Lookup
import Tayga.Lookups
import Tayga.LoopLaw
import Tayga.LossLaw
import Tayga.Maint
import Tayga.MapList
import Tayga.MapListRuns
import Tayga.MapLists
import Tayga.Negotiate
import Tayga.Nets
import Tayga.OptionWalk
import Tayga.Outputs
import Tayga.OwnAddress
import Tayga.Packet
import Tayga.PacketFrame
import Tayga.PacketTrip
import Tayga.ParityLaw
import Tayga.Parsing
import Tayga.Partition
import Tayga.Payload
import Tayga.PayloadTrip
import Tayga.Placement
import Tayga.PlacementLaw
import Tayga.Places
import Tayga.PoolLaw
import Tayga.PoolProofs
import Tayga.Pref64
import Tayga.Pref64Law
import Tayga.ProtocolLaw
import Tayga.QuoteLaw
import Tayga.QuoteTrip
import Tayga.Quotes
import Tayga.Reload
import Tayga.ReloadLaw
import Tayga.ReloadProofs
import Tayga.Resolve
import Tayga.Rfc6052
import Tayga.RoundTrip
import Tayga.RoundTrip6
import Tayga.RoutingLaw
import Tayga.Runs
import Tayga.Saves
import Tayga.Searching
import Tayga.SegmentLaw
import Tayga.SizeLaw
import Tayga.Startup
import Tayga.Stats
import Tayga.StatsLaw
import Tayga.StatsOutlines
import Tayga.StatsProofs
import Tayga.Steering
import Tayga.SteeringLaw
import Tayga.SteeringRuns
import Tayga.Synthesis
import Tayga.Text
import Tayga.TextProofs
import Tayga.Traces
import Tayga.Translate
import Tayga.Translated
import Tayga.Transparency
import Tayga.TransportLaw
import Tayga.TwoWays
import Tayga.UpperLayer
import Tayga.Verdicts
import Tayga.VnetLaw
import Tayga.Wire
import Tayga.WireLaw
import Tayga.Written
