import Ns3.Core.Int64x64.Cairo
import Ns3.Core.Int64x64.Inverse
import Ns3.Core.Int64x64.TextRoundTrip
import Ns3.Core.RngStream
import Ns3.Core.Scheduler.CalendarQueue
import Ns3.Core.Scheduler.HeapScheduler
import Ns3.Core.Scheduler.MapScheduler
import Ns3.Core.Simulator.Bookkeeping
import Ns3.Core.Time.Conversion
import Ns3.Core.TrickleTimer
import Ns3.Dsdv.LoopFreedom
import Ns3.FlowMonitor.Conservation
import Ns3.Internet.Arp.Resolution
import Ns3.Internet.Fragmentation.Ipv6Inverse
import Ns3.Internet.Fragmentation.Timeouts
import Ns3.Internet.GlobalRouting.ShortestPathFirst
import Ns3.Internet.Ipv4EndPointDemux
import Ns3.Internet.Ipv4StaticRouting
import Ns3.Internet.Rip.RouteTimers
import Ns3.Internet.TcpHeader.Codec
import Ns3.Internet.TcpHeader.OptionLoop
import Ns3.Internet.TcpRxBuffer.ReceiveWindow
import Ns3.Internet.TcpRxBuffer.SackList
import Ns3.Network.PacketTagList.Maps
import Ns3.Nr.Mac.HarqBeamOrder
import Ns3.Nr.Mac.QueueBookkeeping
import Ns3.Nr.Mac.SrsUniqueness
import Ns3.Nr.Rlc.Am.Acknowledgment
import Ns3.Nr.Rlc.Am.InOrderDelivery
import Ns3.Nr.Rlc.TransmissionOpportunity
import Ns3.Nr.Rrc.Asn1Reuse
import Ns3.Nr.SfnSf
import Ns3.Olsr.Protocol.Dissemination
import Ns3.Olsr.Protocol.Flooding
import Ns3.Olsr.Protocol.Frames
import Ns3.Olsr.Protocol.NeighborhoodRuns
import Ns3.Olsr.RoutingTableComputation
import Ns3.Oran.ConflictMitigation
import Ns3.Oran.DataRepository.Positions
import Ns3.Oran.DataRepository.Registration
import Ns3.Oran.E2NodeTerminator
import Ns3.Oran.Handover.Interference
import Ns3.Oran.Handover.TryNextBest
import Ns3.Oran.NearRtRic.LogicModules
import Ns3.Oran.NrCellLoad
import Ns3.Oran.RsrpPipeline
import Ns3.SixLowPan.PendingReassemblies
import Ns3.TrafficControl.FlowOrder
import Ns3.TrafficControl.QueueDiscRuns
import Ns3.UavIsacDrl.ControlActions
import Ns3.UavIsacDrl.IsacFusion
import Ns3.UavIsacDrl.SynchronousRlBridge
import Ns3.Wifi.BlockAckResponse.Recipient
import Ns3.Wifi.ElementFragments
import Ns3.Wifi.RecipientFlush
