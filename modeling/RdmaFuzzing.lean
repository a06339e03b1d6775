import RdmaFuzzing.RandomDraws
import RdmaFuzzing.ReusedBuffer
import RdmaFuzzing.MaskedChange
import RdmaFuzzing.XorSpan
import RdmaFuzzing.FrameLayout
import RdmaFuzzing.CheckBufferType
import RdmaFuzzing.FuzzIbBth
import RdmaFuzzing.ProxyFuzzer
import RdmaFuzzing.ForwardedFrames
import RdmaFuzzing.BufferResidue
import RdmaFuzzing.FuzzedPayload
import RdmaFuzzing.AlteredTraffic
import RdmaFuzzing.PacketSerial
import RdmaFuzzing.NaiveFuzzer
import RdmaFuzzing.CText
import RdmaFuzzing.UdpSocket
import RdmaFuzzing.ExchangeProxy
import RdmaFuzzing.ExchangeRouting
import RdmaFuzzing.StepSystem
import RdmaFuzzing.WorkQueue
import RdmaFuzzing.ConnInfo
import RdmaFuzzing.PortProxy
import RdmaFuzzing.ConnExchange
import RdmaFuzzing.ExchangeAgreement
import RdmaFuzzing.ExitRun
import RdmaFuzzing.QueuePair
import RdmaFuzzing.Destinations
import RdmaFuzzing.OneShot
import RdmaFuzzing.PortRouting
import RdmaFuzzing.ForwardProxy
import RdmaFuzzing.TransparentForwarding
import RdmaFuzzing.FuzzRounds
import RdmaFuzzing.FinalOpcode
import RdmaFuzzing.HeaderReach
import RdmaFuzzing.TapTunnel
import RdmaFuzzing.FrameSerial
import RdmaFuzzing.FailedReads
import RdmaFuzzing.MessageLoops
import RdmaFuzzing.MessageOrder
import RdmaFuzzing.MutationOrder
import RdmaFuzzing.NaiveReach
import RdmaFuzzing.DecimalScan
import RdmaFuzzing.InfoRoundTrip
import RdmaFuzzing.MalformedInfo
import RdmaFuzzing.FailedExchange
import RdmaFuzzing.FailedReceives
import RdmaFuzzing.ReceiveLoop
import RdmaFuzzing.SendLoop
import RdmaFuzzing.TerminatorScan
import RdmaFuzzing.SentResidue
import RdmaFuzzing.MessageCopies
import RdmaFuzzing.HexText
import RdmaFuzzing.PrintedDatagrams
import RdmaFuzzing.BitField
import RdmaFuzzing.DeserializePkt
import RdmaFuzzing.HeaderDecoding
import RdmaFuzzing.PayloadExtraction
import RdmaFuzzing.HexDump
import RdmaFuzzing.Relays
import RdmaFuzzing.Tunnels
import RdmaFuzzing.TunnelRefinement
import RdmaFuzzing.EmittedFrames
import RdmaFuzzing.ProxyChain
import RdmaFuzzing.ReplayedTurns
import RdmaFuzzing.TapSetup
import RdmaFuzzing.PointerLifetimes
import RdmaFuzzing.AddressSetup
import RdmaFuzzing.ExchangeSetup
import RdmaFuzzing.TextExchange
import RdmaFuzzing.VerbsObjects
import RdmaFuzzing.DevInfo
import RdmaFuzzing.TypedDestinations
import RdmaFuzzing.GoSlices
import RdmaFuzzing.SliceCases
import RdmaFuzzing.DeviceListing
import RdmaFuzzing.CommandLine
import RdmaFuzzing.StoragePair
import RdmaFuzzing.ProxyConsole
import RdmaFuzzing.PrintedHeader
import RdmaFuzzing.ExchangeLoss
