import DlnaProxy.Lib.BufReader
import DlnaProxy.Lib.Lawful
import DlnaProxy.Lib.Lossy
import DlnaProxy.Lib.Lines
import DlnaProxy.Lib.Keyed
import DlnaProxy.Lib.Anchored
import DlnaProxy.Lib.Rewriting
import DlnaProxy.Lib.Timer
import DlnaProxy.Net
import DlnaProxy.Config
import DlnaProxy.TcpProxy.Code
import DlnaProxy.TcpProxy.Arrival
import DlnaProxy.TcpProxy.Header
import DlnaProxy.TcpProxy.Framing
import DlnaProxy.TcpProxy.Update
import DlnaProxy.TcpProxy.Rescan
import DlnaProxy.TcpProxy.Respelling
import DlnaProxy.TcpProxy.KeepAlive
import DlnaProxy.TcpProxy.Chunked
import DlnaProxy.TcpProxy.ChunkPass
import DlnaProxy.TcpProxy.Client
import DlnaProxy.TcpProxy.ChunkCodec
import DlnaProxy.TcpProxy.ChunkGrammar
import DlnaProxy.TcpProxy.ChunkSizes
import DlnaProxy.TcpProxy.ChunkSlips
import DlnaProxy.TcpProxy.ChunkCut
import DlnaProxy.TcpProxy.ChunkAgreement
import DlnaProxy.TcpProxy.Rewrite
import DlnaProxy.TcpProxy.PassThrough
import DlnaProxy.TcpProxy.Transparency
import DlnaProxy.TcpProxy.UntilClose
import DlnaProxy.TcpProxy.Oversized
import DlnaProxy.TcpProxy.OwnUrls
import DlnaProxy.Main
import DlnaProxy.TcpProxy.OriginUrls
import DlnaProxy.TcpProxy.Bodyless
import DlnaProxy.TcpProxy.Delivery
import DlnaProxy.TcpProxy.Truncation
import DlnaProxy.TcpProxy.Messages
import DlnaProxy.TcpProxy.Chain
import DlnaProxy.TcpProxy.Conversation
import DlnaProxy.TcpProxy.ListenLoop
import DlnaProxy.TcpProxy.StreamTimeout
import DlnaProxy.TcpProxy.Admission
import DlnaProxy.TcpProxy.Promptness
import DlnaProxy.Ssdp.Httparse
import DlnaProxy.Ssdp.Packet
import DlnaProxy.Ssdp.Manager
import DlnaProxy.Ssdp.Listener
import DlnaProxy.Ssdp.Search
import DlnaProxy.Ssdp.HeaderFields
import DlnaProxy.Ssdp.RoundTrip
import DlnaProxy.Ssdp.Tasks
import DlnaProxy.Ssdp.Description
import DlnaProxy.Ssdp.Schedule
import DlnaProxy.Ssdp.Withdrawal
import DlnaProxy.Ssdp.MessageOrder
import DlnaProxy.Ssdp.Attempts
import DlnaProxy.Ssdp.Exit
import DlnaProxy.Ssdp.Accounting
import DlnaProxy.Ssdp.OwnPackets
import DlnaProxy.Program
import DlnaProxy.Cascade
