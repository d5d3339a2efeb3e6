import IocpDemo.Transition
import IocpDemo.Framing
import IocpDemo.WireFormat
import IocpDemo.ServeRun
import IocpDemo.AcceptLoop
import IocpDemo.Rearm
import IocpDemo.RecvBuffer
import IocpDemo.Unicast
import IocpDemo.Roster
import IocpDemo.Attribution
import IocpDemo.WireLaws
import IocpDemo.QueuedPackets
import IocpDemo.RelayedMessages
import IocpDemo.FanOut
import IocpDemo.FanOutOnce
import IocpDemo.Spawning
import IocpDemo.Greeting
import IocpDemo.RosterData
import IocpDemo.ServeOrder
import IocpDemo.Closing
import IocpDemo.DistinctSockets
import IocpDemo.MalformedFrames
import IocpDemo.Conservation
import IocpDemo.SendQueLock
import IocpDemo.Attachments
import IocpDemo.PacketSizes
import IocpDemo.SendPendingPacket
import IocpDemo.BroadCastLoop
import IocpDemo.PacketMemory
import IocpDemo.UnicastLoss
import IocpDemo.Shutdown
import IocpDemo.PacketAppends
import IocpDemo.ClientCount
import IocpDemo.PacketRoundTrip
import IocpDemo.BroadCastOrder
import IocpDemo.Latency
import IocpDemo.ClientStream
import IocpDemo.Origins
import IocpDemo.Startup
import IocpDemo.OpenSockets
import IocpDemo.Progress
import IocpDemo.ByteSizes
import IocpDemo.LoginHandler
