import Bdt.Connection.Stall
import Bdt.Connection.RecvQueueRuns
import Bdt.Connection.SendTransmissions
import Bdt.Connection.LinkAcks
import Bdt.Global.AesPadding
import Bdt.Global.SequenceCreator
import Bdt.Global.TimerHelper
import Bdt.Interface.FirstPackage
import Bdt.Interface.BoxRejection
import Bdt.Global.PeerInfoSign
import Bdt.Connection.StreamCompletion
import Bdt.Connection.StreamDelivery
import Bdt.Interface.SocketLifetime
import Bdt.Connection.SingleProvider
import Bdt.Connection.PeerIsolation
import Bdt.Tunnel.TcpTunnelSend
import Bdt.Tunnel.TunnelReferences
import Bdt.Tunnel.UdpTunnelPing
import Bdt.History.PeerLifetime
import Bdt.History.PeerConstInfo
import Bdt.History.KeyLists
import Bdt.Tunnel.BuildActionSettlement
import Bdt.Tunnel.ListBuildActionRuns
import Bdt.Tunnel.BuildActionRuntimeFinish
import Bdt.SuperNode.ServerKeyBinding
import Bdt.SuperNode.PeerInfoRelay
import Bdt.Tunnel.TunnelRouting
import Bdt.Tunnel.ResponseCache
import Bdt.Connection.AcceptPairing
import Bdt.Connection.AckReferences
import Bdt.Connection.CloseAtomicity
import Bdt.SuperNode.TcpRecordRoundTrip
import Bdt.History.SqliteStorageRuns
import Bdt.History.SqliteRoundTrip
import Bdt.History.TcpLogConsistency
import Bdt.History.KeyHashRing
import Bdt.History.KeySelection
import Bdt.History.TransferSpeed
import Bdt.SnClient.CallSession
import Bdt.SnClient.PriorityEndpoint
import Bdt.SnClient.PingManager
import Bdt.SnClient.CallCompletion
import Bdt.Connection.FirstAnswer
import Bdt.Tunnel.RemoteInfo
import Bdt.SuperNode.PeerRetention
import Bdt.SuperNode.KeyReferences
import Bdt.SuperNode.TcpInterfaces
import Bdt.SuperNode.ResendTransmissions
import Bdt.Protocol.EndpointArray
import Bdt.Protocol.PackageLengths
import Bdt.Global.SuperNodeLists
import Bdt.Interface.CryptoData
