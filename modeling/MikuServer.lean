import MikuServer.Framework.Mem
import MikuServer.Framework.StdMap
import MikuServer.Framework.Loop
import MikuServer.Framework.Table
import MikuServer.Framework.Act
import MikuServer.Framework.Ring
import MikuServer.Framework.Stream
import MikuServer.Framework.Threads
import MikuServer.Framework.WireFormat
import MikuServer.Framework.Runtime
import MikuServer.Framework.CodedStream
import MikuServer.Framework.UnknownFields
import MikuServer.Framework.CodedRuntime
import MikuServer.Framework.FieldLoop
import MikuServer.Framework.CString
import MikuServer.Framework.Text
import MikuServer.Impl.Packet
import MikuServer.Impl.CircleList
import MikuServer.Impl.RecvBuff
import MikuServer.Impl.GateUser
import MikuServer.Impl.RoomClient
import MikuServer.Impl.CenterClient
import MikuServer.Impl.RoomServerProcessor
import MikuServer.Impl.ServerProcessor
import MikuServer.Impl.GateServerProcessor
import MikuServer.Impl.UserInfoList
import MikuServer.Impl.ChatRoom
import MikuServer.Impl.RoomPackets
import MikuServer.Impl.RoomServer
import MikuServer.Impl.RoomCommands
import MikuServer.Impl.CenterCommands
import MikuServer.Impl.RoomThreads
import MikuServer.Impl.LoginThreads
import MikuServer.Impl.LoginExchange
import MikuServer.Impl.RoomDispatch
import MikuServer.Impl.GateRooms
import MikuServer.Impl.ClientProcessor
import MikuServer.Impl.QueryChatRoom
import MikuServer.Impl.ServerListenner
import MikuServer.Impl.ConnectionThreads
import MikuServer.Impl.ReleaseThreads
import MikuServer.Impl.Connector
import MikuServer.Impl.CircleBuff
import MikuServer.Impl.MysqlConnPool
import MikuServer.Impl.BaseLog
import MikuServer.Impl.BufVector
import MikuServer.Impl.CCircleBuff
import MikuServer.Impl.PackageDefine
import MikuServer.Impl.ProcessorThreads
import MikuServer.Impl.ResQueue
import MikuServer.Impl.SocketEvent
import MikuServer.Impl.CommandChain
import MikuServer.Impl.TCPClient
import MikuServer.Impl.Dispatchers
import MikuServer.Impl.DispatchThreads
import MikuServer.Impl.MyStr
import MikuServer.Impl.ServerConfig
import MikuServer.Impl.MessageCodec
import MikuServer.Impl.MessageSend
import MikuServer.Impl.UplinkPath
import MikuServer.Impl.Servers
import MikuServer.Impl.AcceptThreads
import MikuServer.Impl.DirectorCommands
import MikuServer.Proof.Packet
import MikuServer.Proof.Chain
import MikuServer.Proof.CircleList
import MikuServer.Proof.Queue
import MikuServer.Proof.Frames
import MikuServer.Proof.Connection
import MikuServer.Proof.CenterClient
import MikuServer.Proof.RoomClient
import MikuServer.Proof.GateUser
import MikuServer.Proof.GateFraming
import MikuServer.Proof.ReceivePath
import MikuServer.Proof.RoomServerProcessor
import MikuServer.Proof.ServerProcessor
import MikuServer.Proof.GateServerProcessor
import MikuServer.Proof.ChatRoom
import MikuServer.Proof.RoomServer
import MikuServer.Proof.RoomCommands
import MikuServer.Proof.RoomInvariant
import MikuServer.Proof.RoomSafety
import MikuServer.Proof.Broadcast
import MikuServer.Proof.Gift
import MikuServer.Proof.Microphone
import MikuServer.Proof.Records
import MikuServer.Proof.UserRecords
import MikuServer.Proof.LoginMessages
import MikuServer.Proof.LoginAnswer
import MikuServer.Proof.UserLists
import MikuServer.Proof.Nickname
import MikuServer.Proof.RecordOwner
import MikuServer.Proof.FirstLogin
import MikuServer.Proof.LoginExchange
import MikuServer.Proof.LoginPairing
import MikuServer.Proof.RoomDispatch
import MikuServer.Proof.Uplink
import MikuServer.Proof.RoomManager
import MikuServer.Proof.GateRooms
import MikuServer.Proof.GateLogins
import MikuServer.Proof.QueryThreads
import MikuServer.Proof.ConnectionRegistry
import MikuServer.Proof.ConnectionThreads
import MikuServer.Proof.ConnectionUse
import MikuServer.Proof.ReleaseThreads
import MikuServer.Proof.ResourceManager
import MikuServer.Proof.Connector
import MikuServer.Proof.CircleBuff
import MikuServer.Proof.MysqlConnPool
import MikuServer.Proof.LogThreads
import MikuServer.Proof.LogFiles
import MikuServer.Proof.BufVector
import MikuServer.Proof.CCircleBuff
import MikuServer.Proof.MessageSize
import MikuServer.Proof.HoldersMessage
import MikuServer.Proof.Crowd
import MikuServer.Proof.MessageRun
import MikuServer.Proof.ProcessorThreads
import MikuServer.Proof.ClientSockets
import MikuServer.Proof.ResQueue
import MikuServer.Proof.SocketEvent
import MikuServer.Proof.DeferredLogins
import MikuServer.Proof.Lookups
import MikuServer.Proof.CommandChain
import MikuServer.Proof.BuffBounds
import MikuServer.Proof.TCPClient
import MikuServer.Proof.Dispatchers
import MikuServer.Proof.DispatchBalance
import MikuServer.Proof.DispatchThreads
import MikuServer.Proof.MyStr
import MikuServer.Proof.ServerConfig
import MikuServer.Proof.MessageCodec
import MikuServer.Proof.PackCodec
import MikuServer.Proof.MessageSend
import MikuServer.Proof.UplinkPath
import MikuServer.Proof.DownlinkPath
import MikuServer.Proof.RoomIsolation
import MikuServer.Proof.RoomAudience
import MikuServer.Proof.RoomSends
import MikuServer.Proof.Servers
import MikuServer.Proof.AcceptThreads
import MikuServer.Proof.DirectorCommands
