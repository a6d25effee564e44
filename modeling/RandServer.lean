import RandServer.Lib.Custody
import RandServer.Lib.Framing
import RandServer.Lib.KeySeq
import RandServer.Lib.LapRing
import RandServer.Lib.Machine
import RandServer.Lua.Value
import RandServer.Net.Descriptors
import RandServer.Net.EventQueue
import RandServer.Net.MsgBuffRace
import RandServer.Net.ReceiverRoom
import RandServer.Net.SessionRegistry
import RandServer.Net.SocketHandle
import RandServer.Net.Transport
import RandServer.Tool.Ffid
import RandServer.Tool.SbtreeDelete
import RandServer.Lua.Serialize
import RandServer.Lua.Deserialize
import RandServer.Lua.Format
import RandServer.Lua.UnpackLeaf
import RandServer.Lua.UnpackFormat
import RandServer.Lua.LuaNet
import RandServer.Lua.LuaServer
import RandServer.Lua.Graph
import RandServer.Lua.Packed
import RandServer.Lua.Pack
import RandServer.Lua.Rebuild
import RandServer.Lua.BadKey
import RandServer.Lua.RoundTrip
import RandServer.Lua.TwoPart
import RandServer.Tool.IdPool
import RandServer.Script.SecTick
import RandServer.Net.SendRing
import RandServer.Net.Ownership
import RandServer.Net.MessageQueue
import RandServer.Net.SharedPool
import RandServer.Net.CloseEpoll
import RandServer.Net.CloseIocp
import RandServer.Lua.IntegerCodec
import RandServer.Net.MsgBuffQueue
import RandServer.Net.RingCursors
import RandServer.Net.RecvContract
import RandServer.Net.RecvStored
import RandServer.Net.SendAtomic
import RandServer.Net.StickyError
import RandServer.Lua.Table
import RandServer.Script.Server
import RandServer.Lib.StateError
import RandServer.Script.ServerSpec
import RandServer.Script.Dispatch
import RandServer.Lib.Directory
import RandServer.Script.Sound
import RandServer.Script.Handlers
import RandServer.Script.Login
import RandServer.Script.Messages
import RandServer.Script.Accept
import RandServer.Script.Roles
import RandServer.Script.HalfOpen
import RandServer.Tool.IdLaps
import RandServer.Lib.BinaryHeap
import RandServer.Tool.Heap
import RandServer.Tool.SbtreeRank
import RandServer.Tool.SbtreeInsert
import RandServer.Lua.StringCodec
import RandServer.Lua.Moved
import RandServer.Lua.ServiceUnpack
import RandServer.Net.QueueDrain
import RandServer.Net.SocketCfg
import RandServer.Lib.SizeBalance
import RandServer.Tool.SbtreeBalance
import RandServer.Tool.HeapQueue
import RandServer.Lib.CObject
import RandServer.Tool.Cpack
import RandServer.Tool.CpackRoundTrip
import RandServer.Tool.CpackOverflow
import RandServer.Tool.CunpackAtomic
import RandServer.Lib.SqlText
import RandServer.Lib.Upsert
import RandServer.Script.DbOp
import RandServer.Script.DbOpShape
import RandServer.Script.DbOpBatch
import RandServer.Script.Event
import RandServer.Script.PerSecond
import RandServer.Script.DbSession
import RandServer.Script.LuaTick
import RandServer.Lib.CheckedHeap
import RandServer.Lua.SerializeBuff
import RandServer.Tool.SbtreeMaintain
import RandServer.Tool.TimeDriver
import RandServer.Net.FreeSpace
import RandServer.Lib.LuaText
import RandServer.Script.CheckColumns
import RandServer.Net.NetWait
import RandServer.Net.PostRead
import RandServer.Net.ReadStall
import RandServer.Net.PostWrite
import RandServer.Net.WriteStall
import RandServer.Net.EndToEnd
import RandServer.Net.NetClose
import RandServer.Lib.LinkedQueue
import RandServer.Lua.ServiceHeap
import RandServer.Lua.ServiceCalls
import RandServer.Lua.ServiceAccounts
import RandServer.Lua.ServiceRuns
import RandServer.Lua.ServiceRefines
import RandServer.Lua.PackedPointer
