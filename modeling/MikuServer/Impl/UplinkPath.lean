import Mathlib.Logic.Function.Basic
import MikuServer.Impl.GateUser
import MikuServer.Impl.MessageCodec
import MikuServer.Impl.RoomClient

/-!
# From the users of a gate to the commands of a room server

Each user has a connection to the gate, which writes what it takes of them on
its one connection to the room server. `toGate` and `toRoom` are the bytes that
are on their way there. A step is a read of the gate on a user's connection
(`gate_server/user_info_list.cpp`), a read of the room server
(`room_server/client_info_list.cpp`), or a turn of the thread of its processor
(`room_server/gs_processor.cpp`); a read takes what is there, up to a count.
-/

namespace Miku

open Protobuf WireFormat

/-- What `GateServerProcessor::InitProcessor` registers: the class of the message that the
command takes apart. -/
def RoomServer.GateServerProcessor.cmdChain (msgType : CInt) : Option MessageType :=
  if msgType = 6001 then some struUserLoginRQ
  else if msgType = 6022 then some struCancleUserMicRQ
  else if msgType = 6020 then some struPutUserOnMicRQ
  else if msgType = 6014 then some struUserApplyMicRQ
  else if msgType = 6024 then some struUserExitRoomID
  else if msgType = 6012 then some struUserGiveGiftRQ
  else if msgType = 6017 then some struUserOffMicRQ
  else if msgType = 6009 then some struUserMsgRQ
  else none

open RoomServer.GateServerProcessor (cmdChain)

/-- What a command made of a packet. -/
abbrev Unpacked : Type := Option (GateRoomServerPack × StruCytPacket × Message)

/-- The bytes of a write to the socket `serverFd`. -/
def GateServer.Event.bytesTo (serverFd : Int) : GateServer.Event → List Byte
  | .write sock data => if sock = serverFd then data else []
  | .sendQueryRoom _ => []
  | .addOneUndealPack _ _ _ => []

/-- The users `κ` of a gate, and a room server. -/
structure UplinkPath (κ : Type) where
  users : κ → GateServer.UserInfoEx
  toGate : κ → List Byte
  toRoom : List Byte
  room : RoomServer.ClientInfoEx
  executed : List Unpacked

namespace UplinkPath

inductive Step (κ : Type)
  | gateRead (user : κ) (count : Nat)
  | roomRead (count : Nat)
  | turn

variable {κ : Type} [DecidableEq κ] [Runtime]

/-- `rooms` are the rooms that the gate knows, with the sockets of their servers, and `serverFd`
is the socket of this one. -/
def step (rooms : CInt → Option Int) (serverFd : Int) (s : UplinkPath κ) : Step κ → Option (UplinkPath κ)
  | .gateRead k count => do
    let (user, log) ← (s.users k).dealWithData rooms [] ((s.toGate k).take count)
    some { s with
      users := Function.update s.users k user
      toGate := Function.update s.toGate k ((s.toGate k).drop count)
      toRoom := s.toRoom ++ log.flatMap (GateServer.Event.bytesTo serverFd) }
  | .roomRead count => do
    let room ← s.room.dealWithData (s.toRoom.take count)
    some { s with toRoom := s.toRoom.drop count, room := room }
  | .turn => do
    let (v, _) ← RoomServer.GateServerProcessor.turn (fun msgType => (cmdChain msgType).map MessageType.parseFromArray)
      (s.room.circleList, s.executed)
    some { s with room := { s.room with circleList := v.1 }, executed := v.2 }

end UplinkPath

end Miku
