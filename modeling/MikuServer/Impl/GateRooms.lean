import MikuServer.Framework.StdMap

/-!
# The rooms that the gate knows (`gate_server/room_manager.cpp`, `gate_server/chat_room.h`)

The mutex of `RoomManager` is held by none of its functions after its end, so
each function is one step.
-/

namespace Miku.GateServer

/-- `class ChatRoom`. -/
structure ChatRoom where
  roomId : Int
  serverFd : Int
  deriving DecidableEq

/-- `class RoomManager`. -/
structure RoomManager where
  roomList : StdMap (Option ChatRoom)

namespace RoomManager

def new : RoomManager := ⟨.empty⟩

/-- `AddRoom`: a room that is there is left as it is. -/
def addRoom (self : RoomManager) (roomId serverFd : Int) : Bool × RoomManager :=
  let roomList := self.roomList.subscript roomId none
  match self.roomList.ptr roomId with
  | some _ => (true, ⟨roomList⟩)
  | none => (true, ⟨roomList.assign roomId (some ⟨roomId, serverFd⟩)⟩)

/-- `GetChatRoom`. -/
def getChatRoom (self : RoomManager) (roomId : Int) : Option ChatRoom × RoomManager :=
  (self.roomList.ptr roomId, ⟨self.roomList.subscript roomId none⟩)

/-- `DelRoom`. -/
def delRoom (self : RoomManager) (roomId : Int) : Bool × RoomManager :=
  match self.roomList.find? roomId with
  | none => (false, self)
  | some _ => (true, ⟨self.roomList.erase roomId⟩)

end RoomManager

end Miku.GateServer
