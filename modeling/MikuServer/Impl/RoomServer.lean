import MikuServer.Impl.ChatRoom
import MikuServer.Impl.RoomPackets

/-!
# The room server (`room_server/room_server.h`, `room_server/room_manager.cpp`, `room_server/client_info_list.cpp`)

The rooms, the registered gates, and what is sent. The mutexes of `RoomManager`
and `ClientInfoList` are held by none of the functions after its end, so each
function is one step. A room is named by its number (`RoomPtr`), in the order in
which `new ChatRoom` makes them.

What is sent is logged (`Sent`) at the call of the function that sends it.
-/

namespace Miku.RoomServer

/-- A `ChatRoom *` that is not `NULL`. -/
abbrev RoomPtr := Nat

/-- What a `ClientInfoEx` has from its base class. -/
structure BaseUserInfo where
  userSock : Int
  hashKey : Int
  deriving DecidableEq

/-- `class RoomManager`. -/
structure RoomManager where
  unusedRoomList : List (Option RoomPtr)
  roomList : StdMap (Option RoomPtr)

/-- A message that is sent, and by which function. -/
inductive Sent
  /-- `CenterServerConnector::SendData(data, len)`. -/
  | center (data : List Byte) (len : Int)
  /-- `CenterServerProcessor::SendDataToGS(pack, msg_id, fd, user_hashkey)`. -/
  | toGS (pack : Pack) (msgId : EnumMsgID) (fd userHashkey : Int)
  /-- `GateServerProcessor::SendData(pack, msg_id, user_hashkey)` of a registered gate. -/
  | gate (gs : BaseUserInfo) (pack : Pack) (msgId : EnumMsgID) (userHashkey : Int)
  /-- The same function of what a command takes its `caller_ptr` for. -/
  | caller (pack : Pack) (msgId : EnumMsgID) (userHashkey : Int)
  deriving DecidableEq

/-- `class RoomServer`, with the rooms that were made and the messages that were sent. -/
structure Server where
  roomManager : RoomManager
  chatRooms : RoomPtr → ChatRoom
  nextRoom : RoomPtr
  clientList : StdMap (Option BaseUserInfo)
  sent : List Sent

namespace Server

variable {α : Type}

/-- Before any gate is connected. -/
def new : Server := ⟨⟨[], .empty⟩, fun _ => .new, 0, .empty, []⟩

/-- A function of a room. -/
def onRoom (r : RoomPtr) (x : Act ChatRoom α) : Act Server α :=
  Act.zoom (fun self => self.chatRooms r)
    (fun self room => { self with chatRooms := Function.update self.chatRooms r room }) x

/-- The record `p` points to. -/
def record (r : RoomPtr) (p : Ptr) : Act Server UserInfo := .read fun self => (self.chatRooms r).records p

/-! ## `RoomManager` -/

/-- `new ChatRoom`. -/
def makeRoom : Act Server RoomPtr := .ofFun fun self =>
  (self.nextRoom, { self with
    chatRooms := Function.update self.chatRooms self.nextRoom .new
    nextRoom := self.nextRoom + 1 })

/-- Takes the front of `unused_room_list_`. -/
def popRoom : Act Server Unit := .modify fun self =>
  { self with roomManager := { self.roomManager with unusedRoomList := self.roomManager.unusedRoomList.tail } }

def getNewRoom : Act Server RoomPtr := do
  match ← .read fun self => self.roomManager.unusedRoomList with
  | [] => makeRoom
  | front :: _ => do
    let tmpRoom ← Act.deref front
    onRoom tmpRoom (ChatRoom.resetRoom 0 (-1))
    popRoom
    pure tmpRoom

/-- `AddRoom`. After the assignment it has no `return`, and its value (`none`) is used by
no caller. -/
def addRoom (roomId : Int) (chatRoom : Option RoomPtr) : Act Server (Option Bool) := .ofFun fun self =>
  match chatRoom with
  | none => (some false, self)
  | some _ =>
    let roomList := self.roomManager.roomList.subscript roomId none
    match self.roomManager.roomList.ptr roomId with
    | some _ => (some true, { self with roomManager := { self.roomManager with roomList := roomList } })
    | none =>
      (none, { self with roomManager := { self.roomManager with roomList := roomList.assign roomId chatRoom } })

/-- `DelRoom`: the entry goes into `unused_room_list_` if it is `NULL`. -/
def delRoom (roomId : Int) : Act Server Bool := .ofFun fun self =>
  match self.roomManager.roomList.find? roomId with
  | none => (false, self)
  | some tmpRoom =>
    let unusedRoomList := match tmpRoom with
      | none => self.roomManager.unusedRoomList ++ [tmpRoom]
      | some _ => self.roomManager.unusedRoomList
    (true, { self with roomManager := ⟨unusedRoomList, self.roomManager.roomList.erase roomId⟩ })

def getRoom (roomId : Int) : Act Server (Option RoomPtr) := .ofFun fun self =>
  (self.roomManager.roomList.ptr roomId, { self with
    roomManager := { self.roomManager with roomList := self.roomManager.roomList.subscript roomId none } })

/-! ## `ClientInfoList` -/

def getUserByHashkey (userHashkey : Int) : Act Server (Option BaseUserInfo) := .ofFun fun self =>
  (self.clientList.ptr userHashkey, { self with clientList := self.clientList.subscript userHashkey none })

/-- `AddUserInfo`, for the connection with the socket `userSock`. -/
def addUserInfo (userHashkey userSock : Int) : Act Server Bool := .ofFun fun self =>
  let clientList := self.clientList.subscript userHashkey none
  match self.clientList.ptr userHashkey with
  | some _ => (false, { self with clientList := clientList })
  | none => (true, { self with clientList := clientList.assign userHashkey (some ⟨userSock, userHashkey⟩) })

/-- `ReleaseUserInfo`, for the connection with the hash key `hashKey`. -/
def releaseUserInfo (hashKey : Int) : Act Server Unit := .modify fun self =>
  let clientList := self.clientList.subscript hashKey none
  match self.clientList.ptr hashKey with
  | some _ => { self with clientList := clientList.erase hashKey }
  | none => { self with clientList := clientList }

/-! ## Sending -/

def send (m : Sent) : Act Server Unit := .modify fun self => { self with sent := self.sent ++ [m] }

/-- `tmp_current_user`'s turn of `SendDataToRoomAllUser`. -/
def sendToUser (r : RoomPtr) (pack : Pack) (msgId : EnumMsgID) (tmpCurrentUser : Ptr) : Act Server Unit := do
  let info ← record r tmpCurrentUser
  match ← getUserByHashkey info.gsHashkeyUserOn with
  | some tmpGs => send (.gate tmpGs pack msgId info.userHashKey)
  | none => pure ()

/-- A loop over the users of a room, from the one that `GetFirstUser` returned. The mutex
is held from there on, so it has at most as many turns as there are entries. -/
def forUsers {β : Type} (r : RoomPtr) (body : Ptr → β → Act Server β) (first : Ptr) (b : β) : Act Server β := do
  let count ← .read fun self => (self.chatRooms r).userList.userInfoList.values.length
  Act.whileSome body (onRoom r (ChatRoom.onUserList UserInfoList.getNextUser)) count first b

def sendDataToRoomAllUser (pack : Pack) (msgId : EnumMsgID) (roomId : Int) : Act Server Bool :=
  if roomId = 0 then pure true
  else do
    match ← getRoom roomId with
    | none => pure false
    | some tmpRoom =>
      match ← onRoom tmpRoom (ChatRoom.onUserList UserInfoList.getFirstUser) with
      | none => pure false
      | some tmpCurrentUser => do
        forUsers tmpRoom (fun user _ => sendToUser tmpRoom pack msgId user) tmpCurrentUser ()
        pure true

end Server

end Miku.RoomServer
