import MikuServer.Impl.CenterCommands
import MikuServer.Impl.MessageSend
import MikuServer.Impl.RoomCommands
import MikuServer.Impl.UplinkPath

/-!
# A room server and its center server

The room server's commands get what the users have sent, and pass the login and
gift requests on as they came (`room_server/gs_processor.cpp`). The center
server's commands look into the data base and answer
(`center_server/rs_processor.cpp`, `center_server/rs_command/`), and the room
server's commands get the answers (`room_server/cs_processor.cpp`).

A frame that was sent may arrive at any time later, more than once or not at all.
The data base is what it is at the time of a request.
-/

namespace Miku

open WireFormat (Runtime)

/-! ## The values of a message -/

/-- The constant with a value. -/
def EnumMsgID.ofValue (v : Int) : EnumMsgID :=
  [.base, .userLoginRQ, .userLoginRS, .userRoleInfoID, .roomInfoID, .micInfo, .roomMicInfoID, .userInfo,
    .userInfoListID, .userMsgRQ, .userMsgRS, .userMsgTextID, .userGiveGiftRQ, .userGiveGiftRS, .userApplyMicRQ,
    .userApplyMicRS, .userOnMicID, .userOffMicRQ, .userOffMicRS, .userOffMicID, .putUserOnMicRQ, .putUserOnMicRS,
    .cancleUserMicRQ, .cancleUserMicRS, .userExitRoomID].getD (v - 6000).toNat .base

def StruUserGiveGiftRQ.of (m : Protobuf.Message) : StruUserGiveGiftRQ :=
  { userId := m.int 1, roomId := m.int 2, giftCode := m.str 3, dstUserId := m.int 4, countGift := m.int 5 }

def StruUserLoginRS.of (m : Protobuf.Message) : StruUserLoginRS :=
  { msgId := .ofValue (m.int 0)
    userId := m.int 1
    roomId := m.int 2
    result := m.int 3
    userRedD := m.int 4
    userBlueD := m.int 5
    userLevel := m.int 6
    buyerRiches := m.int 7
    buyerGrowUp := m.int 8
    buyerHonour := m.int 9
    buyerEstimate := m.int 10
    sellerIncome := m.int 11
    sellerExp := m.int 12
    sellerPop := m.int 13
    sellerEstimate := m.int 14 }

def StruUserGiveGiftRS.of (m : Protobuf.Message) : StruUserGiveGiftRS :=
  { msgId := .ofValue (m.int 0)
    userId := m.int 1
    roomId := m.int 2
    result := m.int 3
    giftCode := m.str 4
    dstUserId := m.int 5
    senderRedD := m.int 6 }

/-! ## The packets -/

variable [Runtime]

/-- `ParseFromArray` of a frame: the packet, or nothing where it returns false. -/
def StruCytPacket.ofFrame (frame : List Byte) : Option (Option StruCytPacket) := do
  let (ok, p) ← (StruCytPacket.fresh.parseFromArray frame (cint frame.length)).within frame.length
  some (if ok then some p else none)

/-- `ParseFromArray` of a packet's data. -/
def StruCytPacket.message (self : StruCytPacket) (t : Protobuf.MessageType) : Option Protobuf.Message :=
  t.parseFromArray (cStr self.msgData) self.msgLen

namespace RoomServer

open Server (Message)

/-- The command of a message type, with what it takes apart. -/
def GateServerProcessor.getCommand (msgType : CInt) (tmpPackage : GateRoomServerPack) (m : Protobuf.Message) :
    Option Message :=
  if msgType = 6001 then
    some (.clientLoginRQ tmpPackage { userId := m.int 1, roomId := m.int 2, userAccountName := m.str 4 })
  else if msgType = 6022 then some (.cancleUserMicRQ { userId := m.int 1, roomId := m.int 2 })
  else if msgType = 6020 then some (.putUserOnMicRQ { userId := m.int 1, roomId := m.int 2 })
  else if msgType = 6014 then some (.userApplyMicRQ { userId := m.int 1, roomId := m.int 2 })
  else if msgType = 6024 then
    some (.userExitRoomID { msgId := .ofValue (m.int 0), userId := m.int 1, roomId := m.int 2 })
  else if msgType = 6012 then some (.userGiveGiftRQ tmpPackage (.of m))
  else if msgType = 6017 then some (.userOffMicRQ { userId := m.int 1, roomId := m.int 2 })
  else if msgType = 6009 then
    some (.userSendMsgRQ
      { userId := m.int 1, roomId := m.int 2, msgText := m.str 3, isPrivate := m.int 4 ≠ 0, dstUserId := m.int 5 })
  else none

/-- What a command makes of a packet. -/
def GateServerProcessor.execute : Unpacked → Option Message
  | none => none
  | some (tmpPackage, cytPack, m) => getCommand cytPack.msgType tmpPackage m

/-- The command of `CenterServerProcessor::InitProcessor` for a packet. -/
def CenterServerProcessor.execute (p : StruCytPacket) : Option Message :=
  if p.msgType = 6002 then (p.message Protobuf.struUserLoginRS).map fun m => .clientLoginRS (.of m)
  else if p.msgType = 6013 then (p.message Protobuf.struUserGiveGiftRS).map fun m => .userGiveGiftRS (.of m)
  else none

/-- The bytes of a `SendData` to the center server. -/
def Sent.toCenter : Sent → Option (List Byte)
  | .center data len => some ((cStr data).take len.toNat)
  | _ => none

end RoomServer

namespace CenterServer

/-- The procedures of the data base. -/
structure Procedures where
  userLogin : UserLogin
  giveGift : Int → Int → Int → List Byte → Option (Nat → Option CInt)

/-- The row of a gift, as numbers. -/
def Procedures.gift (db : Procedures) : GiveGift := fun senderId recverId countGift giftCode =>
  (db.giveGift senderId recverId countGift giftCode).map fun getInt n => (getInt n).map BitVec.toInt

/-- The command of `RoomServerProcessor::InitProcessor` for a packet, and what it replies. -/
def reply (db : Procedures) (p : StruCytPacket) : Option Pack :=
  if p.msgType = 6001 then do
    let m ← p.message Protobuf.struUserLoginRQ
    let rs ← clientLoginRQ db.userLogin (m.int 1) (m.int 2) (m.str 3)
    some (.userLoginRS rs)
  else if p.msgType = 6012 then do
    let m ← p.message Protobuf.struUserGiveGiftRQ
    let rs ← userGiveGiftRQ db.gift (.of m)
    some (.userGiveGiftRS rs)
  else none

/-- The id that a reply is sent with. -/
def replyId : Pack → CInt
  | .userLoginRS _ => 6002
  | _ => 6013

/-- A turn of `RoomServerProcessor::DealWithDataThread` with a frame of the room server, and the
frame that is sent for it. -/
def dealWithData (db : Procedures) (frame : List Byte) : Option (Option (List Byte)) := do
  let p ← StruCytPacket.ofFrame frame
  match p.bind (reply db) with
  | none => some none
  | some pack => sendDataToRS pack.type pack.message (replyId pack)

end CenterServer

/-- A room server, and what its center server has sent to it. -/
structure Servers where
  room : RoomServer.Server
  replies : List (List Byte)

namespace Servers

open RoomServer

inductive Event
  /-- A gate comes. -/
  | connect (hashKey userSock : Int)
  /-- A gate goes. -/
  | disconnect (hashKey : Int)
  /-- A turn of the thread of a gate, with the list of what the gate has sent. -/
  | request (list : CircleList)
  /-- A frame of the room server comes to the center server. -/
  | verify (frame : List Byte) (db : CenterServer.Procedures)
  /-- A frame of the center server comes to the room server. -/
  | reply (frame : List Byte)

def new : Servers := ⟨.new, []⟩

/-- The frames that the room server has sent to the center server. -/
def requests (s : Servers) : List (List Byte) := s.room.sent.filterMap RoomServer.Sent.toCenter

/-- What a command gets in a turn of the thread of a gate. -/
def gets (list : CircleList) : Option (List Unpacked) :=
  (GateServerProcessor.turn
    (fun msgType => (GateServerProcessor.cmdChain msgType).map Protobuf.MessageType.parseFromArray)
    (list, [])).map fun r => r.1.2

/-- What the room server does. -/
def onRoom (s : Servers) (es : List Server.Event) : Option Servers := do
  let room ← es.foldlM Server.step s.room
  some { s with room := room }

def step (s : Servers) : Event → Option Servers
  | .connect hashKey userSock => s.onRoom [.connect hashKey userSock]
  | .disconnect hashKey => s.onRoom [.disconnect hashKey]
  | .request list => do
    let us ← gets list
    s.onRoom ((us.filterMap GateServerProcessor.execute).map .message)
  | .verify frame db =>
    if frame ∈ s.requests then do
      let sent ← CenterServer.dealWithData db frame
      some { s with replies := s.replies ++ sent.toList }
    else none
  | .reply frame =>
    if frame ∈ s.replies then do
      let p ← StruCytPacket.ofFrame frame
      s.onRoom ((p.bind CenterServerProcessor.execute).toList.map .message)
    else none

end Servers

end Miku
