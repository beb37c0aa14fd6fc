import MikuServer.Impl.MessageCodec
import MikuServer.Impl.PackageDefine
import MikuServer.Impl.RecvBuff

/-!
# What the servers send to each other

`SendDataToGS` (`room_server/cs_processor.h`), `SendDataToRS`
(`center_server/rs_processor.h`), `SendPackage` (`room_server/ds_connector.h`) and
the requests to the director server (`ds_processor.cpp` of each server) put a
message into a packet in the same way, with arrays of their own (`packMessage`).

A function has no value where it leaves an array, the value `none` where it
returns before it sends, and else the bytes that it passes to `write` or to
`SendData`.
-/

namespace Miku

open Protobuf WireFormat

/-- `tmp_msg_data_buff`, the array that the packet is written to, and the packet's size. -/
structure Packed where
  msgDataBuff : List Byte
  sendBuff : List Byte
  sendLen : CInt

/-- What was written to the array. -/
def Packed.sent (p : Packed) : List Byte := p.sendBuff.take p.sendLen.toInt.toNat

section

variable [Runtime]

/-- `sendBuff` is the array for the packet, by the one that has the message. -/
def packMessage (t : MessageType) (pack : Message) (msgId : CInt) (msgDataBuff : List Byte)
    (sendBuff : List Byte → List Byte) : Option (Option Packed) := do
  let packLen := cint (t.byteSize pack)
  let (ret, data) ← t.serializeToArray pack msgDataBuff packLen
  if ret then do
    let cytPack : StruCytPacket := ⟨packHead, 0, packLen, msgId, setData [] data packLen.toInt, packTail⟩
    let (ret, buff) ← cytPack.serializeToArray (sendBuff data) cytPack.byteSize
    some (if ret then some ⟨data, buff, cytPack.byteSize⟩ else none)
  else some none

/-- `RoomServerProcessor::SendDataToRS` of the center server. -/
def sendDataToRS (t : MessageType) (pack : Message) (msgId : CInt) : Option (Option (List Byte)) :=
  (packMessage t pack msgId (List.replicate 0x2000 0) fun _ => List.replicate 0x2000 0).map fun r => r.map Packed.sent

/-- `DirectorServerConnector::SendPackage`: the packet is written over the message. -/
def sendPackage (t : MessageType) (pack : Message) (msgId : CInt) : Option (Option (List Byte)) :=
  (packMessage t pack msgId (List.replicate 0x1000 0) fun data => data).map fun r => r.map Packed.sent

/-- `DEF_DS_SERVER_CONNECT_RQ` and `DEF_DS_GS_GET_ROOMINFO_RQ`. -/
def dsServerConnectRq : CInt := 1001

def dsGSGetRoomInfoRq : CInt := 1005

/-- `SendConnectDsRQ` of a server of this type. Its lines are those of `SendPackage`. -/
def sendConnectDsRQ (serverId : CInt) (serverIp : List Byte) (serverPort serverType : CInt) :
    Option (Option (List Byte)) :=
  sendPackage struDsServerConnectRq
    (.mk [some (.num serverId), some (.str serverIp), some (.num serverPort), some (.num serverType), some (.num 0),
      some (.num 0)] [] []) dsServerConnectRq

/-- `SendQueryRoom`, in the same way. -/
def sendQueryRoom (serverId roomId : CInt) : Option (Option (List Byte)) :=
  sendPackage struDsGSGetRoomInfoRq (.mk [some (.num serverId), some (.num roomId)] [] []) dsGSGetRoomInfoRq

/-- `CenterServerProcessor::SendDataToGS`: the second packet is written over the message. -/
def sendDataToGS (t : MessageType) (pack : Message) (msgId userHashkey : CInt) : Option (Option (List Byte)) := do
  let p ← packMessage t pack msgId (List.replicate 0x2000 0) fun _ => List.replicate 0x2000 0
  match p with
  | none => some none
  | some p => do
    let grPack := GateRoomServerPack.wrap userHashkey p.sendBuff p.sendLen.toInt
    let (ret, buff) ← grPack.serializeToArray p.msgDataBuff grPack.byteSize
    some (if ret then some (buff.take grPack.byteSize.toInt.toNat) else none)

end

/-! ## The values of a message -/

/-- `user_id()` and the like: the number of the field at a place. -/
def Protobuf.Message.int (self : Message) (n : Nat) : Int :=
  match self.cells[n]? with
  | some (some (.num v)) => v.toInt
  | _ => 0

/-- `user_psw()` and the like. -/
def Protobuf.Message.str (self : Message) (n : Nat) : List Byte :=
  match self.cells[n]? with
  | some (some (.str s)) => s
  | _ => []

/-! ## The messages that the room server builds -/

/-- The value of a `required` field. -/
inductive FieldValue
  | enum (v : EnumMsgID)
  | int (v : Int)
  | bool (v : Bool)
  | str (s : List Byte)

namespace FieldValue

/-- The type that the field has in its class. -/
def type : FieldValue → FieldType
  | .enum _ => .enum enumMsgIDIsValid
  | .int _ => .int32
  | .bool _ => .bool
  | .str _ => .string

def cell : FieldValue → Value
  | .enum v => .num (cint v.value)
  | .int v => .num (cint v)
  | .bool v => .num (if v then 1 else 0)
  | .str s => .str s

end FieldValue

/-- An object in which every field is set. -/
def setAll (vs : List FieldValue) (items : List Message) : Message := .mk (vs.map fun v => some v.cell) items []

def StruUserLoginRS.values (m : StruUserLoginRS) : List FieldValue :=
  [.enum m.msgId, .int m.userId, .int m.roomId, .int m.result, .int m.userRedD, .int m.userBlueD, .int m.userLevel,
    .int m.buyerRiches, .int m.buyerGrowUp, .int m.buyerHonour, .int m.buyerEstimate, .int m.sellerIncome,
    .int m.sellerExp, .int m.sellerPop, .int m.sellerEstimate]

def StruMicInfo.values (m : StruMicInfo) : List FieldValue :=
  [.enum m.msgId, .int m.userId, .str m.userAccountName, .str m.micChannelStr]

def StruUserInfo.values (m : StruUserInfo) : List FieldValue :=
  [.enum m.msgId, .int m.userId, .str m.userAccountName, .str m.userRoleUid, .int m.userLevel, .int m.buyerRiches,
    .int m.buyerGrowUp, .int m.buyerHonour, .int m.buyerEstimate, .int m.sellerIncome, .int m.sellerExp,
    .int m.sellerPop, .int m.sellerEstimate]

namespace Pack

/-- The values of the fields that are not `repeated`. -/
def values : Pack → List FieldValue
  | .userLoginRS m => m.values
  | .userInfo m => m.values
  | .userInfoListID m => [.enum m.msgId, .int m.userId, .int m.roomId]
  | .roomMicInfoID m => [.enum m.msgId, .int m.userId, .int m.roomId]
  | .userMsgRS m => [.enum m.msgId, .int m.userId, .int m.roomId, .int m.result]
  | .userMsgTextID m => [.enum m.msgId, .int m.userId, .int m.roomId, .str m.msgText, .bool m.isPrivate, .int m.dstUserId]
  | .userGiveGiftRS m =>
    [.enum m.msgId, .int m.userId, .int m.roomId, .int m.result, .str m.giftCode, .int m.dstUserId, .int m.senderRedD]
  | .userApplyMicRS m => [.enum m.msgId, .int m.userId, .int m.roomId, .int m.result, .str m.micChannelStr]
  | .userOffMicRS m => [.enum m.msgId, .int m.userId, .int m.roomId, .int m.result]
  | .userExitRoomID m => [.enum m.msgId, .int m.userId, .int m.roomId]

/-- Those of the messages in the list. -/
def items : Pack → List (List FieldValue)
  | .userInfoListID m => m.userInfoList.map StruUserInfo.values
  | .roomMicInfoID m => m.micList.map StruMicInfo.values
  | _ => []

/-- The class. -/
def type : Pack → MessageType
  | .userLoginRS _ => struUserLoginRS
  | .userInfo _ => struUserInfo
  | .userInfoListID _ => struUserInfoListID
  | .roomMicInfoID _ => struRoomMicInfoID
  | .userMsgRS _ => struUserMsgRS
  | .userMsgTextID _ => struUserMsgTextID
  | .userGiveGiftRS _ => struUserGiveGiftRS
  | .userApplyMicRS _ => struUserApplyMicRS
  | .userOffMicRS _ => struUserOffMicRS
  | .userExitRoomID _ => struUserExitRoomID

/-- The object that the values are set in. -/
def message (p : Pack) : Message := setAll p.values (p.items.map fun e => setAll e [])

end Pack

end Miku
