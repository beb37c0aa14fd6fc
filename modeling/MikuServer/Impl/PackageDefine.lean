import MikuServer.Framework.WireFormat
import MikuServer.Impl.RoomPackets

/-!
# The sizes of the messages (`packet/package_define.pb.cc`)

`ByteSize()` of the messages that the room server sends. Every `required` field
is set, and its number is less than 16.
-/

namespace Miku

open WireFormat

/-- The number of a message type. -/
def EnumMsgID.value : EnumMsgID → Int
  | .base => 6000
  | .userLoginRQ => 6001
  | .userLoginRS => 6002
  | .userRoleInfoID => 6003
  | .roomInfoID => 6004
  | .micInfo => 6005
  | .roomMicInfoID => 6006
  | .userInfo => 6007
  | .userInfoListID => 6008
  | .userMsgRQ => 6009
  | .userMsgRS => 6010
  | .userMsgTextID => 6011
  | .userGiveGiftRQ => 6012
  | .userGiveGiftRS => 6013
  | .userApplyMicRQ => 6014
  | .userApplyMicRS => 6015
  | .userOnMicID => 6016
  | .userOffMicRQ => 6017
  | .userOffMicRS => 6018
  | .userOffMicID => 6019
  | .putUserOnMicRQ => 6020
  | .putUserOnMicRS => 6021
  | .cancleUserMicRQ => 6022
  | .cancleUserMicRS => 6023
  | .userExitRoomID => 6024

/-- `WireFormatLite::EnumSize`. -/
def EnumMsgID.size (v : EnumMsgID) : Nat := int32Size v.value

/-- The size of a `bool`. -/
def boolSize : Nat := 1

def StruUserLoginRS.byteSize (m : StruUserLoginRS) : Nat :=
  fieldsSize [m.msgId.size, int32Size m.userId, int32Size m.roomId, int32Size m.result, int32Size m.userRedD,
    int32Size m.userBlueD, int32Size m.userLevel, int32Size m.buyerRiches, int32Size m.buyerGrowUp,
    int32Size m.buyerHonour, int32Size m.buyerEstimate, int32Size m.sellerIncome, int32Size m.sellerExp,
    int32Size m.sellerPop, int32Size m.sellerEstimate]

def StruMicInfo.byteSize (m : StruMicInfo) : Nat :=
  fieldsSize [m.msgId.size, int32Size m.userId, stringSize m.userAccountName.length, stringSize m.micChannelStr.length]

def StruRoomMicInfoID.byteSize (m : StruRoomMicInfoID) : Nat :=
  fieldsSize ([m.msgId.size, int32Size m.userId, int32Size m.roomId] ++ m.micList.map fun e => stringSize e.byteSize)

def StruUserInfo.byteSize (m : StruUserInfo) : Nat :=
  fieldsSize [m.msgId.size, int32Size m.userId, stringSize m.userAccountName.length, stringSize m.userRoleUid.length,
    int32Size m.userLevel, int32Size m.buyerRiches, int32Size m.buyerGrowUp, int32Size m.buyerHonour,
    int32Size m.buyerEstimate, int32Size m.sellerIncome, int32Size m.sellerExp, int32Size m.sellerPop,
    int32Size m.sellerEstimate]

def StruUserInfoListID.byteSize (m : StruUserInfoListID) : Nat :=
  fieldsSize ([m.msgId.size, int32Size m.userId, int32Size m.roomId] ++
    m.userInfoList.map fun e => stringSize e.byteSize)

def StruUserMsgRS.byteSize (m : StruUserMsgRS) : Nat :=
  fieldsSize [m.msgId.size, int32Size m.userId, int32Size m.roomId, int32Size m.result]

def StruUserMsgTextID.byteSize (m : StruUserMsgTextID) : Nat :=
  fieldsSize [m.msgId.size, int32Size m.userId, int32Size m.roomId, stringSize m.msgText.length, boolSize,
    int32Size m.dstUserId]

def StruUserGiveGiftRS.byteSize (m : StruUserGiveGiftRS) : Nat :=
  fieldsSize [m.msgId.size, int32Size m.userId, int32Size m.roomId, int32Size m.result, stringSize m.giftCode.length,
    int32Size m.dstUserId, int32Size m.senderRedD]

def StruUserApplyMicRS.byteSize (m : StruUserApplyMicRS) : Nat :=
  fieldsSize [m.msgId.size, int32Size m.userId, int32Size m.roomId, int32Size m.result, stringSize m.micChannelStr.length]

def StruUserOffMicRS.byteSize (m : StruUserOffMicRS) : Nat :=
  fieldsSize [m.msgId.size, int32Size m.userId, int32Size m.roomId, int32Size m.result]

def StruUserExitRoomID.byteSize (m : StruUserExitRoomID) : Nat := fieldsSize [m.msgId.size, int32Size m.userId, int32Size m.roomId]

/-- `ByteSize()`. -/
def Pack.byteSize : Pack → Nat
  | .userLoginRS m => m.byteSize
  | .userInfo m => m.byteSize
  | .userInfoListID m => m.byteSize
  | .roomMicInfoID m => m.byteSize
  | .userMsgRS m => m.byteSize
  | .userMsgTextID m => m.byteSize
  | .userGiveGiftRS m => m.byteSize
  | .userApplyMicRS m => m.byteSize
  | .userOffMicRS m => m.byteSize
  | .userExitRoomID m => m.byteSize

end Miku
