import MikuServer.Impl.UserInfoList

/-!
# The messages of the room and center servers (`packet/package_define.proto`)

The messages that the modelled commands read or build, as decoded. A `required`
field always has a value.
-/

namespace Miku

/-- `enum EnumMsgID`. -/
inductive EnumMsgID
  | base | userLoginRQ | userLoginRS | userRoleInfoID | roomInfoID | micInfo | roomMicInfoID | userInfo
  | userInfoListID | userMsgRQ | userMsgRS | userMsgTextID | userGiveGiftRQ | userGiveGiftRS | userApplyMicRQ
  | userApplyMicRS | userOnMicID | userOffMicRQ | userOffMicRS | userOffMicID | putUserOnMicRQ | putUserOnMicRS
  | cancleUserMicRQ | cancleUserMicRS | userExitRoomID
  deriving DecidableEq

structure StruUserLoginRQ where
  userId : Int
  roomId : Int
  userAccountName : List Byte
  deriving DecidableEq

structure StruUserLoginRS where
  msgId : EnumMsgID
  userId : Int
  roomId : Int
  result : Int
  userRedD : Int
  userBlueD : Int
  userLevel : Int
  buyerRiches : Int
  buyerGrowUp : Int
  buyerHonour : Int
  buyerEstimate : Int
  sellerIncome : Int
  sellerExp : Int
  sellerPop : Int
  sellerEstimate : Int
  deriving DecidableEq

structure StruMicInfo where
  msgId : EnumMsgID
  userId : Int
  userAccountName : List Byte
  micChannelStr : List Byte
  deriving DecidableEq

structure StruRoomMicInfoID where
  msgId : EnumMsgID
  userId : Int
  roomId : Int
  micList : List StruMicInfo
  deriving DecidableEq

structure StruUserInfo where
  msgId : EnumMsgID
  userId : Int
  userAccountName : List Byte
  userRoleUid : List Byte
  userLevel : Int
  buyerRiches : Int
  buyerGrowUp : Int
  buyerHonour : Int
  buyerEstimate : Int
  sellerIncome : Int
  sellerExp : Int
  sellerPop : Int
  sellerEstimate : Int
  deriving DecidableEq

structure StruUserInfoListID where
  msgId : EnumMsgID
  userId : Int
  roomId : Int
  userInfoList : List StruUserInfo
  deriving DecidableEq

structure StruUserMsgRQ where
  userId : Int
  roomId : Int
  msgText : List Byte
  isPrivate : Bool
  dstUserId : Int
  deriving DecidableEq

structure StruUserMsgRS where
  msgId : EnumMsgID
  userId : Int
  roomId : Int
  result : Int
  deriving DecidableEq

structure StruUserMsgTextID where
  msgId : EnumMsgID
  userId : Int
  roomId : Int
  msgText : List Byte
  isPrivate : Bool
  dstUserId : Int
  deriving DecidableEq

structure StruUserGiveGiftRQ where
  userId : Int
  roomId : Int
  giftCode : List Byte
  dstUserId : Int
  countGift : Int
  deriving DecidableEq

structure StruUserGiveGiftRS where
  msgId : EnumMsgID
  userId : Int
  roomId : Int
  result : Int
  giftCode : List Byte
  dstUserId : Int
  senderRedD : Int
  deriving DecidableEq

structure StruUserApplyMicRQ where
  userId : Int
  roomId : Int
  deriving DecidableEq

structure StruUserApplyMicRS where
  msgId : EnumMsgID
  userId : Int
  roomId : Int
  result : Int
  micChannelStr : List Byte
  deriving DecidableEq

structure StruUserOffMicRQ where
  userId : Int
  roomId : Int
  deriving DecidableEq

structure StruUserOffMicRS where
  msgId : EnumMsgID
  userId : Int
  roomId : Int
  result : Int
  deriving DecidableEq

structure StruPutUserOnMicRQ where
  userId : Int
  roomId : Int
  deriving DecidableEq

structure StruCancleUserMicRQ where
  userId : Int
  roomId : Int
  deriving DecidableEq

structure StruUserExitRoomID where
  msgId : EnumMsgID
  userId : Int
  roomId : Int
  deriving DecidableEq

/-- A message that a server sends. -/
inductive Pack
  | userLoginRS (m : StruUserLoginRS)
  | userInfo (m : StruUserInfo)
  | userInfoListID (m : StruUserInfoListID)
  | roomMicInfoID (m : StruRoomMicInfoID)
  | userMsgRS (m : StruUserMsgRS)
  | userMsgTextID (m : StruUserMsgTextID)
  | userGiveGiftRS (m : StruUserGiveGiftRS)
  | userApplyMicRS (m : StruUserApplyMicRS)
  | userOffMicRS (m : StruUserOffMicRS)
  | userExitRoomID (m : StruUserExitRoomID)
  deriving DecidableEq

end Miku
