import MikuServer.Impl.Packet
import MikuServer.Impl.RoomServer

/-!
# The commands of the room server (`room_server/cl_command/`, `room_server/cs_command/`)

`Execute` of each command, once its message is decoded. The commands of
`cl_command` are for the messages of the users, which a gate passes on in a
`GateRoomServerPack`; those of `cs_command` are for the replies of the center
server.

`handle` is the command that a message is for, and `connect` and `disconnect`
what the listener does with a gate.
-/

namespace Miku.RoomServer

namespace Server

open ChatRoom

/-- `GetCSConnector()->SendData(data, len)`. -/
def sendToCenter (tmpPackage : GateRoomServerPack) : Act Server Unit :=
  send (.center tmpPackage.dataMsg tmpPackage.dataLen.toInt)

/-! ## `cl_command` -/

/-- The room of a login request, which is made if it is not there. -/
def createRoom (roomId : Int) : Act Server RoomPtr := do
  let tmpRoom ← getNewRoom
  onRoom tmpRoom (setRoom roomId (-1))
  pure tmpRoom

def loginRoom (roomId : Int) : Act Server RoomPtr := do
  match ← getRoom roomId with
  | some tmpRoom => pure tmpRoom
  | none => do
    let tmpRoom ← createRoom roomId
    let _ ← addRoom roomId (some tmpRoom)
    pure tmpRoom

/-- The members of a new record that a login request sets. The account name goes into
`user_nickname` whatever its length. -/
def storeLogin (tmpPackage : GateRoomServerPack) (rq : StruUserLoginRQ) (tmpUser : Ptr) : Act ChatRoom Unit :=
  fun self =>
    let info := self.records tmpUser
    match memcpy info.userNickname 0 rq.userAccountName rq.userAccountName.length with
    | none => .fault
    | some nickname => .done () (self.store tmpUser { info with
        gsHashkeyUserOn := tmpPackage.gsHashkey.toInt
        userHashKey := tmpPackage.userHashkey.toInt
        userId := rq.userId
        userNickname := nickname })

/-- `ClientLoginRQ::Execute`. -/
def clientLoginRQ (tmpPackage : GateRoomServerPack) (rq : StruUserLoginRQ) : Act Server Unit := do
  let tmpRoom ← loginRoom rq.roomId
  match ← onRoom tmpRoom newUserInfo with
  | none => pure ()
  | some tmpUser => do
    onRoom tmpRoom (storeLogin tmpPackage rq tmpUser)
    let _ ← onRoom tmpRoom (addPreUser rq.userId (some tmpUser))
    sendToCenter tmpPackage

/-- How the commands on a user that is in a room begin. -/
def forRoomUser (roomId userId : Int) (body : RoomPtr → Ptr → Act Server Unit) : Act Server Unit := do
  match ← getRoom roomId with
  | none => pure ()
  | some tmpRoom =>
    match ← onRoom tmpRoom (ChatRoom.getUserInfo userId) with
    | none => pure ()
    | some tmpUser => body tmpRoom tmpUser

/-- `GetRoomID()`. -/
def getRoomID (r : RoomPtr) : Act Server Int := .read fun self => (self.chatRooms r).roomId

/-- `UserExitRoomID::Execute`. -/
def userExitRoomID (m : StruUserExitRoomID) : Act Server Unit :=
  forRoomUser m.roomId m.userId fun tmpRoom _ => do
    onRoom tmpRoom (removeUser m.userId)
    let _ ← sendDataToRoomAllUser (.userExitRoomID m) .userExitRoomID (← getRoomID tmpRoom)

/-- `UserApplyMicRQ::Execute`. -/
def userApplyMicRQ (rq : StruUserApplyMicRQ) : Act Server Unit :=
  forRoomUser rq.roomId rq.userId fun tmpRoom tmpUser => do
    let roomId ← getRoomID tmpRoom
    let tmpChannel ← onRoom tmpRoom (userApplyOneNewVideo rq.userId)
    if tmpChannel = [] then
      let info ← record tmpRoom tmpUser
      send (.caller (.userApplyMicRS ⟨.userApplyMicRS, rq.userId, roomId, 0, []⟩) .userApplyMicRS info.userHashKey)
    else
      let _ ← sendDataToRoomAllUser (.userApplyMicRS ⟨.userApplyMicRS, rq.userId, roomId, 1, tmpChannel⟩)
        .userApplyMicRS (← getRoomID tmpRoom)

/-- `UserOffMicRQ::Execute`. -/
def userOffMicRQ (rq : StruUserOffMicRQ) : Act Server Unit :=
  forRoomUser rq.roomId rq.userId fun tmpRoom _ => do
    onRoom tmpRoom (userGetOffVideo rq.userId)
    let _ ← sendDataToRoomAllUser (.userOffMicRS ⟨.userOffMicRS, rq.userId, rq.roomId, 1⟩) .userOffMicRS
      (← getRoomID tmpRoom)

/-- `CancleUserMicRQ::Execute`. -/
def cancleUserMicRQ (rq : StruCancleUserMicRQ) : Act Server Unit :=
  forRoomUser rq.roomId rq.userId fun _ _ => pure ()

/-- `PutUserOnMicRQ::Execute`. -/
def putUserOnMicRQ (rq : StruPutUserOnMicRQ) : Act Server Unit :=
  forRoomUser rq.roomId rq.userId fun _ _ => pure ()

/-- `UserGiveGiftRQ::Execute`. -/
def userGiveGiftRQ (tmpPackage : GateRoomServerPack) (rq : StruUserGiveGiftRQ) : Act Server Unit :=
  forRoomUser rq.roomId rq.userId fun tmpRoom _ => do
    match ← onRoom tmpRoom (ChatRoom.getUserInfo rq.dstUserId) with
    | none => pure ()
    | some _ => sendToCenter tmpPackage

/-- The private branch of `UserSendMsgRQ::Execute`: the text, and the result of the reply. -/
def sendPrivateMsg (tmpRoom : RoomPtr) (rq : StruUserMsgRQ) : Act Server Int := do
  match ← onRoom tmpRoom (ChatRoom.getUserInfo rq.dstUserId) with
  | none => pure 0
  | some tmpDstUser => do
    let dst ← record tmpRoom tmpDstUser
    match ← getUserByHashkey dst.gsHashkeyUserOn with
    | some tmpDstGs =>
      send (.gate tmpDstGs (.userMsgTextID ⟨.userMsgTextID, rq.userId, rq.roomId, rq.msgText, true, rq.dstUserId⟩)
        .userMsgTextID dst.userHashKey)
    | none => pure ()
    pure 1

/-- `UserSendMsgRQ::Execute`. -/
def userSendMsgRQ (rq : StruUserMsgRQ) : Act Server Unit :=
  forRoomUser rq.roomId rq.userId fun tmpRoom tmpUser => do
    if rq.isPrivate then
      let result ← sendPrivateMsg tmpRoom rq
      let info ← record tmpRoom tmpUser
      send (.caller (.userMsgRS ⟨.userMsgRS, rq.userId, rq.roomId, result⟩) .userMsgRS info.userHashKey)
    else
      let info ← record tmpRoom tmpUser
      send (.caller (.userMsgRS ⟨.userMsgRS, rq.userId, rq.roomId, 1⟩) .userMsgRS info.userHashKey)
      let _ ← sendDataToRoomAllUser
        (.userMsgTextID ⟨.userMsgTextID, rq.userId, rq.roomId, rq.msgText, false, rq.dstUserId⟩)
        .userMsgTextID rq.roomId

/-! ## `cs_command` -/

/-- `memcpy(tmp_current_user, tmp_user, sizeof(UserInfo))`, and the attributes of the reply. -/
def loginInfo (rs : StruUserLoginRS) (info : UserInfo) : UserInfo :=
  { info with
    userRedD := rs.userRedD
    userBlueD := rs.userBlueD
    userLevel := rs.userLevel
    buyerRiches := rs.buyerRiches
    buyerHonour := rs.buyerHonour
    buyerGrowUp := rs.buyerGrowUp
    buyerEstimate := rs.buyerEstimate
    sellerIncome := rs.sellerIncome
    sellerExp := rs.sellerExp
    sellerPop := rs.sellerPop
    sellerEstimate := rs.sellerEstimate }

/-- `tmp_current_user` of a reply with the result 1. -/
def loginUserOf (newUserInfo : Act ChatRoom (Option Ptr)) (tmpRoom : RoomPtr) (rs : StruUserLoginRS) (tmpUser : Ptr) :
    Act Server (Option Ptr) := do
  match ← onRoom tmpRoom newUserInfo with
  | none => pure none
  | some tmpCurrentUser => do
    onRoom tmpRoom (.modify fun room => room.store tmpCurrentUser (loginInfo rs (room.records tmpUser)))
    let _ ← onRoom tmpRoom (addUser rs.userId (some tmpCurrentUser))
    pure (some tmpCurrentUser)

def loginUser : RoomPtr → StruUserLoginRS → Ptr → Act Server (Option Ptr) := loginUserOf newUserInfo

/-- A `StruUserInfo` with a user's data. -/
def userInfoOf (u : UserInfo) : StruUserInfo :=
  { msgId := .userInfo
    userId := u.userId
    userAccountName := u.nickname
    userRoleUid := []
    userLevel := u.userLevel
    buyerRiches := u.buyerRiches
    buyerGrowUp := u.buyerGrowUp
    buyerHonour := u.buyerHonour
    buyerEstimate := u.buyerEstimate
    sellerIncome := u.sellerIncome
    sellerExp := u.sellerExp
    sellerPop := u.sellerPop
    sellerEstimate := u.sellerEstimate }

/-- `SendDataToGS` to `tmp_gs->user_sock`, for `tmp_current_user`. -/
def sendToCurrent (tmpRoom : RoomPtr) (tmpGs : Option BaseUserInfo) (tmpCurrentUser : Ptr) (pack : Pack)
    (msgId : EnumMsgID) : Act Server Unit := do
  let gs ← Act.deref tmpGs
  let info ← record tmpRoom tmpCurrentUser
  send (.toGS pack msgId gs.userSock info.userHashKey)

/-- A user's turn of the loop that sends the users of the room, 15 in a message: the
message so far, and `tmp_count_user`. -/
def listUser (tmpRoom : RoomPtr) (tmpGs : Option BaseUserInfo) (tmpCurrentUser tmpListUser : Ptr)
    (v : StruUserInfoListID × Nat) : Act Server (StruUserInfoListID × Nat) := do
  let info ← record tmpRoom tmpListUser
  let list := { v.1 with userInfoList := v.1.userInfoList ++ [userInfoOf info] }
  if 15 ≤ v.2 + 1 then do
    sendToCurrent tmpRoom tmpGs tmpCurrentUser (.userInfoListID list) .userInfoListID
    pure ({ list with userInfoList := [] }, 0)
  else pure (list, v.2 + 1)

/-- The users of the room, to the user that logged in. -/
def sendUserList (tmpRoom : RoomPtr) (rs : StruUserLoginRS) (tmpGs : Option BaseUserInfo) (tmpCurrentUser : Ptr) :
    Act Server Unit := do
  match ← onRoom tmpRoom (onUserList UserInfoList.getFirstUser) with
  | none => pure ()
  | some tmpListUser => do
    let (list, tmpCountUser) ← forUsers tmpRoom (listUser tmpRoom tmpGs tmpCurrentUser) tmpListUser
      (⟨.userInfoListID, rs.userId, rs.roomId, []⟩, 0)
    if 0 < tmpCountUser then
      sendToCurrent tmpRoom tmpGs tmpCurrentUser (.userInfoListID list) .userInfoListID

/-- The microphone holders that `GetUserInfo` finds. -/
def micInfos (tmpRoom : RoomPtr) : List (Int × List Byte) → Act Server (List StruMicInfo)
  | [] => pure []
  | (tmpMicUserId, channel) :: mics => do
    match ← onRoom tmpRoom (ChatRoom.getUserInfo tmpMicUserId) with
    | none => micInfos tmpRoom mics
    | some tmpMicUser => do
      let info ← record tmpRoom tmpMicUser
      let rest ← micInfos tmpRoom mics
      pure (⟨.micInfo, info.userId, info.nickname, channel⟩ :: rest)

/-- The microphone holders of the room, to the user that logged in. `tmp_current_user` is
`NULL` if the login failed. -/
def sendMicList (tmpRoom : RoomPtr) (tmpGs : Option BaseUserInfo) (tmpCurrentUser : Option Ptr) : Act Server Unit := do
  let tmpMicList ← onRoom tmpRoom getMicUserList
  if 0 < tmpMicList.toList.length then
    let roomId ← getRoomID tmpRoom
    let current ← Act.deref tmpCurrentUser
    let info ← record tmpRoom current
    let mics ← micInfos tmpRoom tmpMicList.toList
    sendToCurrent tmpRoom tmpGs current (.roomMicInfoID ⟨.roomMicInfoID, info.userId, roomId, mics⟩) .roomMicInfoID

/-- The reply to the gate that `tmp_user` is on (`tmp_gs`), if it is registered. -/
def replyLogin (tmpRoom : RoomPtr) (rs : StruUserLoginRS) (tmpUser : Ptr) : Act Server (Option BaseUserInfo) := do
  let info ← record tmpRoom tmpUser
  match ← getUserByHashkey info.gsHashkeyUserOn with
  | some gs => do
    send (.toGS (.userLoginRS rs) rs.msgId gs.userSock info.userHashKey)
    pure (some gs)
  | none => pure none

/-- The new user to the room, and the users of the room to the new user. -/
def announceLogin (tmpRoom : RoomPtr) (rs : StruUserLoginRS) (tmpGs : Option BaseUserInfo) :
    Option Ptr → Act Server Unit
  | none => pure ()
  | some tmpCurrentUser => do
    let online ← record tmpRoom tmpCurrentUser
    let _ ← sendDataToRoomAllUser (.userInfo (userInfoOf online)) .userInfo rs.roomId
    sendUserList tmpRoom rs tmpGs tmpCurrentUser

/-- `ClientLoginRS::Execute` once `tmp_current_user` is known. -/
def answerLogin (tmpRoom : RoomPtr) (rs : StruUserLoginRS) (tmpUser : Ptr) (tmpCurrentUser : Option Ptr) :
    Act Server Unit := do
  let tmpGs ← replyLogin tmpRoom rs tmpUser
  announceLogin tmpRoom rs tmpGs tmpCurrentUser
  onRoom tmpRoom (removePreUser rs.userId)
  sendMicList tmpRoom tmpGs tmpCurrentUser

/-- `ClientLoginRS::Execute`. -/
def clientLoginRSOf (newUserInfo : Act ChatRoom (Option Ptr)) (rs : StruUserLoginRS) : Act Server Unit := do
  match ← getRoom rs.roomId with
  | none => pure ()
  | some tmpRoom =>
    match ← onRoom tmpRoom (getPreUserInfo rs.userId) with
    | none => pure ()
    | some tmpUser => do
      let tmpCurrentUser ← if rs.result = 1 then loginUserOf newUserInfo tmpRoom rs tmpUser else pure none
      answerLogin tmpRoom rs tmpUser tmpCurrentUser

def clientLoginRS : StruUserLoginRS → Act Server Unit := clientLoginRSOf newUserInfo

/-- `UserGiveGiftRS::Execute`. -/
def userGiveGiftRS (rs : StruUserGiveGiftRS) : Act Server Unit :=
  forRoomUser rs.roomId rs.userId fun tmpRoom tmpUser => do
    match ← onRoom tmpRoom (ChatRoom.getUserInfo rs.dstUserId) with
    | none => pure ()
    | some _ => do
      let info ← record tmpRoom tmpUser
      let tmpGs ← getUserByHashkey info.gsHashkeyUserOn
      if rs.result = 0 then
        let gs ← Act.deref tmpGs
        send (.toGS (.userGiveGiftRS rs) rs.msgId gs.userSock info.userHashKey)
      else
        onRoom tmpRoom (.modify fun room =>
          room.store tmpUser { room.records tmpUser with userRedD := rs.senderRedD })
        let _ ← sendDataToRoomAllUser (.userGiveGiftRS rs) rs.msgId rs.roomId

/-! ## Events -/

/-- A message, decoded, that a command is for. -/
inductive Message
  | clientLoginRQ (tmpPackage : GateRoomServerPack) (rq : StruUserLoginRQ)
  | userExitRoomID (m : StruUserExitRoomID)
  | userApplyMicRQ (rq : StruUserApplyMicRQ)
  | userOffMicRQ (rq : StruUserOffMicRQ)
  | cancleUserMicRQ (rq : StruCancleUserMicRQ)
  | putUserOnMicRQ (rq : StruPutUserOnMicRQ)
  | userGiveGiftRQ (tmpPackage : GateRoomServerPack) (rq : StruUserGiveGiftRQ)
  | userSendMsgRQ (rq : StruUserMsgRQ)
  | clientLoginRS (rs : StruUserLoginRS)
  | userGiveGiftRS (rs : StruUserGiveGiftRS)

def handle : Message → Act Server Unit
  | .clientLoginRQ tmpPackage rq => Server.clientLoginRQ tmpPackage rq
  | .userExitRoomID m => Server.userExitRoomID m
  | .userApplyMicRQ rq => Server.userApplyMicRQ rq
  | .userOffMicRQ rq => Server.userOffMicRQ rq
  | .cancleUserMicRQ rq => Server.cancleUserMicRQ rq
  | .putUserOnMicRQ rq => Server.putUserOnMicRQ rq
  | .userGiveGiftRQ tmpPackage rq => Server.userGiveGiftRQ tmpPackage rq
  | .userSendMsgRQ rq => Server.userSendMsgRQ rq
  | .clientLoginRS rs => Server.clientLoginRS rs
  | .userGiveGiftRS rs => Server.userGiveGiftRS rs

inductive Event
  | connect (hashKey userSock : Int)
  | disconnect (hashKey : Int)
  | message (m : Message)

/-- The server after an event. A thread that blocks stays blocked, and the others go on;
a fault ends the process. -/
def step (s : Server) : Event → Option Server
  | .connect hashKey userSock => after (addUserInfo hashKey userSock) s
  | .disconnect hashKey => after (releaseUserInfo hashKey) s
  | .message m => after (handle m) s
where
  after {α : Type} (x : Act Server α) (s : Server) : Option Server :=
    match x s with
    | .done _ s' => some s'
    | .blocked s' => some s'
    | .fault => none

/-- The server after an event, and whether the thread waits for a mutex, which is kept for ever. -/
def outcome (s : Server) : Event → Option (Server × Bool)
  | .connect hashKey userSock => waiting (addUserInfo hashKey userSock) s
  | .disconnect hashKey => waiting (releaseUserInfo hashKey) s
  | .message m => waiting (handle m) s
where
  waiting {α : Type} (x : Act Server α) (s : Server) : Option (Server × Bool) :=
    match x s with
    | .done _ s' => some (s', false)
    | .blocked s' => some (s', true)
    | .fault => none

end Server

/-- The server, and which of the threads wait. -/
structure ThreadedServer (τ : Type) where
  server : Server
  waits : τ → Bool

namespace ThreadedServer

variable {τ : Type} [DecidableEq τ]

def start : ThreadedServer τ := ⟨.new, fun _ => false⟩

/-- An event of a thread. What comes for a thread that waits is not handled. -/
def step (s : ThreadedServer τ) (x : τ × Server.Event) : Option (ThreadedServer τ) :=
  if s.waits x.1 then some s
  else (s.server.outcome x.2).map fun r => ⟨r.1, if r.2 then Function.update s.waits x.1 true else s.waits⟩

end ThreadedServer

end Miku.RoomServer
