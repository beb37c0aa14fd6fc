import MikuServer.Impl.UserInfoList

/-!
# A room (`room_server/chat_room.h`, `room_server/chat_room.cpp`)

A room has the list of the users that are in it, the list of those whose login
is with the center server, and the table of the microphone holders. Records are
taken from `user_list_`. `channel_list_lock_` is held by no function after its
end, so a function on the table is one step.
-/

namespace Miku.RoomServer

/-- `class ChatRoom`, with the memory of its records. -/
structure ChatRoom where
  roomId : Int
  sock : Int
  startChannelId : Int
  videoChannelList : StdMap (List Byte)
  userList : UserInfoList
  preUserList : UserInfoList
  records : Ptr → UserInfo

namespace ChatRoom

open UserInfoList

variable {α : Type}

/-- `ChatRoom()`. A record is cleared before it is handed out. -/
def new : ChatRoom :=
  ⟨0, -1, 1000, .empty, .initUserList 0 100000, .initUserList 100000 1000, fun _ => .clear⟩

/-- Writes a record. -/
def store (self : ChatRoom) (p : Ptr) (info : UserInfo) : ChatRoom :=
  { self with records := Function.update self.records p info }

/-- A function of `user_list_`. -/
def onUserList (x : Act UserInfoList α) : Act ChatRoom α :=
  Act.zoom userList (fun self list => { self with userList := list }) x

/-- A function of `pre_user_list_`. -/
def onPreUserList (x : Act UserInfoList α) : Act ChatRoom α :=
  Act.zoom preUserList (fun self list => { self with preUserList := list }) x

def setRoom (roomId roomFd : Int) : Act ChatRoom Unit :=
  .modify fun self => { self with roomId := roomId, sock := roomFd }

def resetRoom (roomId roomFd : Int) : Act ChatRoom Unit := do
  setRoom roomId roomFd
  onUserList clearAllUserInfo
  onPreUserList clearAllUserInfo

/-- `user_list_.GetUnusedUser`, with the `Clear()` of the record. -/
def getUnusedUserOf (getUnusedUser : Act UserInfoList (Int × Option Ptr)) : Act ChatRoom (Int × Option Ptr) := do
  let (ret, tmpUser) ← onUserList getUnusedUser
  match tmpUser with
  | some p => Act.modify fun self => self.store p .clear
  | none => pure ()
  pure (ret, tmpUser)

def getUnusedUser : Act ChatRoom (Int × Option Ptr) := getUnusedUserOf UserInfoList.getUnusedUser

def newUserInfo : Act ChatRoom (Option Ptr) := do
  let (tmpGetUser, tmpUser) ← getUnusedUser
  if tmpGetUser < 0 then pure none else pure tmpUser

/-- `NewUserInfo` where `front()` of an empty list reads as `NULL`. The constructor of the new record does what
`Clear()` does, but for `user_level`. -/
def newUserInfoOrNew (made : Ptr) : Act ChatRoom (Option Ptr) := do
  let (tmpGetUser, tmpUser) ← getUnusedUserOf (UserInfoList.getUnusedUserOrNew made)
  if tmpGetUser < 0 then pure none else pure tmpUser

def addUser (userId : Int) (user : Option Ptr) : Act ChatRoom Bool := onUserList (addUserInfo userId user)

def addPreUser (userId : Int) (user : Option Ptr) : Act ChatRoom Bool := onPreUserList (addUserInfo userId user)

def getUserInfo (userId : Int) : Act ChatRoom (Option Ptr) := onUserList (UserInfoList.getUserInfo userId)

def getPreUserInfo (userId : Int) : Act ChatRoom (Option Ptr) := onPreUserList (UserInfoList.getUserInfo userId)

def removeUser (userId : Int) : Act ChatRoom Unit := do
  match ← onUserList (UserInfoList.getUserInfo userId) with
  | none => pure ()
  | some tmpUser => do
    onUserList (UserInfoList.removeUser userId)
    let _ ← onUserList (pushUserInUnusedList tmpUser)

def removePreUser (userId : Int) : Act ChatRoom Unit := do
  match ← onPreUserList (UserInfoList.getUserInfo userId) with
  | none => pure ()
  | some tmpUser => do
    onPreUserList (UserInfoList.removeUser userId)
    let _ ← onPreUserList (pushUserInUnusedList tmpUser)

/-- `UserApplyOneNewVideo`, with the channel it returns. -/
def userApplyOneNewVideo (userId : Int) : Act ChatRoom (List Byte) := .ofFun fun self =>
  let tmpNewChannel := (self.videoChannelList.find? userId).getD []
  let list := self.videoChannelList.subscript userId []
  if tmpNewChannel ≠ [] then ([], { self with videoChannelList := list })
  else
    -- `tmp_ss` has no characters: `tmp_ss >> room_id_` and `tmp_ss >> start_channel_id_` fail
    -- and leave the two members as they are, and `tmp_ss.str()` is empty.
    let tmpNewChannel := []
    (tmpNewChannel, { self with
      startChannelId := self.startChannelId + 1
      videoChannelList := list.assign userId tmpNewChannel })

def userGetOffVideo (userId : Int) : Act ChatRoom Unit :=
  .modify fun self => { self with videoChannelList := self.videoChannelList.erase userId }

/-- `GetMicUserList`, into an empty map. -/
def getMicUserList : Act ChatRoom (StdMap (List Byte)) := .read videoChannelList

end ChatRoom

end Miku.RoomServer
