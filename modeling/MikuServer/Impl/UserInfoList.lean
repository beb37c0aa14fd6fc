import MikuServer.Framework.Mem
import MikuServer.Framework.StdMap
import MikuServer.Framework.Act

/-!
# The users of a room (`room_server/user_info_list.h`, `room_server/user_info_list.cpp`)

A `UserInfoList` has a list of unused records and a map from user ids to records,
under one mutex. `AutoLock` holds the mutex for a function. `GetFirstUser` keeps
it for the `GetNextUser`s that follow, and the one that reaches the end gives it
back.

A record is named by its number (`Ptr`); the memory of the records is with the
room (`Impl/ChatRoom.lean`).
-/

namespace Miku.RoomServer

/-- A `UserInfo *` that is not `NULL`. -/
abbrev Ptr := Nat

/-- `struct UserInfo`, in the order of its members. -/
structure UserInfo where
  gsHashkeyUserOn : Int
  userId : Int
  userHashKey : Int
  userNickname : List Byte
  userRedD : Int
  userBlueD : Int
  userLevel : Int
  buyerRiches : Int
  buyerGrowUp : Int
  buyerHonour : Int
  buyerEstimate : Int
  sellerIncome : Int
  sellerExp : Int
  sellerPop : Int
  sellerEstimate : Int
  deriving DecidableEq

namespace UserInfo

/-- A record after `Clear()`. -/
def clear : UserInfo := ⟨0, 0, 0, List.replicate 0x20 0, 0, 0, 0, 0, 0, 0, 0, 0, 0, 0, 0⟩

/-- The members after `user_nickname`, which the packed structure has right after it. -/
def attributes (u : UserInfo) : List Int :=
  [u.userRedD, u.userBlueD, u.userLevel, u.buyerRiches, u.buyerGrowUp, u.buyerHonour, u.buyerEstimate,
    u.sellerIncome, u.sellerExp, u.sellerPop, u.sellerEstimate]

/-- `user_nickname` as a C string. -/
def nickname (u : UserInfo) : List Byte :=
  (u.userNickname ++ u.attributes.flatMap fun v => leBytes (cint v)).takeWhile (· ≠ 0)

end UserInfo

/-- `class UserInfoList`. `locked` is `list_lock_`, between functions, and `listIter`
the place of `list_iter_` in the order of the keys. -/
structure UserInfoList where
  locked : Bool
  unusedUserInfoList : List Ptr
  userInfoList : StdMap (Option Ptr)
  listIter : Nat

namespace UserInfoList

variable {α : Type}

/-- `InitUserList`, with the records from `first` on. -/
def initUserList (first maxUserCount : Nat) : UserInfoList :=
  ⟨false, List.range' first maxUserCount, .empty, 0⟩

/-- A function that holds `list_lock_` with an `AutoLock`. -/
def autoLock (f : UserInfoList → Outcome UserInfoList α) : Act UserInfoList α := fun self =>
  if self.locked then .blocked self else f self

/-- `GetUnusedUser`, but for the `Clear()` of the record. It takes `front()` before it looks at the
size; of an empty list that is undefined. -/
def getUnusedUser : Act UserInfoList (Int × Option Ptr) := autoLock fun self =>
  match self.unusedUserInfoList with
  | [] => .fault
  | tmpUser :: rest => .done (1, some tmpUser) { self with unusedUserInfoList := rest }

/-- `GetUnusedUser` where `front()` of an empty list reads as `NULL`, and `new UserInfo` returns `made`. -/
def getUnusedUserOrNew (made : Ptr) : Act UserInfoList (Int × Option Ptr) := autoLock fun self =>
  match self.unusedUserInfoList.head? with
  | some tmpUser => .done (1, some tmpUser) { self with unusedUserInfoList := self.unusedUserInfoList.tail }
  | none =>
    if self.unusedUserInfoList.length ≤ 0 then .done (0, some made) self
    else .done (-1, none) self

def pushUserInUnusedList (userInfo : Ptr) : Act UserInfoList Bool := autoLock fun self =>
  .done true { self with unusedUserInfoList := self.unusedUserInfoList ++ [userInfo] }

def addUserInfo (userId : Int) (userInfo : Option Ptr) : Act UserInfoList Bool := autoLock fun self =>
  match self.userInfoList.ptr userId with
  | some _ => .done false { self with userInfoList := self.userInfoList.subscript userId none }
  | none => .done true { self with userInfoList := (self.userInfoList.subscript userId none).assign userId userInfo }

def removeUser (userId : Int) : Act UserInfoList Unit := autoLock fun self =>
  .done () { self with userInfoList := self.userInfoList.erase userId }

def getUserInfo (userId : Int) : Act UserInfoList (Option Ptr) := autoLock fun self =>
  .done (self.userInfoList.ptr userId) { self with userInfoList := self.userInfoList.subscript userId none }

/-- `GetFirstUser`: the mutex is given back only if the map is empty. -/
def getFirstUser : Act UserInfoList (Option Ptr) := autoLock fun self =>
  match self.userInfoList.values with
  | [] => .done none self
  | tmpUser :: _ => .done tmpUser { self with locked := true, listIter := 0 }

/-- `GetNextUser`: the mutex is given back at the end of the map. -/
def getNextUser : Act UserInfoList (Option Ptr) := fun self =>
  match self.userInfoList.values[self.listIter + 1]? with
  | none => .done none { self with locked := false, listIter := self.listIter + 1 }
  | some tmpUser => .done tmpUser { self with listIter := self.listIter + 1 }

/-- `ClearAllUserInfo`: for its first user it calls `PushUserInUnusedList`, which waits
for the mutex this function holds. -/
def clearAllUserInfo : Act UserInfoList Unit := autoLock fun self =>
  match self.userInfoList.values with
  | [] => .done () self
  | _ :: _ => .blocked { self with locked := true }

end UserInfoList

end Miku.RoomServer
