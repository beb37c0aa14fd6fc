import Mathlib.Algebra.Group.Int.Defs
import Mathlib.Logic.Function.Basic
import MikuServer.Framework.StdMap

/-!
# Connections (`common/server_listenner.cpp`, `common/resource_manager.h`, `gate_server/user_info_list.cpp`)

A `ServerListenner` gives each connection the next hash key and an object of a
pool, which is the user's as long as the connection lasts. The pool and the map
from keys to objects are in the `UserInfoList` of the gate; those of the two
other servers (`room_server/client_info_list.cpp`,
`center_server/client_info_list.cpp`) start a processor for the object besides,
and stop it.

An object is named by its place in `resource_block_ptr`.
-/

namespace Miku.Common

/-- A `BaseUserInfo *` that is not `NULL`. -/
abbrev UserPtr := Nat

/-- `class UserResourceManager`. A key of `using_user_list_` is a pointer. -/
structure UserResourceManager where
  usingUserList : StdMap (Option UserPtr)
  unusedUserList : List UserPtr

namespace UserResourceManager

def init (maxNum : Nat) : UserResourceManager := ⟨.empty, List.range maxNum⟩

def get (self : UserResourceManager) : Option UserPtr × UserResourceManager :=
  match self.unusedUserList with
  | [] => (none, self)
  | tmpUser :: rest => (some tmpUser, ⟨self.usingUserList.assign tmpUser (some tmpUser), rest⟩)

def put (self : UserResourceManager) (user : UserPtr) : Bool × UserResourceManager :=
  let usingUserList := self.usingUserList.subscript user none
  match self.usingUserList.ptr user with
  | none => (false, { self with usingUserList := usingUserList })
  | some _ => (true, ⟨usingUserList.erase user, self.unusedUserList ++ [user]⟩)

end UserResourceManager

/-- Which server the list of users is of. -/
inductive Server
  | gate
  | room
  | center
  deriving DecidableEq

/-- `class BaseUserInfo` and what a server adds. `worker` is the index of the worker whose base `buffev`
has, and `reading` is the `EV_READ` of `buffev`; `server` says that `gate_server_`, `room_server_` or `center_server_` has been set, and `processor` that the
processor is initialised and started. -/
structure UserInfoEx where
  userSock : Int
  hashKey : Int
  userUip : Int
  userUport : Int
  serverPtr : Bool
  worker : Option Int
  reading : Bool
  server : Bool
  processor : Bool
  deriving DecidableEq

namespace UserInfoEx

def new : UserInfoEx := ⟨-1, 0, 0, 0, false, none, false, false, false⟩

def clear (self : UserInfoEx) : UserInfoEx :=
  { self with userSock := 0, hashKey := 0, userUip := 0, userUport := 0, serverPtr := false }

end UserInfoEx

/-- `class UserInfoList` or `class ClientInfoList`. -/
structure UserInfoList where
  of : Server
  unusedUserList : UserResourceManager
  userList : StdMap (Option UserPtr)

/-- `class ServerListenner`, with the objects of the pool. -/
structure ServerListenner where
  countWorker : Int
  baseHashKey : Int
  usingUserMap : StdMap (Option UserPtr)
  userInfoResource : UserInfoList
  users : UserPtr → UserInfoEx

namespace ServerListenner

/-- `InitWorker` has refused a `count_worker_` that is not positive. -/
def start (server : Server) (countWorker : Int) (maxUser : Nat) : ServerListenner :=
  ⟨countWorker, 0, .empty, ⟨server, .init maxUser, .empty⟩, fun _ => .new⟩

def setUser (self : ServerListenner) (user : UserPtr) (f : UserInfoEx → UserInfoEx) : ServerListenner :=
  { self with users := Function.update self.users user (f (self.users user)) }

/-! ## `UserInfoList` -/

def getUserInfo (self : ServerListenner) : Option UserPtr × ServerListenner :=
  let (tmpUser, unusedUserList) := self.userInfoResource.unusedUserList.get
  (tmpUser, { self with userInfoResource := { self.userInfoResource with unusedUserList := unusedUserList } })

def getUserByHashkey (self : ServerListenner) (userHashkey : Int) : Option UserPtr × ServerListenner :=
  (self.userInfoResource.userList.ptr userHashkey,
    { self with userInfoResource :=
      { self.userInfoResource with userList := self.userInfoResource.userList.subscript userHashkey none } })

def addUserInfo (self : ServerListenner) (userHashkey : Int) (user : UserPtr) : Bool × ServerListenner :=
  let userList := self.userInfoResource.userList.subscript userHashkey none
  match self.userInfoResource.userList.ptr userHashkey with
  | some _ => (false, { self with userInfoResource := { self.userInfoResource with userList := userList } })
  | none =>
    let started := decide (self.userInfoResource.of ≠ .gate)
    let self := self.setUser user fun u =>
      { u with hashKey := userHashkey, server := true, processor := u.processor || started }
    (true, { self with userInfoResource :=
      { self.userInfoResource with userList := userList.assign userHashkey (some user) } })

/-- `UserInfoList::ReleaseUserInfo`; in the two other servers `StopProcessor` has returned. -/
def giveBack (self : ServerListenner) (user : UserPtr) : ServerListenner :=
  let hashKey := (self.users user).hashKey
  let userList := self.userInfoResource.userList.subscript hashKey none
  let userList := if (self.userInfoResource.userList.ptr hashKey).isSome then userList.erase hashKey else userList
  let self := self.setUser user fun u => { u.clear with processor := false }
  { self with userInfoResource := { self.userInfoResource with
    userList := userList
    unusedUserList := (self.userInfoResource.unusedUserList.put user).2 } }

/-! ## `AcceptAction` -/

/-- `base_hash_key_++`, which has no defined value at the greatest `int`. -/
def nextHashKey (self : ServerListenner) : Option ServerListenner :=
  if self.baseHashKey < 2 ^ 31 - 1 then some { self with baseHashKey := self.baseHashKey + 1 } else none

/-- `(base_hash_key_+count_worker_-1)%count_worker_`, whose sum has no defined value above the greatest `int`. -/
def tmpIndex (self : ServerListenner) : Option Int :=
  if self.baseHashKey + self.countWorker ≤ 2 ^ 31 - 1 ∧ self.countWorker ≠ 0 then
    some ((self.baseHashKey + self.countWorker - 1).tmod self.countWorker)
  else none

/-- The members that are set before reading is enabled. -/
def setInfo (self : ServerListenner) (tmpUser : UserPtr) (tmpIndex tmpClientSock uip uport : Int) : ServerListenner :=
  self.setUser tmpUser fun u =>
    { u with
      userSock := tmpClientSock
      hashKey := self.baseHashKey
      serverPtr := true
      userUip := uip
      userUport := uport
      worker := some tmpIndex }

/-- The calls on `buffev`, to `bufferevent_enable`. -/
def enable (self : ServerListenner) (tmpUser : UserPtr) : ServerListenner :=
  self.setUser tmpUser fun u => { u with reading := true }

/-- `using_user_map_` and `AddUserInfo`. -/
def register (self : ServerListenner) (tmpUser : UserPtr) : ServerListenner :=
  let self := { self with usingUserMap := self.usingUserMap.assign (self.users tmpUser).hashKey (some tmpUser) }
  (self.addUserInfo self.baseHashKey tmpUser).2

/-- `AcceptAction`, and the object that it took. `tmpClientSock` is negative where `accept` or `ioctl` fails. -/
def acceptAction (self : ServerListenner) (tmpClientSock uip uport : Int) :
    Option (Option UserPtr × ServerListenner) :=
  if 0 < tmpClientSock then do
    let self ← self.nextHashKey
    match self.getUserInfo with
    | (none, self) => some (none, self)
    | (some tmpUser, self) => do
      let tmpIndex ← self.tmpIndex
      let self := self.setInfo tmpUser tmpIndex tmpClientSock uip uport
      let self := self.enable tmpUser
      some (some tmpUser, self.register tmpUser)
  else some (none, self)

/-! ## `ErrorRead` -/

/-- `ErrorRead` and `ReleaseUserInfo` up to `close`. -/
def leave (self : ServerListenner) (tmpUser : UserPtr) : ServerListenner :=
  let self := self.setUser tmpUser fun u => { u with reading := false }
  if (self.users tmpUser).serverPtr then
    { self with usingUserMap := self.usingUserMap.erase (self.users tmpUser).hashKey }
  else self

def errorRead (self : ServerListenner) (tmpUser : UserPtr) : ServerListenner :=
  if (self.users tmpUser).serverPtr then (self.leave tmpUser).giveBack tmpUser else self.leave tmpUser

end ServerListenner

/-! ## Descriptors -/

/-- A server, and the descriptors that `accept` has returned and nothing has closed. -/
structure ClientSockets where
  server : ServerListenner
  opened : List Int

namespace ClientSockets

def start (server : Server) (countWorker : Int) (maxUser : Nat) : ClientSockets :=
  ⟨.start server countWorker maxUser, []⟩

def close (self : ClientSockets) (sock : Int) : ClientSockets :=
  { self with opened := self.opened.filter (· ≠ sock) }

/-- `SafeCloseSocket`, whose loop ends with the descriptor closed. -/
def safeCloseSocket (self : ClientSockets) (sock : Int) : ClientSockets :=
  if sock ≠ -1 then self.close sock else self

/-- `AcceptAction`, where `accept` returns `sock`. -/
def acceptAction (self : ClientSockets) (sock : Int) (ioctlFails : Bool) (uip uport : Int) : Option ClientSockets := do
  let self := if 0 ≤ sock then { self with opened := sock :: self.opened } else self
  let (tmpClientSock, self) := if ioctlFails then (-1, self.safeCloseSocket sock) else (sock, self)
  let (_, server) ← self.server.acceptAction tmpClientSock uip uport
  some { self with server := server }

/-- `ErrorRead`, with the `close` of `ReleaseUserInfo`. -/
def errorRead (self : ClientSockets) (tmpUser : UserPtr) : ClientSockets :=
  let user := self.server.users tmpUser
  { if user.serverPtr then self.close user.userSock else self with server := self.server.errorRead tmpUser }

inductive Event
  | accept (sock : Int) (ioctlFails : Bool) (uip uport : Int)
  | errorRead (tmpUser : UserPtr)

/-- `accept` returns no descriptor that is open. -/
def step (self : ClientSockets) : Event → Option ClientSockets
  | .accept sock ioctlFails uip uport =>
    if 0 ≤ sock ∧ sock ∈ self.opened then none else self.acceptAction sock ioctlFails uip uport
  | .errorRead tmpUser => some (self.errorRead tmpUser)

end ClientSockets

end Miku.Common
