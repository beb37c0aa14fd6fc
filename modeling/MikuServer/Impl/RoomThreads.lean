import MikuServer.Framework.Threads
import MikuServer.Impl.ChatRoom

/-!
# Threads on one room (`room_server/chat_room.cpp`)

The threads of the gates and of the center server call the functions of a room
without a lock of their own. Each function of `UserInfoList` is one step: it
holds `list_lock_`. `RemoveUser` and `RemovePreUser` are three, `GetUserInfo`,
`RemoveUser` and `PushUserInUnusedList`, and other threads may have their turns
between them.
-/

namespace Miku.RoomServer

/-- The two lists of a room. -/
inductive ListName
  | userList
  | preUserList
  deriving DecidableEq

namespace ChatRoom

open UserInfoList

def onList {α : Type} : ListName → Act UserInfoList α → Act ChatRoom α
  | .userList => onUserList
  | .preUserList => onPreUserList

/-- `AddUser` and `AddPreUser`. -/
def addTo : ListName → Int → Option Ptr → Act ChatRoom Bool
  | .userList => addUser
  | .preUserList => addPreUser

/-- `RemoveUser` and `RemovePreUser`. -/
def removeFrom : ListName → Int → Act ChatRoom Unit
  | .userList => removeUser
  | .preUserList => removePreUser

end ChatRoom

/-- Where a thread is in `RemoveUser` or `RemovePreUser`. -/
inductive Removal
  | none
  | found (list : ListName) (userId : Int) (tmpUser : Ptr)
  | erased (list : ListName) (tmpUser : Ptr)
  deriving DecidableEq

/-- What a thread has: the records that `NewUserInfo` gave it and that it has not added yet,
and the removal it is in. -/
structure RoomThread where
  taken : List Ptr
  removal : Removal

/-- A call of a thread, or the next step of the one it is in. -/
inductive RoomCall
  | newUserInfo
  | add (list : ListName) (userId : Int) (user : Ptr)
  | remove (list : ListName) (userId : Int)
  | next

namespace RoomThread

open ChatRoom UserInfoList

def start : RoomThread := ⟨[], .none⟩

/-- A turn of a thread. It adds records that it took itself. -/
def turn (t : RoomThread) (call : RoomCall) : Option (Act ChatRoom RoomThread) :=
  match t.removal, call with
  | .none, .newUserInfo => some do
    match ← newUserInfo with
    | none => pure t
    | some user => pure { t with taken := user :: t.taken }
  | .none, .add list userId user =>
    if user ∈ t.taken then some do
      let _ ← addTo list userId (some user)
      pure { t with taken := t.taken.erase user }
    else none
  | .none, .remove list userId => some do
    match ← onList list (UserInfoList.getUserInfo userId) with
    | none => pure t
    | some tmpUser => pure { t with removal := .found list userId tmpUser }
  | .found list userId tmpUser, .next => some do
    onList list (UserInfoList.removeUser userId)
    pure { t with removal := .erased list tmpUser }
  | .erased list tmpUser, .next => some do
    let _ ← onList list (pushUserInUnusedList tmpUser)
    pure { t with removal := .none }
  | _, _ => none

end RoomThread

/-- A room, and the threads that call its functions. -/
abbrev RoomThreads (ι : Type) := Threads ι ChatRoom RoomThread

namespace RoomThreads

variable {ι : Type} [DecidableEq ι]

/-- A new room, and threads that have not called anything. -/
def start : RoomThreads ι := ⟨.new, fun _ => .start⟩

def step (s : RoomThreads ι) (e : ι × RoomCall) : Option (RoomThreads ι) := Threads.step RoomThread.turn s e

def run (s : RoomThreads ι) (es : List (ι × RoomCall)) : Option (RoomThreads ι) := es.foldlM step s

end RoomThreads

end Miku.RoomServer
