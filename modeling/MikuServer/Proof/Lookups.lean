import MikuServer.Framework.Table
import MikuServer.Impl.CommandChain
import MikuServer.Impl.GateRooms
import MikuServer.Impl.RoomServer
import MikuServer.Impl.ServerListenner

/-!
# What a lookup does to a container

The five containers whose lookups are `operator[]` of a `std::map`, each as a
`Table` of its own functions. A lookup of a key that is not there inserts `NULL`
under it, so a container has no more entries than keys that were added exactly
where only keys that are there are looked up (`lookups_iff`), and is otherwise as
large as whoever chooses the keys likes (`size_of_lookups`).
-/

namespace Miku

namespace GateServer.RoomManager

variable {self : RoomManager}

theorem keys_addRoom (roomId serverFd : Int) :
    (self.addRoom roomId serverFd).2.roomList.keys = insert roomId self.roomList.keys := by
  rw [addRoom]
  split
  · exact StdMap.keys_subscript ..
  · exact StdMap.keys_assign_subscript ..

theorem keys_delRoom (roomId : Int) : (self.delRoom roomId).2.roomList.keys = self.roomList.keys.erase roomId := by
  rw [delRoom]
  split <;> rename_i h
  · exact (StdMap.erase_keys h).symm
  · exact StdMap.keys_erase ..

/-- `room_list_`. -/
def table : Table where
  State := RoomManager
  Entry := ChatRoom
  Value := Int
  Removal := Int
  start := .new
  entries self := self.roomList
  lookup self roomId := some (self.getChatRoom roomId).2
  add self roomId serverFd := some (self.addRoom roomId serverFd).2
  takes _ := true
  remove self roomId := some (self.delRoom roomId).2
  key _ roomId := some roomId
  finds _ _ := True
  Ok _ := True
  ok_start := trivial
  entries_start := rfl
  lookup_entries _ _ := ⟨_, rfl, trivial, rfl⟩
  lookup_self _ h := by rw [getChatRoom, StdMap.subscript_of_mem h]
  add_keys _ h := by
    cases h
    exact ⟨trivial, keys_addRoom ..⟩
  remove_keys _ _ h := by
    cases h
    exact ⟨trivial, keys_delRoom _⟩
  remove_missed _ h := absurd trivial h

end GateServer.RoomManager

namespace Common.CommandChain

variable {self : CommandChain}

@[simp] theorem delete_commandChain (command : Option CommandPtr) :
    (self.delete command).commandChain = self.commandChain := by
  cases command <;> rfl

@[simp] theorem deleteCommand_commandChain (command : Option CommandPtr) :
    (self.deleteCommand command).commandChain = self.commandChain := by
  rw [deleteCommand]
  split
  · exact delete_commandChain _
  · rfl

theorem keys_registerCommand (commandIndex : Int) (commandClass : Option CommandPtr) :
    (self.registerCommand commandIndex commandClass).2.commandChain.keys =
      insert commandIndex self.commandChain.keys := by
  rw [registerCommand]
  split
  · exact StdMap.keys_subscript ..
  · exact StdMap.keys_assign_subscript ..

theorem keys_releaseCommand (commandIndex : Int) :
    (self.releaseCommand commandIndex).commandChain.keys = self.commandChain.keys.erase commandIndex := by
  rw [releaseCommand]
  dsimp only
  rw [deleteCommand_commandChain]
  exact StdMap.keys_erase_subscript ..

/-- `ReleaseCommand`, or `ReleaseAllCommand`. -/
def release (self : CommandChain) : Option Int → CommandChain
  | some commandIndex => self.releaseCommand commandIndex
  | none => self.releaseAllCommand

theorem keys_release (commandIndex : Option Int) :
    (self.release commandIndex).commandChain.keys = remaining commandIndex self.commandChain.keys := by
  cases commandIndex with
  | none => exact StdMap.keys_empty
  | some commandIndex => exact keys_releaseCommand commandIndex

/-- `command_chain_`. -/
def table : Table where
  State := CommandChain
  Entry := CommandPtr
  Value := Option CommandPtr
  Removal := Option Int
  start := .new
  entries self := self.commandChain
  lookup self commandIndex := some (self.getCommand commandIndex).2
  add self commandIndex commandClass := some (self.registerCommand commandIndex commandClass).2
  takes _ := true
  remove self commandIndex := some (self.release commandIndex)
  key _ commandIndex := commandIndex
  finds _ _ := True
  Ok _ := True
  ok_start := trivial
  entries_start := rfl
  lookup_entries _ _ := ⟨_, rfl, trivial, rfl⟩
  lookup_self _ h := by rw [getCommand, StdMap.subscript_of_mem h]
  add_keys _ h := by
    cases h
    exact ⟨trivial, keys_registerCommand ..⟩
  remove_keys _ _ h := by
    cases h
    exact ⟨trivial, keys_release _⟩
  remove_missed _ h := absurd trivial h

end Common.CommandChain

namespace Common.ServerListenner

variable {self : ServerListenner}

/-- The list of a server's users. -/
def userList (self : ServerListenner) : StdMap (Option UserPtr) := self.userInfoResource.userList

theorem keys_addUserInfo (userHashkey : Int) (user : UserPtr) :
    (self.addUserInfo userHashkey user).2.userList.keys = insert userHashkey self.userList.keys := by
  rw [addUserInfo]
  dsimp only
  split
  · exact StdMap.keys_subscript ..
  · exact StdMap.keys_assign_subscript ..

theorem getUserByHashkey_self {userHashkey : Int} (h : userHashkey ∈ self.userList.keys) :
    (self.getUserByHashkey userHashkey).2 = self := by
  have hm : self.userInfoResource.userList.subscript userHashkey none = self.userInfoResource.userList :=
    StdMap.subscript_of_mem h none
  rw [getUserByHashkey, hm]

/-- Whether the list has the user that `ReleaseUserInfo` looks for. -/
def listed (self : ServerListenner) (user : UserPtr) : Prop := self.userList.ptr (self.users user).hashKey ≠ none

theorem keys_giveBack_of_listed {user : UserPtr} (h : self.listed user) :
    (self.giveBack user).userList.keys = self.userList.keys.erase (self.users user).hashKey := by
  have hs : (self.userInfoResource.userList.ptr (self.users user).hashKey).isSome := Option.isSome_iff_ne_none.mpr h
  rw [giveBack]
  dsimp only [userList]
  rw [if_pos hs]
  exact StdMap.keys_erase_subscript ..

theorem keys_giveBack_of_not_listed {user : UserPtr} (h : ¬self.listed user) :
    (self.giveBack user).userList.keys = insert (self.users user).hashKey self.userList.keys := by
  have hs : ¬(self.userInfoResource.userList.ptr (self.users user).hashKey).isSome :=
    fun hs => h (Option.isSome_iff_ne_none.mp hs)
  rw [giveBack]
  dsimp only [userList]
  rw [if_neg hs]
  exact StdMap.keys_subscript ..

/-- `user_list_` of the `UserInfoList`, or of the `ClientInfoList`, of a server. -/
def table (server : Server) (countWorker : Int) (maxUser : Nat) : Table where
  State := ServerListenner
  Entry := UserPtr
  Value := UserPtr
  Removal := UserPtr
  start := .start server countWorker maxUser
  entries self := self.userList
  lookup self userHashkey := some (self.getUserByHashkey userHashkey).2
  add self userHashkey user := some (self.addUserInfo userHashkey user).2
  takes _ := true
  remove self user := some (self.giveBack user)
  key self user := some (self.users user).hashKey
  finds := listed
  Ok _ := True
  ok_start := trivial
  entries_start := rfl
  lookup_entries _ _ := ⟨_, rfl, trivial, rfl⟩
  lookup_self _ h := congrArg some (getUserByHashkey_self h)
  add_keys _ h := by
    cases h
    exact ⟨trivial, keys_addUserInfo ..⟩
  remove_keys _ hf h := by
    cases h
    exact ⟨trivial, keys_giveBack_of_listed hf⟩
  remove_missed _ hf := ⟨_, _, rfl, rfl, keys_giveBack_of_not_listed hf⟩

end Common.ServerListenner

namespace RoomServer.Server

variable {self self' : Server}

/-- `NULL` is not added. -/
theorem keys_addRoom {roomId : Int} {chatRoom : Option RoomPtr} (h : (addRoom roomId chatRoom).after self = some self') :
    self'.roomManager.roomList.keys =
      if chatRoom.isSome then insert roomId self.roomManager.roomList.keys else self.roomManager.roomList.keys := by
  cases h
  cases chatRoom with
  | none => rfl
  | some room =>
    dsimp only
    split
    · exact StdMap.keys_subscript ..
    · exact StdMap.keys_assign_subscript ..

theorem keys_delRoom {roomId : Int} (h : (delRoom roomId).after self = some self') :
    self'.roomManager.roomList.keys = self.roomManager.roomList.keys.erase roomId := by
  cases h
  dsimp only
  split <;> rename_i hr
  · exact (StdMap.erase_keys hr).symm
  · exact StdMap.keys_erase ..

theorem getRoom_self {roomId : Int} (h : roomId ∈ self.roomManager.roomList.keys) :
    (getRoom roomId).after self = some self := by
  have hm : self.roomManager.roomList.subscript roomId none = self.roomManager.roomList := StdMap.subscript_of_mem h none
  rw [getRoom, Act.after, Act.ofFun]
  dsimp only
  rw [hm]

/-- `room_list_`. -/
def roomTable : Table where
  State := Server
  Entry := RoomPtr
  Value := Option RoomPtr
  Removal := Int
  start := .new
  entries self := self.roomManager.roomList
  lookup self roomId := (getRoom roomId).after self
  add self roomId chatRoom := (addRoom roomId chatRoom).after self
  takes chatRoom := chatRoom.isSome
  remove self roomId := (delRoom roomId).after self
  key _ roomId := some roomId
  finds _ _ := True
  Ok _ := True
  ok_start := trivial
  entries_start := rfl
  lookup_entries _ _ := ⟨_, rfl, trivial, rfl⟩
  lookup_self _ h := getRoom_self h
  add_keys _ h := ⟨trivial, keys_addRoom h⟩
  remove_keys _ _ h := ⟨trivial, keys_delRoom h⟩
  remove_missed _ h := absurd trivial h

end RoomServer.Server

namespace RoomServer.UserInfoList

variable {self self' : UserInfoList}

theorem keys_addUserInfo {userId : Int} {userInfo : Option Ptr} (hl : self.locked = false)
    (h : (addUserInfo userId userInfo).after self = some self') :
    self'.locked = false ∧ self'.userInfoList.keys = insert userId self.userInfoList.keys := by
  rw [Act.after, addUserInfo, autoLock, if_neg (Bool.eq_false_iff.mp hl)] at h
  rcases hp : self.userInfoList.ptr userId with _ | tmpUser <;> rw [hp] at h <;> cases h
  · exact ⟨hl, StdMap.keys_assign_subscript ..⟩
  · exact ⟨hl, StdMap.keys_subscript ..⟩

/-- `RemoveUser`, or `ClearAllUserInfo`. -/
def removeUsers : Option Int → Act UserInfoList Unit
  | some userId => removeUser userId
  | none => clearAllUserInfo

/-- `ClearAllUserInfo` returns only where there is nothing to clear. -/
theorem keys_removeUsers {userId : Option Int} (hl : self.locked = false)
    (h : (removeUsers userId).after self = some self') :
    self'.locked = false ∧ self'.userInfoList.keys = remaining userId self.userInfoList.keys := by
  cases userId with
  | some userId =>
    rw [Act.after, removeUsers, removeUser, autoLock, if_neg (Bool.eq_false_iff.mp hl)] at h
    cases h
    exact ⟨hl, StdMap.keys_erase ..⟩
  | none =>
    rw [Act.after, removeUsers, clearAllUserInfo, autoLock, if_neg (Bool.eq_false_iff.mp hl)] at h
    rcases hv : self.userInfoList.values with _ | ⟨tmpUser, users⟩ <;> rw [hv] at h <;> cases h
    exact ⟨hl, StdMap.keys_eq_empty.mpr (StdMap.values_eq_nil.mp hv)⟩

theorem getUserInfo_after (userId : Int) (hl : self.locked = false) : (getUserInfo userId).after self =
    some { self with userInfoList := self.userInfoList.subscript userId none } := by
  rw [Act.after, getUserInfo, autoLock, if_neg (Bool.eq_false_iff.mp hl)]

/-- `user_info_list_`, while no function has kept `list_lock_`. -/
def table (first maxUserCount : Nat) : Table where
  State := UserInfoList
  Entry := Ptr
  Value := Option Ptr
  Removal := Option Int
  start := initUserList first maxUserCount
  entries self := self.userInfoList
  lookup self userId := (getUserInfo userId).after self
  add self userId userInfo := (addUserInfo userId userInfo).after self
  takes _ := true
  remove self userId := (removeUsers userId).after self
  key _ userId := userId
  finds _ _ := True
  Ok self := self.locked = false
  ok_start := rfl
  entries_start := rfl
  lookup_entries userId hl := ⟨_, getUserInfo_after userId hl, hl, rfl⟩
  lookup_self hl h := by rw [getUserInfo_after _ hl, StdMap.subscript_of_mem h]
  add_keys hl h := keys_addUserInfo hl h
  remove_keys hl _ h := keys_removeUsers hl h
  remove_missed _ h := absurd trivial h

end RoomServer.UserInfoList

/-! ## The five containers -/

inductive Container
  | gateRooms
  | commands
  | users (server : Common.Server) (countWorker : Int) (maxUser : Nat)
  | rooms
  | roomUsers (first maxUserCount : Nat)

namespace Container

def table : Container → Table
  | gateRooms => GateServer.RoomManager.table
  | commands => Common.CommandChain.table
  | users server countWorker maxUser => Common.ServerListenner.table server countWorker maxUser
  | rooms => RoomServer.Server.roomTable
  | roomUsers first maxUserCount => RoomServer.UserInfoList.table first maxUserCount

/-- In every run of calls, there are never more entries than keys that were added and not yet removed,
and no lookup changes the container, exactly if every lookup is of a key that is there, and every
`ReleaseUserInfo` of a user that is listed. -/
theorem lookups_iff (c : Container) (calls : List c.table.Call) :
    (∀ x ∈ runSteps c.table.step c.table.begin calls, c.table.Right x.1 x.2) ↔
      ∀ x ∈ runSteps c.table.step c.table.begin calls, c.table.Present x.1 x.2 :=
  c.table.right_iff calls

/-- `GetChatRoom(7)` of the gate that was just started. -/
theorem not_lookups_gateRooms : ¬∀ x ∈ runSteps gateRooms.table.step gateRooms.table.begin [.lookup 7],
    gateRooms.table.Right x.1 x.2 := by
  rw [runSteps_last, List.forall_mem_singleton]
  exact gateRooms.table.not_right_lookup 7

/-- Whoever chooses the keys makes as many entries as he likes, with none that was added. -/
theorem size_of_lookups (c : Container) {ks : List Int} (h : ks.Nodup) :
    ∃ s, (ks.map Table.Call.lookup).foldlM c.table.step c.table.begin = some (s, ∅) ∧
      (c.table.entries s).size = ks.length := by
  obtain ⟨s, h1, h2⟩ := Table.foldlM_lookup ks c.table.begin_tight.ok
  rw [c.table.begin_tight.keys] at h2
  refine ⟨s, h1, ?_⟩
  rw [← StdMap.card_keys, h2, Table.begin, Finset.empty_union, List.toFinset_card_of_nodup h]

end Container

end Miku
