import MikuServer.Impl.ChatRoom

/-!
# What a room's functions do

A weakest precondition for every function of `UserInfoList` and of `ChatRoom`.
Where the mutex of a list is held a function on it blocks, and `NewUserInfo`
faults on an empty list of unused records.
-/

namespace Miku.RoomServer

open Act

variable {α : Type} {B : UserInfoList → Prop} {F : Prop} {l : UserInfoList} {u : Int} {p : Ptr}

namespace UserInfoList

@[simp] theorem wp_autoLock {f : UserInfoList → Outcome UserInfoList α} {Q : α → UserInfoList → Prop} :
    wp (autoLock f) Q B F l ↔ if l.locked then B l else wp f Q B F l := by
  unfold wp autoLock
  cases l.locked <;> rfl

@[simp] theorem wp_getUnusedUser {Q : Int × Option Ptr → UserInfoList → Prop} :
    wp getUnusedUser Q B F l ↔ if l.locked then B l else match l.unusedUserInfoList with
      | [] => F
      | p :: rest => Q (1, some p) { l with unusedUserInfoList := rest } := by
  rw [getUnusedUser, wp_autoLock]
  rcases h : l.unusedUserInfoList with _ | ⟨p, rest⟩ <;> simp [wp, h]

@[simp] theorem wp_getUnusedUserOrNew (made : Ptr) {Q : Int × Option Ptr → UserInfoList → Prop} :
    wp (getUnusedUserOrNew made) Q B F l ↔ if l.locked then B l else match l.unusedUserInfoList with
      | [] => Q (0, some made) { l with unusedUserInfoList := [] }
      | p :: rest => Q (1, some p) { l with unusedUserInfoList := rest } := by
  rw [getUnusedUserOrNew, wp_autoLock]
  rcases l with ⟨locked, _ | ⟨p, rest⟩, m, i⟩ <;> rfl

@[simp] theorem wp_pushUserInUnusedList {Q : Bool → UserInfoList → Prop} :
    wp (pushUserInUnusedList p) Q B F l ↔
      if l.locked then B l else Q true { l with unusedUserInfoList := l.unusedUserInfoList ++ [p] } :=
  wp_autoLock

/-- The map after `AddUserInfo`. -/
def added (m : StdMap (Option Ptr)) (u : Int) (p : Ptr) : StdMap (Option Ptr) :=
  if (m.ptr u).isSome then m else m.assign u (some p)

theorem find?_added (m : StdMap (Option Ptr)) (u : Int) (p : Ptr) (v : Int) :
    (added m u p).find? v = if u = v then some (some ((m.ptr u).getD p)) else m.find? v := by
  unfold added
  rcases h : m.ptr u with _ | q
  · simp [StdMap.find?_assign]
  · by_cases hv : u = v
    · simp [← hv, StdMap.ptr_eq_some.mp h]
    · simp [hv]

theorem ptr_added (m : StdMap (Option Ptr)) (u : Int) (p : Ptr) (v : Int) :
    (added m u p).ptr v = if u = v then some ((m.ptr u).getD p) else m.ptr v := by
  rw [StdMap.ptr, find?_added]
  split <;> rfl

theorem values_added_ne_nil (m : StdMap (Option Ptr)) (u : Int) (q : Ptr) : (added m u q).values ≠ [] := fun h => by
  have hu := StdMap.values_eq_nil.mp h u
  rw [find?_added, if_pos rfl] at hu
  cases hu

theorem none_mem_added {m : StdMap (Option Ptr)} {u : Int} {q : Ptr} :
    none ∈ (added m u q).values ↔ ∃ v ≠ u, m.find? v = some none := by
  rw [StdMap.mem_values]
  refine exists_congr fun v => ?_
  rw [find?_added]
  by_cases h : u = v <;> simp [h, eq_comm]

@[simp] theorem wp_addUserInfo {Q : Bool → UserInfoList → Prop} :
    wp (addUserInfo u (some p)) Q B F l ↔
      if l.locked then B l else Q (l.userInfoList.ptr u).isNone { l with userInfoList := added l.userInfoList u p } := by
  rw [addUserInfo, wp_autoLock, added]
  rcases h : l.userInfoList.ptr u with _ | q
  · simp [wp, h, StdMap.assign_subscript]
  · simp [wp, h, StdMap.subscript_of_ptr h]

@[simp] theorem wp_removeUser {Q : Unit → UserInfoList → Prop} :
    wp (removeUser u) Q B F l ↔
      if l.locked then B l else Q () { l with userInfoList := l.userInfoList.erase u } :=
  wp_autoLock

@[simp] theorem wp_getUserInfo {Q : Option Ptr → UserInfoList → Prop} :
    wp (getUserInfo u) Q B F l ↔ if l.locked then B l else
      Q (l.userInfoList.ptr u) { l with userInfoList := l.userInfoList.subscript u none } :=
  wp_autoLock

@[simp] theorem wp_getFirstUser {Q : Option Ptr → UserInfoList → Prop} :
    wp getFirstUser Q B F l ↔ if l.locked then B l else match l.userInfoList.values with
      | [] => Q none l
      | v :: _ => Q v { l with locked := true, listIter := 0 } := by
  rw [getFirstUser, wp_autoLock]
  rcases h : l.userInfoList.values with _ | ⟨v, vs⟩ <;> simp [wp, h]

end UserInfoList

namespace ChatRoom

variable {B : ChatRoom → Prop} {room : ChatRoom}

@[simp] theorem wp_onUserList {x : Act UserInfoList α} {Q : α → ChatRoom → Prop} :
    wp (onUserList x) Q B F room ↔
      wp x (fun a list => Q a { room with userList := list }) (fun list => B { room with userList := list }) F
        room.userList :=
  wp_zoom

@[simp] theorem wp_onPreUserList {x : Act UserInfoList α} {Q : α → ChatRoom → Prop} :
    wp (onPreUserList x) Q B F room ↔
      wp x (fun a list => Q a { room with preUserList := list }) (fun list => B { room with preUserList := list }) F
        room.preUserList :=
  wp_zoom

/-- The room after `NewUserInfo` has taken `p`, and left `rest`. -/
def took (room : ChatRoom) (p : Ptr) (rest : List Ptr) : ChatRoom :=
  { room with userList := { room.userList with unusedUserInfoList := rest } }.store p .clear

/-- `new` hands out the record that `next` finds in the list of unused records. -/
def HandsOut (new : Act ChatRoom (Option Ptr)) (next : List Ptr → Option (Ptr × List Ptr)) : Prop :=
  ∀ {B : ChatRoom → Prop} {F : Prop} {Q : Option Ptr → ChatRoom → Prop} {room : ChatRoom}, wp new Q B F room ↔
    if room.userList.locked then B room else match next room.userList.unusedUserInfoList with
      | none => F
      | some (p, rest) => Q (some p) (room.took p rest)

/-- The front of the list, if there is one. -/
def front : List Ptr → Option (Ptr × List Ptr)
  | [] => none
  | p :: rest => some (p, rest)

/-- The front of the list, or a new record. -/
def frontOr (made : Ptr) : List Ptr → Option (Ptr × List Ptr)
  | [] => some (made, [])
  | p :: rest => some (p, rest)

theorem handsOut_newUserInfo : HandsOut newUserInfo front := fun {B F Q room} => by
  simp only [newUserInfo, getUnusedUser, getUnusedUserOf, wp_bind, wp_onUserList, UserInfoList.wp_getUnusedUser]
  split
  · rfl
  · cases room.userList.unusedUserInfoList <;> rfl

theorem handsOut_newUserInfoOrNew (made : Ptr) : HandsOut (newUserInfoOrNew made) (frontOr made) :=
  fun {B F Q room} => by
    simp only [newUserInfoOrNew, getUnusedUserOf, wp_bind, wp_onUserList, UserInfoList.wp_getUnusedUserOrNew]
    split
    · rfl
    · cases room.userList.unusedUserInfoList <;> rfl

@[simp] theorem wp_newUserInfo {Q : Option Ptr → ChatRoom → Prop} :
    wp newUserInfo Q B F room ↔ if room.userList.locked then B room else match room.userList.unusedUserInfoList with
      | [] => F
      | p :: rest => Q (some p) (room.took p rest) := by
  rw [handsOut_newUserInfo]
  cases room.userList.unusedUserInfoList <;> rfl

/-- A list after `GetUserInfo(u)`, where it finds `p`, `RemoveUser(u)`, and
`PushUserInUnusedList(p)`. -/
def released (l : UserInfoList) (u : Int) (p : Ptr) : UserInfoList :=
  { l with userInfoList := l.userInfoList.erase u, unusedUserInfoList := l.unusedUserInfoList ++ [p] }

/-- A list after `GetUserInfo(u)`. -/
def lookedUp (l : UserInfoList) (u : Int) : UserInfoList :=
  { l with userInfoList := l.userInfoList.subscript u none }

@[simp] theorem wp_getUserInfo {Q : Option Ptr → ChatRoom → Prop} :
    wp (getUserInfo u) Q B F room ↔ if room.userList.locked then B room else
      Q (room.userList.userInfoList.ptr u) { room with userList := lookedUp room.userList u } :=
  wp_onUserList.trans UserInfoList.wp_getUserInfo

@[simp] theorem wp_getPreUserInfo {Q : Option Ptr → ChatRoom → Prop} :
    wp (getPreUserInfo u) Q B F room ↔ if room.preUserList.locked then B room else
      Q (room.preUserList.userInfoList.ptr u) { room with preUserList := lookedUp room.preUserList u } :=
  wp_onPreUserList.trans UserInfoList.wp_getUserInfo

@[simp] theorem wp_removeUser {Q : Unit → ChatRoom → Prop} :
    wp (removeUser u) Q B F room ↔ if room.userList.locked then B room else
      match room.userList.userInfoList.ptr u with
      | none => Q () { room with userList := lookedUp room.userList u }
      | some p => Q () { room with userList := released room.userList u p } := by
  simp only [removeUser, wp_bind, wp_onUserList, UserInfoList.wp_getUserInfo]
  split
  · rfl
  · rename_i h
    rcases hp : room.userList.userInfoList.ptr u with _ | p
    · rfl
    · simp [h, StdMap.subscript_of_ptr hp, released]

@[simp] theorem wp_removePreUser {Q : Unit → ChatRoom → Prop} :
    wp (removePreUser u) Q B F room ↔ if room.preUserList.locked then B room else
      match room.preUserList.userInfoList.ptr u with
      | none => Q () { room with preUserList := lookedUp room.preUserList u }
      | some p => Q () { room with preUserList := released room.preUserList u p } := by
  simp only [removePreUser, wp_bind, wp_onPreUserList, UserInfoList.wp_getUserInfo]
  split
  · rfl
  · rename_i h
    rcases hp : room.preUserList.userInfoList.ptr u with _ | p
    · rfl
    · simp [h, StdMap.subscript_of_ptr hp, released]

@[simp] theorem wp_addUser {Q : Bool → ChatRoom → Prop} :
    wp (addUser u (some p)) Q B F room ↔ if room.userList.locked then B room else
      Q (room.userList.userInfoList.ptr u).isNone { room with userList :=
        { room.userList with userInfoList := UserInfoList.added room.userList.userInfoList u p } } :=
  wp_onUserList.trans UserInfoList.wp_addUserInfo

@[simp] theorem wp_addPreUser {Q : Bool → ChatRoom → Prop} :
    wp (addPreUser u (some p)) Q B F room ↔ if room.preUserList.locked then B room else
      Q (room.preUserList.userInfoList.ptr u).isNone { room with preUserList :=
        { room.preUserList with userInfoList := UserInfoList.added room.preUserList.userInfoList u p } } :=
  wp_onPreUserList.trans UserInfoList.wp_addUserInfo

@[simp] theorem lookedUp_locked (l : UserInfoList) (u : Int) : (lookedUp l u).locked = l.locked := rfl

@[simp] theorem lookedUp_ptr (l : UserInfoList) (u v : Int) :
    (lookedUp l u).userInfoList.ptr v = l.userInfoList.ptr v :=
  StdMap.ptr_subscript ..

end ChatRoom

end Miku.RoomServer
