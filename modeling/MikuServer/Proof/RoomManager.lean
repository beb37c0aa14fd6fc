import MikuServer.Framework.Loop
import MikuServer.Proof.RoomServer

/-!
# `RoomManager`

`recycled_iff` says which runs of calls, in a server that is just started, do
what they are for (`Right`): those in which no room is ever added, and no id is
deleted that has an entry.
-/

namespace Miku.RoomServer.Server

open Act

/-- A call of `RoomManager`, or what is done with a room in between. -/
inductive Call
  | getNewRoom
  | addRoom (roomId : Int) (chatRoom : RoomPtr)
  | delRoom (roomId : Int)
  | getRoom (roomId : Int)
  | useRoom (r : RoomPtr) (room : ChatRoom)

variable {s t : Server} {r : RoomPtr} {roomId : Int}

/-- The server after `x`, if it returns. -/
def returned {α : Type} (x : Act Server α) (s : Server) : Option Server :=
  match x s with
  | .done _ t => some t
  | _ => none

def call (s : Server) : Call → Option Server
  | .getNewRoom => returned getNewRoom s
  | .addRoom roomId chatRoom => returned (addRoom roomId (some chatRoom)) s
  | .delRoom roomId => returned (delRoom roomId) s
  | .getRoom roomId => returned (getRoom roomId) s
  | .useRoom r room => some (s.withRoom r room)

/-- `unused_room_list_` has no entry that is `NULL`, and no room that is active. -/
structure Containers (s : Server) : Prop where
  noNull : none ∉ s.roomManager.unusedRoomList
  apart {roomId : Int} {r : RoomPtr} : s.room roomId = some r → some r ∉ s.roomManager.unusedRoomList

/-- A room that can be used, with no users. -/
structure Vacant (room : ChatRoom) : Prop where
  online (u : Int) : room.userList.userInfoList.ptr u = none
  pending (u : Int) : room.preUserList.userInfoList.ptr u = none
  free : room.userList.locked = false ∧ room.preUserList.locked = false

/-- `x` returns, in a state of `Q` that is in order. -/
def Returns {α : Type} (x : Act Server α) (Q : α → Server → Prop) (s : Server) : Prop :=
  wp x (fun a t => Q a t ∧ Containers t) (fun _ => False) False s

/-- The call returns, and does what it is for. -/
def Right (s : Server) : Call → Prop
  | .getNewRoom => Returns getNewRoom (fun r t => Vacant (t.chatRooms r)) s
  | .addRoom roomId chatRoom =>
    Returns (addRoom roomId (some chatRoom)) (fun added t => added = some true ↔ t.room roomId = some chatRoom) s
  | .delRoom roomId =>
    Returns (delRoom roomId)
      (fun _ t => ∀ r, s.room roomId = some r → t.room roomId = none ∧ some r ∈ t.roomManager.unusedRoomList) s
  | .getRoom roomId => Returns (getRoom roomId) (fun _ _ => True) s
  | .useRoom _ _ => True

/-- A room is added only under the id it is active under already, and an id is deleted only
if it has no entry. -/
def CallAllowed (s : Server) : Call → Prop
  | .addRoom roomId chatRoom => s.room roomId = some chatRoom
  | .delRoom roomId => s.roomManager.roomList.find? roomId = none
  | _ => True

theorem Returns.isSome {α : Type} {x : Act Server α} {Q : α → Server → Prop} (h : Returns x Q s) :
    (returned x s).isSome := by
  unfold Returns wp at h
  unfold returned
  split at h <;> simp_all

theorem containers_of_nil (h : s.roomManager.unusedRoomList = []) : Containers s where
  noNull := by simp [h]
  apart _ := by simp [h]

theorem vacant_new : Vacant .new where
  online u := by simp [ChatRoom.new, UserInfoList.initUserList]
  pending u := by simp [ChatRoom.new, UserInfoList.initUserList]
  free := ⟨rfl, rfl⟩

/-! ## Each call -/

theorem right_getNewRoom (hu : s.roomManager.unusedRoomList = []) : Right s .getNewRoom := by
  show Returns getNewRoom _ s
  rw [Returns, getNewRoom, wp_bind, wp_read, hu]
  dsimp only
  rw [makeRoom, wp_ofFun]
  refine ⟨?_, containers_of_nil hu⟩
  dsimp only
  rw [Function.update_self]
  exact vacant_new

/-- The call says that the room was added only where another was not replaced, or none was added. -/
theorem right_addRoom (hu : s.roomManager.unusedRoomList = []) :
    Right s (.addRoom roomId r) ↔ s.room roomId = some r := by
  show Returns (addRoom roomId (some r)) _ s ↔ _
  rw [Returns, addRoom, wp_ofFun]
  dsimp only
  rcases hr : s.roomManager.roomList.ptr roomId with _ | q
  · have hroom : s.room roomId = none := hr
    rw [hroom]
    refine iff_of_false (fun h => ?_) nofun
    have hadded : ((s.roomManager.roomList.subscript roomId none).assign roomId (some r)).ptr roomId = some r := by
      rw [StdMap.ptr_assign, if_pos rfl]
    have := h.1.mpr hadded
    cases this
  · have hroom : s.room roomId = some q := hr
    have hfound : (s.roomManager.roomList.subscript roomId none).ptr roomId = some q :=
      (StdMap.ptr_subscript ..).trans hr
    rw [hroom]
    refine ⟨fun h => ?_, fun h => ⟨⟨fun _ => ?_, fun _ => rfl⟩, containers_of_nil hu⟩⟩
    · exact hfound.symm.trans (h.1.mp rfl)
    · exact hfound.trans h

theorem right_delRoom (hu : s.roomManager.unusedRoomList = []) :
    Right s (.delRoom roomId) ↔ s.roomManager.roomList.find? roomId = none := by
  show Returns (delRoom roomId) _ s ↔ _
  rw [Returns, delRoom, wp_ofFun]
  dsimp only
  rcases hf : s.roomManager.roomList.find? roomId with _ | _ | q
  · refine iff_of_true ⟨fun r hr => ?_, containers_of_nil hu⟩ rfl
    rw [room, StdMap.ptr_eq_some, hf] at hr
    cases hr
  · -- `NULL` goes into the list.
    refine iff_of_false (fun h => h.2.noNull ?_) (Option.some_ne_none _)
    simp
  · -- The room goes nowhere.
    refine iff_of_false (fun h => ?_) (Option.some_ne_none _)
    have hmem := (h.1 q (StdMap.ptr_eq_some.mpr hf)).2
    simp [hu] at hmem

theorem right_getRoom (hu : s.roomManager.unusedRoomList = []) : Right s (.getRoom roomId) := by
  show Returns (getRoom roomId) _ s
  rw [Returns, wp_getRoom]
  exact ⟨trivial, containers_of_nil hu⟩

/-- While nothing is unused. -/
theorem right_iff_allowed (hu : s.roomManager.unusedRoomList = []) (x : Call) : Right s x ↔ CallAllowed s x := by
  cases x with
  | getNewRoom => exact iff_of_true (right_getNewRoom hu) trivial
  | addRoom roomId r => exact right_addRoom hu
  | delRoom roomId => exact right_delRoom hu
  | getRoom roomId => exact iff_of_true (right_getRoom hu) trivial
  | useRoom r room => exact Iff.rfl

/-- An allowed call leaves nothing unused. -/
theorem call_unused {x : Call} (hu : s.roomManager.unusedRoomList = []) (hx : CallAllowed s x)
    (h : call s x = some t) : t.roomManager.unusedRoomList = [] := by
  cases x with
  | getNewRoom =>
    simp only [call, returned, getNewRoom, read_bind, hu, makeRoom, ofFun] at h
    cases h
    exact hu
  | addRoom roomId r =>
    simp only [call, returned, addRoom, ofFun] at h
    cases h
    split <;> exact hu
  | delRoom roomId =>
    have hf : s.roomManager.roomList.find? roomId = none := hx
    simp only [call, returned, delRoom, ofFun, hf] at h
    cases h
    exact hu
  | getRoom roomId =>
    cases h
    exact hu
  | useRoom r room =>
    cases h
    exact hu

/-! ## Runs -/

/-- In a run every call does what it is for exactly if every call is allowed. -/
theorem recycled_iff (xs : List Call) :
    (∀ x ∈ runSteps call .new xs, Right x.1 x.2) ↔ ∀ x ∈ runSteps call .new xs, CallAllowed x.1 x.2 := by
  have hnew : Server.new.roomManager.unusedRoomList = [] := rfl
  constructor
  · exact runSteps_inv (fun s x t hu hx h => call_unused hu ((right_iff_allowed hu x).mp hx) h)
      (fun s x hu => (right_iff_allowed hu x).mp) hnew
  · exact runSteps_inv (fun s x t hu hx h => call_unused hu hx h) (fun s x hu => (right_iff_allowed hu x).mpr) hnew

/-- A room is made and added; it is deleted; and an id is looked up and deleted, after which a new room is
asked for. -/
theorem not_right_calls :
    (∃ s, [.getNewRoom].foldlM call .new = some s ∧ ¬ Right s (.addRoom 2 0)) ∧
    (∃ s, [.getNewRoom, .addRoom 2 0].foldlM call .new = some s ∧ ¬ Right s (.delRoom 2)) ∧
    ∃ s, [.getRoom 2, .delRoom 2].foldlM call .new = some s ∧ ¬ Right s .getNewRoom := by
  have hadd : ∃ s, s ∈ [Call.getNewRoom].foldlM call .new ∧ s.roomManager.unusedRoomList = [] ∧ s.room 2 = none := by
    decide +kernel
  have hdel : ∃ s, s ∈ [Call.getNewRoom, .addRoom 2 0].foldlM call .new ∧ s.roomManager.unusedRoomList = [] ∧
      s.roomManager.roomList.find? 2 = some (some 0) := by
    decide +kernel
  have hnull : ∃ s, s ∈ [Call.getRoom 2, .delRoom 2].foldlM call .new ∧ (returned getNewRoom s).isNone := by
    decide +kernel
  obtain ⟨s, hs, hu, hr⟩ := hadd
  obtain ⟨s', hs', hu', hf⟩ := hdel
  obtain ⟨s'', hs'', hnone⟩ := hnull
  refine ⟨⟨s, hs, fun h => ?_⟩, ⟨s', hs', fun h => ?_⟩, ⟨s'', hs'', fun h => ?_⟩⟩
  · rw [right_addRoom hu, hr] at h
    cases h
  · rw [right_delRoom hu', hf] at h
    cases h
  · have hsome := Returns.isSome h
    rw [Option.isNone_iff_eq_none.mp hnone] at hsome
    cases hsome

end Miku.RoomServer.Server
