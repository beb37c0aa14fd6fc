import MikuServer.Proof.RoomInvariant

/-!
# `SendDataToRoomAllUser`

In every reachable state the mutex of a room's users is held only if there is a
`NULL` entry among them (`lock_invariant`). From this, `broadcast_iff` says when
a broadcast reaches every user once and gives the mutex back: exactly when there
is no such entry, and the room's id is not 0.
-/

namespace Miku.RoomServer.Server

open Act UserInfoList ChatRoom

variable {s : Server} {r : RoomPtr} {pack : Pack} {msgId : EnumMsgID} {roomId : Int}

/-- A loop that is not over has stopped at a `NULL` entry. -/
def StoppedAtNull (_ : RoomPtr) (room : ChatRoom) : Prop :=
  room.userList.locked = true → none ∈ room.userList.userInfoList.values

theorem lock_invariant : CommandInvariant StoppedAtNull where
  ids _ _ h := h
  took h _ _ := h
  store _ _ h := h
  lookedUp u _ hl h := by simp [hl] at h
  walked h hl hw := by
    rw [walked_userInfoList]
    exact (walked_locked hl).mp hw
  pre _ h := h
  added _ _ _ hl h := by simp [hl] at h
  released _ _ _ hl h := by simp [released, hl] at h
  channels _ _ h := h

/-- Every user of the room `r` whose gate is registered is sent the message once, in the
order of the user ids, and the mutex is not held afterwards. -/
def BroadcastRight (s : Server) (r : RoomPtr) (pack : Pack) (msgId : EnumMsgID) (roomId : Int) : Prop :=
  ∃ b s', sendDataToRoomAllUser pack msgId roomId s = .done b s' ∧
    s'.sent = s.sent ++ (s.chatRooms r).userList.userInfoList.ptrs.filterMap (s.toUser r pack msgId) ∧
    (s'.chatRooms r).userList.locked = false

/-- No user has an entry that is `NULL`; or, for the id 0, with which nothing is sent,
nobody is on a registered gate. -/
def Broadcastable (s : Server) (r : RoomPtr) (roomId : Int) : Prop :=
  if roomId = 0 then (s.chatRooms r).userList.locked = false ∧
    ∀ u p, (s.chatRooms r).userList.userInfoList.ptr u = some p →
      s.gate ((s.chatRooms r).records p).gsHashkeyUserOn = none
  else ∀ u, (s.chatRooms r).userList.userInfoList.find? u ≠ some none

theorem StoppedAtNull.broadcastRight_iff (hinv : StoppedAtNull r (s.chatRooms r)) (hr : s.room roomId = some r)
    (pack : Pack) (msgId : EnumMsgID) : BroadcastRight s r pack msgId roomId ↔ Broadcastable s r roomId := by
  rw [BroadcastRight, ← wp_total, wp_broadcast, Broadcastable]
  split <;> rename_i h0
  · have hnil : (s.chatRooms r).userList.userInfoList.ptrs.filterMap (s.toUser r pack msgId) = [] ↔
        ∀ u p, (s.chatRooms r).userList.userInfoList.ptr u = some p →
          s.gate ((s.chatRooms r).records p).gsHashkeyUserOn = none := by
      simp only [List.filterMap_eq_nil_iff, StdMap.mem_ptrs, toUser, Option.map_eq_none_iff]
      refine ⟨fun h u p hp => h p ⟨u, hp⟩, ?_⟩
      rintro h p ⟨u, hp⟩
      exact h u p hp
    rw [← hnil, List.self_eq_append_right, and_comm]
  have hnull : (∀ u, (s.chatRooms r).userList.userInfoList.find? u ≠ some none) ↔
      ¬ none ∈ (s.chatRooms r).userList.userInfoList.values := by
    rw [StdMap.mem_values, not_exists]
  rw [hr, hnull]
  dsimp only
  split <;> rename_i hl
  · exact iff_of_false id fun h => h (hinv hl)
  have hlist : ((s.broadcasted r pack msgId).chatRooms r).userList = (s.chatRooms r).userList.walked := by
    rw [broadcasted_chatRooms, withList_list]
  have hw := walked_locked (Bool.eq_false_of_not_eq_true hl)
  rw [broadcasted_sent, hlist]
  by_cases hn : none ∈ (s.chatRooms r).userList.userInfoList.values
  · simp [hw.mpr hn, hn]
  · have hf : (s.chatRooms r).userList.walked.locked = false :=
      Bool.eq_false_of_not_eq_true fun h => hn (hw.mp h)
    rw [reached_of_full hn, hf]
    simp [hn]

theorem stoppedAtNull_of_reachable (hs : Reachable s) (r : RoomPtr) : StoppedAtNull r (s.chatRooms r) :=
  (lock_invariant.reachable (fun _ h => by cases h) hs).each r

theorem broadcast_iff (hs : Reachable s) (hr : s.room roomId = some r) (pack : Pack) (msgId : EnumMsgID) :
    BroadcastRight s r pack msgId roomId ↔ Broadcastable s r roomId :=
  (stoppedAtNull_of_reachable hs r).broadcastRight_iff hr pack msgId

/-- After two logins, over two gates, the room is broadcast to. -/
theorem broadcast_iff_twoLogins : ∃ s, Reachable s ∧ s.room 2 = some 0 ∧
    (s.chatRooms 0).userList.userInfoList.ptr 1 = some 1 ∧ (s.chatRooms 0).userList.userInfoList.ptr 3 = some 3 ∧
    BroadcastRight s 0 (.userExitRoomID ⟨.userExitRoomID, 4, 2⟩) .userExitRoomID 2 := by
  have hrun : ∃ s, s ∈ run .new (firstLogin ++ [.connect 6 60, requestOf 6 9 3 2, replyOf 3 2 1]) ∧
      s.room 2 = some 0 ∧ (s.chatRooms 0).userList.userInfoList.ptr 1 = some 1 ∧
      (s.chatRooms 0).userList.userInfoList.ptr 3 = some 3 ∧ ¬ none ∈ (s.chatRooms 0).userList.userInfoList.values := by
    decide +kernel
  obtain ⟨s, hs, hr, hp, hq, hn⟩ := hrun
  refine ⟨s, ⟨_, hs⟩, hr, hp, hq, (broadcast_iff ⟨_, hs⟩ hr _ _).mpr ?_⟩
  exact fun u hfind => hn (StdMap.mem_values.mpr ⟨u, hfind⟩)

/-- A message of a user that is not in the room leaves an entry that is `NULL`, at which
the next broadcast stops. -/
theorem not_broadcastRight_lookedUp : ∃ s, Reachable s ∧ s.room 2 = some 0 ∧
    ((s.chatRooms 0).userList.userInfoList.ptr 1).isSome ∧
    ¬ BroadcastRight s 0 (.userExitRoomID ⟨.userExitRoomID, 3, 2⟩) .userExitRoomID 2 := by
  have hrun : ∃ s, s ∈ run .new (firstLogin ++ [exitOf 0 2]) ∧
      s.room 2 = some 0 ∧ ((s.chatRooms 0).userList.userInfoList.ptr 1).isSome ∧
      (s.chatRooms 0).userList.userInfoList.find? 0 = some none := by
    decide +kernel
  obtain ⟨s, hs, hr, hu, hn⟩ := hrun
  refine ⟨s, ⟨_, hs⟩, hr, hu, fun h => ?_⟩
  have hb := ((stoppedAtNull_of_reachable ⟨_, hs⟩ 0).broadcastRight_iff hr _ _).mp h
  exact hb 0 hn

end Miku.RoomServer.Server
