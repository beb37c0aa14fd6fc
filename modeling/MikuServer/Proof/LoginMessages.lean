import MikuServer.Proof.UserRecords

/-!
# What a login reply sends

In a room without `NULL` entries whose mutex is free, a successful reply to a user
whose gate is registered is handled to the end: the gate is sent the reply, the
users of the room the new user (`broadcast_sends`), and the new user the users of
the room (`sendUserList_sends`) and the microphone holders (`answerLogin_sends`).
-/

namespace Miku.RoomServer

open Act UserInfoList ChatRoom

theorem walked_of_full {l : UserInfoList} (hn : ¬ none ∈ l.userInfoList.values) (hv : l.userInfoList.values ≠ []) :
    l.walked = { l with locked := false, listIter := l.userInfoList.values.length } := by
  rw [walked, if_neg hv, if_neg hn]

theorem walked_walked {l : UserInfoList} (hn : ¬ none ∈ l.userInfoList.values) (hv : l.userInfoList.values ≠ []) :
    l.walked.walked = l.walked := by
  have hw := walked_of_full hn hv
  rw [walked_of_full (l := l.walked), hw]
  · rw [hw]
    exact hn
  · rw [hw]
    exact hv

namespace Server

variable {s t : Server} {r : RoomPtr} {rs : StruUserLoginRS} {p cur : Ptr} {gs : BaseUserInfo} {l l' : UserInfoList}
  {ms ms' : List Sent} {roomId : Int}

/-- The same rooms and gates. -/
structure SameTables (s t : Server) : Prop where
  unused : t.roomManager.unusedRoomList = s.roomManager.unusedRoomList
  room (j : Int) : t.room j = s.room j
  gate (h : Int) : t.gate h = s.gate h
  nextRoom : t.nextRoom = s.nextRoom

/-- `ms` is sent from `s` to `t`, and the users of `r` have the list `l` then. -/
structure Sends (s t : Server) (r : RoomPtr) (l : UserInfoList) (ms : List Sent) : Prop extends SameTables s t where
  rooms : t.chatRooms = (s.withList r l).chatRooms
  sent : t.sent = s.sent ++ ms

theorem Sends.list (h : Sends s t r l ms) : (t.chatRooms r).userList = l := by
  rw [h.rooms, withList_list]

theorem Sends.records (h : Sends s t r l ms) : (t.chatRooms r).records = (s.chatRooms r).records := by
  rw [h.rooms, withList_records]

theorem Sends.trans {t' : Server} (h : Sends s t r l ms) (h' : Sends t t' r l' ms') : Sends s t' r l' (ms ++ ms') where
  unused := h'.unused.trans h.unused
  room j := (h'.room j).trans (h.room j)
  gate j := (h'.gate j).trans (h.gate j)
  nextRoom := h'.nextRoom.trans h.nextRoom
  rooms := by
    rw [h'.rooms]
    simp [withList, withRoom, h.rooms]
  sent := by rw [h'.sent, h.sent, List.append_assoc]

theorem Sends.toCurrent (h : Sends s t r l ms) (cur : Ptr) (pack : Pack) (msgId : EnumMsgID) :
    t.toCurrent r gs cur pack msgId = s.toCurrent r gs cur pack msgId := by
  rw [Server.toCurrent, h.records]
  rfl

theorem Sends.toUser (h : Sends s t r l ms) (pack : Pack) (msgId : EnumMsgID) :
    t.toUser r pack msgId = s.toUser r pack msgId := by
  funext p
  rw [Server.toUser, h.records, h.gate]
  rfl

theorem replied_sends (hg : s.gate ((s.chatRooms r).records p).gsHashkeyUserOn = some gs) :
    Sends s (s.replied r rs p) r (s.chatRooms r).userList
      [.toGS (.userLoginRS rs) rs.msgId gs.userSock ((s.chatRooms r).records p).userHashKey] where
  unused := rfl
  room _ := rfl
  gate h := foundGate_gate ..
  nextRoom := rfl
  rooms := by
    rw [withList_self]
    rfl
  sent := by
    rw [replied, hg]
    rfl

/-- What the users of the room are sent, with the id `roomId`. -/
def broadcastSent (s : Server) (r : RoomPtr) (pack : Pack) (msgId : EnumMsgID) (roomId : Int) : List Sent :=
  if roomId = 0 then []
  else (s.chatRooms r).userList.userInfoList.ptrs.filterMap (s.toUser r pack msgId)

theorem broadcast_sends (hr : s.room roomId = some r) (hl : (s.chatRooms r).userList.locked = false)
    (hn : ¬ none ∈ (s.chatRooms r).userList.userInfoList.values)
    (hv : (s.chatRooms r).userList.userInfoList.values ≠ []) (pack : Pack) (msgId : EnumMsgID) :
    wp (sendDataToRoomAllUser pack msgId roomId)
      (fun _ t => ∃ l, l.locked = false ∧ l.userInfoList = (s.chatRooms r).userList.userInfoList ∧
        l.walked = (s.chatRooms r).userList.walked ∧ Sends s t r l (s.broadcastSent r pack msgId roomId))
      (fun _ => False) False s := by
  rw [wp_broadcast, hr, broadcastSent]
  split
  · refine ⟨_, hl, rfl, rfl, ⟨rfl, fun _ => rfl, fun _ => rfl, rfl⟩, ?_, ?_⟩
    · rw [withList_self]
    · rw [List.append_nil]
  dsimp only
  rw [hl, if_neg Bool.false_ne_true]
  have hf := foldl_sentTo r pack msgId (s.chatRooms r).userList.reached s
  refine ⟨(s.chatRooms r).userList.walked, ?_, walked_userInfoList _, walked_walked hn hv,
    ⟨congrArg RoomManager.unusedRoomList hf.2.1, fun _ => broadcasted_room .., fun _ => broadcasted_gate .., hf.2.2.1⟩,
    broadcasted_chatRooms .., ?_⟩
  · rw [walked_of_full hn hv]
  · rw [broadcasted_sent, reached_of_full hn]

/-- The messages with the users of the room, to `cur`. -/
def listsSent (s : Server) (r : RoomPtr) (rs : StruUserLoginRS) (gs : BaseUserInfo) (cur : Ptr) : List Sent :=
  (userLists ⟨.userInfoListID, rs.userId, rs.roomId, []⟩ 0
    ((s.chatRooms r).userList.userInfoList.ptrs.map (s.chatRooms r).records)).map
      fun m => s.toCurrent r gs cur (.userInfoListID m) .userInfoListID

theorem Sends.listsSent (h : Sends s t r l ms) (hmap : l.userInfoList = (s.chatRooms r).userList.userInfoList) :
    t.listsSent r rs gs cur = s.listsSent r rs gs cur := by
  rw [Server.listsSent, h.list, hmap, h.records, Server.listsSent]
  exact List.map_congr_left fun m _ => h.toCurrent ..

theorem sendUserList_sends (hl : (s.chatRooms r).userList.locked = false)
    (hn : ¬ none ∈ (s.chatRooms r).userList.userInfoList.values)
    (hv : (s.chatRooms r).userList.userInfoList.values ≠ []) :
    wp (sendUserList r rs (some gs) cur) (fun _ t =>
      Sends s t r (s.chatRooms r).userList.walked (s.listsSent r rs gs cur)) (fun _ => False) False s := by
  obtain ⟨v, vs, hvs⟩ := List.exists_cons_of_ne_nil hv
  rcases v with _ | v
  · exact absurd (hvs ▸ List.mem_cons_self) hn
  rw [wp_sendUserList, hl, if_neg Bool.false_ne_true, hvs]
  refine ⟨⟨rfl, fun _ => rfl, fun _ => rfl, rfl⟩, rfl, ?_⟩
  rw [listSent, reached_of_full hn]
  rfl

/-- What announcing `cur` sends. -/
def announced (s : Server) (r : RoomPtr) (rs : StruUserLoginRS) (gs : BaseUserInfo) (cur : Ptr) : List Sent :=
  s.broadcastSent r (.userInfo (userInfoOf ((s.chatRooms r).records cur))) .userInfo rs.roomId ++ s.listsSent r rs gs cur

theorem Sends.announced (h : Sends s t r l ms) (hmap : l.userInfoList = (s.chatRooms r).userList.userInfoList) :
    t.announced r rs gs cur = s.announced r rs gs cur := by
  rw [Server.announced, h.listsSent hmap, broadcastSent, h.toUser, h.list, hmap, h.records]
  rfl

theorem announceLogin_sends (hr : s.room rs.roomId = some r) (hl : (s.chatRooms r).userList.locked = false)
    (hn : ¬ none ∈ (s.chatRooms r).userList.userInfoList.values)
    (hv : (s.chatRooms r).userList.userInfoList.values ≠ []) :
    wp (announceLogin r rs (some gs) (some cur)) (fun _ t =>
      Sends s t r (s.chatRooms r).userList.walked (s.announced r rs gs cur)) (fun _ => False) False s := by
  rw [announceLogin, wp_bind, wp_record, wp_bind]
  refine wp_mono (broadcast_sends hr hl hn hv _ _) (fun _ t ⟨l, hl', hmap, hwalk, ht⟩ => ?_) fun _ h => h
  have hlist := ht.list
  refine wp_mono (sendUserList_sends (by rw [hlist]; exact hl') (by rw [hlist, hmap]; exact hn)
    (by rw [hlist, hmap]; exact hv)) (fun _ t' ht' => ?_) fun _ h => h
  rw [hlist, hwalk, ht.listsSent hmap] at ht'
  exact ht.trans ht'

/-! ## The whole answer -/

/-- A message with the microphone holders. -/
def IsMicList (m : Sent) : Prop := ∃ list fd key, m = .toGS (.roomMicInfoID list) .roomMicInfoID fd key

/-- `ms` is sent from `s` to `t`, and then the microphone holders or nothing; the users in the room `r` are the same. -/
structure Answers (s t : Server) (r : RoomPtr) (ms : List Sent) : Prop where
  sent : ∃ mics, t.sent = s.sent ++ (ms ++ mics) ∧ ∀ m ∈ mics, IsMicList m
  records : (t.chatRooms r).records = (s.chatRooms r).records
  online (u : Int) : (t.chatRooms r).userList.userInfoList.ptr u = (s.chatRooms r).userList.userInfoList.ptr u

theorem micsSent_sent (s : Server) (r : RoomPtr) (gs : BaseUserInfo) (cur : Ptr) :
    ∃ m, IsMicList m ∧ (s.micsSent r gs cur).sent = s.sent ++ [m] :=
  ⟨_, ⟨_, _, _, rfl⟩, rfl⟩

theorem micsLookedUp_ptr (l : UserInfoList) (mics : List (Int × List Byte)) (u : Int) :
    (micsLookedUp l mics).userInfoList.ptr u = l.userInfoList.ptr u := by
  induction mics generalizing l with
  | nil => rfl
  | cons mic mics ih => exact (ih _).trans (lookedUp_ptr ..)

theorem endLogin_answers (h : Sends s t r l ms) (hl : l.locked = false) (hpre : (s.chatRooms r).preUserList.locked = false)
    (hmap : l.userInfoList = (s.chatRooms r).userList.userInfoList) (u : Int) :
    wp (do onRoom r (removePreUser u); sendMicList r (some gs) (some cur)) (fun _ t' => Answers s t' r ms)
      (fun _ => False) False t := by
  have hroom : t.chatRooms r = { s.chatRooms r with userList := l } := by
    rw [h.rooms, withList, withRoom_same]
  rw [wp_bind, wp_onRoom, wp_removePreUser_ended, hroom, hpre, if_neg Bool.false_ne_true, wp_sendMicList, withRoom_same]
  have hlist : (endedLogin { s.chatRooms r with userList := l } u).userList = l := rfl
  split
  · refine ⟨⟨[], ?_, fun _ h => absurd h List.not_mem_nil⟩, ?_, fun v => ?_⟩
    · rw [List.append_nil]
      exact h.sent
    · rw [withRoom_same]
      rfl
    · rw [withRoom_same, hlist, hmap]
  · dsimp only
    rw [hlist, hl, if_neg Bool.false_ne_true]
    obtain ⟨m, hmic, hsent⟩ := micsSent_sent
      (t.withRoom r (endedLogin { s.chatRooms r with userList := l } u)) r gs cur
    refine ⟨⟨[m], ?_, fun m' hm => ?_⟩, ?_, fun v => ?_⟩
    · rw [hsent, withRoom_sent, h.sent, List.append_assoc]
    · rw [List.mem_singleton.mp hm]
      exact hmic
    · simp [micsSent, endedLogin]
    · simp only [micsSent, withList_list, withRoom_same, hlist, micsLookedUp_ptr, hmap]

/-- A successful reply, once the user is in the room. -/
theorem answerLogin_sends (hr : s.room rs.roomId = some r) (hl : (s.chatRooms r).userList.locked = false)
    (hpre : (s.chatRooms r).preUserList.locked = false)
    (hn : ¬ none ∈ (s.chatRooms r).userList.userInfoList.values)
    (hv : (s.chatRooms r).userList.userInfoList.values ≠ [])
    (hg : s.gate ((s.chatRooms r).records p).gsHashkeyUserOn = some gs) :
    wp (answerLogin r rs p (some cur)) (fun _ t => Answers s t r
      (.toGS (.userLoginRS rs) rs.msgId gs.userSock ((s.chatRooms r).records p).userHashKey :: s.announced r rs gs cur))
      (fun _ => False) False s := by
  have hreplied : Sends s (s.replied r rs p) r _ _ := replied_sends hg
  rw [answerLogin, wp_bind, wp_replyLogin, hg, wp_bind]
  refine wp_mono (announceLogin_sends (s := s.replied r rs p) hr hl hn hv) (fun _ t ht => ?_) fun _ h => h
  rw [hreplied.announced rfl] at ht
  refine endLogin_answers (hreplied.trans ht) ?_ hpre (walked_userInfoList _) rs.userId
  exact congrArg UserInfoList.locked (walked_of_full hn hv)

/-- What a reply to the pending user with the record `p` sends, which has taken `cur`. -/
def replySent (s : Server) (r : RoomPtr) (rs : StruUserLoginRS) (gs : BaseUserInfo) (p cur : Ptr) : List Sent :=
  .toGS (.userLoginRS rs) rs.msgId gs.userSock ((s.chatRooms r).records p).userHashKey :: s.announced r rs gs cur

/-- A successful reply in a room without `NULL` entries whose mutex is free. -/
theorem clientLoginRS_sends {rest : List Ptr} (h : Owned (s.chatRooms r)) (hl : (s.chatRooms r).userList.locked = false)
    (hn : ¬ none ∈ (s.chatRooms r).userList.userInfoList.values) (hr : s.room rs.roomId = some r)
    (hp : (s.chatRooms r).preUserList.userInfoList.ptr rs.userId = some p) (h1 : rs.result = 1)
    (hg : s.gate ((s.chatRooms r).records p).gsHashkeyUserOn = some gs)
    (hq : (s.chatRooms r).userList.unusedUserInfoList = cur :: rest) :
    wp (clientLoginRS rs) (fun _ t => Answers (s.withRoom r (loggedIn (s.chatRooms r) rs p cur rest)) t r
      ((s.withRoom r (loggedIn (s.chatRooms r) rs p cur rest)).replySent r rs gs p cur)) (fun _ => False) False s := by
  rw [wp_clientLoginRS, hr]
  dsimp only
  rw [h.preLocked, if_neg Bool.false_ne_true, hp]
  dsimp only
  rw [if_pos h1, hl, if_neg Bool.false_ne_true, hq]
  have hsame := withRoom_same s r (loggedIn (s.chatRooms r) rs p cur rest)
  have hmap : (loggedIn (s.chatRooms r) rs p cur rest).userList.userInfoList =
    added (s.chatRooms r).userList.userInfoList rs.userId cur := rfl
  refine answerLogin_sends hr ?_ ?_ ?_ ?_ ?_ <;> rw [hsame]
  · exact hl
  · exact h.preLocked
  · rw [hmap, none_mem_added]
    rintro ⟨v, -, hv⟩
    exact hn (StdMap.mem_values.mpr ⟨v, hv⟩)
  · exact values_added_ne_nil _ _ _
  · rw [loggedIn_records_of_ne _ _ _ _ (pending_ne_unused h.nodup hp hq)]
    exact hg

end Server

end Miku.RoomServer
