import MikuServer.Proof.LoginMessages

/-!
# The login replies of an answer

In a room without `NULL` entries, where no mutex is held and nobody is at a
microphone, a reply that has found its user and the gate is handled to the end.
`answerLogin_quiet` says what it leaves of the room, and that of what it sends
one message is a login reply (`loginReplies`).
-/

namespace Miku.RoomServer

open Act UserInfoList ChatRoom

namespace Server

variable {s t : Server} {r : RoomPtr} {rs : StruUserLoginRS} {p q : Ptr} {cur : Ptr} {gs : BaseUserInfo}

/-- The login replies that were sent: the socket, the user's key, and the reply. -/
def loginReplies (sent : List Sent) : List (Int × Int × StruUserLoginRS) :=
  sent.filterMap fun
    | .toGS (.userLoginRS rs) _ fd userHashkey => some (fd, userHashkey, rs)
    | _ => none

theorem loginReplies_append (ms ms' : List Sent) : loginReplies (ms ++ ms') = loginReplies ms ++ loginReplies ms' :=
  List.filterMap_append

theorem loginReplies_toUser (s : Server) (r : RoomPtr) (u : StruUserInfo) (ps : List Ptr) :
    loginReplies (ps.filterMap (s.toUser r (.userInfo u) .userInfo)) = [] := by
  simp only [loginReplies, List.filterMap_filterMap, List.filterMap_eq_nil_iff]
  intro p _
  rcases h : s.toUser r (.userInfo u) .userInfo p with _ | m
  · rfl
  · obtain ⟨gs, -, rfl⟩ := Option.map_eq_some_iff.mp h
    rfl

theorem loginReplies_toCurrent (s : Server) (r : RoomPtr) (gs : BaseUserInfo) (cur : Ptr) (ms : List StruUserInfoListID) :
    loginReplies (ms.map fun m => s.toCurrent r gs cur (.userInfoListID m) .userInfoListID) = [] := by
  simp only [loginReplies, List.filterMap_map, List.filterMap_eq_nil_iff]
  intro m _
  rfl

/-- The user list of `r` during an answer, and what was sent since `s`. -/
structure Answering (s t : Server) (r : RoomPtr) (l : UserInfoList) (replies : List (Int × Int × StruUserLoginRS)) :
    Prop extends SameTables s t where
  rooms : t.chatRooms = (s.withList r l).chatRooms
  sent : loginReplies t.sent = loginReplies s.sent ++ replies

theorem replied_answering (hg : s.gate ((s.chatRooms r).records p).gsHashkeyUserOn = some gs) :
    Answering s (s.replied r rs p) r (s.chatRooms r).userList
      [(gs.userSock, ((s.chatRooms r).records p).userHashKey, rs)] where
  unused := rfl
  room _ := rfl
  gate h := foundGate_gate ..
  nextRoom := rfl
  rooms := by
    rw [withList_self]
    rfl
  sent := by
    simp only [replied, hg, loginReplies_append]
    rfl

variable {l : UserInfoList} {replies : List (Int × Int × StruUserLoginRS)}

theorem Answering.list (h : Answering s t r l replies) : (t.chatRooms r).userList = l := by
  rw [h.rooms, withList_list]

/-- A step of an answer that changes the list, and sends no reply. -/
theorem Answering.goOn (h : Answering s t r l replies) {t' : Server} {l' : UserInfoList} (ht : SameTables t t')
    (hrooms : t'.chatRooms = (t.withList r l').chatRooms) {ms : List Sent} (hsent : t'.sent = t.sent ++ ms)
    (hms : loginReplies ms = []) : Answering s t' r l' replies where
  unused := ht.unused.trans h.unused
  room j := (ht.room j).trans (h.room j)
  gate j := (ht.gate j).trans (h.gate j)
  nextRoom := ht.nextRoom.trans h.nextRoom
  rooms := by
    rw [hrooms]
    simp [withList, withRoom, h.rooms]
  sent := by
    rw [hsent, loginReplies_append, h.sent, hms, List.append_nil]

/-- A step of an answer that sends `ms`, among them no reply. -/
theorem Answering.goOnSends (h : Answering s t r l replies) {t' : Server} {l' : UserInfoList} {ms : List Sent}
    (ht : Sends t t' r l' ms) (hms : loginReplies ms = []) : Answering s t' r l' replies :=
  h.goOn ht.toSameTables ht.rooms ht.sent hms

theorem broadcast_answering (h : Answering s t r l replies) (hl : l.locked = false) (hr : s.room rs.roomId = some r)
    (hn : ¬ none ∈ l.userInfoList.values) (hv : l.userInfoList.values ≠ []) (u : StruUserInfo) :
    wp (sendDataToRoomAllUser (.userInfo u) .userInfo rs.roomId)
      (fun _ t' => ∃ l', l'.locked = false ∧ l'.userInfoList = l.userInfoList ∧ l'.walked = l.walked ∧
        Answering s t' r l' replies) (fun _ => False) False t := by
  rw [← h.list] at hl hn hv
  refine wp_mono (broadcast_sends ((h.room _).trans hr) hl hn hv _ _) (fun _ t' ⟨l', hl', hmap, hwalk, ht⟩ => ?_)
    fun _ h => h
  rw [h.list] at hmap hwalk
  refine ⟨l', hl', hmap, hwalk, h.goOnSends ht ?_⟩
  unfold broadcastSent
  split
  · rfl
  · exact loginReplies_toUser ..

theorem sendUserList_answering (h : Answering s t r l replies) (hl : l.locked = false)
    (hn : ¬ none ∈ l.userInfoList.values) (hv : l.userInfoList.values ≠ []) :
    wp (sendUserList r rs (some gs) cur) (fun _ t' => Answering s t' r l.walked replies) (fun _ => False) False t := by
  rw [← h.list] at hl hn hv
  refine wp_mono (sendUserList_sends hl hn hv) (fun _ t' ht => ?_) fun _ h => h
  rw [h.list] at ht
  exact h.goOnSends ht (loginReplies_toCurrent ..)

/-- The end of an answer in a room without microphone holders. -/
theorem endLogin_answering (h : Answering s t r l replies) (hpre : (s.chatRooms r).preUserList.locked = false)
    (hm : (s.chatRooms r).videoChannelList.toList = []) (u : Int) (g : Option BaseUserInfo) (c : Option Ptr) :
    wp (do onRoom r (removePreUser u); sendMicList r g c) (fun _ t' => SameTables s t' ∧
      t'.chatRooms = (s.withRoom r { endedLogin (s.chatRooms r) u with userList := l }).chatRooms ∧
      loginReplies t'.sent = loginReplies s.sent ++ replies) (fun _ => False) False t := by
  have hroom : t.chatRooms r = { s.chatRooms r with userList := l } := by
    rw [h.rooms, withList, withRoom_same]
  rw [wp_bind, wp_onRoom, wp_removePreUser_ended, hroom, hpre, if_neg Bool.false_ne_true, wp_sendMicList, withRoom_same]
  split
  · refine ⟨⟨h.unused, h.room, h.gate, h.nextRoom⟩, ?_, h.sent⟩
    simp [withRoom, h.rooms, withList, endedLogin]
  · contradiction

/-- What a reply leaves in a room that is quiet, `room` being the room once the login is done. -/
def AnsweredAs (s t : Server) (r : RoomPtr) (room : ChatRoom) (u : Int)
    (replies : List (Int × Int × StruUserLoginRS)) : Prop :=
  ∃ l, l.locked = false ∧ l.userInfoList = room.userList.userInfoList ∧
    l.unusedUserInfoList = room.userList.unusedUserInfoList ∧ SameTables s t ∧
    t.chatRooms = (s.withRoom r { endedLogin room u with userList := l }).chatRooms ∧
    loginReplies t.sent = loginReplies s.sent ++ replies

theorem answerLogin_quiet (hr : s.room rs.roomId = some r) (hl : (s.chatRooms r).userList.locked = false)
    (hpre : (s.chatRooms r).preUserList.locked = false) (hm : (s.chatRooms r).videoChannelList.toList = [])
    (hg : s.gate ((s.chatRooms r).records p).gsHashkeyUserOn = some gs) {c : Option Ptr}
    (hcur : c.isSome → ¬ none ∈ (s.chatRooms r).userList.userInfoList.values ∧
      (s.chatRooms r).userList.userInfoList.values ≠ []) :
    wp (answerLogin r rs p c) (fun _ t => AnsweredAs s t r (s.chatRooms r) rs.userId
      [(gs.userSock, ((s.chatRooms r).records p).userHashKey, rs)]) (fun _ => False) False s := by
  have hreplied : Answering s (s.replied r rs p) r _ _ := replied_answering hg
  rw [answerLogin, wp_bind, wp_replyLogin, hg, wp_bind]
  rcases c with _ | cur
  · rw [announceLogin, wp_pure]
    refine wp_mono (endLogin_answering hreplied hpre hm rs.userId (some gs) none) (fun _ t h => ?_) fun _ h => h
    exact ⟨_, hl, rfl, rfl, h⟩
  obtain ⟨hn, hv⟩ := hcur rfl
  rw [announceLogin, wp_bind, wp_record, wp_bind]
  refine wp_mono (broadcast_answering hreplied hl hr hn hv _) (fun _ t₁ ht₁ => ?_) fun _ h => h
  obtain ⟨l₁, hl₁, hsame, hwalk, h₁⟩ := ht₁
  refine wp_mono (sendUserList_answering h₁ hl₁ (hsame ▸ hn) (hsame ▸ hv)) (fun _ t₂ h₂ => ?_) fun _ h => h
  refine wp_mono (endLogin_answering h₂ hpre hm rs.userId (some gs) (some cur)) (fun _ t h => ?_) fun _ h => h
  refine ⟨l₁.walked, ?_, ?_, ?_, h⟩ <;> rw [hwalk]
  · rw [walked_of_full hn hv]
  · exact walked_userInfoList _
  · exact walked_unusedUserInfoList _

theorem endedLogin_preLocked (room : ChatRoom) (u : Int) :
    (endedLogin room u).preUserList.locked = room.preUserList.locked := by
  unfold endedLogin
  split
  · rfl
  · rfl

end Server

end Miku.RoomServer
