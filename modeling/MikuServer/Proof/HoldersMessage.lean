import MikuServer.Proof.LoginAnswer
import MikuServer.Proof.MessageSize

/-!
# The microphone holders in one message

A login is answered with a message with all the microphone holders of the room
(`holdersMessage`). Its size is known before the login (`byteSize_loggedIn`), and where
it fits everything that is sent does (`fitting_step`).
-/

namespace Miku.RoomServer

open Act UserInfoList ChatRoom WireFormat

namespace Server

variable {s s' t : Server} {r : RoomPtr} {room room' : ChatRoom} {rs : StruUserLoginRS} {p q : Ptr} {u : Int}

/-! ## The size of the message -/

/-- The message with the microphone holders of a room, to `cur`. -/
def holdersMessage (room : ChatRoom) (cur : Ptr) : StruRoomMicInfoID :=
  ⟨.roomMicInfoID, (room.records cur).userId, room.roomId, room.videoChannelList.toList.filterMap (micInfo room)⟩

/-- The bytes for a microphone holder. -/
def holderSize (info : UserInfo) : Nat := 10 + int32Size info.userId + info.nickname.length

/-- The bytes of the message when `u`, with the record `p`, comes into the room. -/
def holdersSize (room : ChatRoom) (u : Int) (p : Ptr) : Nat :=
  5 + int32Size (room.records p).userId + int32Size room.roomId +
    ((room.videoChannelList.toList.filterMap fun mic => (added room.userList.userInfoList u p).ptr mic.1).map
      fun k => holderSize (room.records k)).sum

/-- No microphone holder has a channel, and no record is twice in the list of the users. -/
structure Tidy (room : ChatRoom) : Prop where
  noChannel {u : Int} {channel : List Byte} : room.videoChannelList.find? u = some channel → channel = []
  nodup : room.userList.allRecords.Nodup

theorem fieldsSize_holders (hn : ∀ p, Named (room.records p)) {mics : List (Int × List Byte)}
    (hc : ∀ mic ∈ mics, mic.2 = []) :
    fieldsSize ((mics.filterMap (micInfo room)).map fun e => stringSize e.byteSize) =
      ((mics.filterMap fun mic => room.userList.userInfoList.ptr mic.1).map
        fun k => holderSize (room.records k)).sum := by
  induction mics with
  | nil => rfl
  | cons mic mics ih =>
    rw [List.forall_mem_cons] at hc
    rw [List.filterMap_cons, List.filterMap_cons, micInfo]
    cases room.userList.userInfoList.ptr mic.1 with
    | none => exact ih hc.2
    | some k =>
      have hone := byteSize_micInfo (m := ⟨.micInfo, (room.records k).userId, (room.records k).nickname, mic.2⟩)
        (hn k).nickname_length hc.1
      rw [Option.map_some, List.map_cons, fieldsSize_cons, ih hc.2, List.map_cons, List.sum_cons, holderSize, hone]

theorem byteSize_holdersMessage (ht : Tidy room) (hn : ∀ p, Named (room.records p)) (cur : Ptr) :
    (holdersMessage room cur).byteSize = 5 + int32Size (room.records cur).userId + int32Size room.roomId +
      ((room.videoChannelList.toList.filterMap fun mic => room.userList.userInfoList.ptr mic.1).map
        fun k => holderSize (room.records k)).sum := by
  have hc : ∀ mic ∈ room.videoChannelList.toList, mic.2 = [] := fun mic h => ht.noChannel (StdMap.mem_toList.mp h)
  rw [StruRoomMicInfoID.byteSize, holdersMessage, fieldsSize_append, fieldsSize_holders hn hc]
  simp only [fieldsSize_cons, fieldsSize_nil, enumMsgID_size]
  omega

/-! ## The message of a login -/

theorem Tidy.online_ne (ht : Tidy room) {rest : List Ptr} (hu : room.userList.userInfoList.ptr u = some p)
    (hf : room.userList.unusedUserInfoList = q :: rest) : p ≠ q := by
  intro he
  have hdis := (Multiset.nodup_add.mp ht.nodup).2.2
  rw [hf, ← he] at hdis
  exact Multiset.disjoint_left.mp hdis List.mem_cons_self (Multiset.mem_coe.mpr (StdMap.mem_ptrs.mpr ⟨u, hu⟩))

theorem allRecords_tookList {l : UserInfoList} {rest : List Ptr} (hf : l.unusedUserInfoList = q :: rest) :
    l.allRecords = q ::ₘ { l with unusedUserInfoList := rest }.allRecords := by
  show (l.unusedUserInfoList : Multiset Ptr) + _ = q ::ₘ ((rest : Multiset Ptr) + _)
  rw [hf, ← Multiset.cons_coe, Multiset.cons_add]

theorem Tidy.loggedIn (ht : Tidy room) {rest : List Ptr} (hf : room.userList.unusedUserInfoList = q :: rest) :
    Tidy (loggedIn room rs p q rest) where
  noChannel := ht.noChannel
  nodup := by
    refine Multiset.nodup_of_le (allRecords_added { room.userList with unusedUserInfoList := rest } rs.userId q) ?_
    rw [← allRecords_tookList hf]
    exact ht.nodup

theorem named_took (hn : ∀ p, Named (room.records p)) (q : Ptr) (rest : List Ptr) (j : Ptr) :
    Named ((room.took q rest).records j) :=
  named_update hn named_clear q j

theorem named_loggedIn (hn : ∀ p, Named (room.records p)) (rest : List Ptr) (j : Ptr) :
    Named ((Server.loggedIn room rs p q rest).records j) :=
  named_update (named_took hn q rest) ((named_took hn q rest p).loginInfo rs) q j

theorem records_loggedIn (room : ChatRoom) (rs : StruUserLoginRS) (p q : Ptr) (rest : List Ptr) :
    (Server.loggedIn room rs p q rest).records q = loginInfo rs ((room.took q rest).records p) :=
  Function.update_self ..

/-- The record that a login takes is no longer than that of its request. -/
theorem userId_loggedIn (room : ChatRoom) (rs : StruUserLoginRS) (p q : Ptr) (rest : List Ptr) :
    int32Size ((Server.loggedIn room rs p q rest).records q).userId ≤ int32Size (room.records p).userId := by
  have huser : ((Server.loggedIn room rs p q rest).records q).userId = ((room.took q rest).records p).userId := by
    rw [records_loggedIn]
    rfl
  rw [huser]
  by_cases hpq : p = q
  · have hclear : (room.took q rest).records p = .clear := hpq ▸ Function.update_self ..
    rw [hclear]
    exact int32Size_pos _
  · exact le_of_eq (congrArg (fun u : UserInfo => int32Size u.userId) (Function.update_of_ne hpq ..))

theorem nickname_loggedIn (hn : ∀ p, Named (room.records p)) (rest : List Ptr) :
    ((Server.loggedIn room rs p q rest).records q).nickname.length ≤ (room.records p).nickname.length := by
  rw [records_loggedIn, (named_took hn q rest p).nickname_loginInfo]
  by_cases hpq : p = q
  · have hclear : (room.took q rest).records p = .clear := hpq ▸ Function.update_self ..
    rw [hclear]
    exact Nat.zero_le _
  · exact le_of_eq (congrArg (fun u : UserInfo => u.nickname.length) (Function.update_of_ne hpq ..))

theorem holderSize_loggedIn (hn : ∀ p, Named (room.records p)) (rest : List Ptr) :
    holderSize ((Server.loggedIn room rs p q rest).records q) ≤ holderSize (room.records p) :=
  Nat.add_le_add (Nat.add_le_add_left (userId_loggedIn room rs p q rest) 10) (nickname_loggedIn hn rest)

/-- The message after a login is no longer than was known before it. -/
theorem byteSize_loggedIn (ht : Tidy room) (hn : ∀ p, Named (room.records p)) {rest : List Ptr}
    (hf : room.userList.unusedUserInfoList = q :: rest) :
    (holdersMessage (Server.loggedIn room rs p q rest) q).byteSize ≤ holdersSize room rs.userId p := by
  rw [byteSize_holdersMessage (ht.loggedIn hf) (named_loggedIn hn rest), holdersSize]
  refine Nat.add_le_add (Nat.add_le_add_right (Nat.add_le_add_left (userId_loggedIn ..) 5) _) ?_
  rw [sum_filterMap, sum_filterMap]
  refine List.sum_le_sum fun mic _ => ?_
  have honline {v : Int} {j : Ptr} (hj : room.userList.userInfoList.ptr v = some j) :
      (Server.loggedIn room rs p q rest).records j = room.records j :=
    loggedIn_records_of_ne room rs p rest (ht.online_ne hj hf)
  show (((added room.userList.userInfoList rs.userId q).ptr mic.1).map _).getD 0 ≤ _
  rw [ptr_added, ptr_added]
  split
  · cases hj : room.userList.userInfoList.ptr rs.userId with
    | none => exact holderSize_loggedIn hn rest
    | some j => exact le_of_eq (congrArg holderSize (honline hj))
  · cases hj : room.userList.userInfoList.ptr mic.1 with
    | none => exact le_refl _
    | some j => exact le_of_eq (congrArg holderSize (honline hj))

/-! ## A login -/

/-- What the message with the holders is made from is the same. -/
structure SameHolders (room room' : ChatRoom) : Prop where
  roomId : room'.roomId = room.roomId
  records : room'.records = room.records
  mics : room'.videoChannelList = room.videoChannelList
  users : room'.userList.userInfoList = room.userList.userInfoList

theorem SameHolders.refl (room : ChatRoom) : SameHolders room room := ⟨rfl, rfl, rfl, rfl⟩

theorem SameHolders.message (h : SameHolders room room') (cur : Ptr) :
    holdersMessage room' cur = holdersMessage room cur := by
  have hmic : micInfo room' = micInfo room := by
    funext mic
    rw [micInfo, micInfo, h.records, h.users]
  rw [holdersMessage, holdersMessage, hmic, h.roomId, h.records, h.mics]

theorem SameHolders.withList (h : SameHolders room (s.chatRooms r)) {q : RoomPtr} {l : UserInfoList}
    (hl : l.userInfoList = (s.chatRooms q).userList.userInfoList) : SameHolders room ((s.withList q l).chatRooms r) := by
  by_cases hq : r = q
  · subst hq
    rw [Server.withList, withRoom_same]
    exact ⟨h.roomId, h.records, h.mics, hl.trans h.users⟩
  · rw [Server.withList, withRoom_other s hq]
    exact h

/-- What is sent fits, and the room `r` has the same holders as `room`. -/
def FittingWith (r : RoomPtr) (room : ChatRoom) (s : Server) : Prop := Fitting s ∧ SameHolders room (s.chatRooms r)

theorem fitting_replyLogin (h : FittingWith r room s) (rs : StruUserLoginRS) (p : Ptr) :
    FittingWith r room (s.replied r rs p) := by
  refine ⟨⟨h.1.named, List.forall_mem_append.mpr ⟨h.1.sent, fun m hm => ?_⟩⟩, h.2⟩
  obtain ⟨gs, -, rfl⟩ := Option.map_eq_some_iff.mp (Option.mem_toList.mp hm)
  exact fits_userLoginRS rs

theorem fitting_broadcastWith (h : FittingWith r room s) {pack : Pack} (hf : Fits pack) (msgId : EnumMsgID)
    (roomId : Int) : wp (sendDataToRoomAllUser pack msgId roomId) (fun _ => FittingWith r room) Fitting True s := by
  rw [wp_broadcast]
  split
  · exact h
  rcases s.room roomId with _ | q
  · exact ⟨h.1.congr (fun _ => rfl) rfl, h.2⟩
  dsimp only
  split
  · exact h.1
  · refine ⟨h.1.broadcasted hf q msgId, ?_⟩
    rw [broadcasted_chatRooms]
    exact h.2.withList (walked_userInfoList _)

theorem fits_listed {gs : BaseUserInfo} {cur : Ptr} (h : Fitting s) {m : Sent}
    (hm : m ∈ (userLists ⟨.userInfoListID, rs.userId, rs.roomId, []⟩ 0
      ((s.chatRooms r).userList.reached.map (s.chatRooms r).records)).map
        fun m => s.toCurrent r gs cur (.userInfoListID m) .userInfoListID) : m.Fits := by
  obtain ⟨list, hlist, rfl⟩ := List.mem_map.mp hm
  have hempty : (⟨.userInfoListID, rs.userId, rs.roomId, []⟩ : StruUserInfoListID).userInfoList.length = 0 := rfl
  refine fits_userLists hempty (by decide) (fun _ he => absurd he List.not_mem_nil) (fun u hu => ?_) list hlist
  obtain ⟨j, -, rfl⟩ := List.mem_map.mp hu
  exact (h.named r j).nickname_length

/-- The mutex is given back only where no entry is `NULL`. -/
theorem fitting_sendUserList (h : FittingWith r room s) {gs : Option BaseUserInfo} {cur : Ptr} :
    wp (sendUserList r rs gs cur) (fun _ t => FittingWith r room t ∧
      ((t.chatRooms r).userList.locked = false → ¬ none ∈ room.userList.userInfoList.values)) Fitting True s := by
  rw [wp_sendUserList]
  split <;> rename_i hl
  · exact h.1
  have hl' : (s.chatRooms r).userList.locked = false := Bool.eq_false_of_not_eq_true hl
  have hsame := h.2.withList (q := r) (walked_userInfoList (s.chatRooms r).userList)
  have hnone : (s.chatRooms r).userList.walked.locked = false → ¬ none ∈ room.userList.userInfoList.values :=
    fun hw hn => by
      rw [← h.2.users, ← walked_locked hl', hw] at hn
      cases hn
  have hw : Fitting (s.withList r (s.chatRooms r).userList.walked) := h.1.withRecords rfl
  rcases (s.chatRooms r).userList.userInfoList.values.head?.join with _ | v
  · refine ⟨⟨hw, hsame⟩, ?_⟩
    rw [withList_list]
    exact hnone
  rcases gs with _ | g
  · trivial
  refine ⟨⟨⟨hw.named, List.forall_mem_append.mpr ⟨h.1.sent, fun m => fits_listed h.1⟩⟩, hsame⟩, ?_⟩
  rw [listSent_chatRooms, withList_list]
  exact hnone

theorem fitting_sendMicList {gs : Option BaseUserInfo} {cur : Ptr} (h : Fitting s)
    (hm : (s.chatRooms r).userList.locked = false → Fits (.roomMicInfoID (holdersMessage (s.chatRooms r) cur))) :
    KeepsFitting (sendMicList r gs (some cur)) s := by
  rw [KeepsFitting, wp_sendMicList]
  split
  · exact h
  dsimp only
  split <;> rename_i hl
  · exact h
  rcases gs with _ | g
  · trivial
  have hlook (l : UserInfoList) : Fitting (s.withList r l) := h.withRecords rfl
  exact ⟨(hlook _).named, List.forall_mem_append.mpr ⟨h.sent,
    List.forall_mem_singleton.mpr (hm (Bool.eq_false_of_not_eq_true hl))⟩⟩

theorem endedLogin_sameHolders (room : ChatRoom) (u : Int) : SameHolders room (endedLogin room u) := ⟨rfl, rfl, rfl, rfl⟩

/-- The end of a login. -/
theorem fitting_endLogin {gs : Option BaseUserInfo} {cur : Ptr} (h : Fitting s) (u : Int)
    (hm : (s.chatRooms r).userList.locked = false → Fits (.roomMicInfoID (holdersMessage (s.chatRooms r) cur))) :
    KeepsFitting (do onRoom r (removePreUser u); sendMicList r gs (some cur)) s := by
  rw [KeepsFitting, wp_bind, wp_onRoom, wp_removePreUser_ended]
  split
  · rw [withRoom_self]
    exact h
  · refine fitting_sendMicList (h.withRecords rfl) ?_
    rw [withRoom_same, (endedLogin_sameHolders _ u).message]
    exact hm

/-- A login that succeeded is answered. -/
theorem fitting_answerLogin {cur : Ptr} (h : Fitting s)
    (hm : ¬ none ∈ (s.chatRooms r).userList.userInfoList.values →
      Fits (.roomMicInfoID (holdersMessage (s.chatRooms r) cur))) :
    KeepsFitting (answerLogin r rs p (some cur)) s := by
  have hreplied : FittingWith r (s.chatRooms r) (s.replied r rs p) := fitting_replyLogin ⟨h, .refl _⟩ rs p
  have honline : Fits (.userInfo (userInfoOf (((s.replied r rs p).chatRooms r).records cur))) :=
    fits_of_le (byteSize_userInfoOf (h.named r cur).nickname_length) (by decide)
  rw [KeepsFitting, answerLogin, wp_bind, wp_replyLogin, announceLogin, wp_bind, wp_bind, wp_record, wp_bind]
  refine wp_mono (fitting_broadcastWith hreplied honline _ _) (fun _ t₁ h₁ => ?_) fun _ h => h
  refine wp_mono (fitting_sendUserList h₁) (fun _ t₂ h₂ => ?_) fun _ h => h
  refine fitting_endLogin h₂.1.1 rs.userId fun hl => ?_
  rw [h₂.1.2.message]
  exact hm (h₂.2 hl)

/-- After a login that failed there is no message with the holders. -/
theorem fitting_answerLogin_none (h : Fitting s) : KeepsFitting (answerLogin r rs p none) s := by
  have hreplied : Fitting (s.replied r rs p) := (fitting_replyLogin ⟨h, .refl _⟩ rs p).1
  rw [KeepsFitting, answerLogin, wp_bind, wp_replyLogin, announceLogin, wp_bind, wp_pure, wp_bind, wp_onRoom,
    wp_removePreUser_ended]
  split
  · rw [withRoom_self]
    exact hreplied
  rw [wp_sendMicList]
  split
  · exact hreplied.withRecords rfl
  · trivial

/-- In a room where no mutex stays locked, a login ends with the message with the holders, if there are any. -/
theorem endLogin_message {l : UserInfoList} {replies : List (Int × Int × StruUserLoginRS)} (h : Answering s t r l replies)
    (hl : l.locked = false) (hmap : l.userInfoList = (s.chatRooms r).userList.userInfoList)
    (hpre : (s.chatRooms r).preUserList.locked = false) (hmics : (s.chatRooms r).videoChannelList.toList ≠ [])
    (u : Int) (gs : BaseUserInfo) (cur : Ptr) :
    wp (do onRoom r (removePreUser u); sendMicList r (some gs) (some cur))
      (fun _ t' => ∃ key, .toGS (.roomMicInfoID (holdersMessage (s.chatRooms r) cur)) .roomMicInfoID gs.userSock key ∈
        t'.sent) (fun _ => False) False t := by
  have hroom : t.chatRooms r = { s.chatRooms r with userList := l } := by
    rw [h.rooms, Server.withList, withRoom_same]
  rw [wp_bind, wp_onRoom, wp_removePreUser_ended, hroom, hpre, if_neg Bool.false_ne_true, wp_sendMicList, withRoom_same]
  have hsame : SameHolders (s.chatRooms r) (endedLogin { s.chatRooms r with userList := l } u) := ⟨rfl, rfl, rfl, hmap⟩
  have hunlocked : (endedLogin { s.chatRooms r with userList := l } u).userList.locked = false := hl
  generalize endedLogin { s.chatRooms r with userList := l } u = ended at hsame hunlocked ⊢
  rw [hsame.mics, if_neg hmics]
  dsimp only
  rw [hunlocked, if_neg Bool.false_ne_true]
  refine ⟨(ended.records cur).userHashKey, List.mem_append_right _ (List.mem_singleton.mpr ?_)⟩
  rw [toCurrent, withRoom_same, ← hsame.message]
  rfl

/-! ## A step -/

/-- A login request has a nickname of at most 31 bytes; a text and the code of a gift are of a frame of at most
0x1000 bytes. -/
def FromFrame : Event → Prop
  | .message (.clientLoginRQ _ rq) => rq.userAccountName.length ≤ 31
  | .message (.userSendMsgRQ rq) => rq.msgText.length ≤ 0x1000
  | .message (.userGiveGiftRS rs) => rs.giftCode.length ≤ 0x1000
  | _ => True

instance : (e : Event) → Decidable (FromFrame e)
  | .message (.clientLoginRQ _ _) | .message (.userSendMsgRQ _) | .message (.userGiveGiftRS _) =>
    inferInstanceAs (Decidable (_ ≤ _))
  | .connect .. | .disconnect _ | .message (.userExitRoomID _) | .message (.userApplyMicRQ _)
  | .message (.userOffMicRQ _) | .message (.cancleUserMicRQ _) | .message (.putUserOnMicRQ _)
  | .message (.userGiveGiftRQ ..) | .message (.clientLoginRS _) => .isTrue trivial

/-- A reply with which the user comes into the room, whose mutexes are not held, and given back by the loops
over the users. -/
def Enters (room : ChatRoom) (rs : StruUserLoginRS) : Prop :=
  rs.result = 1 ∧ room.userList.locked = false ∧ room.preUserList.locked = false ∧
    ¬ none ∈ (room.userList.userInfoList.erase rs.userId).values

instance (room : ChatRoom) (rs : StruUserLoginRS) : Decidable (Enters room rs) := inferInstanceAs (Decidable (_ ∧ _))

/-- The microphone holders of the room fit in one message, when a user comes into the room. -/
def HoldersFit (s : Server) : Event → Prop
  | .message (.clientLoginRS rs) => ∀ r ∈ s.room rs.roomId,
      ∀ p ∈ (s.chatRooms r).preUserList.userInfoList.ptr rs.userId, Enters (s.chatRooms r) rs →
        holdersSize (s.chatRooms r) rs.userId p + packetsSize ≤ 0x2000
  | _ => True

instance (s : Server) : (e : Event) → Decidable (HoldersFit s e)
  | .message (.clientLoginRS rs) => inferInstanceAs (Decidable (∀ r ∈ s.room rs.roomId, ∀ p ∈ _, _ → _ ≤ _))
  | .connect .. | .disconnect _ | .message (.clientLoginRQ ..) | .message (.userExitRoomID _)
  | .message (.userApplyMicRQ _) | .message (.userOffMicRQ _) | .message (.cancleUserMicRQ _)
  | .message (.putUserOnMicRQ _) | .message (.userGiveGiftRQ ..) | .message (.userSendMsgRQ _)
  | .message (.userGiveGiftRS _) => .isTrue trivial

theorem fitting_clientLoginRQ (hu : s.roomManager.unusedRoomList = []) (h : Fitting s)
    (tmpPackage : GateRoomServerPack) {rq : StruUserLoginRQ} (hname : rq.userAccountName.length ≤ 31) :
    KeepsFitting (clientLoginRQ tmpPackage rq) s := by
  have he : Fitting (s.entered rq.roomId).2 := by
    unfold entered
    split
    · exact h
    · refine ⟨fun r p => ?_, h.sent⟩
      by_cases hr : r = s.nextRoom
      · subst hr
        dsimp only
        rw [Function.update_self]
        exact named_clear
      · dsimp only
        rw [Function.update_of_ne hr]
        exact h.named r p
  rw [KeepsFitting, wp_clientLoginRQ hu]
  generalize s.entered rq.roomId = e at he
  obtain ⟨r, t⟩ := e
  dsimp only at he ⊢
  split
  · exact he
  rcases (t.chatRooms r).userList.unusedUserInfoList with _ | ⟨p, rest⟩
  · trivial
  dsimp only
  split
  · have hfilled (j : Ptr) : Named ((filled (t.chatRooms r) tmpPackage rq p rest).records j) :=
      named_update (named_took (he.named r) p rest) (named_pendingInfo hname tmpPackage) p j
    split
    · exact he.withRoom hfilled
    · have hrequested : Fitting (t.withRoom r (requested (t.chatRooms r) tmpPackage rq p rest)) := he.withRoom hfilled
      exact hrequested.sendOne trivial
  · trivial

theorem fitting_clientLoginRS (hrooms : Rooms (fun _ => Tidy) s) (h : Fitting s)
    (hfit : HoldersFit s (.message (.clientLoginRS rs))) : KeepsFitting (clientLoginRS rs) s := by
  rw [KeepsFitting, wp_clientLoginRS]
  rcases hr : s.room rs.roomId with _ | r
  · exact h.congr (fun _ => rfl) rfl
  dsimp only
  split <;> rename_i hpre
  · exact h
  rcases hp : (s.chatRooms r).preUserList.userInfoList.ptr rs.userId with _ | p
  · exact h.withRecords rfl
  dsimp only
  split <;> rename_i h1
  · split <;> rename_i hl
    · exact h
    rcases hf : (s.chatRooms r).userList.unusedUserInfoList with _ | ⟨q, rest⟩
    · trivial
    refine fitting_answerLogin (h.withRoom (named_loggedIn (h.named r) rest)) ?_
    rw [withRoom_same]
    intro hnone
    have hfull : ¬ none ∈ ((s.chatRooms r).userList.userInfoList.erase rs.userId).values := fun hn => by
      obtain ⟨v, hv⟩ := StdMap.mem_values.mp hn
      rw [StdMap.find?_erase] at hv
      split at hv <;> rename_i hne
      · cases hv
      · exact hnone (none_mem_added.mpr ⟨v, Ne.symm hne, hv⟩)
    have hsize := hfit r hr p hp ⟨h1, Bool.eq_false_of_not_eq_true hl, Bool.eq_false_of_not_eq_true hpre, hfull⟩
    have hle : (holdersMessage (loggedIn (s.chatRooms r) rs p q rest) q).byteSize ≤ _ :=
      byteSize_loggedIn (hrooms.each r) (h.named r) hf
    exact Nat.le_trans (Nat.add_le_add_right hle packetsSize) hsize
  · exact fitting_answerLogin_none h

theorem fitting_step (hrooms : Rooms (fun _ => Tidy) s) (h : Fitting s) {e : Event} (he : FromFrame e)
    (hfit : HoldersFit s e) (hs : step s e = some s') : Fitting s' := by
  have hkeep {x : Act Server Unit} (hx : KeepsFitting x s) (hs : step.after x s = some s') : Fitting s' :=
    after_wp hx hs
  cases e with
  | connect hashKey userSock =>
    refine after_wp (x := addUserInfo hashKey userSock) ?_ hs
    rw [addUserInfo, wp_ofFun]
    split
    · exact h.congr (fun _ => rfl) rfl
    · exact h.congr (fun _ => rfl) rfl
  | disconnect hashKey =>
    refine hkeep (x := releaseUserInfo hashKey) ?_ hs
    rw [KeepsFitting, releaseUserInfo, wp_modify]
    split
    · exact h.congr (fun _ => rfl) rfl
    · exact h.congr (fun _ => rfl) rfl
  | message m =>
    refine hkeep (x := handle m) ?_ hs
    cases m with
    | clientLoginRQ tmpPackage rq => exact fitting_clientLoginRQ hrooms.unused h tmpPackage he
    | userExitRoomID m => exact fitting_userExitRoomID h m
    | userApplyMicRQ rq => exact fitting_userApplyMicRQ h rq
    | userOffMicRQ rq => exact fitting_userOffMicRQ h rq
    | cancleUserMicRQ rq => exact fitting_forRoomUser h fun _ _ => h
    | putUserOnMicRQ rq => exact fitting_forRoomUser h fun _ _ => h
    | userGiveGiftRQ tmpPackage rq => exact fitting_userGiveGiftRQ h tmpPackage rq
    | userSendMsgRQ rq => exact fitting_userSendMsgRQ h he
    | clientLoginRS rs => exact fitting_clientLoginRS hrooms h hfit
    | userGiveGiftRS rs => exact fitting_userGiveGiftRS h he

end Server

end Miku.RoomServer
