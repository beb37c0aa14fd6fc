import Mathlib.Data.Fintype.EquivFin
import Mathlib.Data.List.TakeWhile
import MikuServer.Proof.Broadcast
import MikuServer.Proof.LoginMessages

/-!
# The users of the room, to the user that logs in

`userLists` puts the users into messages of 1 to 15 (`userLists_batches`). In every
reachable state a successful reply sends them so, in the order of the user ids, and
the new one among them. Each entry has the user's own values exactly if the name of
every user ends in its array (`listsUsers_iff`): the name of an entry goes on behind
the array until there is a zero (`not_listsUsers_fullName`).

Where no record is unused, `GetUnusedUser` goes on to its branch for that only if the
front of the empty list reads as `NULL`; the new record is then `made`.
-/

namespace Miku.RoomServer.Server

open Act UserInfoList ChatRoom

/-! ## Batches -/

/-- The messages `ms` to the user `u` have the entries `infos`, 1 to 15 in each, and are as few as that takes. -/
structure Batches (u roomId : Int) (infos : List StruUserInfo) (ms : List StruUserInfoListID) : Prop where
  count : ms.length = (infos.length + 14) / 15
  sizes {m : StruUserInfoListID} : m ∈ ms → 1 ≤ m.userInfoList.length ∧ m.userInfoList.length ≤ 15
  entries : (ms.flatMap fun m => m.userInfoList) = infos
  header {m : StruUserInfoListID} : m ∈ ms → m.msgId = .userInfoListID ∧ m.userId = u ∧ m.roomId = roomId

variable {u roomId : Int} {infos infos' : List StruUserInfo} {ms : List StruUserInfoListID} {m : StruUserInfoListID}

theorem batches_nil : Batches u roomId [] [] := ⟨rfl, nofun, rfl, nofun⟩

/-- The message that is not full is the only one. -/
theorem batches_last (hm : m.msgId = .userInfoListID ∧ m.userId = u ∧ m.roomId = roomId)
    (h1 : 1 ≤ m.userInfoList.length) (h15 : m.userInfoList.length ≤ 15) : Batches u roomId m.userInfoList [m] where
  count := by
    rw [List.length_singleton]
    omega
  sizes h := by
    rw [List.mem_singleton.mp h]
    exact ⟨h1, h15⟩
  entries := List.append_nil _
  header h := by
    rw [List.mem_singleton.mp h]
    exact hm

/-- A full message before the others. -/
theorem Batches.cons (h : Batches u roomId infos ms) (hm : m.msgId = .userInfoListID ∧ m.userId = u ∧ m.roomId = roomId)
    (h15 : m.userInfoList.length = 15) : Batches u roomId (m.userInfoList ++ infos) (m :: ms) where
  count := by
    rw [List.length_cons, h.count, List.length_append]
    omega
  sizes hin := by
    rcases List.mem_cons.mp hin with rfl | hin
    · omega
    · exact h.sizes hin
  entries := by rw [List.flatMap_cons, h.entries]
  header hin := by
    rcases List.mem_cons.mp hin with rfl | hin
    · exact hm
    · exact h.header hin

/-- `tmp_count_user` is the number of the users in the message so far. -/
theorem userLists_batches {list : StruUserInfoListID} {count : Nat}
    (hm : list.msgId = .userInfoListID ∧ list.userId = u ∧ list.roomId = roomId)
    (hc : list.userInfoList.length = count) (hlt : count < 15) (us : List UserInfo) :
    Batches u roomId (list.userInfoList ++ us.map userInfoOf) (userLists list count us) := by
  induction us generalizing list count with
  | nil =>
    rw [List.map_nil, List.append_nil, userLists]
    split <;> rename_i h0
    · exact batches_last hm (by omega) (by omega)
    · rw [List.eq_nil_of_length_eq_zero (by omega : list.userInfoList.length = 0)]
      exact batches_nil
  | cons v us ih =>
    have hlen : (withUser list v).userInfoList.length = count + 1 := by
      rw [withUser, List.length_append, hc, List.length_singleton]
    have hnext : list.userInfoList ++ (v :: us).map userInfoOf =
        (withUser list v).userInfoList ++ us.map userInfoOf := by
      rw [withUser, List.map_cons, List.append_assoc, List.singleton_append]
    rw [userLists, hnext]
    split
    · have hrest : Batches u roomId ((withoutUsers (withUser list v)).userInfoList ++ us.map userInfoOf)
          (userLists (withoutUsers (withUser list v)) 0 us) := ih hm rfl (by decide)
      exact hrest.cons hm (by omega)
    · exact ih hm hlen (by omega)

/-! ## The answer to a login -/

variable {s t : Server} {r : RoomPtr} {room room' : ChatRoom} {rs : StruUserLoginRS} {gs : BaseUserInfo} {p q : Ptr}

/-- The messages with users that were sent: the socket, the user's key, and the message. -/
def userListsSent (sent : List Sent) : List (Int × Int × StruUserInfoListID) :=
  sent.filterMap fun
    | .toGS (.userInfoListID m) _ fd userHashkey => some (fd, userHashkey, m)
    | _ => none

/-- The users that are in the room are those that were, with their records, and `u`, whose record is `info` if it
was not in the room. -/
structure CameIn (room room' : ChatRoom) (u : Int) (info : UserInfo) : Prop where
  kept {v : Int} {j : Ptr} : room.userList.userInfoList.ptr v = some j →
    room'.userList.userInfoList.ptr v = some j ∧ room'.records j = room.records j
  new : room.userList.userInfoList.ptr u = none →
    ∃ j, room'.userList.userInfoList.ptr u = some j ∧ room'.records j = info
  only {v : Int} {j : Ptr} : room'.userList.userInfoList.ptr v = some j →
    v = u ∨ room.userList.userInfoList.ptr v = some j

/-- The entries for the users of a room, in the order of their ids. -/
def userInfos (room : ChatRoom) : List StruUserInfo :=
  room.userList.userInfoList.pairs.map fun e => userInfoOf (room.records e.2)

/-- The name that a record has: the characters of `user_nickname` up to the first zero, or all of them. -/
def nameOf (u : UserInfo) : List Byte := u.userNickname.takeWhile (· ≠ 0)

/-- What an entry for a user has to be: the values of its record. -/
def ownInfo (u : UserInfo) : StruUserInfo where
  msgId := .userInfo
  userId := u.userId
  userAccountName := nameOf u
  userRoleUid := []
  userLevel := u.userLevel
  buyerRiches := u.buyerRiches
  buyerGrowUp := u.buyerGrowUp
  buyerHonour := u.buyerHonour
  buyerEstimate := u.buyerEstimate
  sellerIncome := u.sellerIncome
  sellerExp := u.sellerExp
  sellerPop := u.sellerPop
  sellerEstimate := u.sellerEstimate

def ownInfos (room : ChatRoom) : List StruUserInfo :=
  room.userList.userInfoList.pairs.map fun e => ownInfo (room.records e.2)

/-- The reply `rs` to the pending user with the record `p`, on the gate `gs`, is handled to the end, and the user is
sent every user of the room once, in the order of their ids, with its own values. -/
def ListsUsers (made : Ptr) (s : Server) (r : RoomPtr) (rs : StruUserLoginRS) (p : Ptr) (gs : BaseUserInfo) : Prop :=
  ∃ t ms, clientLoginRSOf (newUserInfoOrNew made) rs s = .done () t ∧
    CameIn (s.chatRooms r) (t.chatRooms r) rs.userId (loginInfo rs ((s.chatRooms r).records p)) ∧
    userListsSent t.sent = userListsSent s.sent ++
      ms.map (fun m => (gs.userSock, ((s.chatRooms r).records p).userHashKey, m)) ∧
    Batches rs.userId rs.roomId (ownInfos (t.chatRooms r)) ms ∧
    (ownInfos (t.chatRooms r)).map StruUserInfo.userId =
      (t.chatRooms r).userList.userInfoList.pairs.map Prod.fst ∧
    (ownInfos (t.chatRooms r)).Pairwise fun a b => a.userId < b.userId

/-- The name in the array ends there, or the lowest byte of `user_red_d`, which is the next one, ends it. -/
def NameEnds (userNickname : List Byte) (userRedD : Int) : Prop := 0 ∈ userNickname ∨ userRedD % 256 = 0

/-- The names of the users that are in the room, and that of the new user. -/
def NamesEnd (room : ChatRoom) (rs : StruUserLoginRS) (p : Ptr) : Prop :=
  (∀ v j, room.userList.userInfoList.ptr v = some j →
    NameEnds (room.records j).userNickname (room.records j).userRedD) ∧
  (room.userList.userInfoList.ptr rs.userId = none → NameEnds (room.records p).userNickname rs.userRedD)

theorem userListsSent_append (ms ms' : List Sent) :
    userListsSent (ms ++ ms') = userListsSent ms ++ userListsSent ms' := List.filterMap_append

theorem userListsSent_broadcastSent (s : Server) (r : RoomPtr) (u : StruUserInfo) (roomId : Int) :
    userListsSent (s.broadcastSent r (.userInfo u) .userInfo roomId) = [] := by
  unfold broadcastSent
  split
  · rfl
  simp only [userListsSent, List.filterMap_filterMap, List.filterMap_eq_nil_iff]
  intro p _
  rcases h : s.toUser r (.userInfo u) .userInfo p with _ | m
  · rfl
  · obtain ⟨gs, -, rfl⟩ := Option.map_eq_some_iff.mp h
    rfl

theorem userListsSent_mics {ms : List Sent} (h : ∀ m ∈ ms, IsMicList m) : userListsSent ms = [] := by
  refine List.filterMap_eq_nil_iff.mpr fun m hm => ?_
  obtain ⟨list, fd, key, rfl⟩ := h m hm
  rfl

/-- The messages to `cur` that are sent when it is announced. -/
theorem userListsSent_announced (s : Server) (r : RoomPtr) (rs : StruUserLoginRS) (gs : BaseUserInfo) (cur : Ptr) :
    userListsSent (s.announced r rs gs cur) =
      (userLists ⟨.userInfoListID, rs.userId, rs.roomId, []⟩ 0
        ((s.chatRooms r).userList.userInfoList.ptrs.map (s.chatRooms r).records)).map
          fun m => (gs.userSock, ((s.chatRooms r).records cur).userHashKey, m) := by
  rw [announced, userListsSent_append, userListsSent_broadcastSent, List.nil_append, listsSent, userListsSent,
    List.filterMap_map]
  exact congrFun List.filterMap_eq_map' _

theorem map_userInfos (room : ChatRoom) :
    (room.userList.userInfoList.ptrs.map room.records).map userInfoOf = userInfos room := by
  rw [← StdMap.map_pairs, List.map_map, List.map_map]
  rfl

theorem userLists_start (u roomId : Int) (us : List UserInfo) :
    Batches u roomId (us.map userInfoOf) (userLists ⟨.userInfoListID, u, roomId, []⟩ 0 us) :=
  @userLists_batches u roomId ⟨.userInfoListID, u, roomId, []⟩ 0 ⟨rfl, rfl, rfl⟩ rfl (by decide) us

theorem batches_userInfos (room : ChatRoom) (u roomId : Int) : Batches u roomId (userInfos room)
    (userLists ⟨.userInfoListID, u, roomId, []⟩ 0 (room.userList.userInfoList.ptrs.map room.records)) := by
  rw [← map_userInfos]
  exact userLists_start u roomId _

/-- An entry is for one of the users. -/
theorem mem_userLists {us : List UserInfo} {i : StruUserInfo}
    (hm : m ∈ userLists ⟨.userInfoListID, u, roomId, []⟩ 0 us) (hi : i ∈ m.userInfoList) : ∃ v ∈ us, userInfoOf v = i := by
  have hall : i ∈ us.map userInfoOf := by
    rw [← (userLists_start u roomId us).entries]
    exact List.mem_flatMap.mpr ⟨m, hm, hi⟩
  exact List.mem_map.mp hall

theorem userInfos_congr (hrec : room'.records = room.records)
    (hptr : ∀ u, room'.userList.userInfoList.ptr u = room.userList.userInfoList.ptr u) : userInfos room' = userInfos room := by
  rw [userInfos, StdMap.pairs_congr hptr, hrec]
  rfl

/-- The record of each user has the user's id. -/
def OnlineOwned (room : ChatRoom) : Prop :=
  ∀ {u : Int} {p : Ptr}, room.userList.userInfoList.ptr u = some p → (room.records p).userId = u

theorem map_userId (h : OnlineOwned room) :
    (ownInfos room).map StruUserInfo.userId = room.userList.userInfoList.pairs.map Prod.fst := by
  rw [ownInfos, List.map_map]
  exact List.map_congr_left fun e he => h (StdMap.mem_pairs.mp he)

theorem ownInfos_sorted (h : OnlineOwned room) : (ownInfos room).Pairwise fun a b => a.userId < b.userId := by
  refine List.pairwise_map.mpr (room.userList.userInfoList.pairs_sorted.imp_of_mem fun {a b} ha hb hab => ?_)
  show (room.records a.2).userId < (room.records b.2).userId
  rw [h (StdMap.mem_pairs.mp ha), h (StdMap.mem_pairs.mp hb)]
  exact hab

/-! ### Names -/

theorem lowByte_eq_zero_iff (v : Int) : (cint v).extractLsb' 0 8 = 0 ↔ v % 256 = 0 := by
  rw [← BitVec.toNat_inj, BitVec.extractLsb'_toNat, cint, BitVec.toNat_ofInt]
  show ((v % ↑(2 ^ 32)).toNat >>> 0) % 2 ^ 8 = 0 ↔ _
  rw [Nat.shiftRight_zero]
  omega

/-- The byte behind the array is the lowest one of `user_red_d`. -/
theorem nickname_eq_iff (u : UserInfo) : u.nickname = nameOf u ↔ NameEnds u.userNickname u.userRedD := by
  rw [UserInfo.nickname, nameOf, NameEnds, List.takeWhile_append]
  by_cases h0 : 0 ∈ u.userNickname
  · have hlen : ¬ (u.userNickname.takeWhile (· ≠ 0)).length = u.userNickname.length := fun hlen => by
      have hall := List.takeWhile_eq_self_iff.mp ((List.takeWhile_prefix _).eq_of_length hlen) 0 h0
      simp at hall
    rw [if_neg hlen]
    exact iff_of_true rfl (.inl h0)
  · have hself : u.userNickname.takeWhile (· ≠ 0) = u.userNickname :=
      List.takeWhile_eq_self_iff.mpr fun b hb => decide_eq_true fun he => h0 (he ▸ hb)
    rw [hself, if_pos rfl, List.append_right_eq_self, or_iff_right h0, ← lowByte_eq_zero_iff, UserInfo.attributes,
      List.flatMap_cons, leBytes, List.cons_append, List.takeWhile_cons]
    split <;> rename_i h
    · exact iff_of_false (List.cons_ne_nil _ _) (of_decide_eq_true h)
    · exact iff_of_true rfl (not_not.mp fun hne => h (decide_eq_true hne))
theorem userInfoOf_eq_iff (u : UserInfo) : userInfoOf u = ownInfo u ↔ NameEnds u.userNickname u.userRedD := by
  rw [← nickname_eq_iff]
  refine ⟨congrArg StruUserInfo.userAccountName, fun h => ?_⟩
  rw [userInfoOf, h]
  rfl

theorem userInfos_eq_iff (room : ChatRoom) : userInfos room = ownInfos room ↔
    ∀ v j, room.userList.userInfoList.ptr v = some j →
      NameEnds (room.records j).userNickname (room.records j).userRedD := by
  rw [userInfos, ownInfos, List.map_inj_left]
  constructor
  · exact fun h v j hj => (userInfoOf_eq_iff _).mp (h (v, j) (StdMap.mem_pairs.mpr hj))
  · exact fun h e he => (userInfoOf_eq_iff _).mpr (h e.1 e.2 (StdMap.mem_pairs.mp he))

/-- The names of the users once the new one is in the room. -/
theorem CameIn.namesEnd_iff (h : CameIn room room' rs.userId (loginInfo rs (room.records p))) :
    userInfos room' = ownInfos room' ↔ NamesEnd room rs p := by
  rw [userInfos_eq_iff]
  constructor
  · refine fun hall => ⟨fun v j hj => ?_, fun hu => ?_⟩
    · obtain ⟨hj', hrec⟩ := h.kept hj
      rw [← hrec]
      exact hall v j hj'
    · obtain ⟨j, hj, hrec⟩ := h.new hu
      have hnew := hall _ j hj
      rw [hrec] at hnew
      exact hnew
  · rintro ⟨hold, hnew⟩ v j hj
    rcases hu : room.userList.userInfoList.ptr v with _ | k
    · obtain rfl : v = rs.userId := (h.only hj).resolve_right fun hv => by
        rw [hu] at hv
        cases hv
      obtain ⟨k, hk, hrec⟩ := h.new hu
      cases hk.symm.trans hj
      rw [hrec]
      exact hnew hu
    · obtain ⟨hk, hrec⟩ := h.kept hu
      cases hk.symm.trans hj
      rw [hrec]
      exact hold v j hu

/-- The users of the room once the login is done. -/
theorem cameIn_loggedIn {rest : List Ptr} (h : Owned room) (hp : room.preUserList.userInfoList.ptr rs.userId = some p)
    (hq : room.userList.unusedUserInfoList = q :: rest) :
    CameIn room (loggedIn room rs p q rest) rs.userId (loginInfo rs (room.records p)) where
  kept {v j} hj := by
    have hmap := ptr_added room.userList.userInfoList rs.userId q v
    refine ⟨hmap.trans ?_, loggedIn_records_of_ne room rs p rest (online_ne_unused h.nodup hj hq)⟩
    split <;> rename_i hv
    · rw [hv, hj]
      rfl
    · exact hj
  new hu := by
    have hmap := ptr_added room.userList.userInfoList rs.userId q rs.userId
    rw [if_pos rfl, hu] at hmap
    exact ⟨q, hmap, loggedIn_records room rs rest (pending_ne_unused h.nodup hp hq)⟩
  only {v j} hj := by
    have hj' : (added room.userList.userInfoList rs.userId q).ptr v = some j := hj
    rw [ptr_added] at hj'
    split at hj' <;> rename_i hv
    · exact .inl hv.symm
    · exact .inr hj'

theorem CameIn.congr {u : Int} {info : UserInfo} {room₁ : ChatRoom} (h : CameIn room room₁ u info)
    (hrec : room'.records = room₁.records)
    (hptr : ∀ v, room'.userList.userInfoList.ptr v = room₁.userList.userInfoList.ptr v) : CameIn room room' u info where
  kept {v j} hj := by
    rw [hptr, hrec]
    exact h.kept hj
  new hu := by
    rw [hptr, hrec]
    exact h.new hu
  only {v j} hj := h.only ((hptr v).symm.trans hj)

/-- What is sent with the answer, besides the messages with users. -/
theorem Answers.userListsSent_eq {t₁ : Server} (h : Answers t₁ t r (t₁.replySent r rs gs p q)) :
    userListsSent t.sent = userListsSent t₁.sent ++
      (userLists ⟨.userInfoListID, rs.userId, rs.roomId, []⟩ 0
        ((t₁.chatRooms r).userList.userInfoList.ptrs.map (t₁.chatRooms r).records)).map
          fun m => (gs.userSock, ((t₁.chatRooms r).records q).userHashKey, m) := by
  obtain ⟨mics, hsent, hmics⟩ := h.sent
  rw [hsent, userListsSent_append, userListsSent_append, userListsSent_mics hmics, List.append_nil,
    ← userListsSent_announced]
  rfl

/-! ### The record for the new user -/

/-- The room, with the record that is made where none is unused. -/
def stocked (room : ChatRoom) (made : Ptr) : ChatRoom :=
  match room.userList.unusedUserInfoList with
  | [] => { room with userList := { room.userList with unusedUserInfoList := [made] } }
  | _ :: _ => room

theorem stocked_unused (room : ChatRoom) (made : Ptr) :
    ∃ q rest, (stocked room made).userList.unusedUserInfoList = q :: rest := by
  rcases h : room.userList.unusedUserInfoList with _ | ⟨q, rest⟩
  · exact ⟨made, [], by rw [stocked, h]⟩
  · exact ⟨q, rest, by rw [stocked, h, h]⟩

/-- Nothing else is different. -/
theorem stocked_frame (room : ChatRoom) (made : Ptr) :
    (stocked room made).userList.userInfoList = room.userList.userInfoList ∧
      (stocked room made).userList.locked = room.userList.locked ∧
      (stocked room made).preUserList = room.preUserList ∧ (stocked room made).records = room.records := by
  unfold stocked
  split <;> exact ⟨rfl, rfl, rfl, rfl⟩

theorem owned_stocked {made : Ptr} (h : Owned room) (hm : made ∉ stock room) : Owned (stocked room made) := by
  obtain ⟨hmap, -, hpre, hrec⟩ := stocked_frame room made
  refine ⟨?_, fun {u p} hp => ?_, fun {u p} hp => ?_, ?_⟩
  · rcases hq : room.userList.unusedUserInfoList with _ | ⟨q, rest⟩
    · have hstock : stock (stocked room made) = made ::ₘ stock room := by
        simp [stocked, stock, hq]
      rw [hstock]
      exact Multiset.nodup_cons.mpr ⟨hm, h.nodup⟩
    · have hsame : stocked room made = room := by rw [stocked, hq]
      rw [hsame]
      exact h.nodup
  · rw [hmap] at hp
    rw [hrec]
    exact h.online hp
  · rw [hpre] at hp
    rw [hrec]
    exact h.pending hp
  · rw [hpre]
    exact h.preLocked

/-- A reply where a record is made is one where it is the unused one. -/
theorem wp_clientLoginRSOrNew {made : Ptr} {Q : Unit → Server → Prop} {B : Server → Prop} {F : Prop}
    (hr : s.room rs.roomId = some r) (hp : (s.chatRooms r).preUserList.userInfoList.ptr rs.userId = some p)
    (hpre : (s.chatRooms r).preUserList.locked = false) (hl : (s.chatRooms r).userList.locked = false)
    (h1 : rs.result = 1) : wp (clientLoginRSOf (newUserInfoOrNew made) rs) Q B F s ↔
      wp (clientLoginRS rs) Q B F (s.withRoom r (stocked (s.chatRooms r) made)) := by
  obtain ⟨-, hlocked, hpreList, -⟩ := stocked_frame (s.chatRooms r) made
  have hr' : (s.withRoom r (stocked (s.chatRooms r) made)).room rs.roomId = some r := hr
  rw [wp_clientLoginRSOf (handsOut_newUserInfoOrNew made), wp_clientLoginRS, hr, hr']
  dsimp only
  simp only [withRoom_same, hpreList, hlocked, hpre, hl, Bool.false_eq_true, if_false, hp, h1, if_true]
  rcases hq : (s.chatRooms r).userList.unusedUserInfoList with _ | ⟨q, rest⟩
  · simp only [stocked, hq, frontOr, withRoom_withRoom]
    rfl
  · simp only [stocked, hq, frontOr, withRoom_withRoom]

/-- A successful reply in a room without `NULL` entries, to a user whose gate is registered. -/
theorem clientLoginRSOrNew_sends {made : Ptr} (h : Owned (s.chatRooms r)) (hmade : made ∉ stock (s.chatRooms r))
    (hl : (s.chatRooms r).userList.locked = false)
    (hn : ¬ none ∈ (s.chatRooms r).userList.userInfoList.values) (hr : s.room rs.roomId = some r)
    (hp : (s.chatRooms r).preUserList.userInfoList.ptr rs.userId = some p) (h1 : rs.result = 1)
    (hg : s.gate ((s.chatRooms r).records p).gsHashkeyUserOn = some gs) :
    ∃ t ms, clientLoginRSOf (newUserInfoOrNew made) rs s = .done () t ∧ OnlineOwned (t.chatRooms r) ∧
      CameIn (s.chatRooms r) (t.chatRooms r) rs.userId (loginInfo rs ((s.chatRooms r).records p)) ∧
      userListsSent t.sent = userListsSent s.sent ++
        ms.map (fun m => (gs.userSock, ((s.chatRooms r).records p).userHashKey, m)) ∧
      Batches rs.userId rs.roomId (userInfos (t.chatRooms r)) ms := by
  obtain ⟨hmap, hlocked, hpreList, hrecords⟩ := stocked_frame (s.chatRooms r) made
  obtain ⟨q, rest, hq⟩ := stocked_unused (s.chatRooms r) made
  have howned := owned_stocked h hmade
  have hsame := withRoom_same s r (stocked (s.chatRooms r) made)
  have hp' : (stocked (s.chatRooms r) made).preUserList.userInfoList.ptr rs.userId = some p := by
    rw [hpreList]
    exact hp
  have hsends := clientLoginRS_sends (s := s.withRoom r (stocked (s.chatRooms r) made)) (hsame.symm ▸ howned)
    (by rw [hsame, hlocked]; exact hl) (by rw [hsame, hmap]; exact hn) hr (by rw [hsame]; exact hp') h1
    (by rw [hsame, hrecords]; exact hg) (by rw [hsame]; exact hq)
  obtain ⟨t, hdone, ht⟩ := wp_total_unit.mp ((wp_clientLoginRSOrNew hr hp h.preLocked hl h1).mpr hsends)
  have hrec := ht.records
  have hptr := ht.online
  have hlists := ht.userListsSent_eq
  simp only [withRoom_same] at hrec hptr hlists
  have hlogged := howned.loggedIn hp' hq
  have hbatches := batches_userInfos (loggedIn (stocked (s.chatRooms r) made) rs p q rest) rs.userId rs.roomId
  rw [← userInfos_congr hrec hptr] at hbatches
  refine ⟨t, _, hdone, fun {u j} hj => ?_, ?_, ?_, hbatches⟩
  · rw [hrec]
    exact hlogged.online ((hptr u).symm.trans hj)
  · have hcame := (cameIn_loggedIn howned hp' hq).congr hrec hptr
    exact ⟨fun hj => by simpa only [hmap, hrecords] using hcame.kept (by rw [hmap]; exact hj),
      fun hu => by simpa only [hmap, hrecords] using hcame.new (by rw [hmap]; exact hu),
      fun hj => by simpa only [hmap] using hcame.only hj⟩
  · rw [hlists, loggedIn_records _ rs rest (pending_ne_unused howned.nodup hp' hq), ← hrecords]
    rfl

/-- The messages determine the entries. -/
theorem Batches.entries_eq (h : Batches u roomId infos ms) (h' : Batches u roomId infos' ms) : infos = infos' :=
  h.entries.symm.trans h'.entries

/-- A successful reply in a room without `NULL` entries, to a user whose gate is registered. -/
theorem listsUsers_iff (hs : Reachable s) (hn : ∀ u, (s.chatRooms r).userList.userInfoList.find? u ≠ some none)
    (hr : s.room rs.roomId = some r) (hp : (s.chatRooms r).preUserList.userInfoList.ptr rs.userId = some p)
    (h1 : rs.result = 1) (hg : s.gate ((s.chatRooms r).records p).gsHashkeyUserOn = some gs) {made : Ptr}
    (hmade : made ∉ stock (s.chatRooms r)) : ListsUsers made s r rs p gs ↔ NamesEnd (s.chatRooms r) rs p := by
  have howned := owned_of_reachable hs r
  have hfull : ¬ none ∈ (s.chatRooms r).userList.userInfoList.values := fun h => by
    obtain ⟨v, hv⟩ := StdMap.mem_values.mp h
    exact hn v hv
  have hl : (s.chatRooms r).userList.locked = false :=
    eq_false_of_ne_true fun h => hfull (stoppedAtNull_of_reachable hs r h)
  obtain ⟨t, ms, hdone, honline, hcame, hsent, hbatches⟩ := clientLoginRSOrNew_sends howned hmade hl hfull hr hp h1 hg
  rw [← hcame.namesEnd_iff]
  constructor
  · rintro ⟨t', ms', hdone', -, hsent', hbatches', -⟩
    cases hdone.symm.trans hdone'
    have hms : ms = ms' := by
      have hinj : Function.Injective fun m : StruUserInfoListID =>
          (gs.userSock, ((s.chatRooms r).records p).userHashKey, m) := fun m m' h => (Prod.mk.inj (Prod.mk.inj h).2).2
      exact List.map_injective_iff.mpr hinj (List.append_cancel_left (hsent.symm.trans hsent'))
    rw [← hms] at hbatches'
    exact hbatches.entries_eq hbatches'
  · intro heq
    rw [heq] at hbatches
    exact ⟨t, ms, hdone, hcame, hsent, hbatches, map_userId honline, ownInfos_sorted honline⟩

/-- A record that nobody has. -/
theorem exists_made (room : ChatRoom) : ∃ made, made ∉ stock room := by
  obtain ⟨made, h⟩ := Infinite.exists_notMem_finset (stock room).toFinset
  exact ⟨made, fun hm => h (Multiset.mem_toFinset.mpr hm)⟩

/-- The user 1 is in the room 2, and the user 3 logs in. -/
theorem listsUsers_iff_second : ∃ s made, run .new (firstLogin ++ [requestOf 5 9 3 2]) = some s ∧
    (s.chatRooms 0).userList.userInfoList.ptr 1 = some 1 ∧
    ListsUsers made s 0 ⟨.userLoginRS, 3, 2, 1, 0, 0, 0, 0, 0, 0, 0, 0, 0, 0, 0⟩ 2 ⟨50, 5⟩ := by
  have hrun : ∃ s, s ∈ run .new (firstLogin ++ [requestOf 5 9 3 2]) ∧ s.room 2 = some 0 ∧
      ¬ none ∈ (s.chatRooms 0).userList.userInfoList.values ∧
      (s.chatRooms 0).userList.userInfoList.pairs = [(1, 1)] ∧
      (s.chatRooms 0).preUserList.userInfoList.ptr 3 = some 2 ∧
      s.gate ((s.chatRooms 0).records 2).gsHashkeyUserOn = some ⟨50, 5⟩ ∧
      0 ∈ ((s.chatRooms 0).records 1).userNickname ∧ 0 ∈ ((s.chatRooms 0).records 2).userNickname := by
    decide +kernel
  obtain ⟨s, hs, hr, hn, hon, hp, hg, h1, h2⟩ := hrun
  obtain ⟨made, hmade⟩ := exists_made (s.chatRooms 0)
  have hfull (u : Int) : (s.chatRooms 0).userList.userInfoList.find? u ≠ some none :=
    fun hu => hn (StdMap.mem_values.mpr ⟨u, hu⟩)
  refine ⟨s, made, hs, ?_, (listsUsers_iff ⟨_, hs⟩ hfull hr hp rfl hg hmade).mpr ⟨fun v j hj => ?_, fun _ => .inl h2⟩⟩
  · exact StdMap.mem_pairs.mp (hon ▸ List.mem_cons_self)
  · rw [← StdMap.mem_pairs, hon, List.mem_singleton, Prod.mk.injEq] at hj
    rw [hj.2]
    exact .inl h1

/-- A name of 32 characters, which fills the array. -/
def fullName : List Byte := List.replicate 32 97

/-- The user 1 has it. -/
def fullNameRequest : Event := .message (.clientLoginRQ ⟨[], 7, 5, 0, [], []⟩ ⟨1, 2, fullName⟩)

/-- The first byte of its `user_red_d`, 5, is the 33rd of the name in its entry. -/
theorem not_listsUsers_fullName : ∃ s, run .new [.connect 5 50, fullNameRequest] = some s ∧ s.room 2 = some 0 ∧
    (∀ u, (s.chatRooms 0).userList.userInfoList.find? u ≠ some none) ∧
    (s.chatRooms 0).preUserList.userInfoList.ptr 1 = some 0 ∧
    s.gate ((s.chatRooms 0).records 0).gsHashkeyUserOn = some ⟨50, 5⟩ ∧
    (loginInfo ⟨.userLoginRS, 1, 2, 1, 5, 0, 0, 0, 0, 0, 0, 0, 0, 0, 0⟩ ((s.chatRooms 0).records 0)).nickname =
      fullName ++ [5] ∧
    ∀ made, made ∉ stock (s.chatRooms 0) →
      ¬ ListsUsers made s 0 ⟨.userLoginRS, 1, 2, 1, 5, 0, 0, 0, 0, 0, 0, 0, 0, 0, 0⟩ 0 ⟨50, 5⟩ := by
  have hrun : ∃ s, s ∈ run .new [.connect 5 50, fullNameRequest] ∧ s.room 2 = some 0 ∧
      ¬ none ∈ (s.chatRooms 0).userList.userInfoList.values ∧
      (s.chatRooms 0).preUserList.userInfoList.ptr 1 = some 0 ∧
      s.gate ((s.chatRooms 0).records 0).gsHashkeyUserOn = some ⟨50, 5⟩ ∧
      (s.chatRooms 0).userList.userInfoList.ptr 1 = none ∧ ((s.chatRooms 0).records 0).userNickname = fullName ∧
      (loginInfo ⟨.userLoginRS, 1, 2, 1, 5, 0, 0, 0, 0, 0, 0, 0, 0, 0, 0⟩ ((s.chatRooms 0).records 0)).nickname =
        fullName ++ [5] := by
    decide +kernel
  obtain ⟨s, hs, hr, hn, hp, hg, hno, hname, hentry⟩ := hrun
  have hfull (u : Int) : (s.chatRooms 0).userList.userInfoList.find? u ≠ some none :=
    fun hu => hn (StdMap.mem_values.mpr ⟨u, hu⟩)
  refine ⟨s, hs, hr, hfull, hp, hg, hentry, fun made hmade hlists => ?_⟩
  have hends := ((listsUsers_iff ⟨_, hs⟩ hfull hr hp rfl hg hmade).mp hlists).2 hno
  rw [hname] at hends
  exact absurd hends (by unfold NameEnds; decide)

end Miku.RoomServer.Server
