import MikuServer.Proof.RoomInvariant

/-!
# Replies of the center server

`ClientLoginRS::Execute` and `UserGiveGiftRS::Execute` use the gate of a user,
and the user a login makes, in branches that do not look whether there is one.
`reply_safe_iff` says in which states a reply is handled without a fault.
-/

namespace Miku.RoomServer

open Act UserInfoList ChatRoom

namespace Server

variable {s : Server} {r : RoomPtr} {rs : StruUserLoginRS} {cur p : Ptr}

/-- The end of a login that succeeded, once the users are sent. -/
theorem safe_end (hp : (s.chatRooms r).preUserList.locked = false) {gs : Option BaseUserInfo}
    (h : gs.isSome ∨ (s.chatRooms r).userList.locked) :
    wp (do onRoom r (removePreUser rs.userId); sendMicList r gs (some cur)) (fun _ _ => True) (fun _ => True) False s := by
  have hmic (room : ChatRoom) (hl : room.userList.locked = (s.chatRooms r).userList.locked) :
      wp (sendMicList r gs (some cur)) (fun _ _ => True) (fun _ => True) False (s.withRoom r room) := by
    rw [wp_sendMicList, withRoom_same, hl]
    split
    · trivial
    · dsimp only
      split
      · trivial
      · rcases gs with _ | g
        · simp_all
        · trivial
  rw [wp_bind, wp_onRoom, wp_removePreUser, hp, if_neg Bool.false_ne_true]
  rcases (s.chatRooms r).preUserList.userInfoList.ptr rs.userId with _ | p
  · exact hmic _ rfl
  · exact hmic _ rfl

/-- The list of the users, sent to a gate that may be `NULL`, and the end of the login. -/
theorem safe_sendUserList (hp : (s.chatRooms r).preUserList.locked = false) {gs : Option BaseUserInfo}
    (hv : (s.chatRooms r).userList.userInfoList.values ≠ []) :
    wp (sendUserList r rs gs cur)
        (fun _ => wp (do onRoom r (removePreUser rs.userId); sendMicList r gs (some cur)) (fun _ _ => True)
          (fun _ => True) False) (fun _ => True) False s ↔
      (s.chatRooms r).userList.locked ∨ gs.isSome ∨ (s.chatRooms r).userList.userInfoList.values.head?.join = none := by
  rw [wp_sendUserList]
  split <;> rename_i hl
  · simp [hl]
  rcases hh : (s.chatRooms r).userList.userInfoList.values.head?.join with _ | v
  · have hn : none ∈ (s.chatRooms r).userList.userInfoList.values := by
      obtain ⟨v, vs, hvs⟩ := List.exists_cons_of_ne_nil hv
      rw [hvs, List.head?_cons, Option.join_some] at hh
      rw [hvs, hh]
      exact List.mem_cons_self
    have hw : ((s.withList r (s.chatRooms r).userList.walked).chatRooms r).userList.locked := by
      rw [withList_list]
      exact (walked_locked (Bool.eq_false_of_not_eq_true hl)).mpr hn
    have hp' : ((s.withList r (s.chatRooms r).userList.walked).chatRooms r).preUserList.locked = false := by
      simpa [withList] using hp
    exact iff_of_true (safe_end hp' (.inr hw)) (.inr (.inr rfl))
  · rcases gs with _ | g
    · simp [hl]
    · have hp' : ((s.listSent r rs g cur).chatRooms r).preUserList.locked = false := by
        simpa [withList] using hp
      exact iff_of_true (safe_end hp' (.inl rfl)) (.inr (.inl rfl))

/-- A login that succeeded is answered, in a room with `NULL` entries or without. -/
theorem safe_answerLogin (hr : s.room rs.roomId = some r) (hl : (s.chatRooms r).userList.locked = false)
    (hp : (s.chatRooms r).preUserList.locked = false) (hv : (s.chatRooms r).userList.userInfoList.values ≠ []) :
    Safe (answerLogin r rs p (some cur)) s ↔
      (s.gate ((s.chatRooms r).records p).gsHashkeyUserOn).isSome ∨
        (s.chatRooms r).userList.userInfoList.values.head?.join = none ∨
        rs.roomId ≠ 0 ∧ none ∈ (s.chatRooms r).userList.userInfoList.values := by
  rw [Safe, answerLogin, wp_bind, wp_replyLogin]
  generalize s.gate ((s.chatRooms r).records p).gsHashkeyUserOn = gs
  rw [announceLogin, wp_bind, wp_bind, wp_record, wp_bind, wp_broadcast, replied_room, hr]
  split <;> rename_i h0
  · have hp' : ((s.replied r rs p).chatRooms r).preUserList.locked = false := hp
    refine (safe_sendUserList hp' hv).trans ?_
    simp [h0, hl]
  · have hb : ((s.replied r rs p).broadcasted r (.userInfo (userInfoOf (((s.replied r rs p).chatRooms r).records cur)))
        .userInfo).chatRooms r = { s.chatRooms r with userList := (s.chatRooms r).userList.walked } := by
      rw [broadcasted_chatRooms, withList, withRoom_same]
      rfl
    have hl' : ¬ ((s.replied r rs p).chatRooms r).userList.locked = true := by simp [hl]
    simp only [if_neg hl']
    rw [safe_sendUserList, hb]
    · simp only [walked_userInfoList, walked_locked hl, ne_eq, h0, not_false_eq_true, true_and]
      tauto
    · rw [hb]
      exact hp
    · rw [hb, walked_userInfoList]
      exact hv

/-- After a login that failed the microphone holders are for a user that is `NULL`. -/
theorem safe_answerLogin_none (hp : (s.chatRooms r).preUserList.locked = false) :
    Safe (answerLogin r rs p none) s ↔ (s.chatRooms r).videoChannelList.toList = [] := by
  have hmic (room : ChatRoom) (gs : Option BaseUserInfo)
      (hv : room.videoChannelList = (s.chatRooms r).videoChannelList) :
      wp (sendMicList r gs none) (fun _ _ => True) (fun _ => True) False ((s.replied r rs p).withRoom r room) ↔
        (s.chatRooms r).videoChannelList.toList = [] := by
    rw [wp_sendMicList, withRoom_same, hv]
    split <;> simp_all
  rw [Safe, answerLogin, wp_bind, wp_replyLogin, announceLogin, wp_bind, wp_pure, wp_bind, wp_onRoom,
    replied_chatRooms, wp_removePreUser, hp, if_neg Bool.false_ne_true]
  rcases (s.chatRooms r).preUserList.userInfoList.ptr rs.userId with _ | p
  · exact hmic _ _ rfl
  · exact hmic _ _ rfl

/-- The hash key of the gate that a reply for the pending record `p` is for.
`NewUserInfo` clears the record it takes. -/
def replyKey (room : ChatRoom) (p : Ptr) : Int :=
  if room.userList.unusedUserInfoList.head? = some p then 0 else (room.records p).gsHashkeyUserOn

/-- The entry of the least user id is `NULL`, and is not that of `u`. -/
def FirstNull (m : StdMap (Option Ptr)) (u : Int) : Prop :=
  ∃ v < u, m.find? v = some none ∧ ∀ j x, m.find? j = some x → v ≤ j

/-- A loop over the users stops before its end when `u` is in the room. -/
def StopsEarly (m : StdMap (Option Ptr)) (roomId u : Int) : Prop :=
  FirstNull m u ∨ roomId ≠ 0 ∧ ∃ v ≠ u, m.find? v = some none

/-- What a login that succeeded needs, for the pending record `p`. -/
def SuccessAnswered (s : Server) (room : ChatRoom) (rs : StruUserLoginRS) (p : Ptr) : Prop :=
  room.userList.locked = true ∨ room.userList.unusedUserInfoList ≠ [] ∧
    ((s.gate (replyKey room p)).isSome ∨ StopsEarly room.userList.userInfoList rs.roomId rs.userId)

/-- The reply finds no pending user, or its gate, or, if the login failed, nobody at a microphone. -/
def LoginAnswered (s : Server) (rs : StruUserLoginRS) : Prop :=
  ∀ r p, s.room rs.roomId = some r → (s.chatRooms r).preUserList.userInfoList.ptr rs.userId = some p →
    (s.chatRooms r).preUserList.locked = false →
    if rs.result = 1 then SuccessAnswered s (s.chatRooms r) rs p
    else ∀ u, (s.chatRooms r).videoChannelList.find? u = none

/-- The reply finds no room or users, or is broadcast, or finds its gate. -/
def GiftAnswered (s : Server) (rs : StruUserGiveGiftRS) : Prop :=
  ∀ r p q, s.room rs.roomId = some r → (s.chatRooms r).userList.userInfoList.ptr rs.userId = some p →
    (s.chatRooms r).userList.userInfoList.ptr rs.dstUserId = some q → (s.chatRooms r).userList.locked = false →
    rs.result ≠ 0 ∨ (s.gate ((s.chatRooms r).records p).gsHashkeyUserOn).isSome

theorem head?_added {m : StdMap (Option Ptr)} {u : Int} {q : Ptr} :
    (added m u q).values.head?.join = none ↔ FirstNull m u := by
  have hu : (added m u q).find? u = some (some ((m.ptr u).getD q)) := by simp [find?_added]
  obtain ⟨v, vs, hvs⟩ := List.exists_cons_of_ne_nil (values_added_ne_nil m u q)
  have hh : (added m u q).values.head?.join = none ↔ (added m u q).values.head? = some none := by
    rw [hvs]
    simp
  rw [hh, StdMap.head?_values]
  refine ⟨fun ⟨k, hk, hmin⟩ => ?_, fun ⟨k, hlt, hk, hmin⟩ => ?_⟩
  · have hku : u ≠ k := fun e => by
      rw [← e, hu] at hk
      cases hk
    have hle := hmin u _ hu
    rw [find?_added, if_neg hku] at hk
    refine ⟨k, by omega, hk, fun j x hj => ?_⟩
    by_cases hju : u = j
    · omega
    · exact hmin j x (by rw [find?_added, if_neg hju, hj])
  · refine ⟨k, by rw [find?_added, if_neg (by omega), hk], fun j x hj => ?_⟩
    rw [find?_added] at hj
    split at hj
    · omega
    · exact hmin j x hj

theorem loggedIn_gsHashkey (room : ChatRoom) (rs : StruUserLoginRS) (p q : Ptr) (rest : List Ptr)
    (hq : room.userList.unusedUserInfoList = q :: rest) :
    ((loggedIn room rs p q rest).records p).gsHashkeyUserOn = replyKey room p := by
  have hkey : replyKey room p = if q = p then 0 else (room.records p).gsHashkeyUserOn := by
    simp [replyKey, hq]
  rw [hkey]
  by_cases h : p = q
  · subst h
    simp [loggedIn, store, took, loginInfo, UserInfo.clear]
  · simp [loggedIn, store, took, Function.update_of_ne h, Ne.symm h]

theorem login_safe_iff (s : Server) (rs : StruUserLoginRS) : Safe (clientLoginRS rs) s ↔ LoginAnswered s rs := by
  rw [Safe, wp_clientLoginRS]
  rcases hr : s.room rs.roomId with _ | r
  · exact iff_of_true trivial fun r p h => absurd (h.symm.trans hr) (Option.some_ne_none r)
  dsimp only
  have hanswered : LoginAnswered s rs ↔ ∀ p, (s.chatRooms r).preUserList.userInfoList.ptr rs.userId = some p →
      (s.chatRooms r).preUserList.locked = false → if rs.result = 1 then SuccessAnswered s (s.chatRooms r) rs p
        else ∀ u, (s.chatRooms r).videoChannelList.find? u = none :=
    ⟨fun h p hp hl => h r p hr hp hl, fun h r' p hr' hp hl => by
      cases hr.symm.trans hr'
      exact h p hp hl⟩
  rw [hanswered]
  split <;> rename_i hpre
  · exact iff_of_true trivial fun p _ hl => by simp [hl] at hpre
  have hpre' : (s.chatRooms r).preUserList.locked = false := Bool.eq_false_of_not_eq_true hpre
  rcases hp : (s.chatRooms r).preUserList.userInfoList.ptr rs.userId with _ | p
  · exact iff_of_true trivial fun p h => absurd h.symm (Option.some_ne_none p)
  simp only [Option.some.injEq, forall_eq', hpre', forall_const]
  split
  · rw [SuccessAnswered]
    split <;> rename_i hl
    · exact iff_of_true trivial (.inl hl)
    rcases hq : (s.chatRooms r).userList.unusedUserInfoList with _ | ⟨q, rest⟩
    · simp [hl]
    have hr' : (s.withRoom r (loggedIn (s.chatRooms r) rs p q rest)).room rs.roomId = some r := hr
    have hsame := withRoom_same s r (loggedIn (s.chatRooms r) rs p q rest)
    have hlist : (loggedIn (s.chatRooms r) rs p q rest).userList.userInfoList =
        added (s.chatRooms r).userList.userInfoList rs.userId q := rfl
    refine (safe_answerLogin hr' ?_ ?_ ?_).trans ?_ <;> rw [hsame]
    · exact Bool.eq_false_of_not_eq_true hl
    · exact hpre'
    · rw [hlist]
      exact values_added_ne_nil _ _ _
    · rw [loggedIn_gsHashkey _ _ _ _ _ hq, hlist, head?_added, none_mem_added]
      simp [hl, StopsEarly]
  · exact (safe_answerLogin_none hpre').trans StdMap.toList_eq_nil

theorem gift_safe_iff (s : Server) (rs : StruUserGiveGiftRS) : Safe (userGiveGiftRS rs) s ↔ GiftAnswered s rs := by
  rw [Safe, userGiveGiftRS, wp_forRoomUser]
  rcases hr : s.room rs.roomId with _ | r
  · exact iff_of_true trivial fun r p q h => absurd (h.symm.trans hr) (Option.some_ne_none r)
  dsimp only
  have hanswered : GiftAnswered s rs ↔ (s.chatRooms r).userList.locked = false →
      ∀ p, (s.chatRooms r).userList.userInfoList.ptr rs.userId = some p →
      ∀ q, (s.chatRooms r).userList.userInfoList.ptr rs.dstUserId = some q →
      rs.result ≠ 0 ∨ (s.gate ((s.chatRooms r).records p).gsHashkeyUserOn).isSome :=
    ⟨fun h hl p hp q hq => h r p q hr hp hq hl, fun h r' p q hr' hp hq hl => by
      cases hr.symm.trans hr'
      exact h hl p hp q hq⟩
  rw [hanswered]
  split <;> rename_i hl
  · exact iff_of_true trivial fun h => by simp [h] at hl
  have hl' : (s.chatRooms r).userList.locked = false := Bool.eq_false_of_not_eq_true hl
  simp only [hl', forall_const]
  rcases hp : (s.chatRooms r).userList.userInfoList.ptr rs.userId with _ | p
  · exact iff_of_true trivial fun p h => absurd h.symm (Option.some_ne_none p)
  dsimp only
  rw [wp_bind, wp_onRoom, ChatRoom.wp_getUserInfo, if_neg hl]
  rcases (s.chatRooms r).userList.userInfoList.ptr rs.dstUserId with _ | q
  · exact iff_of_true trivial fun _ _ q h => absurd h.symm (Option.some_ne_none q)
  simp only [Option.some.injEq, forall_eq']
  rw [wp_bind, wp_record, wp_bind, wp_getUserByHashkey, withRoom_gate, withRoom_same]
  split <;> rename_i h0
  · rw [wp_bind, wp_deref]
    rcases s.gate ((s.chatRooms r).records p).gsHashkeyUserOn with _ | g <;> simp [h0]
  · refine iff_of_true ?_ (.inl h0)
    rw [wp_bind, wp_onRoom, wp_modify, wp_bind, wp_broadcast]
    split
    · trivial
    · split
      · trivial
      · split <;> trivial

/-- A reply of the center server is handled without a fault exactly in these states. -/
theorem reply_safe_iff (s : Server) :
    (∀ rs, Safe (clientLoginRS rs) s ↔ LoginAnswered s rs) ∧
      ∀ rs, Safe (userGiveGiftRS rs) s ↔ GiftAnswered s rs :=
  ⟨login_safe_iff s, gift_safe_iff s⟩

/-- The gate is gone when the login succeeds; the login fails where a user has asked for a
microphone; the gate is gone when the gift is refused. -/
theorem not_safe_reply :
    (∃ s rs, Reachable s ∧ rs.result = 1 ∧ ¬ Safe (clientLoginRS rs) s) ∧
      (∃ s rs, Reachable s ∧ rs.result = 0 ∧ ¬ Safe (clientLoginRS rs) s) ∧
      ∃ s rs, Reachable s ∧ rs.result = 0 ∧ ¬ Safe (userGiveGiftRS rs) s := by
  have hgone : ∃ s, s ∈ run .new [.connect 5 50, requestOf 5 7 1 2, .disconnect 5] ∧
      step s (replyOf 1 2 1) = none := by
    decide +kernel
  have hfailed : ∃ s, s ∈ run .new (firstLogin ++ [.message (.userApplyMicRQ ⟨1, 2⟩), requestOf 5 8 3 2]) ∧
      step s (replyOf 3 2 0) = none := by
    decide +kernel
  have hgift : ∃ s, s ∈ run .new (firstLogin ++ [.disconnect 5]) ∧
      step s (.message (.userGiveGiftRS ⟨.userGiveGiftRS, 1, 2, 0, [], 1, 0⟩)) = none := by
    decide +kernel
  obtain ⟨s, hs, h1⟩ := hgone
  obtain ⟨t, ht, h2⟩ := hfailed
  obtain ⟨u, hu, h3⟩ := hgift
  exact ⟨⟨s, _, ⟨_, hs⟩, rfl, step_message_eq_none.mp h1⟩, ⟨t, _, ⟨_, ht⟩, rfl, step_message_eq_none.mp h2⟩,
    ⟨u, _, ⟨_, hu⟩, rfl, step_message_eq_none.mp h3⟩⟩

end Server

end Miku.RoomServer
