import MikuServer.Proof.MessageSize
import MikuServer.Proof.UserLists

/-!
# The nickname of a login request

A login request writes its account name into a record, which keeps it until the reply
(`frozen_invariant`), and the reply puts it into every message that names the user
(`reply_names`). The name is stored as it should be exactly if it leaves room for a
NUL, or brings one along (`storesNickname_iff`).
-/

namespace Miku.RoomServer

open Act UserInfoList ChatRoom

variable {room room' : ChatRoom} {r r₀ : RoomPtr} {u v : Int} {p q : Ptr} {rest : List Ptr} {info : UserInfo}

/-! ## A record whose login is pending -/

/-- The record `p` holds `info`, and is neither unused nor of a user in the room. -/
structure Frozen (p : Ptr) (info : UserInfo) (room : ChatRoom) : Prop where
  record : room.records p = info
  unused : p ∉ room.userList.unusedUserInfoList
  offline (u : Int) : room.userList.userInfoList.ptr u ≠ some p

namespace Frozen

theorem of_same (h : Frozen p info room) (hrec : room'.records p = room.records p)
    (hunused : room'.userList.unusedUserInfoList = room.userList.unusedUserInfoList)
    (hptr : ∀ u, room'.userList.userInfoList.ptr u = room.userList.userInfoList.ptr u) : Frozen p info room' where
  record := hrec.trans h.record
  unused := hunused ▸ h.unused
  offline u := hptr u ▸ h.offline u

theorem ne_head (h : Frozen p info room) (hq : room.userList.unusedUserInfoList = q :: rest) : p ≠ q := by
  rintro rfl
  exact h.unused (hq ▸ List.mem_cons_self)

theorem filled (h : Frozen p info room) (tmpPackage : GateRoomServerPack) (rq : StruUserLoginRQ)
    (hq : room.userList.unusedUserInfoList = q :: rest) : Frozen p info (Server.filled room tmpPackage rq q rest) where
  record := (Server.filled_records_of_ne room tmpPackage rq rest (h.ne_head hq)).trans h.record
  unused hin := h.unused (hq ▸ List.mem_cons_of_mem _ hin)
  offline := h.offline

theorem loggedIn {rs : StruUserLoginRS} {j : Ptr} (h : Frozen p info room)
    (hq : room.userList.unusedUserInfoList = q :: rest) : Frozen p info (Server.loggedIn room rs j q rest) where
  record := (Server.loggedIn_records_of_ne room rs j rest (h.ne_head hq)).trans h.record
  unused hin := h.unused (hq ▸ List.mem_cons_of_mem _ hin)
  offline v hv := by
    have hv' : (added room.userList.userInfoList rs.userId q).ptr v = some p := hv
    rw [ptr_added] at hv'
    split at hv'
    · rcases hold : room.userList.userInfoList.ptr rs.userId with _ | k <;> rw [hold] at hv'
      · cases hv'
        exact h.ne_head hq rfl
      · cases hv'
        exact h.offline _ hold
    · exact h.offline v hv'

theorem exited (h : Frozen p info room) (hu : room.userList.userInfoList.ptr u = some q) :
    Frozen p info { room with userList := released room.userList u q } where
  record := h.record
  unused hin := by
    rcases List.mem_append.mp hin with hin | hin
    · exact h.unused hin
    · cases List.mem_singleton.mp hin
      exact h.offline u hu
  offline v hv := h.offline v (StdMap.ptr_of_erase hv)

end Frozen

/-- The record `p` of the room `r₀` is left alone. -/
theorem frozen_invariant (r₀ : RoomPtr) (p : Ptr) (info : UserInfo) :
    Server.RecordInvariant fun r room => Owned room ∧ (r = r₀ → Frozen p info room) where
  lookedUp u h hl := ⟨owned_invariant.lookedUp (r := 0) u h.1 hl,
    fun e => (h.2 e).of_same rfl rfl fun _ => lookedUp_ptr ..⟩
  walked {r room} h hl := by
    refine ⟨owned_invariant.walked (r := 0) h.1 hl, fun e => (h.2 e).of_same rfl ?_ fun v => ?_⟩
    · exact Server.walked_unusedUserInfoList _
    · rw [Server.walked_userInfoList]
  ids roomId sock h := ⟨owned_invariant.ids (r := 0) roomId sock h.1, fun e => (h.2 e).of_same rfl rfl fun _ => rfl⟩
  filled tmpPackage rq h _ hq := ⟨h.1.filled tmpPackage rq hq, fun e => (h.2 e).filled tmpPackage rq hq⟩
  requested tmpPackage rq h _ hq := ⟨h.1.requested tmpPackage rq hq, fun e =>
    ((h.2 e).filled tmpPackage rq hq).of_same rfl rfl fun _ => rfl⟩
  preLookedUp u h := ⟨owned_invariant.preLookedUp (r := 0) u h.1, fun e => (h.2 e).of_same rfl rfl fun _ => rfl⟩
  loggedIn h hp _ hq := ⟨h.1.loggedIn hp hq, fun e => (h.2 e).loggedIn hq⟩
  endedLogin u h _ := ⟨h.1.endedLogin u, fun e => (h.2 e).of_same rfl rfl fun _ => rfl⟩
  released h _ hu := ⟨h.1.exited hu, fun e => (h.2 e).exited hu⟩
  channels n list h := ⟨owned_invariant.channels (r := 0) n list h.1, fun e => (h.2 e).of_same rfl rfl fun _ => rfl⟩
  gift redD h hu := by
    refine ⟨owned_invariant.gift (r := 0) redD h.1 hu, fun e => (h.2 e).of_same ?_ rfl fun _ => rfl⟩
    exact Function.update_of_ne (fun he => (h.2 e).offline _ (he ▸ hu)) ..

/-! ## The names in the messages of a reply -/

/-- The name that is read back as a C string is the one that was requested, or the beginning of it. -/
def RightName (name n : List Byte) : Prop := (name.length ≤ 31 → 0 ∉ name → n = name) ∧ n <+: name

theorem rightName_takeWhile (name : List Byte) : RightName name (name.takeWhile (· ≠ 0)) := by
  refine ⟨fun _ h0 => List.takeWhile_eq_self_iff.mpr fun b hb => ?_, List.takeWhile_prefix _⟩
  exact decide_eq_true fun e => h0 (e ▸ hb)

/-- A nickname with a NUL ends in its array. -/
theorem nickname_of_mem (h : 0 ∈ info.userNickname) : info.nickname = info.userNickname.takeWhile (· ≠ 0) := by
  obtain ⟨name, rest, e⟩ := List.append_of_mem h
  rw [nickname_eq e, e, List.takeWhile_append]
  split
  · rename_i hall
    rw [List.takeWhile_cons_of_neg (by decide), List.append_nil]
    exact (List.takeWhile_prefix _).eq_of_length hall
  · rfl

namespace Server

variable {s t : Server} {rs : StruUserLoginRS} {cur : Ptr} {name n : List Byte}

/-- The message `m` has `n` as the account name of the user `u`. -/
inductive Names : Sent → Int → List Byte → Prop
  | userInfo {gs : BaseUserInfo} {i : StruUserInfo} {msgId : EnumMsgID} {key : Int} :
    Names (.gate gs (.userInfo i) msgId key) i.userId i.userAccountName
  | userInfoList {list : StruUserInfoListID} {i : StruUserInfo} {msgId : EnumMsgID} {fd key : Int} :
    i ∈ list.userInfoList → Names (.toGS (.userInfoListID list) msgId fd key) i.userId i.userAccountName
  | micInfo {list : StruRoomMicInfoID} {i : StruMicInfo} {msgId : EnumMsgID} {fd key : Int} :
    i ∈ list.micList → Names (.toGS (.roomMicInfoID list) msgId fd key) i.userId i.userAccountName

/-- The message that a user is in the room now. -/
def Announces (m : Sent) : Prop := ∃ gs i msgId key, m = .gate gs (.userInfo i) msgId key

theorem announces_or_toGS {new : Prop} {pack : Pack} {msgId : EnumMsgID} {fd key : Int} :
    Announces (.toGS pack msgId fd key) ∨ new ↔ new :=
  or_iff_right fun ⟨_, _, _, _, e⟩ => by cases e

/-- The name of the user `u` in a message. If `new` is false, only the announcement is looked at. -/
def NamesRight (u : Int) (name : List Byte) (new : Prop) (m : Sent) : Prop :=
  ∀ n, Names m u n → Announces m ∨ new → RightName name n

/-- The record `cur` has the name, and so has that of the user `u` if `new`. -/
structure Carries (room : ChatRoom) (u : Int) (name : List Byte) (new : Prop) (cur : Ptr) : Prop where
  cur : RightName name (room.records cur).nickname
  ids {v : Int} {j : Ptr} : room.userList.userInfoList.ptr v = some j → (room.records j).userId = v
  online {j : Ptr} : new → room.userList.userInfoList.ptr u = some j → RightName name (room.records j).nickname

/-- What is sent from `s` to `t` is of `G`. -/
def SentOnly (G : Sent → Prop) (s t : Server) : Prop := ∃ ms, t.sent = s.sent ++ ms ∧ ∀ m ∈ ms, G m

theorem sentOnly_refl (G : Sent → Prop) (s : Server) : SentOnly G s s :=
  ⟨[], (List.append_nil _).symm, List.forall_mem_nil _⟩

/-- Then the users of the room `r` are the same, too. -/
structure Only (G : Sent → Prop) (s t : Server) (r : RoomPtr) : Prop where
  sent : SentOnly G s t
  records : (t.chatRooms r).records = (s.chatRooms r).records
  online (u : Int) : (t.chatRooms r).userList.userInfoList.ptr u = (s.chatRooms r).userList.userInfoList.ptr u

variable {G : Sent → Prop} {new : Prop} {t' : Server} {ms : List Sent} {l : UserInfoList}

theorem Only.trans (h : Only G s t r) (h' : Only G t t' r) : Only G s t' r where
  sent := by
    obtain ⟨ms, e, hms⟩ := h.sent
    obtain ⟨ms', e', hms'⟩ := h'.sent
    refine ⟨ms ++ ms', by rw [e', e, List.append_assoc], fun m hm => ?_⟩
    exact (List.mem_append.mp hm).elim (hms m) (hms' m)
  records := h'.records.trans h.records
  online u := (h'.online u).trans (h.online u)

theorem only_of_rooms (hsent : t.sent = s.sent ++ ms) (hms : ∀ m ∈ ms, G m)
    (hrooms : t.chatRooms = (s.withList r l).chatRooms)
    (hptr : ∀ u, l.userInfoList.ptr u = (s.chatRooms r).userList.userInfoList.ptr u) : Only G s t r where
  sent := ⟨ms, hsent, hms⟩
  records := by rw [hrooms, withList_records]
  online u := by rw [hrooms, withList_list, hptr]

theorem only_refl (G : Sent → Prop) (s : Server) (r : RoomPtr) : Only G s s r where
  sent := sentOnly_refl G s
  records := rfl
  online _ := rfl

theorem Only.carries (h : Only G s t r) (hc : Carries (s.chatRooms r) u name new cur) :
    Carries (t.chatRooms r) u name new cur where
  cur := h.records ▸ hc.cur
  ids hj := by
    rw [h.records]
    exact hc.ids ((h.online _).symm.trans hj)
  online hnew hj := by
    rw [h.records]
    exact hc.online hnew ((h.online _).symm.trans hj)

/-- A name of a user that is in the room. -/
theorem Carries.right (hc : Carries room u name new cur) {v : Int} {j : Ptr}
    (hj : room.userList.userInfoList.ptr v = some j) (hu : (room.records j).userId = u) (hnew : new) :
    RightName name (room.records j).nickname :=
  hc.online hnew ((hc.ids hj).symm.trans hu ▸ hj)

theorem mem_reached {l : UserInfoList} {j : Ptr} (h : j ∈ l.reached) : ∃ v, l.userInfoList.ptr v = some j := by
  refine StdMap.mem_ptrs.mp ?_
  unfold reached at h
  rw [List.reduceOption_mem_iff] at h
  rw [StdMap.ptrs, List.reduceOption_mem_iff]
  exact (List.takeWhile_sublist _).subset h

/-! ## The parts of a reply -/

/-- What an action sends, done or blocked. -/
def SendsOnly (G : Sent → Prop) (r : RoomPtr) (x : Act Server Unit) (s : Server) : Prop :=
  wp x (fun _ t => Only G s t r) (fun t => Only G s t r) True s

theorem announce_only (hc : Carries (s.chatRooms r) u name new cur) (hr : s.room rs.roomId = some r) :
    wp (sendDataToRoomAllUser (.userInfo (userInfoOf ((s.chatRooms r).records cur))) .userInfo rs.roomId)
      (fun _ t => Only (NamesRight u name new) s t r) (fun t => Only (NamesRight u name new) s t r) True s := by
  rw [wp_broadcast, hr]
  split
  · exact only_refl ..
  dsimp only
  split
  · exact only_refl ..
  refine only_of_rooms (broadcasted_sent ..) (fun m hm n hn _ => ?_) (broadcasted_chatRooms ..) fun v => ?_
  · obtain ⟨j, -, hj⟩ := List.mem_filterMap.mp hm
    obtain ⟨gs, -, rfl⟩ := Option.map_eq_some_iff.mp hj
    cases hn
    exact hc.cur
  · rw [walked_userInfoList]

theorem sendUserList_only (hc : Carries (s.chatRooms r) u name new cur) (gs : Option BaseUserInfo) :
    SendsOnly (NamesRight u name new) r (sendUserList r rs gs cur) s := by
  have hptr (v : Int) : (s.chatRooms r).userList.walked.userInfoList.ptr v =
      (s.chatRooms r).userList.userInfoList.ptr v := by rw [walked_userInfoList]
  rw [SendsOnly, wp_sendUserList]
  split
  · exact only_refl ..
  rcases (s.chatRooms r).userList.userInfoList.values.head?.join with _ | k
  · exact only_of_rooms (List.append_nil _).symm (List.forall_mem_nil _) rfl hptr
  rcases gs with _ | gs
  · trivial
  refine only_of_rooms rfl (fun m hm n hn hnew => ?_) rfl hptr
  obtain ⟨list, hlist, rfl⟩ := List.mem_map.mp hm
  cases hn with
  | userInfoList hi =>
    obtain ⟨_, hin, rfl⟩ := mem_userLists hlist hi
    obtain ⟨j, hj, rfl⟩ := List.mem_map.mp hin
    obtain ⟨v, hv⟩ := mem_reached hj
    exact hc.right hv rfl (announces_or_toGS.mp hnew)

theorem sendMicList_only (hc : Carries (s.chatRooms r) u name new cur) (gs : Option BaseUserInfo) (c : Option Ptr) :
    SendsOnly (NamesRight u name new) r (sendMicList r gs c) s := by
  rw [SendsOnly, wp_sendMicList]
  split
  · exact only_refl ..
  rcases c with _ | c
  · trivial
  dsimp only
  split
  · exact only_refl ..
  rcases gs with _ | gs
  · trivial
  refine only_of_rooms rfl (fun m hm n hn hnew => ?_) rfl fun v => micsLookedUp_ptr ..
  cases List.mem_singleton.mp hm
  cases hn with
  | micInfo hi =>
    obtain ⟨mic, -, hj⟩ := List.mem_filterMap.mp hi
    obtain ⟨j, hv, rfl⟩ := Option.map_eq_some_iff.mp hj
    exact hc.right hv rfl (announces_or_toGS.mp hnew)

theorem replied_only (s : Server) (r : RoomPtr) (rs : StruUserLoginRS) (p : Ptr) :
    Only (NamesRight u name new) s (s.replied r rs p) r := by
  refine only_of_rooms rfl (fun m hm n hn _ => ?_) (by rw [withList_self]; rfl) fun _ => rfl
  obtain ⟨gs, -, rfl⟩ := Option.map_eq_some_iff.mp (Option.mem_toList.mp hm)
  cases hn

theorem SendsOnly.bind {x : Act Server Unit} {f : Unit → Act Server Unit} (hx : SendsOnly G r x s)
    (hf : ∀ t, Only G s t r → SendsOnly G r (f ()) t) : SendsOnly G r (x >>= f) s := by
  rw [SendsOnly, wp_bind]
  refine wp_mono hx (fun _ t ht => ?_) fun _ ht => ht
  exact wp_mono (hf t ht) (fun _ _ h => ht.trans h) fun _ h => ht.trans h

theorem removePreUser_only (s : Server) (r : RoomPtr) (u : Int) : SendsOnly G r (onRoom r (removePreUser u)) s := by
  rw [SendsOnly, wp_onRoom, wp_removePreUser_ended]
  split
  · rw [withRoom_self]
    exact only_refl ..
  · refine ⟨sentOnly_refl G s, ?_, fun v => ?_⟩ <;> rw [withRoom_same] <;> rfl

theorem announceLogin_only (hc : Carries (s.chatRooms r) u name new cur) (hr : s.room rs.roomId = some r)
    (gs : Option BaseUserInfo) : SendsOnly (NamesRight u name new) r (announceLogin r rs gs (some cur)) s := by
  rw [SendsOnly, announceLogin, wp_bind, wp_record, wp_bind]
  refine wp_mono (announce_only hc hr) (fun _ t ht => ?_) fun _ ht => ht
  exact wp_mono (sendUserList_only (ht.carries hc) gs) (fun _ _ h => ht.trans h) fun _ h => ht.trans h

theorem answerLogin_only (hc : Carries (s.chatRooms r) u name new cur) (hr : s.room rs.roomId = some r) (p : Ptr) :
    SendsOnly (NamesRight u name new) r (answerLogin r rs p (some cur)) s := by
  have hreplied : Only (NamesRight u name new) s (s.replied r rs p) r := replied_only s r rs p
  rw [SendsOnly, answerLogin, wp_bind, wp_replyLogin]
  have hrest : SendsOnly (NamesRight u name new) r (do
      announceLogin r rs (s.gate ((s.chatRooms r).records p).gsHashkeyUserOn) (some cur)
      onRoom r (removePreUser rs.userId)
      sendMicList r (s.gate ((s.chatRooms r).records p).gsHashkeyUserOn) (some cur)) (s.replied r rs p) := by
    refine (announceLogin_only (hreplied.carries hc) hr _).bind fun t ht => ?_
    refine (removePreUser_only t r rs.userId).bind fun t' ht' => ?_
    exact sendMicList_only (ht'.carries (ht.carries (hreplied.carries hc))) _ _
  exact wp_mono hrest (fun _ _ h => hreplied.trans h) fun _ h => hreplied.trans h

/-- A successful reply, whose pending record holds `info`. -/
theorem reply_names {p : Ptr} {info : UserInfo} (h : Owned (s.chatRooms r)) (hinfo : (s.chatRooms r).records p = info)
    (hname : RightName name info.nickname) (hlogin : (loginInfo rs info).nickname = info.nickname)
    (hr : s.room rs.roomId = some r)
    (hp : (s.chatRooms r).preUserList.userInfoList.ptr rs.userId = some p) (h1 : rs.result = 1)
    (hs : step s (.message (.clientLoginRS rs)) = some t) :
    SentOnly (NamesRight rs.userId name ((s.chatRooms r).userList.userInfoList.ptr rs.userId = none)) s t := by
  refine after_wp (x := clientLoginRS rs) (Q := SentOnly _ s) ?_ hs
  rw [wp_clientLoginRS, hr]
  dsimp only
  rw [h.preLocked, if_neg Bool.false_ne_true, hp]
  dsimp only
  rw [if_pos h1]
  split
  · exact sentOnly_refl _ s
  rcases hq : (s.chatRooms r).userList.unusedUserInfoList with _ | ⟨q, rest⟩
  · trivial
  dsimp only
  have hne := pending_ne_unused h.nodup hp hq
  have howned := h.loggedIn hp hq
  have hcur : RightName name ((loggedIn (s.chatRooms r) rs p q rest).records q).nickname := by
    rw [loggedIn_records _ rs rest hne, hinfo, hlogin]
    exact hname
  have hcarries : Carries ((s.withRoom r (loggedIn (s.chatRooms r) rs p q rest)).chatRooms r) rs.userId name
      ((s.chatRooms r).userList.userInfoList.ptr rs.userId = none) q := by
    rw [withRoom_same]
    refine ⟨hcur, howned.online, fun {j} hnew hj => ?_⟩
    have hj' : (added (s.chatRooms r).userList.userInfoList rs.userId q).ptr rs.userId = some j := hj
    rw [ptr_added, if_pos rfl, hnew] at hj'
    cases hj'
    exact hcur
  exact wp_mono (answerLogin_only hcarries hr p) (fun _ _ ht => ht.sent) fun _ ht => ht.sent

/-! ## A request -/

variable {s₁ : Server} {tmpPackage : GateRoomServerPack} {rq : StruUserLoginRQ}

/-- How `ClientLoginRQ::Execute` begins: the room, and the record that it takes. -/
def takeRecord (roomId : Int) : Act Server (RoomPtr × Option Ptr) := do
  let tmpRoom ← loginRoom roomId
  let tmpUser ← onRoom tmpRoom newUserInfo
  pure (tmpRoom, tmpUser)

/-- The request `rq`, which took the record `p` of the room `r` in `s₁`, writes nothing but the keys, the user's id
and the nickname of this record, and the nickname ends in its array. In every later state in which the record is
pending, a successful reply names the user as it should. -/
def StoresNickname (s s₁ : Server) (r : RoomPtr) (p : Ptr) (tmpPackage : GateRoomServerPack) (rq : StruUserLoginRQ) :
    Prop :=
  ∃ t, clientLoginRQ tmpPackage rq s = .done () t ∧
    (∀ q j, q ≠ r ∨ j ≠ p → (t.chatRooms q).records j = (s₁.chatRooms q).records j) ∧
    ((t.chatRooms r).records p).attributes = ((s₁.chatRooms r).records p).attributes ∧
    ((t.chatRooms r).records p).userNickname.length = 0x20 ∧ 0 ∈ ((t.chatRooms r).records p).userNickname ∧
    ∀ es t₁ rs t₂, run t es = some t₁ → t₁.room rs.roomId = some r →
      (t₁.chatRooms r).preUserList.userInfoList.ptr rs.userId = some p → rs.result = 1 →
      step t₁ (.message (.clientLoginRS rs)) = some t₂ →
      SentOnly (NamesRight rs.userId rq.userAccountName
        ((t₁.chatRooms r).userList.userInfoList.ptr rs.userId = none)) t₁ t₂

/-- The name leaves room for a NUL, or has one and fits. -/
def EndsInArray (name : List Byte) : Prop := name.length < 0x20 ∨ name.length = 0x20 ∧ 0 ∈ name

instance (name : List Byte) : Decidable (EndsInArray name) := inferInstanceAs (Decidable (_ ∨ _))

theorem takeRecord_done (hu : s.roomManager.unusedRoomList = []) {roomId : Int}
    (h : takeRecord roomId s = .done (r, some p) s₁) : (s.entered roomId).1 = r ∧
      ((s.entered roomId).2.chatRooms r).userList.locked = false ∧
      ∃ rest, ((s.entered roomId).2.chatRooms r).userList.unusedUserInfoList = p :: rest ∧
        s₁ = (s.entered roomId).2.withRoom r (((s.entered roomId).2.chatRooms r).took p rest) := by
  have hwp : wp (takeRecord roomId) (fun a t => a = (r, some p) ∧ t = s₁) (fun _ => False) False s :=
    (wp_done h).mpr ⟨rfl, rfl⟩
  rw [takeRecord, wp_bind, wp_loginRoom hu] at hwp
  generalize s.entered roomId = e at hwp ⊢
  obtain ⟨r', t⟩ := e
  rw [wp_bind, wp_onRoom, wp_newUserInfo] at hwp
  dsimp only at hwp ⊢
  split at hwp
  · exact hwp.elim
  rename_i hl
  rcases hq : (t.chatRooms r').userList.unusedUserInfoList with _ | ⟨q, rest⟩ <;> rw [hq] at hwp
  · exact hwp.elim
  obtain ⟨e, rfl⟩ := hwp
  cases e
  exact ⟨rfl, eq_false_of_ne_true hl, rest, hq, rfl⟩

theorem pendingInfo_nickname (tmpPackage : GateRoomServerPack) (h : EndsInArray rq.userAccountName) :
    (pendingInfo tmpPackage rq).userNickname.length = 0x20 ∧ 0 ∈ (pendingInfo tmpPackage rq).userNickname := by
  show (rq.userAccountName ++ List.replicate (0x20 - rq.userAccountName.length) 0).length = 0x20 ∧
    0 ∈ rq.userAccountName ++ List.replicate (0x20 - rq.userAccountName.length) 0
  rw [List.length_append, List.length_replicate, List.mem_append, List.mem_replicate]
  rcases h with h | ⟨h, h0⟩
  · exact ⟨by omega, .inr ⟨by omega, rfl⟩⟩
  · exact ⟨by omega, .inl h0⟩

theorem takeWhile_append_zeros (name : List Byte) (n : Nat) :
    (name ++ List.replicate n 0).takeWhile (· ≠ 0) = name.takeWhile (· ≠ 0) := by
  rw [List.takeWhile_append]
  split
  · rename_i hall
    have hnil : (List.replicate n (0 : Byte)).takeWhile (· ≠ 0) = [] := by
      cases n <;> rfl
    rw [hnil, List.append_nil]
    exact ((List.takeWhile_prefix _).eq_of_length hall).symm
  · rfl

/-- The rest of a request, which has taken the record `p` of the room `r`: a name that does not fit is written past
its array. -/
theorem wp_clientLoginRQ_taken (hs : Reachable s) (h : takeRecord rq.roomId s = .done (r, some p) s₁)
    (tmpPackage : GateRoomServerPack) : ∃ rest,
      ((s.entered rq.roomId).2.chatRooms r).userList.unusedUserInfoList = p :: rest ∧
      s₁ = (s.entered rq.roomId).2.withRoom r (((s.entered rq.roomId).2.chatRooms r).took p rest) ∧
      ∀ Q B F, wp (clientLoginRQ tmpPackage rq) Q B F s ↔
        if rq.userAccountName.length ≤ 0x20 then
          Q () { (s.entered rq.roomId).2.withRoom r
              (requested ((s.entered rq.roomId).2.chatRooms r) tmpPackage rq p rest) with
            sent := (s.entered rq.roomId).2.sent ++ [.center tmpPackage.dataMsg tmpPackage.dataLen.toInt] }
        else F := by
  have hrooms := owned_invariant.reachable (fun _ => owned_new) hs
  obtain ⟨hentered, -⟩ := hrooms.entered (fun {q _} i j hroom => owned_invariant.ids (r := q) i j hroom) rq.roomId
  obtain ⟨hr, hl, rest, hq, hs₁⟩ := takeRecord_done hrooms.unused h
  refine ⟨rest, hq, hs₁, fun Q B F => ?_⟩
  rw [wp_clientLoginRQ hrooms.unused]
  generalize s.entered rq.roomId = e at hr hl hq hentered ⊢
  obtain ⟨r', t⟩ := e
  dsimp only at hr hl hq hentered ⊢
  subst hr
  rw [hl, if_neg Bool.false_ne_true, hq]
  dsimp only
  rw [(hentered.each r').preLocked, if_neg Bool.false_ne_true]

/-- A request whose name fits is handled to the end. -/
theorem request_done (hs : Reachable s) (h : takeRecord rq.roomId s = .done (r, some p) s₁)
    (tmpPackage : GateRoomServerPack) (hlen : rq.userAccountName.length ≤ 0x20) :
    ∃ t, clientLoginRQ tmpPackage rq s = .done () t ∧
      (∀ q j, q ≠ r ∨ j ≠ p → (t.chatRooms q).records j = (s₁.chatRooms q).records j) ∧
      (s₁.chatRooms r).records p = .clear ∧
      Rooms (fun q room => Owned room ∧ (q = r → Frozen p (pendingInfo tmpPackage rq) room)) t := by
  have hrooms := owned_invariant.reachable (fun _ => owned_new) hs
  obtain ⟨hentered, hlt⟩ := hrooms.entered (fun {q _} i j hroom => owned_invariant.ids (r := q) i j hroom) rq.roomId
  rw [(takeRecord_done hrooms.unused h).1] at hlt
  obtain ⟨rest, hq, hs₁, hwp⟩ := wp_clientLoginRQ_taken hs h tmpPackage
  simp only [if_pos hlen] at hwp
  obtain ⟨t, hdone, rfl⟩ := wp_total_unit.mp ((hwp (fun _ t => t = _) _ _).mpr rfl)
  have howned := hentered.each r
  have hfrozen : Frozen p (pendingInfo tmpPackage rq)
      (requested ((s.entered rq.roomId).2.chatRooms r) tmpPackage rq p rest) := by
    have hnodup := (Multiset.nodup_add.mp (Multiset.nodup_add.mp howned.nodup).1).1
    rw [hq, Multiset.coe_nodup, List.nodup_cons] at hnodup
    exact ⟨filled_records .., hnodup.1, fun v hv => online_ne_unused howned.nodup hv hq rfl⟩
  refine ⟨_, hdone, fun q j hqj => ?_, ?_, ?_⟩
  · rw [hs₁]
    by_cases e : q = r
    · subst e
      have hj : j ≠ p := hqj.resolve_left fun h => h rfl
      show (((s.entered rq.roomId).2.withRoom q _).chatRooms q).records j = _
      rw [withRoom_same, withRoom_same]
      exact (filled_records_of_ne _ tmpPackage rq rest hj).trans (Function.update_of_ne hj ..).symm
    · show (((s.entered rq.roomId).2.withRoom r _).chatRooms q).records j = _
      rw [withRoom_other _ e, withRoom_other _ e]
  · rw [hs₁, withRoom_same]
    exact Function.update_self ..
  · have ht := hentered.establish (P := fun q room => Owned room ∧ (q = r → Frozen p (pendingInfo tmpPackage rq) room))
      hlt (fun q hne => ⟨hentered.each q, fun e => absurd e hne⟩) ⟨howned.requested tmpPackage rq hq, fun _ => hfrozen⟩
    exact ht.sent _

theorem length_of_done (hs : Reachable s) (h : takeRecord rq.roomId s = .done (r, some p) s₁)
    (hdone : clientLoginRQ tmpPackage rq s = .done () t) : rq.userAccountName.length ≤ 0x20 := by
  obtain ⟨_, -, -, hwp⟩ := wp_clientLoginRQ_taken hs h tmpPackage
  by_contra hlen
  simp only [if_neg hlen] at hwp
  exact (hwp (fun _ _ => True) (fun _ => True) False).mp ((wp_done hdone).mpr trivial)

theorem endsInArray_of_mem (hlen : rq.userAccountName.length ≤ 0x20)
    (h0 : 0 ∈ (pendingInfo tmpPackage rq).userNickname) : EndsInArray rq.userAccountName := by
  rcases Nat.lt_or_eq_of_le hlen with hlt | heq
  · exact .inl hlt
  · have hname : (0 : Byte) ∈ rq.userAccountName ++ List.replicate (0x20 - rq.userAccountName.length) 0 := h0
    rw [heq, Nat.sub_self, List.replicate_zero, List.append_nil] at hname
    exact .inr ⟨heq, hname⟩

/-- The announced name. -/
theorem pendingInfo_rightName (h0 : 0 ∈ (pendingInfo tmpPackage rq).userNickname) (rs : StruUserLoginRS) :
    RightName rq.userAccountName (pendingInfo tmpPackage rq).nickname ∧
      (loginInfo rs (pendingInfo tmpPackage rq)).nickname = (pendingInfo tmpPackage rq).nickname := by
  have hlogin : 0 ∈ (loginInfo rs (pendingInfo tmpPackage rq)).userNickname := h0
  refine ⟨?_, (nickname_of_mem hlogin).trans (nickname_of_mem h0).symm⟩
  rw [nickname_of_mem h0]
  exact takeWhile_append_zeros rq.userAccountName _ ▸ rightName_takeWhile rq.userAccountName

theorem storesNickname_of_ends (hs : Reachable s) (h : takeRecord rq.roomId s = .done (r, some p) s₁)
    (hends : EndsInArray rq.userAccountName) : StoresNickname s s₁ r p tmpPackage rq := by
  have hlen : rq.userAccountName.length ≤ 0x20 := hends.elim le_of_lt fun h => le_of_eq h.1
  obtain ⟨t, hdone, hframe, hclear, hrooms⟩ := request_done hs h tmpPackage hlen
  obtain ⟨hsize, h0⟩ := pendingInfo_nickname tmpPackage hends
  have hrecord := ((hrooms.each r).2 rfl).record
  refine ⟨t, hdone, hframe, ?_, ?_, ?_, fun es t₁ rs t₂ hrun hr hp h1 hstep => ?_⟩
  · rw [hrecord, hclear]
    rfl
  · rw [hrecord]
    exact hsize
  · rw [hrecord]
    exact h0
  · obtain ⟨howned, hfrozen⟩ := ((frozen_invariant r p _).run hrooms hrun).each r
    obtain ⟨hname, hlogin⟩ := pendingInfo_rightName h0 rs
    exact reply_names howned (hfrozen rfl).record hname hlogin hr hp h1 hstep

/-- A request that takes a record stores the name as it should exactly if the name ends in its array. -/
theorem storesNickname_iff (hs : Reachable s) (h : takeRecord rq.roomId s = .done (r, some p) s₁) :
    StoresNickname s s₁ r p tmpPackage rq ↔ EndsInArray rq.userAccountName := by
  refine ⟨?_, storesNickname_of_ends hs h⟩
  rintro ⟨t, hdone, -, -, -, h0, -⟩
  have hlen := length_of_done hs h hdone
  obtain ⟨t', hdone', -, -, hrooms⟩ := request_done hs h tmpPackage hlen
  cases hdone.symm.trans hdone'
  rw [((hrooms.each r).2 rfl).record] at h0
  exact endsInArray_of_mem hlen h0

theorem takeRecord_of_unused {roomId : Int} (hu : s.roomManager.unusedRoomList = [])
    (hl : ((s.entered roomId).2.chatRooms (s.entered roomId).1).userList.locked = false)
    (hq : ((s.entered roomId).2.chatRooms (s.entered roomId).1).userList.unusedUserInfoList = p :: rest) :
    ∃ s₁, takeRecord roomId s = .done ((s.entered roomId).1, some p) s₁ := by
  have hwp : wp (takeRecord roomId) (fun a _ => a = ((s.entered roomId).1, some p)) (fun _ => False) False s := by
    rw [takeRecord, wp_bind, wp_loginRoom hu, wp_bind, wp_onRoom, wp_newUserInfo, hl, if_neg Bool.false_ne_true, hq]
    rfl
  obtain ⟨_, s₁, hdone, rfl⟩ := wp_total.mp hwp
  exact ⟨s₁, hdone⟩

/-- The first request after a gate has connected. -/
theorem takeRecord_first : ∃ s s₁, run .new [.connect 5 50] = some s ∧ takeRecord 2 s = .done (0, some 0) s₁ := by
  have hrun : ∃ s, s ∈ run .new [.connect 5 50] ∧ s.roomManager.unusedRoomList = [] ∧ s.room 2 = none ∧
      s.nextRoom = 0 := by
    decide +kernel
  obtain ⟨s, hs, hu, hr, hnext⟩ := hrun
  have hroom : (s.entered 2).1 = 0 ∧ (s.entered 2).2.chatRooms (s.entered 2).1 = createdRoom 2 := by
    rw [entered, hr]
    exact ⟨hnext, Function.update_self ..⟩
  have hfree : (createdRoom 2).userList.unusedUserInfoList = 0 :: List.range' 1 99999 := List.range'_succ
  obtain ⟨s₁, h⟩ := takeRecord_of_unused (p := 0) hu (by rw [hroom.2]; rfl) (by rw [hroom.2, hfree])
  rw [hroom.1] at h
  exact ⟨s, s₁, hs, h⟩

theorem storesNickname_iff_abc : ∃ s s₁, run .new [.connect 5 50] = some s ∧
    takeRecord 2 s = .done (0, some 0) s₁ ∧
    StoresNickname s s₁ 0 0 ⟨[], 7, 5, 0, [], []⟩ ⟨1, 2, [97, 98, 99]⟩ := by
  obtain ⟨s, s₁, hs, h⟩ := takeRecord_first
  have hiff : StoresNickname s s₁ 0 0 ⟨[], 7, 5, 0, [], []⟩ ⟨1, 2, [97, 98, 99]⟩ ↔ EndsInArray [97, 98, 99] :=
    storesNickname_iff ⟨_, hs⟩ h
  exact ⟨s, s₁, hs, h, hiff.mpr (by decide)⟩

/-- A login request with a name of 32 bytes, and the reply to it. -/
def fullLogin : List Event :=
  [.message (.clientLoginRQ ⟨[], 7, 5, 0, [], []⟩ ⟨1, 2, List.replicate 32 65⟩),
    .message (.clientLoginRS ⟨.userLoginRS, 1, 2, 1, 66, 0, 0, 0, 0, 0, 0, 0, 0, 0, 0⟩)]

/-- The name of 32 bytes has no end, and the room is told one of 33. -/
theorem not_storesNickname_full : ∃ s s₁, run .new [.connect 5 50] = some s ∧
    takeRecord 2 s = .done (0, some 0) s₁ ∧
    ¬ StoresNickname s s₁ 0 0 ⟨[], 7, 5, 0, [], []⟩ ⟨1, 2, List.replicate 32 65⟩ ∧
    ∃ t, run s fullLogin = some t ∧
      .gate ⟨50, 5⟩ (.userInfo ⟨.userInfo, 1, List.replicate 32 65 ++ [66], [], 0, 0, 0, 0, 0, 0, 0, 0, 0⟩) .userInfo 7 ∈
        t.sent := by
  obtain ⟨s, s₁, hs, h⟩ := takeRecord_first
  have hiff : StoresNickname s s₁ 0 0 ⟨[], 7, 5, 0, [], []⟩ ⟨1, 2, List.replicate 32 65⟩ ↔
      EndsInArray (List.replicate 32 65) := storesNickname_iff ⟨_, hs⟩ h
  have hrun : ∃ t, t ∈ run .new ([.connect 5 50] ++ fullLogin) ∧ .gate ⟨50, 5⟩ (.userInfo ⟨.userInfo, 1,
      List.replicate 32 65 ++ [66], [], 0, 0, 0, 0, 0, 0, 0, 0, 0⟩) .userInfo 7 ∈ t.sent := by
    decide +kernel
  obtain ⟨t, ht, hm⟩ := hrun
  exact ⟨s, s₁, hs, h, fun hstores => absurd (hiff.mp hstores) (by decide), t, (run_append hs).symm.trans ht, hm⟩

end Server

end Miku.RoomServer
