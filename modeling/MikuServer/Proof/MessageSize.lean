import MikuServer.Impl.PackageDefine
import MikuServer.Proof.GateServerProcessor
import MikuServer.Proof.Microphone
import MikuServer.Proof.RecordOwner

/-!
# The sizes of what the room server sends

A message is encoded into arrays of 0x2000 bytes, in a packet in a packet
(`Fits.sendData_eq`). Those with a user, a text or a gift fit, and so do the users of a
room, who are sent 15 at a time (`fits_userLists`). `Fitting` says that everything sent
fits; every command keeps it, but for the reply to a login, which is in
`HoldersMessage.lean`.
-/

namespace Miku.RoomServer

open WireFormat

/-- The bytes of the two packets around a message. -/
def packetsSize : Nat := 36

/-- The message and its packets fit the arrays. -/
def Fits (pack : Pack) : Prop := pack.byteSize + packetsSize ≤ 0x2000

instance (pack : Pack) : Decidable (Fits pack) := inferInstanceAs (Decidable (_ ≤ _))

/-- What is sent to the center server is not encoded again. -/
def Sent.Fits : Sent → Prop
  | .center _ _ => True
  | .toGS pack _ _ _ => RoomServer.Fits pack
  | .gate _ pack _ _ => RoomServer.Fits pack
  | .caller pack _ _ => RoomServer.Fits pack

theorem fits_of_le {pack : Pack} {n : Nat} (h : pack.byteSize ≤ n) (hn : n ≤ 0x2000 - packetsSize) : Fits pack := by
  have : packetsSize = 36 := rfl
  unfold Fits
  omega

/-- Both packets of a message that fits are written within the arrays of `SendData`, whatever bytes it is
serialised to, and `AddBuffer` is called with its frame. -/
theorem Fits.sendData_eq {pack : Pack} (h : Fits pack) {k : GateServerProcessor.Call}
    (hk : k.pack.length = pack.byteSize) (self : GateServerProcessor) :
    ∃ x, self.sendData k.pack k.msgId k.userHashkey =
      (self.sendList.addBuffer (k.outer.wire ++ x) k.outer.wire.length).map
        fun r => (r.1, { self with sendList := r.2 }) := by
  have hpacks : k.pack.length + 36 ≤ 0x2000 := hk ▸ h
  exact GateServerProcessor.sendData_eq self hpacks

/-! ## Messages of a bounded size -/

theorem enumMsgID_size (v : EnumMsgID) : v.size = 2 := by cases v <;> rfl

theorem fits_userLoginRS (m : StruUserLoginRS) : Fits (.userLoginRS m) := by
  refine fits_of_le (n := 15 * 11) (fieldsSize_le (n := 10) ?_) (by decide)
  simp [enumMsgID_size, int32Size_le]

theorem fits_userMsgRS (m : StruUserMsgRS) : Fits (.userMsgRS m) := by
  refine fits_of_le (n := 4 * 11) (fieldsSize_le (n := 10) ?_) (by decide)
  simp [enumMsgID_size, int32Size_le]

theorem fits_userOffMicRS (m : StruUserOffMicRS) : Fits (.userOffMicRS m) := by
  refine fits_of_le (n := 4 * 11) (fieldsSize_le (n := 10) ?_) (by decide)
  simp [enumMsgID_size, int32Size_le]

theorem fits_userExitRoomID (m : StruUserExitRoomID) : Fits (.userExitRoomID m) := by
  refine fits_of_le (n := 3 * 11) (fieldsSize_le (n := 10) ?_) (by decide)
  simp [enumMsgID_size, int32Size_le]

theorem fits_userApplyMicRS {m : StruUserApplyMicRS} (h : m.micChannelStr = []) : Fits (.userApplyMicRS m) := by
  refine fits_of_le (n := 5 * 11) (fieldsSize_le (n := 10) ?_) (by decide)
  simp [enumMsgID_size, int32Size_le, h, stringSize, varintSize32]

/-- The gift's code is of a frame of at most 0x1000 bytes. -/
theorem fits_userGiveGiftRS {m : StruUserGiveGiftRS} (h : m.giftCode.length ≤ 0x1000) : Fits (.userGiveGiftRS m) := by
  have hpackets : packetsSize = 36 := rfl
  have hcode := varintSize32_le m.giftCode.length
  have huser := int32Size_le m.userId
  have hroom := int32Size_le m.roomId
  have hresult := int32Size_le m.result
  have hdst := int32Size_le m.dstUserId
  have hred := int32Size_le m.senderRedD
  simp only [Fits, Pack.byteSize, StruUserGiveGiftRS.byteSize, fieldsSize_cons, fieldsSize_nil, enumMsgID_size, stringSize]
  omega

/-- A text of a frame of at most 0x1000 bytes. -/
theorem fits_userMsgTextID {m : StruUserMsgTextID} (h : m.msgText.length ≤ 0x1000) : Fits (.userMsgTextID m) := by
  have hpackets : packetsSize = 36 := rfl
  have htext := varintSize32_le m.msgText.length
  have huser := int32Size_le m.userId
  have hroom := int32Size_le m.roomId
  have hdst := int32Size_le m.dstUserId
  simp only [Fits, Pack.byteSize, StruUserMsgTextID.byteSize, fieldsSize_cons, fieldsSize_nil, enumMsgID_size, stringSize,
    boolSize]
  omega

/-- A user with a nickname of at most 31 bytes. -/
theorem byteSize_userInfoOf {u : UserInfo} (h : u.nickname.length ≤ 31) :
    (Server.userInfoOf u).byteSize ≤ 13 * 33 := by
  refine fieldsSize_le (n := 32) ?_
  have hname : stringSize u.nickname.length ≤ 32 := by
    rw [stringSize_of_lt (by omega)]
    omega
  have hrole : stringSize 0 ≤ 32 := by decide
  have hint (v : Int) : int32Size v ≤ 32 := (int32Size_le v).trans (by decide)
  simp [Server.userInfoOf, enumMsgID_size, hint, hname, hrole]

/-- At most 15 users. -/
theorem fits_userInfoListID {m : StruUserInfoListID} (hl : m.userInfoList.length ≤ 15)
    (h : ∀ e ∈ m.userInfoList, e.byteSize ≤ 13 * 33) : Fits (.userInfoListID m) := by
  have hpackets : packetsSize = 36 := rfl
  have huser := int32Size_le m.userId
  have hroom := int32Size_le m.roomId
  have hlist : fieldsSize (m.userInfoList.map fun e => stringSize e.byteSize) ≤
      m.userInfoList.length * (1 + (2 + 13 * 33)) := by
    have hsize : ∀ k ∈ m.userInfoList.map fun e => stringSize e.byteSize, k ≤ 2 + 13 * 33 := fun k hk => by
      obtain ⟨e, he, rfl⟩ := List.mem_map.mp hk
      have := h e he
      have := varintSize32_le_two (v := e.byteSize) (by omega)
      unfold stringSize
      omega
    have hle := fieldsSize_le hsize
    rwa [List.length_map] at hle
  simp only [Fits, Pack.byteSize, StruUserInfoListID.byteSize, fieldsSize_append, fieldsSize_cons, fieldsSize_nil,
    enumMsgID_size]
  omega

/-- The messages with the users of a room, from a message with `count` of them. -/
theorem fits_userLists {list : StruUserInfoListID} {count : Nat} {us : List UserInfo}
    (hl : list.userInfoList.length = count) (hc : count < 15) (h : ∀ e ∈ list.userInfoList, e.byteSize ≤ 13 * 33)
    (hu : ∀ u ∈ us, u.nickname.length ≤ 31) : ∀ m ∈ Server.userLists list count us, Fits (.userInfoListID m) := by
  induction us generalizing list count with
  | nil =>
    intro m hm
    rw [Server.userLists] at hm
    split at hm
    · rw [List.mem_singleton.mp hm]
      exact fits_userInfoListID (by omega) h
    · cases hm
  | cons u us ih =>
    rw [List.forall_mem_cons] at hu
    have hnew : ∀ e ∈ (Server.withUser list u).userInfoList, e.byteSize ≤ 13 * 33 := by
      show ∀ e ∈ list.userInfoList ++ [Server.userInfoOf u], _
      rw [List.forall_mem_append, List.forall_mem_singleton]
      exact ⟨h, byteSize_userInfoOf hu.1⟩
    have hlen : (Server.withUser list u).userInfoList.length = count + 1 := by
      show (list.userInfoList ++ [Server.userInfoOf u]).length = _
      rw [List.length_append, hl, List.length_singleton]
    rw [Server.userLists]
    split <;> rename_i hfull
    · rw [List.forall_mem_cons]
      exact ⟨fits_userInfoListID (by omega) hnew, ih rfl (by decide) (fun _ he => absurd he List.not_mem_nil) hu.2⟩
    · exact ih hlen (by omega) hnew hu.2

/-! ## The microphone holders -/

/-- An entry for a user whose nickname has at most 31 bytes, and who has no channel. -/
theorem byteSize_micInfo {m : StruMicInfo} (hn : m.userAccountName.length ≤ 31) (hc : m.micChannelStr = []) :
    1 + stringSize m.byteSize = 10 + int32Size m.userId + m.userAccountName.length := by
  have hid := int32Size_le m.userId
  have hsize : m.byteSize = 8 + int32Size m.userId + m.userAccountName.length := by
    have hname := stringSize_of_lt (n := m.userAccountName.length) (by omega)
    have hchannel : stringSize m.micChannelStr.length = 1 := by rw [hc]; rfl
    simp only [StruMicInfo.byteSize, fieldsSize_cons, fieldsSize_nil, enumMsgID_size, hname, hchannel]
    omega
  rw [stringSize_of_lt (by omega), hsize]
  omega

/-! ## Nicknames -/

/-- The nickname ends in its array, and has at most 31 bytes. -/
def Named (info : UserInfo) : Prop := ∃ name rest, name.length ≤ 31 ∧ info.userNickname = name ++ 0 :: rest

theorem nickname_eq {info : UserInfo} {name rest : List Byte} (h : info.userNickname = name ++ 0 :: rest) :
    info.nickname = name.takeWhile (· ≠ 0) := by
  rw [UserInfo.nickname, h, List.append_assoc, List.cons_append, List.takeWhile_append]
  split
  · rename_i hall
    rw [List.takeWhile_cons_of_neg (by decide), List.append_nil]
    exact ((List.takeWhile_prefix _).eq_of_length hall).symm
  · rfl

theorem Named.nickname_length {info : UserInfo} (h : Named info) : info.nickname.length ≤ 31 := by
  obtain ⟨name, rest, hlen, hname⟩ := h
  rw [nickname_eq hname]
  exact (List.takeWhile_prefix _).length_le.trans hlen

theorem named_clear : Named .clear := ⟨[], List.replicate 31 0, by decide, by decide⟩

theorem named_pendingInfo {rq : StruUserLoginRQ} (h : rq.userAccountName.length ≤ 31)
    (tmpPackage : GateRoomServerPack) : Named (Server.pendingInfo tmpPackage rq) := by
  refine ⟨rq.userAccountName, List.replicate (31 - rq.userAccountName.length) 0, h, ?_⟩
  rw [← List.replicate_succ, ← Nat.sub_add_comm h]
  rfl

/-- The attributes of a reply are no part of the nickname. -/
theorem Named.nickname_loginInfo {info : UserInfo} (h : Named info) (rs : StruUserLoginRS) :
    (Server.loginInfo rs info).nickname = info.nickname := by
  obtain ⟨name, rest, -, hname⟩ := h
  rw [nickname_eq hname]
  exact nickname_eq hname

theorem Named.loginInfo {info : UserInfo} (h : Named info) (rs : StruUserLoginRS) :
    Named (Server.loginInfo rs info) := h

theorem named_update {records : Ptr → UserInfo} (h : ∀ p, Named (records p)) {info : UserInfo} (hi : Named info)
    (p q : Ptr) : Named (Function.update records p info q) := by
  by_cases hq : q = p
  · rw [hq, Function.update_self]
    exact hi
  · rw [Function.update_of_ne hq]
    exact h q

/-! ## What is sent -/

open Act UserInfoList ChatRoom

namespace Server

/-- Every nickname ends, and everything sent fits. -/
structure Fitting (s : Server) : Prop where
  named (r : RoomPtr) (p : Ptr) : Named ((s.chatRooms r).records p)
  sent : ∀ m ∈ s.sent, m.Fits

variable {s t : Server} {r : RoomPtr} {room room' : ChatRoom} {pack : Pack} {rs : StruUserLoginRS} {p q : Ptr}

theorem fitting_new : Fitting .new := ⟨fun _ _ => named_clear, fun _ h => absurd h List.not_mem_nil⟩

theorem Fitting.congr (h : Fitting s) (hrec : ∀ r, (t.chatRooms r).records = (s.chatRooms r).records)
    (hs : t.sent = s.sent) : Fitting t :=
  ⟨fun r p => hrec r ▸ h.named r p, hs ▸ h.sent⟩

theorem Fitting.withRoom (h : Fitting s) (hroom : ∀ p, Named (room.records p)) : Fitting (s.withRoom r room) where
  named r' p := by
    by_cases hr : r' = r
    · rw [hr, withRoom_same]
      exact hroom p
    · rw [withRoom_other s hr]
      exact h.named r' p
  sent := h.sent

/-- A room with the same records. -/
theorem Fitting.withRecords (h : Fitting s) (hrec : room.records = (s.chatRooms r).records) :
    Fitting (s.withRoom r room) :=
  h.withRoom fun p => hrec ▸ h.named r p

theorem Fitting.send (h : Fitting s) {ms : List Sent} (hm : ∀ m ∈ ms, m.Fits) :
    Fitting { s with sent := s.sent ++ ms } :=
  ⟨h.named, List.forall_mem_append.mpr ⟨h.sent, hm⟩⟩

theorem Fitting.sendOne (h : Fitting s) {m : Sent} (hm : m.Fits) : Fitting { s with sent := s.sent ++ [m] } :=
  h.send (List.forall_mem_singleton.mpr hm)

theorem Fitting.broadcasted (h : Fitting s) (hf : Fits pack) (r : RoomPtr) (msgId : EnumMsgID) :
    Fitting (s.broadcasted r pack msgId) := by
  have hw : Fitting (s.withList r (s.chatRooms r).userList.walked) := h.withRecords rfl
  refine ⟨fun r' p => ?_, ?_⟩
  · rw [broadcasted_chatRooms]
    exact hw.named r' p
  · rw [broadcasted_sent, List.forall_mem_append]
    refine ⟨h.sent, fun m hm => ?_⟩
    obtain ⟨p, -, hp⟩ := List.mem_filterMap.mp hm
    obtain ⟨gs, -, rfl⟩ := Option.map_eq_some_iff.mp hp
    exact hf

/-- What `x` sends fits, whatever its outcome. -/
def KeepsFitting {α : Type} (x : Act Server α) (s : Server) : Prop := wp x (fun _ => Fitting) Fitting True s

theorem KeepsFitting.bind {α β : Type} {x : Act Server α} {f : α → Act Server β} (hx : KeepsFitting x s)
    (hf : ∀ a t, Fitting t → KeepsFitting (f a) t) : KeepsFitting (x >>= f) s := by
  rw [KeepsFitting, wp_bind]
  exact wp_mono hx (fun a t ht => hf a t ht) fun _ h => h

/-- A function of a room that writes no record. -/
theorem fitting_onRoom {α : Type} {x : Act ChatRoom α} (h : Fitting s)
    (hx : wp x (fun _ room => room.records = (s.chatRooms r).records)
      (fun room => room.records = (s.chatRooms r).records) True (s.chatRooms r)) : KeepsFitting (onRoom r x) s := by
  rw [KeepsFitting, wp_onRoom]
  exact wp_mono hx (fun _ _ hrec => h.withRecords hrec) fun _ hrec => h.withRecords hrec

theorem fitting_getUserInfo (h : Fitting s) (u : Int) : KeepsFitting (onRoom r (ChatRoom.getUserInfo u)) s := by
  refine fitting_onRoom h ?_
  rw [ChatRoom.wp_getUserInfo]
  split
  · rfl
  · rfl

theorem fitting_broadcast (h : Fitting s) (hf : Fits pack) (msgId : EnumMsgID) (roomId : Int) :
    KeepsFitting (sendDataToRoomAllUser pack msgId roomId) s := by
  rw [KeepsFitting, wp_broadcast]
  split
  · exact h
  rcases s.room roomId with _ | r
  · exact h.congr (fun _ => rfl) rfl
  dsimp only
  split
  · exact h
  · exact h.broadcasted hf r msgId

/-- A broadcast to the room `r` under its own id. -/
theorem fitting_roomBroadcast (h : Fitting s) (hf : Fits pack) (r : RoomPtr) (msgId : EnumMsgID) :
    KeepsFitting (do let roomId ← getRoomID r; let _ ← sendDataToRoomAllUser pack msgId roomId) s := by
  refine KeepsFitting.bind (x := getRoomID r) h fun roomId t ht => ?_
  exact (fitting_broadcast ht hf msgId roomId).bind fun _ _ ht => ht

theorem fitting_forRoomUser (h : Fitting s) {roomId u : Int} {body : RoomPtr → Ptr → Act Server Unit}
    (hb : ∀ r p, KeepsFitting (body r p) s) : KeepsFitting (forRoomUser roomId u body) s := by
  rw [KeepsFitting, wp_forRoomUser]
  rcases s.room roomId with _ | r
  · exact h.congr (fun _ => rfl) rfl
  dsimp only
  split
  · exact h
  rcases (s.chatRooms r).userList.userInfoList.ptr u with _ | p
  · exact h.withRecords rfl
  · exact hb r p

/-! ## The commands but those of a login -/

theorem fitting_userExitRoomID (h : Fitting s) (m : StruUserExitRoomID) : KeepsFitting (userExitRoomID m) s := by
  refine fitting_forRoomUser h fun r _ => KeepsFitting.bind (fitting_onRoom h ?_) fun _ t ht =>
    fitting_roomBroadcast ht (fits_userExitRoomID m) r _
  rw [ChatRoom.wp_removeUser]
  split
  · rfl
  · cases (s.chatRooms r).userList.userInfoList.ptr m.userId <;> rfl

/-- Nobody is given a channel, so it is the refusal that is sent. -/
theorem fitting_userApplyMicRQ (h : Fitting s) (rq : StruUserApplyMicRQ) : KeepsFitting (userApplyMicRQ rq) s := by
  refine fitting_forRoomUser h fun r p => ?_
  obtain ⟨n, list, happly, -⟩ := applied_nothing (s.chatRooms r) rq.userId
  have ht : Fitting (s.withRoom r { s.chatRooms r with startChannelId := n, videoChannelList := list }) :=
    h.withRecords rfl
  rw [KeepsFitting, getRoomID, wp_bind, wp_read, wp_bind, wp_onRoom, wp_done happly, if_pos rfl]
  exact ht.sendOne (fits_userApplyMicRS rfl)

theorem fitting_userOffMicRQ (h : Fitting s) (rq : StruUserOffMicRQ) : KeepsFitting (userOffMicRQ rq) s := by
  refine fitting_forRoomUser h fun r _ => KeepsFitting.bind (fitting_onRoom h ?_) fun _ t ht =>
    fitting_roomBroadcast ht (fits_userOffMicRS _) r _
  rfl

theorem fitting_userGiveGiftRQ (h : Fitting s) (tmpPackage : GateRoomServerPack) (rq : StruUserGiveGiftRQ) :
    KeepsFitting (userGiveGiftRQ tmpPackage rq) s := by
  refine fitting_forRoomUser h fun r _ => (fitting_getUserInfo h rq.dstUserId).bind fun dst t ht => ?_
  rcases dst with _ | q
  · exact ht
  · exact ht.sendOne trivial

theorem fitting_userSendMsgRQ (h : Fitting s) {rq : StruUserMsgRQ} (htext : rq.msgText.length ≤ 0x1000) :
    KeepsFitting (userSendMsgRQ rq) s := by
  refine fitting_forRoomUser h fun r p => ?_
  split
  · have hprivate : KeepsFitting (sendPrivateMsg r rq) s := by
      refine (fitting_getUserInfo h rq.dstUserId).bind fun dst t ht => ?_
      rcases dst with _ | q
      · exact ht
      rw [KeepsFitting, wp_bind, wp_record, wp_bind, wp_getUserByHashkey]
      have hgate := ht.congr (t := t.foundGate ((t.chatRooms r).records q).gsHashkeyUserOn) (fun _ => rfl) rfl
      rcases t.gate ((t.chatRooms r).records q).gsHashkeyUserOn with _ | gs
      · exact hgate
      · exact hgate.sendOne (fits_userMsgTextID htext)
    exact hprivate.bind fun result t ht => ht.sendOne (fits_userMsgRS _)
  · refine KeepsFitting.bind (x := record r p) h fun info t ht => ?_
    refine KeepsFitting.bind (x := Server.send _) (ht.sendOne (fits_userMsgRS _)) fun _ t ht => ?_
    exact (fitting_broadcast ht (fits_userMsgTextID htext) _ _).bind fun _ _ ht => ht

theorem fitting_userGiveGiftRS (h : Fitting s) {rs : StruUserGiveGiftRS} (hcode : rs.giftCode.length ≤ 0x1000) :
    KeepsFitting (userGiveGiftRS rs) s := by
  refine fitting_forRoomUser h fun r p => (fitting_getUserInfo h rs.dstUserId).bind fun dst t ht => ?_
  rcases dst with _ | q
  · exact ht
  rw [KeepsFitting, wp_bind, wp_record, wp_bind, wp_getUserByHashkey]
  have hgate := ht.congr (t := t.foundGate ((t.chatRooms r).records p).gsHashkeyUserOn) (fun _ => rfl) rfl
  split
  · rw [wp_bind, wp_deref]
    split
    · trivial
    · exact hgate.sendOne (fits_userGiveGiftRS hcode)
  · rw [wp_bind, wp_onRoom, wp_modify, wp_bind]
    refine wp_mono (fitting_broadcast (hgate.withRoom ?_) (fits_userGiveGiftRS hcode) _ _) (fun _ _ ht => ht) fun _ h => h
    refine fun q => named_update (hgate.named r) ?_ p q
    exact hgate.named r p

end Server

end Miku.RoomServer
