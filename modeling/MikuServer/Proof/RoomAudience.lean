import MikuServer.Proof.Nickname
import MikuServer.Proof.RoomIsolation
import MikuServer.Proof.Uplink

/-!
# Whom the messages of a room are for

What is sent by a command for a room goes to users who are in it, or is the answer
to a login request (`Told`). In a run, such a user has asked for a login to the room
over the connection that gets the message, and the center server has let the user in
(`heard_by_members`).
-/

namespace Miku.RoomServer

open Act UserInfoList ChatRoom

/-- The user `u` is in the room, with the key `h` on the gate `g`. -/
def OnlineAs (room : ChatRoom) (u g h : Int) : Prop :=
  ∃ p, room.userList.userInfoList.ptr u = some p ∧ (room.records p).gsHashkeyUserOn = g ∧
    (room.records p).userHashKey = h

/-- The login of the user `u`, with the key `h` on the gate `g`, is with the center server. -/
def PendingAs (room : ChatRoom) (u g h : Int) : Prop :=
  ∃ p, room.preUserList.userInfoList.ptr u = some p ∧ (room.records p).gsHashkeyUserOn = g ∧
    (room.records p).userHashKey = h

/-- The message goes to the user with the key `h` on the gate `g`. The gate of a thread is not known here. -/
def Sent.IsTo (gate : Int → Option BaseUserInfo) (g h : Int) : Sent → Prop
  | .center .. => False
  | .toGS _ _ fd userHashkey => userHashkey = h ∧ ∃ gs, gate g = some gs ∧ gs.userSock = fd
  | .gate gs _ _ userHashkey => userHashkey = h ∧ gate g = some gs
  | .caller .. => False

/-- The message goes to the calling gate, for the user with the key `h` there. -/
def Sent.IsReply (h : Int) (x : Sent) : Prop := ∃ pack msgId, x = .caller pack msgId h

namespace Server

variable {ρ : Int} {r : RoomPtr} {s₀ s t : Server} {K : Int → Int → Int → Prop} {A : Sent → Prop}

/-- In the room `r`, with the id `ρ`, are users of `K`, and pending are those that were; since `s₀` messages of `A`
were sent. -/
structure Told (ρ : Int) (r : RoomPtr) (K : Int → Int → Int → Prop) (A : Sent → Prop) (s₀ s : Server) :
    Prop where
  found : s.room ρ = some r
  named : (s.chatRooms r).roomId = ρ
  online {u g h : Int} : OnlineAs (s.chatRooms r) u g h → K u g h
  pending {u g h : Int} : PendingAs (s.chatRooms r) u g h → PendingAs (s₀.chatRooms r) u g h
  gate (k : Int) : s.gate k = s₀.gate k
  sent : ∃ ms, s.sent = s₀.sent ++ ms ∧ ∀ m ∈ ms, A m

/-- Whatever the outcome of `x`, that is so again. -/
def Tells (ρ : Int) (r : RoomPtr) (K : Int → Int → Int → Prop) (A : Sent → Prop) (s₀ : Server) {α : Type}
    (x : Act Server α) (s : Server) : Prop :=
  wp x (fun _ => Told ρ r K A s₀) (Told ρ r K A s₀) True s

theorem Tells.bind {α β : Type} {x : Act Server α} {f : α → Act Server β} (hx : Tells ρ r K A s₀ x s)
    (hf : ∀ a t, Told ρ r K A s₀ t → Tells ρ r K A s₀ (f a) t) : Tells ρ r K A s₀ (x >>= f) s := by
  rw [Tells, wp_bind]
  exact wp_mono hx (fun a t ht => hf a t ht) fun _ h => h

theorem Told.sendsAll (h : Told ρ r K A s₀ s) {ms : List Sent} (hms : ∀ m ∈ ms, A m) :
    Told ρ r K A s₀ { s with sent := s.sent ++ ms } := by
  obtain ⟨before, hbefore, hall⟩ := h.sent
  refine ⟨h.found, h.named, h.online, h.pending, h.gate, before ++ ms, ?_, fun m hm => ?_⟩
  · rw [hbefore, List.append_assoc]
  · exact (List.mem_append.mp hm).elim (hall m) (hms m)

theorem Told.sends (h : Told ρ r K A s₀ s) {m : Sent} (hm : A m) :
    Told ρ r K A s₀ { s with sent := s.sent ++ [m] } :=
  h.sendsAll (List.forall_mem_singleton.mpr hm)

theorem Told.foundGate (h : Told ρ r K A s₀ s) (k : Int) : Told ρ r K A s₀ (s.foundGate k) :=
  ⟨h.found, h.named, h.online, h.pending, fun j => (foundGate_gate s k j).trans (h.gate j), h.sent⟩

/-- A room in which, and on the way to which, there are no other users. -/
theorem Told.withRoom (h : Told ρ r K A s₀ s) {room : ChatRoom} (hn : room.roomId = ρ)
    (ho : ∀ {u g k : Int}, OnlineAs room u g k → OnlineAs (s.chatRooms r) u g k)
    (hp : ∀ {u g k : Int}, PendingAs room u g k → PendingAs (s.chatRooms r) u g k) :
    Told ρ r K A s₀ (s.withRoom r room) := by
  refine ⟨h.found, ?_, fun hu => h.online (ho ?_), fun hu => h.pending (hp ?_), h.gate, h.sent⟩
  · rw [withRoom_same, hn]
  · rw [withRoom_same] at hu
    exact hu
  · rw [withRoom_same] at hu
    exact hu

/-- Another list with the same users. -/
theorem Told.withList (h : Told ρ r K A s₀ s) {l : UserInfoList}
    (hl : ∀ u, l.userInfoList.ptr u = (s.chatRooms r).userList.userInfoList.ptr u) :
    Told ρ r K A s₀ (s.withList r l) :=
  h.withRoom h.named (fun ⟨p, hp, hk⟩ => ⟨p, (hl _).symm.trans hp, hk⟩) fun hp => hp

/-- The messages of `A` are those to users of `K`, and others. -/
def Admits (K : Int → Int → Int → Prop) (A : Sent → Prop) (s₀ : Server) : Prop :=
  ∀ m u g h, K u g h → m.IsTo s₀.gate g h → A m

/-- What is sent to a user of the room. -/
theorem Told.toUser (h : Told ρ r K A s₀ s) (hA : Admits K A s₀) {u : Int} {p : Ptr}
    (hp : (s.chatRooms r).userList.userInfoList.ptr u = some p) (pack : Pack) (msgId : EnumMsgID) {m : Sent}
    (hm : s.toUser r pack msgId p = some m) : A m := by
  obtain ⟨gs, hgs, rfl⟩ := Option.map_eq_some_iff.mp hm
  exact hA _ u _ _ (h.online ⟨p, hp, rfl, rfl⟩) ⟨rfl, (h.gate _).symm.trans hgs⟩

theorem Told.broadcasted (h : Told ρ r K A s₀ s) (hA : Admits K A s₀) (pack : Pack) (msgId : EnumMsgID) :
    Told ρ r K A s₀ (s.broadcasted r pack msgId) := by
  have hrooms : (s.broadcasted r pack msgId).chatRooms = (s.withList r (s.chatRooms r).userList.walked).chatRooms :=
    broadcasted_chatRooms s r pack msgId
  have hw : Told ρ r K A s₀ (s.withList r (s.chatRooms r).userList.walked) := h.withList fun u => by
    rw [walked_userInfoList]
  obtain ⟨ms, hms, hall⟩ := h.sent
  refine ⟨(broadcasted_room ..).trans h.found, hrooms ▸ hw.named, fun hu => hw.online (hrooms ▸ hu),
    fun hu => hw.pending (hrooms ▸ hu), fun k => (broadcasted_gate ..).trans (h.gate k),
    ms ++ (s.chatRooms r).userList.reached.filterMap (s.toUser r pack msgId), ?_, fun m hm => ?_⟩
  · rw [broadcasted_sent, hms, List.append_assoc]
  · rcases List.mem_append.mp hm with hm | hm
    · exact hall m hm
    obtain ⟨p, hp, hm⟩ := List.mem_filterMap.mp hm
    obtain ⟨u, hu⟩ := mem_reached hp
    exact h.toUser hA hu pack msgId hm

/-- A gift leaves the users' keys as they are. -/
theorem keys_gift (room : ChatRoom) (p : Ptr) (redD : Int) (q : Ptr) :
    ((room.store p { room.records p with userRedD := redD }).records q).gsHashkeyUserOn =
        (room.records q).gsHashkeyUserOn ∧
      ((room.store p { room.records p with userRedD := redD }).records q).userHashKey = (room.records q).userHashKey := by
  by_cases hq : q = p
  · subst hq
    simp only [store, Function.update_self, and_self]
  · simp only [store, Function.update_of_ne hq, and_self]

variable (hA : Admits K A s₀)

include hA

theorem Told.broadcast (h : Told ρ r K A s₀ s) (pack : Pack) (msgId : EnumMsgID) :
    Tells ρ r K A s₀ (sendDataToRoomAllUser pack msgId ρ) s := by
  rw [Tells, wp_broadcast, h.found]
  split
  · exact h
  dsimp only
  split
  · exact h
  · exact h.broadcasted hA pack msgId

/-- A broadcast under the id of the room. -/
theorem Told.roomBroadcast (h : Told ρ r K A s₀ s) (pack : Pack) (msgId : EnumMsgID) :
    Tells ρ r K A s₀ (do let roomId ← getRoomID r; let _ ← sendDataToRoomAllUser pack msgId roomId) s := by
  rw [Tells, getRoomID, wp_bind, wp_read, h.named]
  exact (h.broadcast hA pack msgId).bind fun _ _ ht => ht

omit hA in
/-- A command on a user of the room, by what it does for a user that is there. -/
theorem Told.forRoomUser (h : Told ρ r K A s₀ s) {u : Int} {body : RoomPtr → Ptr → Act Server Unit}
    (hb : ∀ p, (s.chatRooms r).userList.userInfoList.ptr u = some p → Tells ρ r K A s₀ (body r p) s) :
    Tells ρ r K A s₀ (forRoomUser ρ u body) s := by
  rw [Tells, wp_forRoomUser, h.found]
  dsimp only
  split
  · exact h
  rcases hp : (s.chatRooms r).userList.userInfoList.ptr u with _ | p
  · exact h.withList fun v => lookedUp_ptr ..
  · exact hb p hp

omit hA in
/-- A message to the thread's own gate, for a user of the room. -/
theorem Told.caller (h : Told ρ r K A s₀ s) {u : Int} (hreply : ∀ x g k, K u g k → x.IsReply k → A x) {p : Ptr}
    (hp : (s.chatRooms r).userList.userInfoList.ptr u = some p) (pack : Pack) (msgId : EnumMsgID) :
    A (.caller pack msgId ((s.chatRooms r).records p).userHashKey) :=
  hreply _ _ _ (h.online ⟨p, hp, rfl, rfl⟩) ⟨pack, msgId, rfl⟩

theorem Told.userExitRoomID {m : StruUserExitRoomID} (h : Told m.roomId r K A s₀ s) :
    Tells m.roomId r K A s₀ (userExitRoomID m) s := by
  refine h.forRoomUser fun p hp => Tells.bind (x := onRoom r (removeUser m.userId)) ?_
    fun _ t ht => ht.roomBroadcast hA _ _
  rw [Tells, wp_onRoom, ChatRoom.wp_removeUser, hp]
  split
  · rw [withRoom_self]
    exact h
  · refine h.withRoom h.named (fun ⟨q, hq, hk⟩ => ⟨q, StdMap.ptr_of_erase hq, hk⟩) fun hu => hu

theorem Told.userApplyMicRQ {rq : StruUserApplyMicRQ} (h : Told rq.roomId r K A s₀ s)
    (hreply : ∀ x g k, K rq.userId g k → x.IsReply k → A x) :
    Tells rq.roomId r K A s₀ (userApplyMicRQ rq) s := by
  refine h.forRoomUser fun p hp => ?_
  rw [Tells, getRoomID, wp_bind, wp_read, wp_bind, wp_onRoom]
  -- The channels are written, and the records and the users stay.
  have hchannel : wp (userApplyOneNewVideo rq.userId) (fun _ room => Told rq.roomId r K A s₀ (s.withRoom r room) ∧
      room.records = (s.chatRooms r).records) (fun room => Told rq.roomId r K A s₀ (s.withRoom r room) ∧
      room.records = (s.chatRooms r).records) True (s.chatRooms r) :=
    wp_userApplyOneNewVideo_of fun n list => ⟨h.withRoom h.named (fun hu => hu) fun hu => hu, rfl⟩
  refine wp_mono hchannel (fun tmpChannel room hroom => ?_) fun _ ht => ht.1
  obtain ⟨ht, hrec⟩ := hroom
  split
  · rw [wp_bind, wp_record, withRoom_same, hrec]
    exact ht.sends (h.caller hreply hp _ _)
  · exact ht.roomBroadcast hA _ _

theorem Told.userOffMicRQ {rq : StruUserOffMicRQ} (h : Told rq.roomId r K A s₀ s) :
    Tells rq.roomId r K A s₀ (userOffMicRQ rq) s := by
  refine h.forRoomUser fun p hp => Tells.bind (x := onRoom r (userGetOffVideo rq.userId)) ?_
    fun _ t ht => ht.roomBroadcast hA _ _
  exact h.withRoom h.named (fun hu => hu) fun hu => hu

omit hA in
/-- What is sent to the center server, too, is of `A`. -/
theorem Told.userGiveGiftRQ {tmpPackage : GateRoomServerPack} {rq : StruUserGiveGiftRQ} (h : Told rq.roomId r K A s₀ s)
    (hc : A (.center tmpPackage.dataMsg tmpPackage.dataLen.toInt)) :
    Tells rq.roomId r K A s₀ (userGiveGiftRQ tmpPackage rq) s := by
  refine h.forRoomUser fun p hp => ?_
  rw [Tells, wp_bind, wp_onRoom, ChatRoom.wp_getUserInfo]
  split
  · rw [withRoom_self]
    exact h
  · have ht : Told rq.roomId r K A s₀ (s.withList r (lookedUp (s.chatRooms r).userList rq.dstUserId)) :=
      h.withList fun v => lookedUp_ptr ..
    split
    · exact ht
    · exact ht.sends hc

/-- A message through the gate on which a user of the room is. -/
theorem Told.toGS (h : Told ρ r K A s₀ s) {u : Int} {p : Ptr}
    (hp : (s.chatRooms r).userList.userInfoList.ptr u = some p) {gs : BaseUserInfo}
    (hgs : s.gate ((s.chatRooms r).records p).gsHashkeyUserOn = some gs) (pack : Pack) (msgId : EnumMsgID) :
    A (.gate gs pack msgId ((s.chatRooms r).records p).userHashKey) ∧
      A (.toGS pack msgId gs.userSock ((s.chatRooms r).records p).userHashKey) := by
  have hk := h.online ⟨p, hp, rfl, rfl⟩
  have hg := (h.gate _).symm.trans hgs
  exact ⟨hA _ u _ _ hk ⟨rfl, hg⟩, hA _ u _ _ hk ⟨rfl, gs, hg, rfl⟩⟩

omit hA in
/-- A private text, by what is sent to whom it is for. -/
theorem Told.sendPrivateMsg {rq : StruUserMsgRQ} (h : Told ρ r K A s₀ s)
    (hmsg : ∀ q gs, (s.chatRooms r).userList.userInfoList.ptr rq.dstUserId = some q →
      s.gate ((s.chatRooms r).records q).gsHashkeyUserOn = some gs →
      A (.gate gs (.userMsgTextID ⟨.userMsgTextID, rq.userId, rq.roomId, rq.msgText, true, rq.dstUserId⟩) .userMsgTextID
        ((s.chatRooms r).records q).userHashKey)) :
    wp (sendPrivateMsg r rq) (fun _ t => Told ρ r K A s₀ t ∧ (t.chatRooms r).records = (s.chatRooms r).records)
      (Told ρ r K A s₀) True s := by
  rw [Server.sendPrivateMsg, wp_bind, wp_onRoom, ChatRoom.wp_getUserInfo]
  split
  · rw [withRoom_self]
    exact h
  have ht : Told ρ r K A s₀ (s.withList r (lookedUp (s.chatRooms r).userList rq.dstUserId)) :=
    h.withList fun v => lookedUp_ptr ..
  have hrec := withList_records s r (lookedUp (s.chatRooms r).userList rq.dstUserId)
  rcases hq : (s.chatRooms r).userList.userInfoList.ptr rq.dstUserId with _ | q
  · exact ⟨ht, hrec⟩
  dsimp only
  rw [wp_bind, wp_record, wp_bind, wp_getUserByHashkey, withRoom_same]
  split <;> rename_i hg
  · exact ⟨(ht.foundGate _).sends (hmsg q _ hq hg), hrec⟩
  · exact ⟨ht.foundGate _, hrec⟩

theorem Told.userSendMsgRQ {rq : StruUserMsgRQ} (h : Told rq.roomId r K A s₀ s)
    (hreply : ∀ x g k, K rq.userId g k → x.IsReply k → A x) :
    Tells rq.roomId r K A s₀ (userSendMsgRQ rq) s := by
  refine h.forRoomUser fun p hp => ?_
  split
  · rw [Tells, wp_bind]
    refine wp_mono (h.sendPrivateMsg fun q gs hq hg => (h.toGS hA hq hg _ _).1) (fun _ t ⟨ht, hrec⟩ => ?_) fun _ ht => ht
    rw [wp_bind, wp_record, hrec]
    exact ht.sends (h.caller hreply hp _ _)
  · rw [Tells, wp_bind, wp_record, wp_bind, wp_send]
    exact ((h.sends (h.caller hreply hp _ _)).broadcast hA _ _).bind fun _ _ ht => ht

theorem Told.userGiveGiftRS {rs : StruUserGiveGiftRS} (h : Told rs.roomId r K A s₀ s) :
    Tells rs.roomId r K A s₀ (userGiveGiftRS rs) s := by
  refine h.forRoomUser fun p hp => ?_
  rw [Tells, wp_bind, wp_onRoom, ChatRoom.wp_getUserInfo]
  split
  · rw [withRoom_self]
    exact h
  have ht : Told rs.roomId r K A s₀ (s.withList r (lookedUp (s.chatRooms r).userList rs.dstUserId)) :=
    h.withList fun v => lookedUp_ptr ..
  split
  · exact ht
  rw [wp_bind, wp_record, wp_bind, wp_getUserByHashkey, withRoom_same]
  have ht := ht.foundGate ((s.chatRooms r).records p).gsHashkeyUserOn
  split
  · rw [wp_bind, wp_deref]
    split <;> rename_i hg
    · trivial
    · exact ht.sends (h.toGS hA hp hg _ _).2
  · refine Tells.bind (x := onRoom r _) ?_ fun _ t ht => (ht.broadcast hA _ _).bind fun _ _ ht => ht
    refine ht.withRoom ht.named (fun ⟨q, hq, hg, hk⟩ => ⟨q, hq, ?_, ?_⟩) fun ⟨q, hq, hg, hk⟩ => ⟨q, hq, ?_, ?_⟩
    · exact (keys_gift _ p rs.senderRedD q).1.symm.trans hg
    · exact (keys_gift _ p rs.senderRedD q).2.symm.trans hk
    · exact (keys_gift _ p rs.senderRedD q).1.symm.trans hg
    · exact (keys_gift _ p rs.senderRedD q).2.symm.trans hk

/-! ## The reply to a login -/

/-- As `Tells`, with the records `R` before and after. -/
def TellsWith (ρ : Int) (r : RoomPtr) (K : Int → Int → Int → Prop) (A : Sent → Prop) (s₀ : Server)
    (R : Ptr → UserInfo) {α : Type} (x : Act Server α) (s : Server) : Prop :=
  Told ρ r K A s₀ s → (s.chatRooms r).records = R →
    wp x (fun _ t => Told ρ r K A s₀ t ∧ (t.chatRooms r).records = R) (Told ρ r K A s₀) True s

variable {R : Ptr → UserInfo}

omit hA in
theorem TellsWith.bind {α β : Type} {x : Act Server α} {f : α → Act Server β} (hx : TellsWith ρ r K A s₀ R x s)
    (hf : ∀ a t, TellsWith ρ r K A s₀ R (f a) t) : TellsWith ρ r K A s₀ R (x >>= f) s := fun h hR => by
  rw [wp_bind]
  exact wp_mono (hx h hR) (fun a t ⟨ht, hR⟩ => hf a t ht hR) fun _ ht => ht

theorem tellsWith_broadcast (pack : Pack) (msgId : EnumMsgID) :
    TellsWith ρ r K A s₀ R (sendDataToRoomAllUser pack msgId ρ) s := fun h hR => by
  rw [wp_broadcast, h.found]
  split
  · exact ⟨h, hR⟩
  dsimp only
  split
  · exact h
  · refine ⟨h.broadcasted hA pack msgId, ?_⟩
    rw [broadcasted_chatRooms, withList_records, hR]

variable {cur : Ptr} {gs : Option BaseUserInfo} {u : Int}

/-- What the user with the record `cur` is sent through `gs`. -/
theorem toCurrent_mem (hk : K u (R cur).gsHashkeyUserOn (R cur).userHashKey) {g : BaseUserInfo}
    (hg : s₀.gate (R cur).gsHashkeyUserOn = some g) (hR : (s.chatRooms r).records = R) (pack : Pack) (msgId : EnumMsgID) :
    A (s.toCurrent r g cur pack msgId) := by
  refine hA _ u _ _ hk ⟨?_, g, hg, rfl⟩
  rw [hR]

theorem tellsWith_sendUserList (hk : K u (R cur).gsHashkeyUserOn (R cur).userHashKey)
    (hgs : ∀ g ∈ gs, s₀.gate (R cur).gsHashkeyUserOn = some g) (rs : StruUserLoginRS) :
    TellsWith ρ r K A s₀ R (sendUserList r rs gs cur) s := fun h hR => by
  have hw : Told ρ r K A s₀ (s.withList r (s.chatRooms r).userList.walked) := h.withList fun v => by
    rw [walked_userInfoList]
  have hRw : ((s.withList r (s.chatRooms r).userList.walked).chatRooms r).records = R := by rw [withList_records, hR]
  rw [wp_sendUserList]
  split
  · exact h
  split
  · exact ⟨hw, hRw⟩
  split
  · trivial
  rename_i g
  refine ⟨hw.sendsAll fun m hm => ?_, hRw⟩
  obtain ⟨list, -, rfl⟩ := List.mem_map.mp hm
  exact toCurrent_mem hA hk (hgs g rfl) hR _ _

theorem tellsWith_sendMicList (hk : K u (R cur).gsHashkeyUserOn (R cur).userHashKey)
    (hgs : ∀ g ∈ gs, s₀.gate (R cur).gsHashkeyUserOn = some g) :
    TellsWith ρ r K A s₀ R (sendMicList r gs (some cur)) s := fun h hR => by
  rw [wp_sendMicList]
  split
  · exact ⟨h, hR⟩
  dsimp only
  split
  · exact h
  split
  · trivial
  rename_i g
  refine ⟨Told.sends (h.withList fun v => micsLookedUp_ptr ..) (toCurrent_mem hA hk (hgs g rfl) hR _ _), ?_⟩
  show ((s.withList r _).chatRooms r).records = R
  rw [withList_records, hR]

omit hA in
theorem tellsWith_sendMicList_none : TellsWith ρ r K A s₀ R (sendMicList r gs none) s := fun h hR => by
  rw [wp_sendMicList]
  split
  · exact ⟨h, hR⟩
  · trivial

omit hA in
theorem tellsWith_removePreUser (v : Int) : TellsWith ρ r K A s₀ R (onRoom r (removePreUser v)) s := fun h hR => by
  rw [wp_onRoom, wp_removePreUser_ended]
  split
  · rw [withRoom_self]
    exact h
  refine ⟨h.withRoom h.named (fun hu => hu) fun {w g k} ⟨p, hp, hk⟩ => ⟨p, ?_, hk⟩, ?_⟩
  · unfold endedLogin at hp
    rcases hold : (s.chatRooms r).preUserList.userInfoList.ptr v with _ | j <;> rw [hold] at hp
    · exact (lookedUp_ptr ..).symm.trans hp
    · exact StdMap.ptr_of_erase hp
  · rw [withRoom_same]
    exact hR

/-- The end of a login, for the user with the record `cur`. -/
theorem tellsWith_answer (u : Int) (cur : Ptr) (hk : K u (R cur).gsHashkeyUserOn (R cur).userHashKey)
    (hgs : ∀ g ∈ gs, s₀.gate (R cur).gsHashkeyUserOn = some g) {rs : StruUserLoginRS} :
    TellsWith rs.roomId r K A s₀ R (do
      announceLogin r rs gs (some cur)
      onRoom r (removePreUser rs.userId)
      sendMicList r gs (some cur)) s := by
  refine TellsWith.bind ?_ fun _ _ => (tellsWith_removePreUser rs.userId).bind fun _ _ => tellsWith_sendMicList hA hk hgs
  refine TellsWith.bind (x := record r cur) (fun h hR => ⟨h, hR⟩) fun info t => ?_
  exact (tellsWith_broadcast hA _ _).bind fun _ _ => tellsWith_sendUserList hA hk hgs rs

omit hA in
/-- The answer to the user with the record `p`. -/
theorem Told.replied (h : Told ρ r K A s₀ s) (rs : StruUserLoginRS) (p : Ptr)
    (hreply : ∀ gs, s₀.gate ((s.chatRooms r).records p).gsHashkeyUserOn = some gs →
      A (.toGS (.userLoginRS rs) rs.msgId gs.userSock ((s.chatRooms r).records p).userHashKey)) :
    Told ρ r K A s₀ (s.replied r rs p) := by
  refine (h.foundGate ((s.chatRooms r).records p).gsHashkeyUserOn).sendsAll fun m hm => ?_
  obtain ⟨gs, hgs, rfl⟩ := Option.map_eq_some_iff.mp (Option.mem_toList.mp hm)
  exact hreply gs ((h.gate _).symm.trans hgs)

end Server

/-! ## Who is in a room after a command -/

theorem onlineAs_loggedIn {room : ChatRoom} {rs : StruUserLoginRS} {p q : Ptr} {rest : List Ptr} (h : Owned room)
    (hp : room.preUserList.userInfoList.ptr rs.userId = some p) (hq : room.userList.unusedUserInfoList = q :: rest)
    {u g k : Int} (hu : OnlineAs (Server.loggedIn room rs p q rest) u g k) :
    OnlineAs room u g k ∨ rs.userId = u ∧ PendingAs room u g k := by
  obtain ⟨j, hj, hkeys⟩ := hu
  have hj' : (UserInfoList.added room.userList.userInfoList rs.userId q).ptr u = some j := hj
  have hold (hju : room.userList.userInfoList.ptr u = some j) : OnlineAs room u g k := by
    rw [Server.loggedIn_records_of_ne room rs p rest (online_ne_unused h.nodup hju hq)] at hkeys
    exact ⟨j, hju, hkeys⟩
  rw [UserInfoList.ptr_added] at hj'
  split at hj' <;> rename_i hv
  · rcases ho : room.userList.userInfoList.ptr rs.userId with _ | i <;> rw [ho] at hj' <;> cases hj'
    · rw [Option.getD_none, Server.loggedIn_records room rs rest (pending_ne_unused h.nodup hp hq)] at hkeys
      exact .inr ⟨hv, p, hv ▸ hp, hkeys⟩
    · exact .inl (hold (hv ▸ ho))
  · exact .inl (hold hj')

theorem pendingAs_loggedIn {room : ChatRoom} {rs : StruUserLoginRS} {p q : Ptr} {rest : List Ptr} (h : Owned room)
    (hq : room.userList.unusedUserInfoList = q :: rest) {u g k : Int}
    (hu : PendingAs (Server.loggedIn room rs p q rest) u g k) : PendingAs room u g k := by
  obtain ⟨j, hj, hkeys⟩ := hu
  rw [Server.loggedIn_records_of_ne room rs p rest (pending_ne_unused h.nodup hj hq)] at hkeys
  exact ⟨j, hj, hkeys⟩

variable {room : ChatRoom} {tmpPackage : GateRoomServerPack} {rq : StruUserLoginRQ} {p : Ptr} {rest : List Ptr}
  {u g k : Int}

theorem onlineAs_filled (h : Owned room) (hq : room.userList.unusedUserInfoList = p :: rest)
    (hu : OnlineAs (Server.filled room tmpPackage rq p rest) u g k) : OnlineAs room u g k := by
  obtain ⟨j, hj, hkeys⟩ := hu
  rw [Server.filled_records_of_ne room tmpPackage rq rest (online_ne_unused h.nodup hj hq)] at hkeys
  exact ⟨j, hj, hkeys⟩

theorem pendingAs_filled (h : Owned room) (hq : room.userList.unusedUserInfoList = p :: rest)
    (hu : PendingAs (Server.filled room tmpPackage rq p rest) u g k) : PendingAs room u g k := by
  obtain ⟨j, hj, hkeys⟩ := hu
  rw [Server.filled_records_of_ne room tmpPackage rq rest (pending_ne_unused h.nodup hj hq)] at hkeys
  exact ⟨j, hj, hkeys⟩

/-- A login request adds its own user, with its keys. -/
theorem pendingAs_requested (h : Owned room) (hq : room.userList.unusedUserInfoList = p :: rest)
    (hu : PendingAs (Server.requested room tmpPackage rq p rest) u g k) :
    PendingAs room u g k ∨ rq.userId = u ∧ tmpPackage.gsHashkey.toInt = g ∧ tmpPackage.userHashkey.toInt = k := by
  obtain ⟨j, hj, hkeys⟩ := hu
  have hj' : (UserInfoList.added room.preUserList.userInfoList rq.userId p).ptr u = some j := hj
  rw [UserInfoList.ptr_added] at hj'
  split at hj' <;> rename_i hv
  · rcases ho : room.preUserList.userInfoList.ptr rq.userId with _ | i <;> rw [ho] at hj' <;> cases hj'
    · rw [Option.getD_none, show (Server.requested room tmpPackage rq p rest).records p = _ from
        Server.filled_records room tmpPackage rq rest] at hkeys
      exact .inr ⟨hv, hkeys⟩
    · exact .inl (pendingAs_filled h hq ⟨i, hv ▸ ho, hkeys⟩)
  · exact .inl (pendingAs_filled h hq ⟨j, hj', hkeys⟩)

/-! ## Commands -/

namespace Server

variable {ρ : Int} {r : RoomPtr} {s t : Server} {m : Message}

/-- The message is the reply that lets the user `u` in. -/
def Message.LetsIn (m : Message) (u : Int) : Prop := ∃ rs, m = .clientLoginRS rs ∧ rs.result = 1 ∧ rs.userId = u

/-- The users that are in the room after the message `m`. -/
def Message.Enters (m : Message) (room : ChatRoom) (u g h : Int) : Prop :=
  OnlineAs room u g h ∨ m.LetsIn u ∧ PendingAs room u g h

/-- `x` is the answer to the login of a user who is pending. -/
def Message.Answers (m : Message) (s : Server) (r : RoomPtr) (x : Sent) : Prop :=
  ∃ rs g h, m = .clientLoginRS rs ∧ PendingAs (s.chatRooms r) rs.userId g h ∧ x.IsTo s.gate g h ∧
    ∃ fd, x = .toGS (.userLoginRS rs) rs.msgId fd h

/-- The message is a request that goes on to the center server, as `x`. -/
def Message.PassesOn (m : Message) (x : Sent) : Prop :=
  ∃ tmpPackage, ((∃ rq, m = .clientLoginRQ tmpPackage rq) ∨ ∃ rq, m = .userGiveGiftRQ tmpPackage rq) ∧
    x = .center tmpPackage.dataMsg tmpPackage.dataLen.toInt

theorem Message.PassesOn.isCenter {m : Message} {x : Sent} (h : m.PassesOn x) : x.isCenter = true := by
  obtain ⟨tmpPackage, -, rfl⟩ := h
  rfl

/-- The user that the message names as its own. -/
def Message.userId : Message → Int
  | .clientLoginRQ _ rq => rq.userId
  | .userExitRoomID m => m.userId
  | .userApplyMicRQ rq => rq.userId
  | .userOffMicRQ rq => rq.userId
  | .cancleUserMicRQ rq => rq.userId
  | .putUserOnMicRQ rq => rq.userId
  | .userGiveGiftRQ _ rq => rq.userId
  | .userSendMsgRQ rq => rq.userId
  | .clientLoginRS rs => rs.userId
  | .userGiveGiftRS rs => rs.userId

/-- What the message `m` may send: itself to the center server, messages to users who are in the room then, replies for
its own user to the calling gate, and the answer to a login. -/
def Message.May (m : Message) (s : Server) (r : RoomPtr) (x : Sent) : Prop :=
  m.PassesOn x ∨
    (∃ u g h, m.Enters (s.chatRooms r) u g h ∧ (x.IsTo s.gate g h ∨ m.userId = u ∧ x.IsReply h)) ∨ m.Answers s r x

theorem told_refl (hr : s.room ρ = some r) (hn : (s.chatRooms r).roomId = ρ) (m : Message) :
    Told ρ r (m.Enters (s.chatRooms r)) (m.May s r) s s :=
  ⟨hr, hn, .inl, id, fun _ => rfl, [], (List.append_nil _).symm, List.forall_mem_nil _⟩

theorem admits_may (m : Message) (s : Server) (r : RoomPtr) : Admits (m.Enters (s.chatRooms r)) (m.May s r) s :=
  fun _ u g h hk hx => .inr (.inl ⟨u, g, h, hk, .inl hx⟩)

theorem tells_clientLoginRS {rs : StruUserLoginRS} (ho : Owned (s.chatRooms r)) (hr : s.room rs.roomId = some r)
    (hn : (s.chatRooms r).roomId = rs.roomId) :
    Tells rs.roomId r ((Message.clientLoginRS rs).Enters (s.chatRooms r)) ((Message.clientLoginRS rs).May s r) s
      (clientLoginRS rs) s := by
  have h := told_refl hr hn (.clientLoginRS rs)
  have hA := admits_may (.clientLoginRS rs) s r
  rw [Tells, wp_clientLoginRS, hr]
  dsimp only
  split
  · exact h
  rcases hp : (s.chatRooms r).preUserList.userInfoList.ptr rs.userId with _ | p
  · exact h.withRoom hn (fun hu => hu) fun ⟨j, hj, hk⟩ => ⟨j, (lookedUp_ptr ..).symm.trans hj, hk⟩
  dsimp only
  -- The keys of the pending record, with which the user is answered.
  have hpend : PendingAs (s.chatRooms r) rs.userId ((s.chatRooms r).records p).gsHashkeyUserOn
      ((s.chatRooms r).records p).userHashKey := ⟨p, hp, rfl, rfl⟩
  have hreply (gs : BaseUserInfo) (hgs : s.gate ((s.chatRooms r).records p).gsHashkeyUserOn = some gs) :
      (Message.clientLoginRS rs).May s r (.toGS (.userLoginRS rs) rs.msgId gs.userSock
        ((s.chatRooms r).records p).userHashKey) :=
    .inr (.inr ⟨rs, _, _, rfl, hpend, ⟨rfl, gs, hgs, rfl⟩, _, rfl⟩)
  split <;> rename_i h1
  · split
    · exact h
    rcases hq : (s.chatRooms r).userList.unusedUserInfoList with _ | ⟨q, rest⟩
    · trivial
    dsimp only
    have hne := pending_ne_unused ho.nodup hp hq
    have hin : Told rs.roomId r ((Message.clientLoginRS rs).Enters (s.chatRooms r)) ((Message.clientLoginRS rs).May s r) s
        (s.withRoom r (loggedIn (s.chatRooms r) rs p q rest)) := by
      refine ⟨hr, ?_, fun hu => ?_, fun hu => ?_, fun _ => rfl, [], (List.append_nil _).symm, List.forall_mem_nil _⟩
      · rw [withRoom_same]
        exact hn
      · rw [withRoom_same] at hu
        exact (onlineAs_loggedIn ho hp hq hu).imp id fun ⟨hv, hu⟩ => ⟨⟨rs, rfl, h1, hv⟩, hu⟩
      · rw [withRoom_same] at hu
        exact pendingAs_loggedIn ho hq hu
    have hRp : ((s.withRoom r (loggedIn (s.chatRooms r) rs p q rest)).chatRooms r).records p =
        (s.chatRooms r).records p := by
      rw [withRoom_same, loggedIn_records_of_ne _ rs p rest hne]
    have hRq : ((s.withRoom r (loggedIn (s.chatRooms r) rs p q rest)).chatRooms r).records q =
        loginInfo rs ((s.chatRooms r).records p) := by
      rw [withRoom_same, loggedIn_records _ rs rest hne]
    rw [answerLogin, wp_bind, wp_replyLogin]
    have hreplied := hin.replied rs p (by rw [hRp]; exact hreply)
    refine wp_mono (tellsWith_answer hA rs.userId q ?_ (fun g hg => ?_) hreplied rfl)
      (fun _ _ h => h.1) fun _ h => h
    · rw [replied_chatRooms, hRq]
      exact .inr ⟨⟨rs, rfl, h1, rfl⟩, hpend⟩
    · rw [hRp] at hg
      rw [replied_chatRooms, hRq]
      exact hg
  · rw [answerLogin, wp_bind, wp_replyLogin]
    have hrest : TellsWith rs.roomId r ((Message.clientLoginRS rs).Enters (s.chatRooms r))
        ((Message.clientLoginRS rs).May s r) s (s.chatRooms r).records (do
          announceLogin r rs (s.gate ((s.chatRooms r).records p).gsHashkeyUserOn) none
          onRoom r (removePreUser rs.userId)
          sendMicList r (s.gate ((s.chatRooms r).records p).gsHashkeyUserOn) none) (s.replied r rs p) :=
      TellsWith.bind (x := announceLogin r rs _ none) (fun h hR => ⟨h, hR⟩) fun _ _ =>
        (tellsWith_removePreUser rs.userId).bind fun _ _ => tellsWith_sendMicList_none
    exact wp_mono (hrest (h.replied rs p hreply) rfl) (fun _ _ h => h.1) fun _ h => h

/-- Every command but a login request. -/
theorem tells_handle (ho : Owned (s.chatRooms r)) (hr : s.room m.roomId = some r)
    (hn : (s.chatRooms r).roomId = m.roomId) (hrq : ∀ tmpPackage rq, m ≠ .clientLoginRQ tmpPackage rq) :
    Tells m.roomId r (m.Enters (s.chatRooms r)) (m.May s r) s (handle m) s := by
  have h := told_refl hr hn m
  have hA := admits_may m s r
  have hreply (x : Sent) (g k : Int) (hk : m.Enters (s.chatRooms r) m.userId g k) (hx : x.IsReply k) : m.May s r x :=
    .inr (.inl ⟨_, g, k, hk, .inr ⟨rfl, hx⟩⟩)
  cases m with
  | clientLoginRQ tmpPackage rq => exact absurd rfl (hrq tmpPackage rq)
  | userExitRoomID m => exact Told.userExitRoomID hA h
  | userApplyMicRQ rq => exact Told.userApplyMicRQ hA h hreply
  | userOffMicRQ rq => exact Told.userOffMicRQ hA h
  | cancleUserMicRQ rq => exact Told.forRoomUser h fun _ _ => h
  | putUserOnMicRQ rq => exact Told.forRoomUser h fun _ _ => h
  | userGiveGiftRQ tmpPackage rq => exact Told.userGiveGiftRQ h (.inl ⟨tmpPackage, .inr ⟨rq, rfl⟩, rfl⟩)
  | userSendMsgRQ rq => exact Told.userSendMsgRQ hA h hreply
  | clientLoginRS rs => exact tells_clientLoginRS ho hr hn
  | userGiveGiftRS rs => exact Told.userGiveGiftRS hA h

/-- The message is the request of the user `u` with the key `h` on the gate `g`. -/
def Message.Asks (m : Message) (u g h : Int) : Prop :=
  ∃ tmpPackage rq, m = .clientLoginRQ tmpPackage rq ∧ rq.userId = u ∧ tmpPackage.gsHashkey.toInt = g ∧
    tmpPackage.userHashkey.toInt = h

/-- What a message leaves in its room, and what is sent for it. -/
structure Handled (m : Message) (s s' : Server) : Prop where
  online {u g h : Int} {room' : ChatRoom} : room' ∈ s'.content m.roomId → OnlineAs room' u g h →
    ∃ room ∈ s.content m.roomId, m.Enters room u g h
  pending {u g h : Int} {room' : ChatRoom} : room' ∈ s'.content m.roomId → PendingAs room' u g h →
    (∃ room ∈ s.content m.roomId, PendingAs room u g h) ∨ m.Asks u g h
  sent {x : Sent} : x ∈ newlySent s s' → m.PassesOn x ∨ ∃ r, s.room m.roomId = some r ∧ m.May s r x

theorem Told.handled {s' : Server} (hr : s.room m.roomId = some r)
    (h : Told m.roomId r (m.Enters (s.chatRooms r)) (m.May s r) s s') : Handled m s s' := by
  have hmem : s.chatRooms r ∈ s.content m.roomId := by
    rw [content, hr]
    exact Option.mem_some_self _
  have hself {room' : ChatRoom} (hroom : room' ∈ s'.content m.roomId) : room' = s'.chatRooms r := by
    rw [content, h.found] at hroom
    exact (Option.mem_some_iff.mp hroom).symm
  refine ⟨fun hroom hu => ⟨_, hmem, h.online (hself hroom ▸ hu)⟩,
    fun hroom hu => .inl ⟨_, hmem, h.pending (hself hroom ▸ hu)⟩, fun hx => .inr ⟨r, hr, ?_⟩⟩
  obtain ⟨ms, hms, hall⟩ := h.sent
  rw [newlySent, hms, List.drop_left] at hx
  exact hall _ hx

theorem Rooms.forget {P : RoomPtr → ChatRoom → Prop} (hs : Rooms P s) : Rooms (fun _ _ => True) s :=
  ⟨hs.unused, hs.known, hs.inj, hs.fresh, fun _ => trivial⟩

/-- The room of a login request has the users that it had. -/
theorem entered_users (hs : Rooms (fun _ => Owned) s) (ρ : Int) {u g h : Int} :
    (OnlineAs ((s.entered ρ).2.chatRooms (s.entered ρ).1) u g h → ∃ room ∈ s.content ρ, OnlineAs room u g h) ∧
      (PendingAs ((s.entered ρ).2.chatRooms (s.entered ρ).1) u g h → ∃ room ∈ s.content ρ, PendingAs room u g h) := by
  have hroom : (s.entered ρ).2.chatRooms (s.entered ρ).1 = (s.content ρ).getD (createdRoom ρ) := by
    have hc := (hs.forget.entered_leaves ρ).2
    rw [content, entered_self, Option.map_some] at hc
    exact Option.some.inj hc
  rw [hroom]
  rcases s.content ρ with _ | room
  · constructor
    · rintro ⟨p, hp, -⟩
      exact absurd hp (by simp [createdRoom, ChatRoom.new, initUserList])
    · rintro ⟨p, hp, -⟩
      exact absurd hp (by simp [createdRoom, ChatRoom.new, initUserList])
  · exact ⟨fun hu => ⟨room, rfl, hu⟩, fun hu => ⟨room, rfl, hu⟩⟩

/-- After a login request: the server entered, but for its room, and for what is sent. -/
theorem handled_of_entered (hs : Rooms (fun _ => Owned) s) {tmpPackage : GateRoomServerPack} {rq : StruUserLoginRQ}
    {room : ChatRoom} {ms : List Sent} (hms : ∀ x ∈ ms, (Message.clientLoginRQ tmpPackage rq).PassesOn x)
    (ho : ∀ {u g h : Int}, OnlineAs room u g h →
      OnlineAs ((s.entered rq.roomId).2.chatRooms (s.entered rq.roomId).1) u g h)
    (hp : ∀ {u g h : Int}, PendingAs room u g h →
      PendingAs ((s.entered rq.roomId).2.chatRooms (s.entered rq.roomId).1) u g h ∨
        (Message.clientLoginRQ tmpPackage rq).Asks u g h) (hc : t.content rq.roomId = some room)
    (ht : t.sent = (s.entered rq.roomId).2.sent ++ ms) : Handled (.clientLoginRQ tmpPackage rq) s t := by
  refine ⟨fun hroom hu => ?_, fun hroom hu => ?_, fun hx => .inl (hms _ ?_)⟩
  · cases hc.symm.trans hroom
    obtain ⟨room, hmem, hu⟩ := (entered_users hs rq.roomId).1 (ho hu)
    exact ⟨room, hmem, .inl hu⟩
  · cases hc.symm.trans hroom
    exact (hp hu).imp (entered_users hs rq.roomId).2 id
  · have hsent : (s.entered rq.roomId).2.sent = s.sent := by
      unfold Server.entered
      split <;> rfl
    rw [newlySent, ht, hsent, List.drop_left] at hx
    exact hx

theorem handled_clientLoginRQ (hs : Rooms (fun _ => Owned) s) {tmpPackage : GateRoomServerPack} {rq : StruUserLoginRQ} :
    wp (clientLoginRQ tmpPackage rq) (fun _ => Handled (.clientLoginRQ tmpPackage rq) s)
      (Handled (.clientLoginRQ tmpPackage rq) s) True s := by
  have howned : Owned ((s.entered rq.roomId).2.chatRooms (s.entered rq.roomId).1) :=
    (hs.entered (fun {r _} => owned_invariant.ids (r := r)) rq.roomId).1.each _
  have hroom (room : ChatRoom) : ((s.entered rq.roomId).2.withRoom (s.entered rq.roomId).1 room).content rq.roomId =
      some room := by
    rw [content, show Server.room (Server.withRoom _ _ room) rq.roomId = _ from entered_self s rq.roomId,
      Option.map_some, withRoom_same]
  rw [wp_clientLoginRQ hs.unused]
  dsimp only
  split
  · refine handled_of_entered hs (List.forall_mem_nil _) (fun hu => hu) .inl ?_ (List.append_nil _).symm
    have h := hroom ((s.entered rq.roomId).2.chatRooms (s.entered rq.roomId).1)
    rwa [withRoom_self] at h
  split
  · trivial
  rename_i p rest hq
  split
  · split
    · exact handled_of_entered hs (List.forall_mem_nil _) (onlineAs_filled howned hq)
        (fun hu => .inl (pendingAs_filled howned hq hu)) (hroom _) (List.append_nil _).symm
    · refine handled_of_entered hs (List.forall_mem_singleton.mpr ⟨tmpPackage, .inl ⟨rq, rfl⟩, rfl⟩) (fun hu => ?_)
        (fun hu => ?_)
        (hroom (requested _ tmpPackage rq p rest)) rfl
      · exact onlineAs_filled howned hq hu
      · exact (pendingAs_requested howned hq hu).imp id fun hu => ⟨tmpPackage, rq, rfl, hu⟩
  · trivial

/-- What a message leaves in its room, and what is sent for it. -/
theorem handled_message (hs : Rooms (fun _ => Owned) s) (hn : s.Keyed) {s' : Server}
    (h : step s (.message m) = some s') : Handled m s s' := by
  by_cases hrq : ∃ tmpPackage rq, m = .clientLoginRQ tmpPackage rq
  · obtain ⟨tmpPackage, rq, rfl⟩ := hrq
    exact after_wp (handled_clientLoginRQ hs) h
  have hrq' : ∀ tmpPackage rq, m ≠ .clientLoginRQ tmpPackage rq := fun _ _ h => hrq ⟨_, _, h⟩
  rcases hr : s.room m.roomId with _ | r
  · have hdone : handle m s = .done () (s.foundRoom m.roomId) := handle_none rfl hrq' hr
    have hs' : step.after (handle m) s = some s' := h
    rw [step.after, hdone] at hs'
    cases hs'
    have hnone : (s.foundRoom m.roomId).content m.roomId = none := by rw [content_foundRoom, content_eq_none.mpr hr]
    refine ⟨fun hroom => ?_, fun hroom => ?_, fun hx => ?_⟩
    · cases hnone.symm.trans hroom
    · cases hnone.symm.trans hroom
    · rw [newlySent, show (s.foundRoom m.roomId).sent = s.sent from rfl, List.drop_length] at hx
      cases hx
  · have hname : (s.chatRooms r).roomId = m.roomId := hn _ _ (by rw [content, hr]; rfl)
    refine after_wp (wp_mono (tells_handle (hs.each r) hr hname hrq') (fun _ _ ht => ?_) fun _ ht => ?_) h
    · exact ht.handled hr
    · exact ht.handled hr

/-! ## Runs -/

/-- The user `u` with the key `h` on the gate `g` has asked for a login to the room `ρ`. -/
def Asked (es : List Event) (ρ u g h : Int) : Prop :=
  ∃ m, Event.message m ∈ es ∧ m.roomId = ρ ∧ m.Asks u g h

/-- The center server has let the user `u` into the room `ρ`. -/
def LetIn (es : List Event) (ρ u : Int) : Prop := ∃ m, Event.message m ∈ es ∧ m.roomId = ρ ∧ m.LetsIn u

/-- The message was sent to the user with the key `h` on the gate `g`, over the connection with which the gate came.
`calling` is the gate whose message is handled. -/
def SentTo (es : List Event) (calling : BaseUserInfo) (g h : Int) : Sent → Prop
  | .center .. => False
  | .toGS _ _ fd userHashkey => userHashkey = h ∧ .connect g fd ∈ es
  | .gate gs _ _ userHashkey => userHashkey = h ∧ gs.hashKey = g ∧ .connect g gs.userSock ∈ es
  | .caller _ _ userHashkey => userHashkey = h ∧ calling.hashKey = g ∧ .connect g calling.userSock ∈ es

/-- The users of each room have asked for it, and those that are in it were let in. -/
structure Known (es : List Event) (s : Server) : Prop where
  rooms : Rooms (fun _ => Owned) s
  keyed : s.Keyed
  online {ρ u g h : Int} {room : ChatRoom} : room ∈ s.content ρ → OnlineAs room u g h →
    Asked es ρ u g h ∧ LetIn es ρ u
  pending {ρ u g h : Int} {room : ChatRoom} : room ∈ s.content ρ → PendingAs room u g h → Asked es ρ u g h
  gate {k : Int} {gs : BaseUserInfo} : s.gate k = some gs → gs.hashKey = k ∧ .connect k gs.userSock ∈ es

theorem known_new : Known [] .new where
  rooms := rooms_new fun _ => owned_new
  keyed _ _ hroom := by cases hroom
  online hroom := by cases hroom
  pending hroom := by cases hroom
  gate h := by simp [Server.gate, Server.new] at h

variable {es : List Event} {e : Event} {s' : Server} {ρ u g h : Int}

theorem Asked.append (ha : Asked es ρ u g h) (e : Event) : Asked (es ++ [e]) ρ u g h := by
  obtain ⟨m, hm, hrest⟩ := ha
  exact ⟨m, List.mem_append_left _ hm, hrest⟩

theorem LetIn.append (hl : LetIn es ρ u) (e : Event) : LetIn (es ++ [e]) ρ u := by
  obtain ⟨m, hm, hrest⟩ := hl
  exact ⟨m, List.mem_append_left _ hm, hrest⟩

theorem mem_append_self (es : List Event) (e : Event) : e ∈ es ++ [e] := List.mem_append_right _ List.mem_cons_self

/-- A gate that comes or goes. -/
theorem Known.gateStep {gates : (Int → Option BaseUserInfo) → Int → Option BaseUserInfo} (hk : Known es s)
    (he : GateStep e gates) (hgates : ∀ k gs, gates s.gate k = some gs →
      s.gate k = some gs ∨ gs.hashKey = k ∧ e = .connect k gs.userSock) (hs : step s e = some s') :
    Known (es ++ [e]) s' ∧ s'.sent = s.sent := by
  obtain ⟨s₁, hs₁, hc, hsent, hg⟩ := he s
  cases hs.symm.trans hs₁
  refine ⟨⟨owned_invariant.step hk.rooms hs, fun j room hroom => hk.keyed j room (hc j ▸ hroom), fun hroom hu => ?_,
    fun hroom hu => (hk.pending (hc _ ▸ hroom) hu).append e, fun {k gs} hgs => ?_⟩, hsent⟩
  · obtain ⟨ha, hl⟩ := hk.online (hc _ ▸ hroom) hu
    exact ⟨ha.append e, hl.append e⟩
  · rcases hgates k gs (hg ▸ hgs) with hold | ⟨hkey, rfl⟩
    · obtain ⟨h1, h2⟩ := hk.gate hold
      exact ⟨h1, List.mem_append_left _ h2⟩
    · exact ⟨hkey, mem_append_self es _⟩

theorem Known.message (hk : Known es s) (hs : step s (.message m) = some s') : Known (es ++ [.message m]) s' := by
  have hh := handled_message hk.rooms hk.keyed hs
  obtain ⟨-, -, ms, hl, -, -, hname⟩ :=
    step_message ⟨hk.rooms.forget, hk.rooms.forget, hk.keyed, rfl, fun _ => rfl⟩ rfl hs
  have hself := mem_append_self es (.message m)
  refine ⟨owned_invariant.step hk.rooms hs, hl.keyed hk.keyed hname, fun {ρ u g h room} hroom hu => ?_,
    fun {ρ u g h room} hroom hu => ?_, fun hgs => ?_⟩
  · by_cases hρ : ρ = m.roomId
    · subst hρ
      obtain ⟨room, hroom, hu | ⟨hlet, hu⟩⟩ := hh.online hroom hu
      · obtain ⟨ha, hl⟩ := hk.online hroom hu
        exact ⟨ha.append _, hl.append _⟩
      · exact ⟨(hk.pending hroom hu).append _, m, hself, rfl, hlet⟩
    · obtain ⟨ha, hlet⟩ := hk.online (hl.other hρ ▸ hroom) hu
      exact ⟨ha.append _, hlet.append _⟩
  · by_cases hρ : ρ = m.roomId
    · subst hρ
      rcases hh.pending hroom hu with ⟨room, hroom, hu⟩ | hasks
      · exact (hk.pending hroom hu).append _
      · exact ⟨m, hself, rfl, hasks⟩
    · exact (hk.pending (hl.other hρ ▸ hroom) hu).append _
  · obtain ⟨h1, h2⟩ := hk.gate (hl.gate _ ▸ hgs)
    exact ⟨h1, List.mem_append_left _ h2⟩

theorem Known.step (hk : Known es s) (hs : step s e = some s') : Known (es ++ [e]) s' := by
  cases e with
  | message m => exact hk.message hs
  | connect hashKey userSock =>
    refine (hk.gateStep (gateStep_connect hashKey userSock) (fun k gs hgs => ?_) hs).1
    split at hgs <;> rename_i hkey
    · cases hgs
      exact .inr ⟨hkey.2, by rw [hkey.2]⟩
    · exact .inl hgs
  | disconnect hashKey =>
    refine (hk.gateStep (gateStep_disconnect hashKey) (fun k gs hgs => ?_) hs).1
    split at hgs
    · cases hgs
    · exact .inl hgs

theorem known_run (hs : run .new es = some s) : Known es s :=
  history_inv known_new (fun _ _ _ _ _ hk hs => hk.step hs) hs

theorem Known.sentTo (hk : Known es s) (calling : BaseUserInfo) {x : Sent} (h : x.IsTo s.gate g u) :
    SentTo es calling g u x := by
  cases x with
  | center data len => exact h
  | toGS pack msgId fd key =>
    obtain ⟨hkey, gs, hgs, rfl⟩ := h
    exact ⟨hkey, (hk.gate hgs).2⟩
  | gate gs pack msgId key => exact ⟨h.1, hk.gate h.2⟩
  | caller pack msgId key => exact h.elim

theorem Known.sent_eq (hk : Known es s) (he : Server.step s e = some s') : s'.sent = s.sent ++ newlySent s s' := by
  have hprefix : ∃ ms, s'.sent = s.sent ++ ms := by
    have gates {gates : (Int → Option BaseUserInfo) → Int → Option BaseUserInfo} (hg : GateStep e gates) :
        s'.sent = s.sent := by
      obtain ⟨s₁, hs₁, -, hsent, -⟩ := hg s
      cases he.symm.trans hs₁
      exact hsent
    cases e with
    | connect hashKey userSock => exact ⟨[], by rw [gates (gateStep_connect hashKey userSock), List.append_nil]⟩
    | disconnect hashKey => exact ⟨[], by rw [gates (gateStep_disconnect hashKey), List.append_nil]⟩
    | message m =>
      obtain ⟨-, -, ms, hl, -⟩ :=
        step_message ⟨hk.rooms.forget, hk.rooms.forget, hk.keyed, rfl, fun _ => rfl⟩ rfl he
      exact ⟨ms, hl.sent⟩
  obtain ⟨ms, hms⟩ := hprefix
  rw [newlySent, hms, List.drop_left]

/-- What is sent in a step is sent for its message. -/
theorem Known.handled (hk : Known es s) (he : Server.step s e = some s') {x : Sent} (hx : x ∈ newlySent s s') :
    ∃ m, e = .message m ∧ Handled m s s' := by
  have gates {gates : (Int → Option BaseUserInfo) → Int → Option BaseUserInfo} (hg : GateStep e gates) : False := by
    obtain ⟨s₁, hs₁, -, hsent, -⟩ := hg s
    cases he.symm.trans hs₁
    rw [newlySent, hsent, List.drop_length] at hx
    cases hx
  cases e with
  | connect hashKey userSock => exact (gates (gateStep_connect hashKey userSock)).elim
  | disconnect hashKey => exact (gates (gateStep_disconnect hashKey)).elim
  | message m => exact ⟨m, rfl, handled_message hk.rooms hk.keyed he⟩

/-- What goes on to the center server in a run was a request of the run. -/
theorem passedOn_run (hs : run .new es = some s) {x : Sent} (hx : x ∈ s.sent) (hc : x.isCenter = true) :
    ∃ m, Event.message m ∈ es ∧ m.PassesOn x := by
  refine history_inv (P := fun es s => ∀ x ∈ s.sent, x.isCenter = true → ∃ m, Event.message m ∈ es ∧ m.PassesOn x)
    (fun _ hx => absurd hx List.not_mem_nil) (fun es s e s' hrun ih hs x hx hc => ?_) hs x hx hc
  have hk := known_run hrun
  rw [hk.sent_eq hs] at hx
  rcases List.mem_append.mp hx with hx | hx
  · obtain ⟨m, hm, hp⟩ := ih x hx hc
    exact ⟨m, List.mem_append_left _ hm, hp⟩
  obtain ⟨m, rfl, hh⟩ := hk.handled hs hx
  refine ⟨m, mem_append_self es _, ?_⟩
  -- What is sent to a user is not for the center server.
  have hto {g h : Int} (hto : x.IsTo s.gate g h) : False := by
    cases x with
    | center data len => exact hto
    | _ => cases hc
  rcases hh.sent hx with hp | ⟨r, -, hp | ⟨u, g, h, -, hu | ⟨-, _, _, rfl⟩⟩ | ⟨rs, g, h, -, -, hu, -⟩⟩
  · exact hp
  · exact hp
  · exact (hto hu).elim
  · cases hc
  · exact (hto hu).elim

/-- A message for a room is sent to a user who has asked for a login to that room over the connection that gets it,
or it is a reply to the calling gate under the key with which the user that the request names has asked for it. The
center server has let the user in, or it is the answer to the user's own login. What else is sent is for the center
server. -/
theorem heard_by_members (hs : run .new es = some s) (he : step s e = some s') (calling : BaseUserInfo) {x : Sent}
    (hx : x ∈ newlySent s s') (hc : x.isCenter = false) : ∃ m, e = .message m ∧ ∃ u g h, Asked es m.roomId u g h ∧
      (SentTo es calling g h x ∨ m.userId = u ∧ ∃ pack msgId, x = .caller pack msgId h) ∧
      (LetIn (es ++ [e]) m.roomId u ∨
        ∃ rs fd, m = .clientLoginRS rs ∧ rs.userId = u ∧ x = .toGS (.userLoginRS rs) rs.msgId fd h) := by
  have hk := known_run hs
  obtain ⟨m, rfl, hh⟩ := hk.handled he hx
  refine ⟨m, rfl, ?_⟩
  rcases hh.sent hx with hcenter | ⟨r, hr, hmay⟩
  · cases hc.symm.trans hcenter.isCenter
  have hroom : s.chatRooms r ∈ s.content m.roomId := by
    rw [content, hr]
    rfl
  rcases hmay with hcenter | ⟨u, g, h, hu | ⟨hlet, hu⟩, hto⟩ | ⟨rs, g, h, rfl, hu, hto, fd, hfd⟩
  · cases hc.symm.trans hcenter.isCenter
  · obtain ⟨ha, hl⟩ := hk.online hroom hu
    exact ⟨u, g, h, ha, hto.imp_left (hk.sentTo calling), .inl (hl.append _)⟩
  · exact ⟨u, g, h, hk.pending hroom hu, hto.imp_left (hk.sentTo calling), .inl ⟨m, mem_append_self es _, rfl, hlet⟩⟩
  · exact ⟨rs.userId, g, h, hk.pending hroom hu, .inl (hk.sentTo calling hto), .inr ⟨rs, fd, rfl, rfl, hfd⟩⟩

/-- The user 1 of the room 2 says something. -/
def talk : Event := .message (.userSendMsgRQ ⟨1, 2, [104, 105], false, 0⟩)

/-- The reply to the user 1, who is on the gate 5, goes to the gate over which the message came. -/
theorem heard_by_members_talk : ∃ s s' x, run .new firstLogin = some s ∧ step s talk = some s' ∧ x ∈ newlySent s s' ∧
    ∃ u g h, Asked firstLogin 2 u g h ∧
      (SentTo firstLogin ⟨60, 6⟩ g h x ∨ 1 = u ∧ ∃ pack msgId, x = .caller pack msgId h) := by
  have hrun : ∃ s, s ∈ run .new firstLogin ∧ ∃ s', s' ∈ step s talk ∧ ∃ x, x ∈ newlySent s s' ∧
      x.isCenter = false := by
    decide +kernel
  obtain ⟨s, hs, s', hs', x, hx, hc⟩ := hrun
  obtain ⟨m, hm, u, g, h, ha, hto, -⟩ := heard_by_members hs hs' ⟨60, 6⟩ hx hc
  cases hm
  exact ⟨s, s', x, hs, hs', hx, u, g, h, ha, hto⟩

end Server

end Miku.RoomServer
