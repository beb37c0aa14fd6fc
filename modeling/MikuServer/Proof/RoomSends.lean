import MikuServer.Proof.RoomAudience

/-!
# What the commands of a room server send

Each command sends messages of its own kinds, with the values of the message that
it is for (`Sends`), whatever the state is (`sends_handle`). So what has been sent
in a run was sent for a message of the run (`sent_run`). A private text goes to the
user that it is for, and to nobody else (`private_to_addressee`).
-/

namespace Miku.RoomServer

open Act ChatRoom

/-- The message, if it is not data for the center server. -/
def Sent.pack : Sent → Option Pack
  | .center .. => none
  | .toGS pack .. => some pack
  | .gate _ pack .. => some pack
  | .caller pack .. => some pack

namespace Server

/-- What the command for a message may send to users. -/
def Message.Sends : Message → Pack → Prop
  | .userExitRoomID m, pack => pack = .userExitRoomID m
  | .userApplyMicRQ rq, pack => ∃ rs, pack = .userApplyMicRS rs ∧ rs.userId = rq.userId
  | .userOffMicRQ rq, pack => pack = .userOffMicRS ⟨.userOffMicRS, rq.userId, rq.roomId, 1⟩
  | .userSendMsgRQ rq, pack =>
    (∃ rs, pack = .userMsgRS rs ∧ rs.userId = rq.userId) ∨
      pack = .userMsgTextID ⟨.userMsgTextID, rq.userId, rq.roomId, rq.msgText, rq.isPrivate, rq.dstUserId⟩
  | .clientLoginRS rs, pack =>
    pack = .userLoginRS rs ∨ (∃ info, pack = .userInfo info) ∨ (∃ list, pack = .userInfoListID list) ∨
      ∃ mics, pack = .roomMicInfoID mics
  | .userGiveGiftRS rs, pack => pack = .userGiveGiftRS rs
  | _, _ => False

/-- The request that a text is sent for. -/
theorem Message.Sends.of_text {m : Message} {text : StruUserMsgTextID} (h : m.Sends (.userMsgTextID text)) :
    ∃ rq, m = .userSendMsgRQ rq ∧
      text = ⟨.userMsgTextID, rq.userId, rq.roomId, rq.msgText, rq.isPrivate, rq.dstUserId⟩ := by
  cases m with
  | userSendMsgRQ rq =>
    obtain ⟨rs, h, -⟩ | h := h
    · cases h
    · exact ⟨rq, rfl, Pack.userMsgTextID.inj h⟩
  | userApplyMicRQ rq => obtain ⟨_, h, -⟩ := h; cases h
  | clientLoginRS rs => obtain h | ⟨_, h⟩ | ⟨_, h⟩ | ⟨_, h⟩ := h <;> cases h
  | _ => cases h

/-- The reply that a gift is announced for. -/
theorem Message.Sends.of_gift {m : Message} {rs : StruUserGiveGiftRS} (h : m.Sends (.userGiveGiftRS rs)) :
    m = .userGiveGiftRS rs := by
  cases m with
  | userGiveGiftRS rs' => exact congrArg _ (Pack.userGiveGiftRS.inj h).symm
  | userSendMsgRQ rq => obtain ⟨_, h, -⟩ | h := h <;> cases h
  | userApplyMicRQ rq => obtain ⟨_, h, -⟩ := h; cases h
  | clientLoginRS rs => obtain h | ⟨_, h⟩ | ⟨_, h⟩ | ⟨_, h⟩ := h <;> cases h
  | _ => cases h

/-- After `old`, messages of `P` were sent. -/
def SentPacks (old : List Sent) (P : Pack → Prop) (s : Server) : Prop :=
  ∃ ms, s.sent = old ++ ms ∧ ∀ x ∈ ms, ∀ pack ∈ x.pack, P pack

variable {old : List Sent} {P : Pack → Prop} {α β : Type} {r : RoomPtr} {pack : Pack} {msgId : EnumMsgID}

/-! ## The functions that the commands call -/

theorem sends_onRoom (x : Act ChatRoom α) : Keeps (SentPacks old P) (onRoom r x) := by
  refine keeps_zoom ?_ x
  exact fun _ _ h => h

theorem sends_record (p : Ptr) : Keeps (SentPacks old P) (record r p) := keeps_read _

theorem sends_getRoomID : Keeps (SentPacks old P) (getRoomID r) := keeps_read _

theorem sends_getRoom (roomId : Int) : Keeps (SentPacks old P) (getRoom roomId) := keeps_ofFun fun _ h => h

theorem sends_getUserByHashkey (userHashkey : Int) : Keeps (SentPacks old P) (getUserByHashkey userHashkey) :=
  keeps_ofFun fun _ h => h

theorem sends_send {m : Sent} (hm : ∀ pack ∈ m.pack, P pack) : Keeps (SentPacks old P) (send m) :=
  keeps_modify fun s h => by
    obtain ⟨ms, hms, hall⟩ := h
    refine ⟨ms ++ [m], ?_, List.forall_mem_append.mpr ⟨hall, List.forall_mem_singleton.mpr hm⟩⟩
    dsimp only
    rw [hms, List.append_assoc]

theorem sends_sendPack {m : Sent} (hpack : m.pack = some pack) (h : P pack) : Keeps (SentPacks old P) (send m) := by
  refine sends_send fun q hq => ?_
  rw [hpack] at hq
  cases hq
  exact h

theorem sends_sendToCenter (tmpPackage : GateRoomServerPack) : Keeps (SentPacks old P) (sendToCenter tmpPackage) :=
  sends_send fun _ h => by cases h

theorem sends_forUsers {body : Ptr → β → Act Server β} (hbody : ∀ p b, Keeps (SentPacks old P) (body p b)) (first : Ptr)
    (b : β) : Keeps (SentPacks old P) (forUsers r body first b) :=
  keeps_bind (keeps_read _) fun count => keeps_whileSome hbody (sends_onRoom _) count first b

theorem sends_sendToUser (h : P pack) (p : Ptr) : Keeps (SentPacks old P) (sendToUser r pack msgId p) := by
  refine keeps_bind (sends_record p) fun info => keeps_bind (sends_getUserByHashkey _) fun gs => ?_
  cases gs with
  | none => exact keeps_pure ()
  | some gs => exact sends_sendPack rfl h

theorem sends_broadcast (h : P pack) (roomId : Int) :
    Keeps (SentPacks old P) (sendDataToRoomAllUser pack msgId roomId) := by
  unfold sendDataToRoomAllUser
  split
  · exact keeps_pure true
  refine keeps_bind (sends_getRoom roomId) fun room => ?_
  cases room with
  | none => exact keeps_pure false
  | some r =>
    refine keeps_bind (sends_onRoom _) fun first => ?_
    cases first with
    | none => exact keeps_pure false
    | some p => exact keeps_bind (sends_forUsers (fun q _ => sends_sendToUser h q) p ()) fun _ => keeps_pure true

theorem sends_roomBroadcast (h : P pack) :
    Keeps (SentPacks old P) (do let roomId ← getRoomID r; let _ ← sendDataToRoomAllUser pack msgId roomId) :=
  keeps_bind sends_getRoomID fun roomId => keeps_bind (sends_broadcast h roomId) fun _ => keeps_pure ()

theorem sends_forRoomUser {roomId userId : Int} {body : RoomPtr → Ptr → Act Server Unit}
    (hbody : ∀ r p, Keeps (SentPacks old P) (body r p)) : Keeps (SentPacks old P) (forRoomUser roomId userId body) := by
  refine keeps_bind (sends_getRoom roomId) fun room => ?_
  cases room with
  | none => exact keeps_pure ()
  | some r =>
    refine keeps_bind (sends_onRoom _) fun user => ?_
    cases user with
    | none => exact keeps_pure ()
    | some p => exact hbody r p

/-! ## The commands -/

theorem sends_loginRoom (roomId : Int) : Keeps (SentPacks old P) (loginRoom roomId) := by
  refine keeps_bind (sends_getRoom roomId) fun room => ?_
  cases room with
  | some r => exact keeps_pure r
  | none =>
    have hcreate : Keeps (SentPacks old P) (createRoom roomId) := by
      refine keeps_bind ?_ fun r => keeps_bind (sends_onRoom _) fun _ => keeps_pure r
      refine keeps_bind (keeps_read _) fun unused => ?_
      cases unused with
      | nil => exact keeps_ofFun fun _ h => h
      | cons front rest =>
        exact keeps_bind (keeps_deref front) fun r => keeps_bind (sends_onRoom _) fun _ =>
          keeps_bind (keeps_modify fun _ h => h) fun _ => keeps_pure r
    refine keeps_bind hcreate fun r => keeps_bind (keeps_ofFun fun s h => ?_) fun _ => keeps_pure r
    dsimp only
    split <;> exact h

theorem sends_clientLoginRQ (tmpPackage : GateRoomServerPack) (rq : StruUserLoginRQ) :
    Keeps (SentPacks old P) (clientLoginRQ tmpPackage rq) := by
  refine keeps_bind (sends_loginRoom rq.roomId) fun r => keeps_bind (sends_onRoom _) fun user => ?_
  cases user with
  | none => exact keeps_pure ()
  | some p =>
    exact keeps_bind (sends_onRoom _) fun _ => keeps_bind (sends_onRoom _) fun _ => sends_sendToCenter tmpPackage

theorem sends_userGiveGiftRQ (tmpPackage : GateRoomServerPack) (rq : StruUserGiveGiftRQ) :
    Keeps (SentPacks old P) (userGiveGiftRQ tmpPackage rq) := by
  refine sends_forRoomUser fun r _ => keeps_bind (sends_onRoom _) fun dst => ?_
  cases dst with
  | none => exact keeps_pure ()
  | some q => exact sends_sendToCenter tmpPackage

theorem sends_userApplyMicRQ {rq : StruUserApplyMicRQ} (h : ∀ pack, (Message.userApplyMicRQ rq).Sends pack → P pack) :
    Keeps (SentPacks old P) (userApplyMicRQ rq) := by
  refine sends_forRoomUser fun r p => keeps_bind sends_getRoomID fun roomId =>
    keeps_bind (sends_onRoom _) fun channel => ?_
  split
  · exact keeps_bind (sends_record p) fun info => sends_sendPack rfl (h _ ⟨_, rfl, rfl⟩)
  · exact sends_roomBroadcast (h _ ⟨_, rfl, rfl⟩)

theorem sends_userSendMsgRQ {rq : StruUserMsgRQ} (h : ∀ pack, (Message.userSendMsgRQ rq).Sends pack → P pack) :
    Keeps (SentPacks old P) (userSendMsgRQ rq) := by
  refine sends_forRoomUser fun r p => ?_
  split <;> rename_i hprivate
  · have hmsg : Keeps (SentPacks old P) (sendPrivateMsg r rq) := by
      refine keeps_bind (sends_onRoom _) fun dst => ?_
      cases dst with
      | none => exact keeps_pure 0
      | some q =>
        refine keeps_bind (sends_record q) fun info => keeps_bind (sends_getUserByHashkey _) fun gs => ?_
        cases gs with
        | none => exact keeps_bind (keeps_pure ()) fun _ => keeps_pure 1
        | some gs => exact keeps_bind (sends_sendPack rfl (h _ (.inr (by rw [hprivate])))) fun _ => keeps_pure 1
    exact keeps_bind hmsg fun _ => keeps_bind (sends_record p) fun _ => sends_sendPack rfl (h _ (.inl ⟨_, rfl, rfl⟩))
  · refine keeps_bind (sends_record p) fun _ => keeps_bind (sends_sendPack rfl (h _ (.inl ⟨_, rfl, rfl⟩))) fun _ =>
      keeps_bind (sends_broadcast (h _ (.inr ?_)) rq.roomId) fun _ => keeps_pure ()
    rw [Bool.eq_false_iff.mpr hprivate]

theorem sends_sendToCurrent (h : P pack) (gs : Option BaseUserInfo) (p : Ptr) :
    Keeps (SentPacks old P) (sendToCurrent r gs p pack msgId) :=
  keeps_bind (keeps_deref gs) fun _ => keeps_bind (sends_record p) fun _ => sends_sendPack rfl h

theorem sends_sendUserList (h : ∀ list, P (.userInfoListID list)) (rs : StruUserLoginRS) (gs : Option BaseUserInfo)
    (p : Ptr) : Keeps (SentPacks old P) (sendUserList r rs gs p) := by
  have hturn (q : Ptr) (v : StruUserInfoListID × Nat) : Keeps (SentPacks old P) (listUser r gs p q v) := by
    refine keeps_bind (sends_record q) fun info => ?_
    dsimp only
    split
    · exact keeps_bind (sends_sendToCurrent (h _) gs p) fun _ => keeps_pure _
    · exact keeps_pure _
  refine keeps_bind (sends_onRoom _) fun first => ?_
  cases first with
  | none => exact keeps_pure ()
  | some q =>
    refine keeps_bind (sends_forUsers hturn q _) fun v => ?_
    split
    split
    · exact sends_sendToCurrent (h _) gs p
    · exact keeps_pure ()

theorem sends_micInfos (mics : List (Int × List Byte)) : Keeps (SentPacks old P) (micInfos r mics) := by
  induction mics with
  | nil => exact keeps_pure []
  | cons mic mics ih =>
    refine keeps_bind (sends_onRoom _) fun user => ?_
    cases user with
    | none => exact ih
    | some p => exact keeps_bind (sends_record p) fun _ => keeps_bind ih fun _ => keeps_pure _

theorem sends_sendMicList (h : ∀ mics, P (.roomMicInfoID mics)) (gs : Option BaseUserInfo) (current : Option Ptr) :
    Keeps (SentPacks old P) (sendMicList r gs current) := by
  refine keeps_bind (sends_onRoom _) fun mics => ?_
  split
  · exact keeps_bind sends_getRoomID fun _ => keeps_bind (keeps_deref current) fun p =>
      keeps_bind (sends_record p) fun _ => keeps_bind (sends_micInfos _) fun _ => sends_sendToCurrent (h _) gs p
  · exact keeps_pure ()

theorem sends_clientLoginRS {rs : StruUserLoginRS} (h : ∀ pack, (Message.clientLoginRS rs).Sends pack → P pack) :
    Keeps (SentPacks old P) (clientLoginRS rs) := by
  refine keeps_bind (sends_getRoom rs.roomId) fun room => ?_
  cases room with
  | none => exact keeps_pure ()
  | some r =>
  refine keeps_bind (sends_onRoom _) fun user => ?_
  cases user with
  | none => exact keeps_pure ()
  | some p =>
  have hlogin : Keeps (SentPacks old P) (loginUser r rs p) := by
    refine keeps_bind (sends_onRoom _) fun current => ?_
    cases current with
    | none => exact keeps_pure none
    | some q => exact keeps_bind (sends_onRoom _) fun _ => keeps_bind (sends_onRoom _) fun _ => keeps_pure (some q)
  have hreply : Keeps (SentPacks old P) (replyLogin r rs p) := by
    refine keeps_bind (sends_record p) fun info => keeps_bind (sends_getUserByHashkey _) fun gs => ?_
    cases gs with
    | none => exact keeps_pure none
    | some gs => exact keeps_bind (sends_sendPack rfl (h _ (.inl rfl))) fun _ => keeps_pure (some gs)
  have hannounce (gs : Option BaseUserInfo) (current : Option Ptr) :
      Keeps (SentPacks old P) (announceLogin r rs gs current) := by
    cases current with
    | none => exact keeps_pure ()
    | some q =>
      exact keeps_bind (sends_record q) fun _ => keeps_bind (sends_broadcast (h _ (.inr (.inl ⟨_, rfl⟩))) rs.roomId)
        fun _ => sends_sendUserList (fun _ => h _ (.inr (.inr (.inl ⟨_, rfl⟩)))) rs gs q
  have hanswer (current : Option Ptr) : Keeps (SentPacks old P) (answerLogin r rs p current) :=
    keeps_bind hreply fun gs => keeps_bind (hannounce gs current) fun _ => keeps_bind (sends_onRoom _) fun _ =>
      sends_sendMicList (fun _ => h _ (.inr (.inr (.inr ⟨_, rfl⟩)))) gs current
  dsimp only
  split
  · exact keeps_bind hlogin hanswer
  · exact keeps_bind (keeps_pure none) hanswer

theorem sends_userGiveGiftRS {rs : StruUserGiveGiftRS} (h : P (.userGiveGiftRS rs)) :
    Keeps (SentPacks old P) (userGiveGiftRS rs) := by
  refine sends_forRoomUser fun r p => keeps_bind (sends_onRoom _) fun dst => ?_
  cases dst with
  | none => exact keeps_pure ()
  | some q =>
    refine keeps_bind (sends_record p) fun info => keeps_bind (sends_getUserByHashkey _) fun gs => ?_
    split
    · exact keeps_bind (keeps_deref gs) fun _ => sends_sendPack rfl h
    · exact keeps_bind (sends_onRoom _) fun _ => keeps_bind (sends_broadcast h rs.roomId) fun _ => keeps_pure ()

/-- A command sends what its message may. -/
theorem sends_handle {m : Message} (h : ∀ pack, m.Sends pack → P pack) : Keeps (SentPacks old P) (handle m) := by
  cases m with
  | clientLoginRQ tmpPackage rq => exact sends_clientLoginRQ tmpPackage rq
  | userExitRoomID m =>
    exact sends_forRoomUser fun _ _ => keeps_bind (sends_onRoom _) fun _ => sends_roomBroadcast (h _ rfl)
  | userApplyMicRQ rq => exact sends_userApplyMicRQ h
  | userOffMicRQ rq =>
    exact sends_forRoomUser fun _ _ => keeps_bind (sends_onRoom _) fun _ => sends_roomBroadcast (h _ rfl)
  | cancleUserMicRQ rq => exact sends_forRoomUser fun _ _ => keeps_pure ()
  | putUserOnMicRQ rq => exact sends_forRoomUser fun _ _ => keeps_pure ()
  | userGiveGiftRQ tmpPackage rq => exact sends_userGiveGiftRQ tmpPackage rq
  | userSendMsgRQ rq => exact sends_userSendMsgRQ h
  | clientLoginRS rs => exact sends_clientLoginRS h
  | userGiveGiftRS rs => exact sends_userGiveGiftRS (h _ rfl)

theorem sends_connect (hashKey userSock : Int) : Keeps (SentPacks old P) (addUserInfo hashKey userSock) :=
  keeps_ofFun fun s h => by
    dsimp only
    split <;> exact h

theorem sends_disconnect (hashKey : Int) : Keeps (SentPacks old P) (releaseUserInfo hashKey) :=
  keeps_modify fun s h => by
    dsimp only
    split <;> exact h

/-! ## Runs -/

variable {es : List Event} {e : Event} {s s' : Server} {m : Message}

/-- What is sent in a step is sent for its message. -/
theorem sent_step (hs : step s e = some s') {x : Sent} (hx : x ∈ newlySent s s') (hp : x.pack = some pack) :
    ∃ m, e = .message m ∧ m.Sends pack := by
  have hsent : SentPacks s.sent (fun pack => ∃ m, e = .message m ∧ m.Sends pack) s' := by
    have h : SentPacks s.sent (fun pack => ∃ m, e = .message m ∧ m.Sends pack) s :=
      ⟨[], (List.append_nil _).symm, List.forall_mem_nil _⟩
    cases e with
    | connect hashKey userSock =>
      exact after_wp (sends_connect hashKey userSock s h) hs
    | disconnect hashKey => exact after_wp (sends_disconnect hashKey s h) hs
    | message m => exact after_wp (sends_handle (fun pack hpack => ⟨m, rfl, hpack⟩) s h) hs
  obtain ⟨ms, hms, hall⟩ := hsent
  rw [newlySent, hms, List.drop_left] at hx
  exact hall x hx pack hp

/-- What was sent in a run was sent for a message of the run. -/
theorem sent_run (hs : run .new es = some s) {x : Sent} (hx : x ∈ s.sent) (hp : x.pack = some pack) :
    ∃ m, Event.message m ∈ es ∧ m.Sends pack := by
  refine history_inv (P := fun es s => ∀ x ∈ s.sent, ∀ pack, x.pack = some pack →
      ∃ m, Event.message m ∈ es ∧ m.Sends pack)
    (fun _ hx => absurd hx List.not_mem_nil) (fun es s e s' hrun ih hs x hx pack hp => ?_) hs x hx pack hp
  rw [(known_run hrun).sent_eq hs] at hx
  rcases List.mem_append.mp hx with hx | hx
  · obtain ⟨m, hm, hsends⟩ := ih x hx pack hp
    exact ⟨m, List.mem_append_left _ hm, hsends⟩
  · obtain ⟨m, rfl, hsends⟩ := sent_step hs hx hp
    exact ⟨m, mem_append_self es _, hsends⟩

/-! ## Private texts -/

/-- The text `x` is from and for users who are in the room, and goes to the one that it is for. -/
def Private (s : Server) (r : RoomPtr) (x : Sent) : Prop :=
  ∀ text, x.pack = some (.userMsgTextID text) → (∃ g h, OnlineAs (s.chatRooms r) text.userId g h) ∧
    ∃ g h, OnlineAs (s.chatRooms r) text.dstUserId g h ∧ x.IsTo s.gate g h

theorem tells_private {rq : StruUserMsgRQ} (hpriv : rq.isPrivate = true) (hr : s.room rq.roomId = some r)
    (hn : (s.chatRooms r).roomId = rq.roomId) :
    Tells rq.roomId r (OnlineAs (s.chatRooms r)) (Private s r) s (userSendMsgRQ rq) s := by
  have h : Told rq.roomId r (OnlineAs (s.chatRooms r)) (Private s r) s s :=
    ⟨hr, hn, id, id, fun _ => rfl, [], (List.append_nil _).symm, List.forall_mem_nil _⟩
  refine h.forRoomUser fun p hp => ?_
  rw [if_pos hpriv, Tells, wp_bind]
  refine wp_mono (h.sendPrivateMsg fun q gs hq hg text htext => ?_) (fun result t ht => ?_) fun _ ht => ht
  · cases htext
    exact ⟨⟨_, _, p, hp, rfl, rfl⟩, _, _, ⟨q, hq, rfl, rfl⟩, rfl, hg⟩
  · rw [wp_bind, wp_record]
    exact ht.1.sends fun text htext => by cases htext

/-- A private text is sent for a request of a user who is in the room, to the connection over which the user that it
is for has asked for a login to the room, and whom the center server has let in. It is not the calling gate's unless that
is the same. -/
theorem private_to_addressee (hs : run .new es = some s) (he : step s e = some s') (calling : BaseUserInfo) {x : Sent}
    (hx : x ∈ newlySent s s') {text : StruUserMsgTextID} (hpack : x.pack = some (.userMsgTextID text))
    (hpriv : text.isPrivate = true) :
    (∃ rq, e = .message (.userSendMsgRQ rq) ∧
      text = ⟨.userMsgTextID, rq.userId, rq.roomId, rq.msgText, rq.isPrivate, rq.dstUserId⟩) ∧
    LetIn es text.roomId text.userId ∧
    ∃ g h, Asked es text.roomId text.dstUserId g h ∧ LetIn es text.roomId text.dstUserId ∧
      SentTo es calling g h x := by
  have hk := known_run hs
  obtain ⟨m, rfl, hsends⟩ := sent_step he hx hpack
  obtain ⟨rq, rfl, htext⟩ := hsends.of_text
  refine ⟨⟨rq, rfl, htext⟩, ?_⟩
  have hrq : rq.isPrivate = true := by rw [htext] at hpriv; exact hpriv
  -- The room is there, or nothing would be sent.
  rcases hr : s.room rq.roomId with _ | r
  · have hdone : handle (.userSendMsgRQ rq) s = .done () (s.foundRoom rq.roomId) :=
      handle_none rfl (fun _ _ h => by cases h) hr
    have hs' : step.after (handle (.userSendMsgRQ rq)) s = some s' := he
    rw [step.after, hdone] at hs'
    cases hs'
    rw [newlySent, show (s.foundRoom rq.roomId).sent = s.sent from rfl, List.drop_length] at hx
    cases hx
  have hroom : s.chatRooms r ∈ s.content rq.roomId := by
    rw [content, hr]
    rfl
  obtain ⟨ms, hms, hall⟩ := (after_wp (tells_private hrq hr (hk.keyed _ _ hroom)) he).sent
  rw [newlySent, hms, List.drop_left] at hx
  obtain ⟨⟨g, h, hfrom⟩, g', h', hto, hsent⟩ := hall x hx text hpack
  rw [htext] at hfrom hto ⊢
  obtain ⟨ha, hl⟩ := hk.online hroom hto
  exact ⟨(hk.online hroom hfrom).2, g', h', ha, hl, hk.sentTo calling hsent⟩

/-- The users 1 and 3 are in the room 2, over two gates. -/
def twoGates : List Event := firstLogin ++ [.connect 6 60, requestOf 6 9 3 2, replyOf 3 2 1]

/-- The user 1 writes to the user 3. -/
def whisper : Event := .message (.userSendMsgRQ ⟨1, 2, [104, 105], true, 3⟩)

theorem private_to_addressee_twoGates : ∃ s s' x, run .new twoGates = some s ∧ step s whisper = some s' ∧
    x ∈ newlySent s s' ∧ LetIn twoGates 2 1 ∧
    ∃ g h, Asked twoGates 2 3 g h ∧ LetIn twoGates 2 3 ∧ SentTo twoGates ⟨50, 5⟩ g h x := by
  have hrun : ∃ s, s ∈ run .new twoGates ∧ ∃ s', s' ∈ step s whisper ∧ ∃ x, x ∈ newlySent s s' ∧
      x.pack = some (.userMsgTextID ⟨.userMsgTextID, 1, 2, [104, 105], true, 3⟩) := by
    decide +kernel
  obtain ⟨s, hs, s', hs', x, hx, hpack⟩ := hrun
  exact ⟨s, s', x, hs, hs', hx, (private_to_addressee hs hs' ⟨50, 5⟩ hx hpack rfl).2⟩

end Server

end Miku.RoomServer
