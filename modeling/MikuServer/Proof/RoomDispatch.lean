import MikuServer.Impl.RoomDispatch
import MikuServer.Proof.Microphone

/-!
# Replies to the gate of a request

`DealWithDataThread` passes its `GateServerProcessor` to commands that take it
for a `ClientInfoEx`, so no chat or microphone request of a user of a room is
answered (`not_answered`). `answered_clientInfoEx` is the answer with the
`ClientInfoEx`, which the processor has as `parent_ptr_`.
-/

namespace Miku.RoomServer

open Act UserInfoList ChatRoom
open Server (Message)

/-- A request that is answered to its gate. -/
inductive Request
  | sendMsg (rq : StruUserMsgRQ)
  | applyMic (rq : StruUserApplyMicRQ)

namespace Request

def message : Request → Message
  | .sendMsg rq => .userSendMsgRQ rq
  | .applyMic rq => .userApplyMicRQ rq

def roomId : Request → Int
  | .sendMsg rq => rq.roomId
  | .applyMic rq => rq.roomId

def userId : Request → Int
  | .sendMsg rq => rq.userId
  | .applyMic rq => rq.userId

end Request

/-- The text of a chat request. -/
def textOf (rq : StruUserMsgRQ) : Pack :=
  .userMsgTextID ⟨.userMsgTextID, rq.userId, rq.roomId, rq.msgText, rq.isPrivate, rq.dstUserId⟩

namespace Sent

def pack? : Sent → Option Pack
  | .center .. => none
  | .toGS pack .. => some pack
  | .gate _ pack .. => some pack
  | .caller pack .. => some pack

/-- A reply to a chat or microphone request. -/
def isReply (m : Sent) : Bool :=
  match m.pack? with
  | some (.userMsgRS _) => true
  | some (.userApplyMicRS _) => true
  | _ => false

/-- The text of a chat request. -/
def isText (m : Sent) : Bool :=
  match m.pack? with
  | some (.userMsgTextID _) => true
  | _ => false

end Sent

namespace Server

variable {s t : Server} {r : RoomPtr} {p : Ptr} {rq : StruUserMsgRQ} {gs : BaseUserInfo}

/-- The text for the user that a private one is for, if that user is in the room and on a
registered gate. -/
def privateText (s : Server) (r : RoomPtr) (rq : StruUserMsgRQ) : List Sent :=
  match (s.chatRooms r).userList.userInfoList.ptr rq.dstUserId with
  | none => []
  | some q => (s.toUser r (textOf rq) .userMsgTextID q).toList

/-- The texts for the users that `x` is for. -/
def texts (s : Server) (r : RoomPtr) : Request → List Sent
  | .sendMsg rq =>
    if rq.isPrivate then s.privateText r rq
    else (s.chatRooms r).userList.userInfoList.ptrs.filterMap (s.toUser r (textOf rq) .userMsgTextID)
  | .applyMic _ => []

/-- `dispatch` answers the request `x` of the user with the record `p`: with one reply through
the processor of `gs` with the user's key, and with every text once. -/
def Answered (dispatch : Act Server Unit) (gs : BaseUserInfo) (s : Server) (r : RoomPtr) (p : Ptr) (x : Request) :
    Prop :=
  ∃ t ms, dispatch s = .done () t ∧ t.sent = s.sent ++ ms ∧
    (∃ pack msgId, ms.filter Sent.isReply = [.gate gs pack msgId ((s.chatRooms r).records p).userHashKey]) ∧
    ms.filter Sent.isText = s.texts r x

/-! ## What the commands send -/

/-- The reply to the gate of the user with the record `p`. -/
def replyTo (s : Server) (r : RoomPtr) (p : Ptr) (pack : Pack) (msgId : EnumMsgID) : Sent :=
  .caller pack msgId ((s.chatRooms r).records p).userHashKey

/-- The result of the reply to a private text. -/
def privateResult (s : Server) (r : RoomPtr) (rq : StruUserMsgRQ) : Int :=
  if ((s.chatRooms r).userList.userInfoList.ptr rq.dstUserId).isSome then 1 else 0

/-- What the command for `x` sends. -/
def answers (s : Server) (r : RoomPtr) (p : Ptr) : Request → List Sent
  | .sendMsg rq =>
    if rq.isPrivate then s.privateText r rq ++
      [s.replyTo r p (.userMsgRS ⟨.userMsgRS, rq.userId, rq.roomId, s.privateResult r rq⟩) .userMsgRS]
    else s.replyTo r p (.userMsgRS ⟨.userMsgRS, rq.userId, rq.roomId, 1⟩) .userMsgRS ::
      if rq.roomId = 0 then []
      else (s.chatRooms r).userList.reached.filterMap (s.toUser r (textOf rq) .userMsgTextID)
  | .applyMic rq =>
    [s.replyTo r p (.userApplyMicRS ⟨.userApplyMicRS, rq.userId, (s.chatRooms r).roomId, 0, []⟩) .userApplyMicRS]

@[simp] theorem foundGate_sent (s : Server) (hashKey : Int) : (s.foundGate hashKey).sent = s.sent := rfl

theorem wp_sendPrivateMsg {B : Server → Prop} {F : Prop} (hl : (s.chatRooms r).userList.locked = false)
    (hprivate : rq.isPrivate = true) :
    wp (sendPrivateMsg r rq) (fun result t => result = s.privateResult r rq ∧
      t.sent = s.sent ++ s.privateText r rq ∧ (t.chatRooms r).records = (s.chatRooms r).records) B F s := by
  rw [sendPrivateMsg, wp_bind, wp_onRoom, ChatRoom.wp_getUserInfo, hl, if_neg Bool.false_ne_true]
  rcases hq : (s.chatRooms r).userList.userInfoList.ptr rq.dstUserId with _ | q
  · simp [privateResult, privateText, hq]
  · dsimp only
    rw [wp_bind, wp_record, wp_bind, wp_getUserByHashkey, withRoom_gate, withRoom_same]
    rcases hg : s.gate ((s.chatRooms r).records q).gsHashkeyUserOn with _ | g
    · simp [privateResult, privateText, toUser, hq, hg]
    · simp [privateResult, privateText, toUser, textOf, hq, hg, hprivate]

/-- Where the mutex of the room's users is not held, the command for `x` sends this. -/
theorem wp_request (x : Request) (hr : s.room x.roomId = some r)
    (hp : (s.chatRooms r).userList.userInfoList.ptr x.userId = some p) :
    wp (handle x.message) (fun _ t => t.sent = s.sent ++ s.answers r p x)
      (fun _ => (s.chatRooms r).userList.locked = true) False s := by
  cases x with
  | sendMsg rq =>
    have hr : s.room rq.roomId = some r := hr
    have hp : (s.chatRooms r).userList.userInfoList.ptr rq.userId = some p := hp
    show wp (userSendMsgRQ rq) _ _ _ s
    rw [userSendMsgRQ, wp_forRoomUser, hr]
    dsimp only
    split <;> rename_i hl
    · exact hl
    have hl' := Bool.eq_false_of_not_eq_true hl
    rw [hp]
    dsimp only
    split <;> rename_i hprivate
    · rw [wp_bind]
      refine wp_mono (wp_sendPrivateMsg (B := fun _ => False) hl' hprivate) ?_ fun _ h => h.elim
      rintro result t ⟨rfl, hsent, hrec⟩
      rw [wp_bind, wp_record, wp_send, hsent, hrec]
      simp [answers, replyTo, hprivate]
    · have htext : textOf rq = .userMsgTextID ⟨.userMsgTextID, rq.userId, rq.roomId, rq.msgText, false, rq.dstUserId⟩ := by
        simp [textOf, hprivate]
      rw [wp_bind, wp_record, wp_bind, wp_send, wp_bind, ← htext, wp_broadcast]
      split <;> rename_i h0
      · simp [answers, replyTo, hprivate, h0]
      · have hr' : ({ s with sent := s.sent ++ [s.replyTo r p (.userMsgRS ⟨.userMsgRS, rq.userId, rq.roomId, 1⟩)
            .userMsgRS] } : Server).room rq.roomId = some r := hr
        simp only [replyTo] at hr'
        rw [hr']
        dsimp only
        rw [if_neg hl, wp_pure, broadcasted_sent]
        simp [answers, replyTo, hprivate, h0]
        rfl
  | applyMic rq =>
    have hr : s.room rq.roomId = some r := hr
    have hp : (s.chatRooms r).userList.userInfoList.ptr rq.userId = some p := hp
    show wp (userApplyMicRQ rq) _ _ _ s
    rw [userApplyMicRQ, wp_forRoomUser, hr]
    dsimp only
    split <;> rename_i hl
    · exact hl
    rw [hp]
    dsimp only
    obtain ⟨n, list, hroom, -⟩ := applied_nothing (s.chatRooms r) rq.userId
    rw [wp_bind, getRoomID, wp_read, wp_bind, wp_onRoom, wp_done hroom, if_pos rfl, wp_bind, wp_record, wp_send]
    simp [answers, replyTo]

/-! ## What is issued -/

theorem issued_processor {ms : List Sent} {pack : Pack} {msgId : EnumMsgID} {key : Int}
    (h : .caller pack msgId key ∈ ms) : issued (.gateServerProcessor gs) ms = none := by
  induction ms with
  | nil => cases h
  | cons m ms ih =>
    rcases List.mem_cons.mp h with rfl | hm
    · rfl
    · cases m <;> simp [issued, ih hm, Object.getGSProcessor]

theorem caller_mem_answers (s : Server) (r : RoomPtr) (p : Ptr) (x : Request) :
    ∃ pack msgId key, .caller pack msgId key ∈ s.answers r p x := by
  cases x with
  | sendMsg rq =>
    rw [answers]
    split
    · exact ⟨_, _, _, List.mem_append_right _ List.mem_cons_self⟩
    · exact ⟨_, _, _, List.mem_cons_self⟩
  | applyMic rq => exact ⟨_, _, _, List.mem_cons_self⟩

/-- A request of a user of a room is not answered. -/
theorem dealWithData_not_done (x : Request) (hr : s.room x.roomId = some r)
    (hp : (s.chatRooms r).userList.userInfoList.ptr x.userId = some p) :
    dealWithData gs x.message s ≠ .done () t := by
  have h := wp_request x hr hp
  unfold dealWithData execute
  rcases hx : handle x.message s with ⟨_, t'⟩ | t' | _
  · have hsent : t'.sent = s.sent ++ s.answers r p x := (wp_done hx).mp h
    obtain ⟨pack, msgId, key, hmem⟩ := caller_mem_answers s r p x
    have hnone : issue (.gateServerProcessor gs) s t' = none := by
      rw [issue, hsent, List.drop_left, issued_processor hmem]
      rfl
    simp [hnone]
  · dsimp only
    split <;> exact nofun
  · exact nofun

theorem not_answered (gs : BaseUserInfo) {x : Request} (hr : s.room x.roomId = some r)
    (hp : (s.chatRooms r).userList.userInfoList.ptr x.userId = some p) :
    ¬ Answered (dealWithData gs x.message) gs s r p x := fun ⟨_, _, h, _⟩ => dealWithData_not_done x hr hp h

/-- The chat request of the user 1 to the room. -/
def chat : Request := .sendMsg ⟨1, 2, [104, 105], false, 0⟩

theorem not_answered_chat : ∃ s, Reachable s ∧ s.room 2 = some 0 ∧
    (s.chatRooms 0).userList.userInfoList.ptr 1 = some 1 ∧
    ¬ Answered (dealWithData ⟨50, 5⟩ chat.message) ⟨50, 5⟩ s 0 1 chat := by
  obtain ⟨s, hs, hr, hp, -⟩ := firstLogin_online
  exact ⟨s, ⟨_, hs⟩, hr, hp, not_answered ⟨50, 5⟩ hr hp⟩

/-- The gate of the request is registered, and the process ends. -/
theorem chat_faults : ∃ s, Reachable s ∧ s.gate 5 = some ⟨50, 5⟩ ∧ s.room 2 = some 0 ∧
    (s.chatRooms 0).userList.userInfoList.ptr 1 = some 1 ∧
    ¬ Answered (dealWithData ⟨50, 5⟩ chat.message) ⟨50, 5⟩ s 0 1 chat := by
  have hrun : ∃ s, s ∈ run .new firstLogin ∧ s.gate 5 = some ⟨50, 5⟩ ∧ s.room 2 = some 0 ∧
      (s.chatRooms 0).userList.userInfoList.ptr 1 = some 1 ∧
      step.after (dealWithData ⟨50, 5⟩ chat.message) s = none := by
    decide +kernel
  obtain ⟨s, hs, hg, hr, hp, hf⟩ := hrun
  refine ⟨s, ⟨_, hs⟩, hg, hr, hp, fun ⟨t, _, h, _⟩ => ?_⟩
  simp [step.after, h] at hf

/-! ## The reply with the `ClientInfoEx` -/

/-- A message with the processor of `gs`. -/
def through (gs : BaseUserInfo) : Sent → Sent
  | .caller pack msgId key => .gate gs pack msgId key
  | m => m

theorem issued_clientInfoEx (gs : BaseUserInfo) (ms : List Sent) :
    issued (.clientInfoEx gs) ms = some (ms.map (through gs)) := by
  induction ms with
  | nil => rfl
  | cons m ms ih => cases m <;> simp [issued, ih, Object.getGSProcessor, through]

/-- Messages with the text of `rq` for users of the room. -/
theorem texts_through (gs : BaseUserInfo) {ms : List Sent}
    (h : ∀ m ∈ ms, ∃ q, s.toUser r (textOf rq) .userMsgTextID q = some m) :
    ms.map (through gs) = ms ∧ ms.filter Sent.isReply = [] ∧ ms.filter Sent.isText = ms := by
  have hmem (m : Sent) (hm : m ∈ ms) : ∃ g key, m = .gate g (textOf rq) .userMsgTextID key := by
    obtain ⟨q, hq⟩ := h m hm
    obtain ⟨g, -, rfl⟩ := Option.map_eq_some_iff.mp hq
    exact ⟨g, _, rfl⟩
  refine ⟨(List.map_congr_left fun m hm => ?_).trans (List.map_id ms), List.filter_eq_nil_iff.mpr fun m hm => ?_,
    List.filter_eq_self.mpr fun m hm => ?_⟩
  · obtain ⟨g, key, rfl⟩ := hmem m hm
    rfl
  · obtain ⟨g, key, rfl⟩ := hmem m hm
    exact Bool.false_ne_true
  · obtain ⟨g, key, rfl⟩ := hmem m hm
    rfl

/-- With the `ClientInfoEx` of the gate a request is answered where the mutex of the room's
users is free and, for a public text, the loop over them reaches them all. -/
theorem answered_clientInfoEx (gs : BaseUserInfo) {x : Request} (hr : s.room x.roomId = some r)
    (hp : (s.chatRooms r).userList.userInfoList.ptr x.userId = some p)
    (hl : (s.chatRooms r).userList.locked = false)
    (hpublic : ∀ rq, x = .sendMsg rq → rq.isPrivate = false →
      rq.roomId ≠ 0 ∧ none ∉ (s.chatRooms r).userList.userInfoList.values) :
    Answered (execute (.clientInfoEx gs) x.message) gs s r p x := by
  have h : wp (handle x.message) (fun _ t => t.sent = s.sent ++ s.answers r p x) (fun _ => False) False s :=
    wp_mono (wp_request x hr hp) (fun _ _ h => h) fun _ h => by simp [hl] at h
  obtain ⟨_, t, ht, hsent⟩ := wp_total.mp h
  refine ⟨{ t with sent := s.sent ++ (s.answers r p x).map (through gs) }, _, ?_, rfl, ?_⟩
  · simp [execute, ht, issue, hsent, issued_clientInfoEx]
  cases x with
  | sendMsg rq =>
    by_cases hprivate : rq.isPrivate = true
    · have htexts : ∀ m ∈ s.privateText r rq, ∃ q, s.toUser r (textOf rq) .userMsgTextID q = some m := fun m hm => by
        unfold privateText at hm
        split at hm
        · cases hm
        · exact ⟨_, Option.mem_toList.mp hm⟩
      obtain ⟨h1, h2, h3⟩ := texts_through gs htexts
      refine ⟨⟨.userMsgRS ⟨.userMsgRS, rq.userId, rq.roomId, s.privateResult r rq⟩, .userMsgRS, ?_⟩, ?_⟩
      · rw [answers, if_pos hprivate, List.map_append, h1, List.filter_append, h2]
        rfl
      · rw [answers, if_pos hprivate, List.map_append, h1, List.filter_append, h3, texts, if_pos hprivate]
        exact List.append_nil _
    · obtain ⟨h0, hn⟩ := hpublic rq rfl (Bool.eq_false_of_not_eq_true hprivate)
      have htexts : ∀ m ∈ (s.chatRooms r).userList.userInfoList.ptrs.filterMap (s.toUser r (textOf rq) .userMsgTextID),
          ∃ q, s.toUser r (textOf rq) .userMsgTextID q = some m := fun m hm => by
        obtain ⟨q, -, hq⟩ := List.mem_filterMap.mp hm
        exact ⟨q, hq⟩
      obtain ⟨h1, h2, h3⟩ := texts_through gs htexts
      refine ⟨⟨.userMsgRS ⟨.userMsgRS, rq.userId, rq.roomId, 1⟩, .userMsgRS, ?_⟩, ?_⟩
      · rw [answers, if_neg hprivate, if_neg h0, reached_of_full hn, List.map_cons, h1]
        exact congrArg (_ :: ·) h2
      · rw [answers, if_neg hprivate, if_neg h0, reached_of_full hn, List.map_cons, h1, texts, if_neg hprivate]
        exact h3
  | applyMic rq => exact ⟨⟨_, _, rfl⟩, rfl⟩

end Server

end Miku.RoomServer
