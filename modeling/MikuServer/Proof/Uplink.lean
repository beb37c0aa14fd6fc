import MikuServer.Proof.Microphone

/-!
# Requests under another user's name

No command compares the hash keys of the `GateRoomServerPack` that a request
came in with those of the user it names. `uplink_frame` says what a request
leaves as it was: all that the rooms have of the users it does not name, and of
the user it names what the command is not about.
-/

namespace Miku.RoomServer

open Act UserInfoList ChatRoom
open Server (Message)

/-- A request of a user who is in a room. -/
inductive Uplink
  | exitRoom (m : StruUserExitRoomID)
  | applyMic (rq : StruUserApplyMicRQ)
  | offMic (rq : StruUserOffMicRQ)
  | giveGift (rq : StruUserGiveGiftRQ)
  | sendMsg (rq : StruUserMsgRQ)

namespace Uplink

/-- The request in `tmpPackage`, for its command. -/
def message (tmpPackage : GateRoomServerPack) : Uplink → Message
  | .exitRoom m => .userExitRoomID m
  | .applyMic rq => .userApplyMicRQ rq
  | .offMic rq => .userOffMicRQ rq
  | .giveGift rq => .userGiveGiftRQ tmpPackage rq
  | .sendMsg rq => .userSendMsgRQ rq

def userId : Uplink → Int
  | .exitRoom m => m.userId
  | .applyMic rq => rq.userId
  | .offMic rq => rq.userId
  | .giveGift rq => rq.userId
  | .sendMsg rq => rq.userId

def roomId : Uplink → Int
  | .exitRoom m => m.roomId
  | .applyMic rq => rq.roomId
  | .offMic rq => rq.roomId
  | .giveGift rq => rq.roomId
  | .sendMsg rq => rq.roomId

/-- The command ends what the room has of the user. -/
def EndsRecord : Uplink → Prop
  | .exitRoom _ => True
  | _ => False

/-- The command is about the user's microphone. -/
def ChangesMic : Uplink → Prop
  | .applyMic _ => True
  | .offMic _ => True
  | _ => False

/-- The command passes the request on. -/
def Forwards : Uplink → Prop
  | .giveGift _ => True
  | _ => False

end Uplink

/-- Data for the center server. -/
def Sent.isCenter : Sent → Bool
  | .center .. => true
  | _ => false

namespace Server

variable {s t u : Server} {r : RoomPtr} {x : Uplink}

/-- The online record of the user `v` in the room `r`. -/
def onlineRecord (s : Server) (r : RoomPtr) (v : Int) : Option (Ptr × UserInfo) :=
  ((s.chatRooms r).userList.userInfoList.ptr v).map fun p => (p, (s.chatRooms r).records p)

/-- The entry of `v` in the table of the microphone holders. -/
def micEntry (s : Server) (r : RoomPtr) (v : Int) : Option (List Byte) := (s.chatRooms r).videoChannelList.find? v

/-- What was sent to the center server. -/
def forwarded (s : Server) : List Sent := s.sent.filter Sent.isCenter

/-- The request `x` with the data `tmpPackage` leads from `s` to `t`, and everything but what it
is about is as it was. -/
structure UplinkFrame (tmpPackage : GateRoomServerPack) (x : Uplink) (s t : Server) : Prop where
  record (r : RoomPtr) (v : Int) : ¬ (x.EndsRecord ∧ v = x.userId ∧ s.room x.roomId = some r) →
    t.onlineRecord r v = s.onlineRecord r v
  mic (r : RoomPtr) (v : Int) : ¬ (x.ChangesMic ∧ v = x.userId ∧ s.room x.roomId = some r) →
    t.micEntry r v = s.micEntry r v
  forwarded : t.forwarded = s.forwarded ∨ x.Forwards ∧
    (∃ r, s.room x.roomId = some r ∧ (s.onlineRecord r x.userId).isSome) ∧
    t.forwarded = s.forwarded ++ [.center tmpPackage.dataMsg tmpPackage.dataLen.toInt]

/-- Nothing that a frame is about is changed. -/
structure Same (s t : Server) : Prop where
  record (r : RoomPtr) (v : Int) : t.onlineRecord r v = s.onlineRecord r v
  mic (r : RoomPtr) (v : Int) : t.micEntry r v = s.micEntry r v
  forwarded : t.forwarded = s.forwarded

theorem Same.refl (s : Server) : Same s s := ⟨fun _ _ => rfl, fun _ _ => rfl, rfl⟩

theorem Same.trans (h : Same s t) (h' : Same t u) : Same s u :=
  ⟨fun r v => (h'.record r v).trans (h.record r v), fun r v => (h'.mic r v).trans (h.mic r v),
    h'.forwarded.trans h.forwarded⟩

variable {tmpPackage : GateRoomServerPack}

theorem Same.frame (h : Same s t) : UplinkFrame tmpPackage x s t :=
  ⟨fun r v _ => h.record r v, fun r v _ => h.mic r v, .inl h.forwarded⟩

theorem UplinkFrame.then (h : UplinkFrame tmpPackage x s t) (h' : Same t u) : UplinkFrame tmpPackage x s u where
  record r v hv := (h'.record r v).trans (h.record r v hv)
  mic r v hv := (h'.mic r v).trans (h.mic r v hv)
  forwarded := h.forwarded.imp h'.forwarded.trans fun ⟨hx, hu, hf⟩ => ⟨hx, hu, h'.forwarded.trans hf⟩

theorem same_of_chatRooms (hc : t.chatRooms = s.chatRooms) (hf : t.forwarded = s.forwarded) : Same s t :=
  ⟨fun r v => by rw [onlineRecord, onlineRecord, hc], fun r v => by rw [micEntry, micEntry, hc], hf⟩

/-- Another list with the same users. -/
theorem same_withList {l : UserInfoList}
    (h : ∀ v, l.userInfoList.ptr v = (s.chatRooms r).userList.userInfoList.ptr v) : Same s (s.withList r l) where
  record q v := by
    by_cases hq : q = r
    · subst hq
      rw [onlineRecord, onlineRecord, withList_list, withList_records, h]
    · rw [onlineRecord, onlineRecord, withList, withRoom_other s hq]
  mic q v := by
    by_cases hq : q = r
    · subst hq
      simp [micEntry, withList]
    · rw [micEntry, micEntry, withList, withRoom_other s hq]
  forwarded := rfl

theorem same_lookedUp (s : Server) (r : RoomPtr) (v : Int) :
    Same s (s.withList r (lookedUp (s.chatRooms r).userList v)) :=
  same_withList fun _ => lookedUp_ptr ..

theorem same_sent {m : Sent} (h : m.isCenter = false) : Same s { s with sent := s.sent ++ [m] } := by
  refine same_of_chatRooms rfl ?_
  simp [forwarded, h]

theorem forwarded_broadcasted (s : Server) (r : RoomPtr) (pack : Pack) (msgId : EnumMsgID) :
    (s.broadcasted r pack msgId).forwarded = s.forwarded := by
  rw [forwarded, broadcasted_sent, List.filter_append, forwarded, List.append_right_eq_self, List.filter_eq_nil_iff]
  intro m hm
  obtain ⟨p, -, hp⟩ := List.mem_filterMap.mp hm
  obtain ⟨gs, -, rfl⟩ := Option.map_eq_some_iff.mp hp
  exact Bool.false_ne_true

theorem same_broadcasted (s : Server) (r : RoomPtr) (pack : Pack) (msgId : EnumMsgID) :
    Same s (s.broadcasted r pack msgId) := by
  have hw : Same s (s.withList r (s.chatRooms r).userList.walked) :=
    same_withList fun v => by rw [walked_userInfoList]
  have hb : Same (s.withList r (s.chatRooms r).userList.walked) (s.broadcasted r pack msgId) :=
    same_of_chatRooms (broadcasted_chatRooms ..) (forwarded_broadcasted ..)
  exact hw.trans hb

/-- What `x` has done so far stays in its frame, whatever the outcome of the rest. -/
def Frames (tmpPackage : GateRoomServerPack) (x : Uplink) (s : Server) {α : Type} (y : Act Server α) (t : Server) :
    Prop :=
  wp y (fun _ => UplinkFrame tmpPackage x s) (UplinkFrame tmpPackage x s) False t

theorem frames_broadcast (h : UplinkFrame tmpPackage x s t) (pack : Pack) (msgId : EnumMsgID) (roomId : Int) :
    Frames tmpPackage x s (sendDataToRoomAllUser pack msgId roomId) t := by
  rw [Frames, wp_broadcast]
  split
  · exact h
  split
  · exact h.then (same_of_chatRooms rfl rfl)
  split
  · exact h
  · exact h.then (same_broadcasted ..)

/-- A broadcast to the room `r` under its own id. -/
theorem frames_roomBroadcast (h : UplinkFrame tmpPackage x s t) (r : RoomPtr) (pack : Pack) (msgId : EnumMsgID) :
    Frames tmpPackage x s (do let roomId ← getRoomID r; let _ ← sendDataToRoomAllUser pack msgId roomId) t := by
  rw [Frames, getRoomID, wp_bind, wp_read, wp_bind]
  exact frames_broadcast h pack msgId _

theorem frames_forRoomUser {body : RoomPtr → Ptr → Act Server Unit}
    (h : ∀ r p, s.room x.roomId = some r → (s.chatRooms r).userList.locked = false →
      (s.chatRooms r).userList.userInfoList.ptr x.userId = some p → Frames tmpPackage x s (body r p) s) :
    Frames tmpPackage x s (forRoomUser x.roomId x.userId body) s := by
  rw [Frames, wp_forRoomUser]
  rcases hr : s.room x.roomId with _ | r
  · have hfound : Same s (s.foundRoom x.roomId) := same_of_chatRooms rfl rfl
    exact hfound.frame
  dsimp only
  split <;> rename_i hl
  · exact (Same.refl s).frame
  rcases hp : (s.chatRooms r).userList.userInfoList.ptr x.userId with _ | p
  · exact (same_lookedUp s r x.userId).frame
  · exact h r p hr (Bool.eq_false_of_not_eq_true hl) hp

/-! ## The commands -/

/-- The room `r` of the request is changed only in the record of the user it names. -/
theorem frame_withRoom {room : ChatRoom} (hr : s.room x.roomId = some r)
    (hrecord : ∀ v, ¬ (x.EndsRecord ∧ v = x.userId) →
      room.userList.userInfoList.ptr v = (s.chatRooms r).userList.userInfoList.ptr v)
    (hrecords : room.records = (s.chatRooms r).records)
    (hmic : ∀ v, ¬ (x.ChangesMic ∧ v = x.userId) →
      room.videoChannelList.find? v = (s.chatRooms r).videoChannelList.find? v) :
    UplinkFrame tmpPackage x s (s.withRoom r room) where
  record q v h := by
    by_cases hq : q = r
    · subst hq
      rw [onlineRecord, onlineRecord, withRoom_same, hrecords, hrecord v fun hx => h ⟨hx.1, hx.2, hr⟩]
    · rw [onlineRecord, onlineRecord, withRoom_other s hq]
  mic q v h := by
    by_cases hq : q = r
    · subst hq
      rw [micEntry, micEntry, withRoom_same, hmic v fun hx => h ⟨hx.1, hx.2, hr⟩]
    · rw [micEntry, micEntry, withRoom_other s hq]
  forwarded := .inl rfl

theorem frames_userExitRoomID (tmpPackage : GateRoomServerPack) (m : StruUserExitRoomID) (s : Server) :
    Frames tmpPackage (.exitRoom m) s (userExitRoomID m) s := by
  refine frames_forRoomUser (x := .exitRoom m) fun r p hr hl hp => ?_
  have hp : (s.chatRooms r).userList.userInfoList.ptr m.userId = some p := hp
  rw [Frames, wp_bind, wp_onRoom, ChatRoom.wp_removeUser, hl, if_neg Bool.false_ne_true, hp]
  have hframe : UplinkFrame tmpPackage (.exitRoom m) s
      (s.withRoom r { s.chatRooms r with userList := released (s.chatRooms r).userList m.userId p }) := by
    refine frame_withRoom hr (fun v hv => ?_) rfl fun _ _ => rfl
    rw [released, StdMap.ptr_erase, if_neg fun h => hv ⟨trivial, h.symm⟩]
  exact frames_roomBroadcast hframe r _ _

theorem frames_userApplyMicRQ (tmpPackage : GateRoomServerPack) (rq : StruUserApplyMicRQ) (s : Server) :
    Frames tmpPackage (.applyMic rq) s (userApplyMicRQ rq) s := by
  refine frames_forRoomUser (x := .applyMic rq) fun r p hr hl hp => ?_
  obtain ⟨n, list, hroom, hlist⟩ := applied_nothing (s.chatRooms r) rq.userId
  have hframe : UplinkFrame tmpPackage (.applyMic rq) s
      (s.withRoom r { s.chatRooms r with startChannelId := n, videoChannelList := list }) :=
    frame_withRoom hr (fun _ _ => rfl) rfl fun v hv => hlist v fun h => hv ⟨trivial, h⟩
  rw [Frames, wp_bind, getRoomID, wp_read, wp_bind, wp_onRoom, wp_done hroom, if_pos rfl, wp_bind, wp_record, wp_send]
  exact hframe.then (same_sent rfl)

theorem frames_userOffMicRQ (tmpPackage : GateRoomServerPack) (rq : StruUserOffMicRQ) (s : Server) :
    Frames tmpPackage (.offMic rq) s (userOffMicRQ rq) s := by
  refine frames_forRoomUser (x := .offMic rq) fun r p hr hl hp => ?_
  rw [Frames, wp_bind, wp_onRoom, userGetOffVideo, wp_modify]
  have hframe : UplinkFrame tmpPackage (.offMic rq) s (s.withRoom r { s.chatRooms r with
      videoChannelList := (s.chatRooms r).videoChannelList.erase rq.userId }) := by
    refine frame_withRoom hr (fun _ _ => rfl) rfl fun v hv => ?_
    rw [StdMap.find?_erase, if_neg fun h => hv ⟨trivial, h.symm⟩]
  exact frames_roomBroadcast hframe r _ _

theorem frames_userGiveGiftRQ (tmpPackage : GateRoomServerPack) (rq : StruUserGiveGiftRQ) (s : Server) :
    Frames tmpPackage (.giveGift rq) s (userGiveGiftRQ tmpPackage rq) s := by
  refine frames_forRoomUser (x := .giveGift rq) fun r p hr hl hp => ?_
  have hlook := same_lookedUp s r rq.dstUserId
  rw [Frames, wp_bind, wp_onRoom, ChatRoom.wp_getUserInfo, hl, if_neg Bool.false_ne_true]
  rcases (s.chatRooms r).userList.userInfoList.ptr rq.dstUserId with _ | q
  · exact hlook.frame
  · refine ⟨fun r v _ => hlook.record r v, fun r v _ => hlook.mic r v, .inr ⟨trivial, ⟨r, hr, ?_⟩, ?_⟩⟩
    · rw [onlineRecord, hp]
      rfl
    · exact List.filter_append ..

theorem frames_userSendMsgRQ (tmpPackage : GateRoomServerPack) (rq : StruUserMsgRQ) (s : Server) :
    Frames tmpPackage (.sendMsg rq) s (userSendMsgRQ rq) s := by
  refine frames_forRoomUser (x := .sendMsg rq) fun r p hr hl hp => ?_
  split
  · rw [Frames, wp_bind, sendPrivateMsg, wp_bind, wp_onRoom, ChatRoom.wp_getUserInfo, hl, if_neg Bool.false_ne_true]
    have hlook := same_lookedUp s r rq.dstUserId
    have hgate (key : Int) : Same s ((s.withList r (lookedUp (s.chatRooms r).userList rq.dstUserId)).foundGate key) :=
      hlook.trans (same_of_chatRooms rfl rfl)
    rcases (s.chatRooms r).userList.userInfoList.ptr rq.dstUserId with _ | q
    · exact (hlook.trans (same_sent rfl)).frame
    dsimp only
    rw [wp_bind, wp_record, wp_bind, wp_getUserByHashkey]
    split
    · exact (((hgate _).trans (same_sent rfl)).trans (same_sent rfl)).frame
    · exact ((hgate _).trans (same_sent rfl)).frame
  · rw [Frames, wp_bind, wp_record, wp_bind, wp_send, wp_bind]
    exact frames_broadcast (same_sent rfl).frame _ _ _

theorem frames_uplink (tmpPackage : GateRoomServerPack) (x : Uplink) (s : Server) :
    Frames tmpPackage x s (handle (x.message tmpPackage)) s := by
  cases x with
  | exitRoom m => exact frames_userExitRoomID tmpPackage m s
  | applyMic rq => exact frames_userApplyMicRQ tmpPackage rq s
  | offMic rq => exact frames_userOffMicRQ tmpPackage rq s
  | giveGift rq => exact frames_userGiveGiftRQ tmpPackage rq s
  | sendMsg rq => exact frames_userSendMsgRQ tmpPackage rq s

/-- The keys of the package play no part. -/
theorem handle_keys (tmpPackage : GateRoomServerPack) (userHashkey gsHashkey : CInt) (x : Uplink) :
    handle (x.message { tmpPackage with userHashkey := userHashkey, gsHashkey := gsHashkey }) =
      handle (x.message tmpPackage) := by
  cases x <;> rfl

/-- A request is handled whatever the keys of its package, and changes nothing but what it is about. -/
theorem uplink_frame (tmpPackage : GateRoomServerPack) (x : Uplink) (s : Server) :
    (∀ userHashkey gsHashkey, handle (x.message { tmpPackage with userHashkey := userHashkey, gsHashkey := gsHashkey }) =
        handle (x.message tmpPackage)) ∧
      ∃ t, step s (.message (x.message tmpPackage)) = some t ∧ UplinkFrame tmpPackage x s t := by
  refine ⟨fun userHashkey gsHashkey => handle_keys tmpPackage userHashkey gsHashkey x, ?_⟩
  have h := frames_uplink tmpPackage x s
  unfold Frames wp at h
  show ∃ t, step.after (handle (x.message tmpPackage)) s = some t ∧ _
  unfold step.after
  rcases hx : handle (x.message tmpPackage) s with ⟨_, t⟩ | t | _ <;> rw [hx] at h
  · exact ⟨t, rfl, h⟩
  · exact ⟨t, rfl, h⟩
  · exact h.elim

/-- A package with the keys of another gate and user than those of the user 1. -/
def foreign : GateRoomServerPack := ⟨[], 9, 6, 3, [1, 2, 3], []⟩

/-- The keys of the gate and of the user `v` itself. -/
def keysOf (s : Server) (r : RoomPtr) (v : Int) : Option (Int × Int) :=
  (s.onlineRecord r v).map fun u => (u.2.gsHashkeyUserOn, u.2.userHashKey)

/-- A request in a package with other keys takes the user out of the room, and one passes on a gift
from the user. -/
theorem not_keyed :
    (∃ s t, Reachable s ∧ (∃ keys, s.keysOf 0 1 = some keys ∧ keys ≠ (foreign.gsHashkey.toInt, foreign.userHashkey.toInt)) ∧
      step s (.message (Uplink.message foreign (.exitRoom ⟨.userExitRoomID, 1, 2⟩))) = some t ∧
      t.onlineRecord 0 1 ≠ s.onlineRecord 0 1) ∧
    ∃ s t, Reachable s ∧ (∃ keys, s.keysOf 0 1 = some keys ∧ keys ≠ (foreign.gsHashkey.toInt, foreign.userHashkey.toInt)) ∧
      step s (.message (Uplink.message foreign (.giveGift ⟨1, 2, [], 1, 4⟩))) = some t ∧
      t.forwarded = s.forwarded ++ [.center [1, 2, 3] 3] := by
  have hexit : ∃ s, s ∈ run .new firstLogin ∧ s.keysOf 0 1 = some (5, 7) ∧
      ∃ t, t ∈ step s (.message (Uplink.message foreign (.exitRoom ⟨.userExitRoomID, 1, 2⟩))) ∧
        t.onlineRecord 0 1 = none := by
    decide +kernel
  have hgift : ∃ s, s ∈ run .new firstLogin ∧ s.keysOf 0 1 = some (5, 7) ∧
      ∃ t, t ∈ step s (.message (Uplink.message foreign (.giveGift ⟨1, 2, [], 1, 4⟩))) ∧
        t.forwarded = s.forwarded ++ [.center [1, 2, 3] 3] := by
    decide +kernel
  have hkeys : ((5, 7) : Int × Int) ≠ (foreign.gsHashkey.toInt, foreign.userHashkey.toInt) := by decide
  obtain ⟨s, hs, hk, t, ht, hnone⟩ := hexit
  obtain ⟨s', hs', hk', t', ht', hsent⟩ := hgift
  refine ⟨⟨s, t, ⟨_, hs⟩, ⟨_, hk, hkeys⟩, ht, fun h => ?_⟩, ⟨s', t', ⟨_, hs'⟩, ⟨_, hk', hkeys⟩, ht', hsent⟩⟩
  rw [keysOf, ← h, hnone] at hk
  cases hk

end Server

end Miku.RoomServer
