import MikuServer.Impl.RoomCommands
import MikuServer.Proof.RoomServer

/-!
# What the parts of the commands do

The weakest preconditions of the parts of `ClientLoginRS::Execute`: the list of
the users (`wp_sendUserList`) and that of the microphone holders
(`wp_sendMicList`) are sent to a gate, and fault where it is `NULL`.
-/

namespace Miku.RoomServer

open Act UserInfoList ChatRoom

namespace Server

variable {B : Server → Prop} {F : Prop} {s : Server} {r : RoomPtr} {rs : StruUserLoginRS} {cur : Ptr}

@[simp] theorem wp_deref {α : Type} {p : Option α} {Q : α → Server → Prop} :
    wp (deref p) Q B F s ↔ match p with
      | none => F
      | some a => Q a s := by
  cases p <;> rfl

/-- What `tmp_current_user` of the room `r` is sent through the gate `gs`. -/
def toCurrent (s : Server) (r : RoomPtr) (gs : BaseUserInfo) (cur : Ptr) (pack : Pack) (msgId : EnumMsgID) : Sent :=
  .toGS pack msgId gs.userSock ((s.chatRooms r).records cur).userHashKey

theorem sendToCurrent_eq (s : Server) (r : RoomPtr) (g : BaseUserInfo) (cur : Ptr) (pack : Pack) (msgId : EnumMsgID) :
    sendToCurrent r (some g) cur pack msgId s = .done () { s with sent := s.sent ++ [s.toCurrent r g cur pack msgId] } :=
  rfl

theorem sendToCurrent_none (s : Server) (r : RoomPtr) (cur : Ptr) (pack : Pack) (msgId : EnumMsgID) :
    sendToCurrent r none cur pack msgId s = .fault :=
  rfl

@[simp] theorem wp_sendToCurrent {gs : Option BaseUserInfo} {pack : Pack} {msgId : EnumMsgID}
    {Q : Unit → Server → Prop} :
    wp (sendToCurrent r gs cur pack msgId) Q B F s ↔ match gs with
      | none => F
      | some g => Q () { s with sent := s.sent ++ [s.toCurrent r g cur pack msgId] } := by
  cases gs <;> rfl

/-! ## The users of the room -/

/-- A message with one more user. -/
def withUser (list : StruUserInfoListID) (u : UserInfo) : StruUserInfoListID :=
  { list with userInfoList := list.userInfoList ++ [userInfoOf u] }

/-- `clear_user_info_list()`. -/
def withoutUsers (list : StruUserInfoListID) : StruUserInfoListID := { list with userInfoList := [] }

/-- The messages with the users `us`, from the message and the count so far. -/
def userLists (list : StruUserInfoListID) (count : Nat) : List UserInfo → List StruUserInfoListID
  | [] => if 0 < count then [list] else []
  | u :: us =>
    if 15 ≤ count + 1 then withUser list u :: userLists (withoutUsers (withUser list u)) 0 us
    else userLists (withUser list u) (count + 1) us

/-- A turn of the loop over the users. -/
def listed (r : RoomPtr) (gs : Option BaseUserInfo) (cur p : Ptr) (t : (StruUserInfoListID × Nat) × Server) :
    Option ((StruUserInfoListID × Nat) × Server) :=
  let list := withUser t.1.1 ((t.2.chatRooms r).records p)
  if 15 ≤ t.1.2 + 1 then
    gs.map fun g => ((withoutUsers list, 0),
      { t.2 with sent := t.2.sent ++ [t.2.toCurrent r g cur (.userInfoListID list) .userInfoListID] })
  else some ((list, t.1.2 + 1), t.2)

theorem listUser_turns (r : RoomPtr) (l : UserInfoList) (gs : Option BaseUserInfo) (cur : Ptr) :
    Turns r l (listUser r gs cur) (listed r gs cur) where
  eq p b s i _ := by
    have hrec (q : Ptr) : ((s.withList r (l.walking i)).chatRooms r).records q = (s.chatRooms r).records q := by
      simp [withList]
    rw [listUser, record, read_bind, hrec, listed]
    split
    · rcases gs with _ | g
      · exact bind_fault (sendToCurrent_none ..)
      · rw [bind_done (sendToCurrent_eq ..)]
        simp only [toCurrent, hrec]
        rfl
    · rfl
  keep hs h := by
    simp only [listed] at h
    split at h
    · obtain ⟨g, -, rfl⟩ := Option.map_eq_some_iff.mp h
      exact hs
    · cases h
      exact hs

/-- Without a gate the loop faults, or leaves the users it took in the last message. -/
theorem foldlM_listed_none {ps : List Ptr} {t t' : (StruUserInfoListID × Nat) × Server}
    (h : ps.foldlM (fun t p => listed r none cur p t) t = some t') : t'.1.2 = t.1.2 + ps.length := by
  induction ps generalizing t with
  | nil =>
    cases h
    rfl
  | cons p ps ih =>
    rw [List.foldlM_cons, listed] at h
    split at h
    · cases h
    · have := ih h
      rw [this, List.length_cons, Nat.add_comm ps.length, ← Nat.add_assoc]

theorem foldlM_listed_some (r : RoomPtr) (g : BaseUserInfo) (cur : Ptr) (ps : List Ptr) (list : StruUserInfoListID)
    (count : Nat) (s : Server) :
    ∃ v ms, ps.foldlM (fun t p => listed r (some g) cur p t) ((list, count), s) = some (v, { s with
        sent := s.sent ++ ms.map fun m => s.toCurrent r g cur (.userInfoListID m) .userInfoListID }) ∧
      userLists list count (ps.map (s.chatRooms r).records) = ms ++ if 0 < v.2 then [v.1] else [] := by
  induction ps generalizing list count s with
  | nil => exact ⟨(list, count), [], by simp, rfl⟩
  | cons p ps ih =>
    have hcons : (p :: ps).foldlM (fun t p => listed r (some g) cur p t) ((list, count), s) =
        (listed r (some g) cur p ((list, count), s)).bind
          fun t => ps.foldlM (fun t p => listed r (some g) cur p t) t := rfl
    rw [hcons, List.map_cons, userLists, listed]
    dsimp only
    split
    · obtain ⟨v, ms, h1, h2⟩ := ih (withoutUsers (withUser list ((s.chatRooms r).records p))) 0 { s with sent := s.sent ++
        [s.toCurrent r g cur (.userInfoListID (withUser list ((s.chatRooms r).records p))) .userInfoListID] }
      refine ⟨v, withUser list ((s.chatRooms r).records p) :: ms, h1.trans ?_, ?_⟩
      · simp [toCurrent]
      · rw [List.cons_append, ← h2]
    · exact ih (withUser list ((s.chatRooms r).records p)) (count + 1) s

/-- The server after the users of `r` are sent to `cur` through `g`. -/
def listSent (s : Server) (r : RoomPtr) (rs : StruUserLoginRS) (g : BaseUserInfo) (cur : Ptr) : Server :=
  { s.withList r (s.chatRooms r).userList.walked with
    sent := s.sent ++ (userLists ⟨.userInfoListID, rs.userId, rs.roomId, []⟩ 0
      ((s.chatRooms r).userList.reached.map (s.chatRooms r).records)).map
        fun m => s.toCurrent r g cur (.userInfoListID m) .userInfoListID }

theorem wp_sendUserList {gs : Option BaseUserInfo} {Q : Unit → Server → Prop} :
    wp (sendUserList r rs gs cur) Q B F s ↔ if (s.chatRooms r).userList.locked then B s else
      match (s.chatRooms r).userList.userInfoList.values.head?.join with
      | none => Q () (s.withList r (s.chatRooms r).userList.walked)
      | some _ => match gs with
        | none => F
        | some g => Q () (s.listSent r rs g cur) := by
  simp only [sendUserList, wp_bind, wp_onRoom, ChatRoom.wp_onUserList, wp_getFirstUser]
  split
  · exact Iff.rfl.trans (by rw [withRoom_self])
  rcases hv : (s.chatRooms r).userList.userInfoList.values with _ | ⟨_ | p, rest⟩
  · simp [walked, hv, withList]
  · simp [walked, hv, withList, walking]
  have hr : (s.chatRooms r).userList.reached ≠ [] := by simp [reached, hv]
  have hf := (listUser_turns r (s.chatRooms r).userList gs cur).forUsers_eq rfl hv
    (⟨.userInfoListID, rs.userId, rs.roomId, []⟩, 0)
  refine (wp_bind (forUsers r (listUser r gs cur) p (⟨.userInfoListID, rs.userId, rs.roomId, []⟩, 0)) _).trans ?_
  rcases gs with _ | g
  · rcases ht : (s.chatRooms r).userList.reached.foldlM (fun t p => listed r none cur p t)
      ((⟨.userInfoListID, rs.userId, rs.roomId, []⟩, 0), s) with _ | t
    · rw [ht] at hf
      exact wp_fault hf
    · have hpos : 0 < t.1.2 := by
        have := foldlM_listed_none ht
        have := List.length_pos_iff.mpr hr
        omega
      rw [ht] at hf
      refine (wp_done hf).trans ?_
      simp [hpos]
  · obtain ⟨v, ms, h1, h2⟩ := foldlM_listed_some r g cur (s.chatRooms r).userList.reached
      ⟨.userInfoListID, rs.userId, rs.roomId, []⟩ 0 s
    rw [h1] at hf
    refine (wp_done hf).trans ?_
    have e : s.listSent r rs g cur = { s.withList r (s.chatRooms r).userList.walked with
        sent := s.sent ++ (ms ++ if 0 < v.2 then [v.1] else []).map
          fun m => s.toCurrent r g cur (.userInfoListID m) .userInfoListID } := by
      rw [← h2]
      rfl
    simp only [e]
    split
    · refine wp_sendToCurrent.trans ?_
      simp [toCurrent, withList, withRoom]
    · simp [withList, withRoom]

/-! ## The microphone holders -/

@[simp] theorem withList_list (s : Server) (r : RoomPtr) (l : UserInfoList) :
    ((s.withList r l).chatRooms r).userList = l := by
  simp [withList]

@[simp] theorem withList_records (s : Server) (r : RoomPtr) (l : UserInfoList) :
    ((s.withList r l).chatRooms r).records = (s.chatRooms r).records := by
  simp [withList]

@[simp] theorem withList_self (s : Server) (r : RoomPtr) : s.withList r (s.chatRooms r).userList = s :=
  withRoom_self ..

/-- The entry for a microphone holder that is found. -/
def micInfo (room : ChatRoom) (mic : Int × List Byte) : Option StruMicInfo :=
  (room.userList.userInfoList.ptr mic.1).map fun p =>
    ⟨.micInfo, (room.records p).userId, (room.records p).nickname, mic.2⟩

/-- `GetUserInfo` of every microphone holder. -/
def micsLookedUp (l : UserInfoList) (mics : List (Int × List Byte)) : UserInfoList :=
  mics.foldl (fun l mic => lookedUp l mic.1) l

theorem wp_micInfos_locked (hl : (s.chatRooms r).userList.locked) {mics : List (Int × List Byte)} (hm : mics ≠ [])
    {Q : List StruMicInfo → Server → Prop} : wp (micInfos r mics) Q B F s ↔ B s := by
  obtain ⟨mic, mics, rfl⟩ := List.exists_cons_of_ne_nil hm
  simp [micInfos, hl]

theorem wp_micInfos {mics : List (Int × List Byte)} (hl : (s.chatRooms r).userList.locked = false)
    {Q : List StruMicInfo → Server → Prop} :
    wp (micInfos r mics) Q B F s ↔
      Q (mics.filterMap (micInfo (s.chatRooms r))) (s.withList r (micsLookedUp (s.chatRooms r).userList mics)) := by
  induction mics generalizing s Q with
  | nil => simp [micInfos, micsLookedUp]
  | cons mic mics ih =>
    have hs : s.withRoom r { s.chatRooms r with userList := lookedUp (s.chatRooms r).userList mic.1 } =
        s.withList r (lookedUp (s.chatRooms r).userList mic.1) := rfl
    have hl' : ((s.withList r (lookedUp (s.chatRooms r).userList mic.1)).chatRooms r).userList.locked = false := by
      simpa using hl
    have hmic : micInfo ((s.withList r (lookedUp (s.chatRooms r).userList mic.1)).chatRooms r) =
        micInfo (s.chatRooms r) := by
      funext m
      simp [micInfo, withList]
    rw [micInfos, wp_bind, wp_onRoom, ChatRoom.wp_getUserInfo, hl, if_neg Bool.false_ne_true, hs]
    rcases hp : (s.chatRooms r).userList.userInfoList.ptr mic.1 with _ | p
    · have hno : micInfo (s.chatRooms r) mic = none := by rw [micInfo, hp]; rfl
      rw [ih hl', List.filterMap_cons, hno, hmic, withList_list, withList_withList]
      rfl
    · have hyes : micInfo (s.chatRooms r) mic = some ⟨.micInfo, ((s.chatRooms r).records p).userId,
          ((s.chatRooms r).records p).nickname, mic.2⟩ := by rw [micInfo, hp]; rfl
      simp only [wp_bind, wp_record]
      rw [ih hl', List.filterMap_cons, hyes, hmic, withList_list, withList_withList, withList_records]
      rfl

/-- The server after the microphone holders of `r` are sent to `cur` through `g`. -/
def micsSent (s : Server) (r : RoomPtr) (g : BaseUserInfo) (cur : Ptr) : Server :=
  let room := s.chatRooms r
  let mics := room.videoChannelList.toList
  { s.withList r (micsLookedUp room.userList mics) with
    sent := s.sent ++ [s.toCurrent r g cur (.roomMicInfoID ⟨.roomMicInfoID, (room.records cur).userId, room.roomId,
      mics.filterMap (micInfo room)⟩) .roomMicInfoID] }

theorem wp_sendMicList {gs : Option BaseUserInfo} {cur : Option Ptr} {Q : Unit → Server → Prop} :
    wp (sendMicList r gs cur) Q B F s ↔ if (s.chatRooms r).videoChannelList.toList = [] then Q () s else
      match cur with
      | none => F
      | some cur => if (s.chatRooms r).userList.locked then B s else
        match gs with
        | none => F
        | some g => Q () (s.micsSent r g cur) := by
  rw [sendMicList, wp_bind, wp_onRoom, getMicUserList, wp_read, withRoom_self]
  by_cases hm : (s.chatRooms r).videoChannelList.toList = []
  · simp [hm]
  rw [if_pos (List.length_pos_iff.mpr hm), if_neg hm, getRoomID, wp_bind, wp_read, wp_bind, wp_deref]
  rcases cur with _ | cur
  · rfl
  dsimp only
  rw [wp_bind, wp_record, wp_bind]
  split <;> rename_i hl
  · exact wp_micInfos_locked hl hm
  · rw [wp_micInfos (by simpa using hl), wp_sendToCurrent]
    rcases gs with _ | g
    · rfl
    · simp [micsSent, toCurrent, withList, withRoom]

/-! ## The commands -/

theorem wp_forRoomUser {roomId u : Int} {body : RoomPtr → Ptr → Act Server Unit} {Q : Unit → Server → Prop} :
    wp (forRoomUser roomId u body) Q B F s ↔ match s.room roomId with
      | none => Q () (s.foundRoom roomId)
      | some r => if (s.chatRooms r).userList.locked then B s else
        match (s.chatRooms r).userList.userInfoList.ptr u with
        | none => Q () (s.withList r (lookedUp (s.chatRooms r).userList u))
        | some p => wp (body r p) Q B F s := by
  rw [forRoomUser, wp_bind, wp_getRoom]
  rcases hr : s.room roomId with _ | r
  · rfl
  dsimp only
  rw [foundRoom_of_room hr, wp_bind, wp_onRoom, ChatRoom.wp_getUserInfo, withRoom_self]
  split
  · rfl
  rcases hp : (s.chatRooms r).userList.userInfoList.ptr u with _ | p
  · rfl
  · have hl : lookedUp (s.chatRooms r).userList u = (s.chatRooms r).userList := by
      rw [lookedUp, StdMap.subscript_of_ptr hp]
    rw [hl]
    exact Iff.of_eq (congrArg _ (withRoom_self s r))

/-- The room `r` after `createRoom` has made it. -/
def createdRoom (roomId : Int) : ChatRoom := { ChatRoom.new with roomId := roomId, sock := -1 }

/-- The room of a login request, and the server after it is found or made. -/
def entered (s : Server) (roomId : Int) : RoomPtr × Server :=
  match s.room roomId with
  | some r => (r, s)
  | none => (s.nextRoom, { s with
      roomManager := { s.roomManager with roomList := s.roomManager.roomList.assign roomId (some s.nextRoom) }
      chatRooms := Function.update s.chatRooms s.nextRoom (createdRoom roomId)
      nextRoom := s.nextRoom + 1 })

theorem wp_createRoom {roomId : Int} (hu : s.roomManager.unusedRoomList = []) {Q : RoomPtr → Server → Prop} :
    wp (createRoom roomId) Q B F s ↔ Q s.nextRoom { s with
      chatRooms := Function.update s.chatRooms s.nextRoom (createdRoom roomId)
      nextRoom := s.nextRoom + 1 } := by
  rw [createRoom, wp_bind, getNewRoom, wp_bind, wp_read, hu]
  simp [makeRoom, setRoom, withRoom]
  rfl

theorem wp_loginRoom {roomId : Int} (hu : s.roomManager.unusedRoomList = []) {Q : RoomPtr → Server → Prop} :
    wp (loginRoom roomId) Q B F s ↔ Q (s.entered roomId).1 (s.entered roomId).2 := by
  rw [loginRoom, wp_bind, wp_getRoom, entered]
  rcases hr : s.room roomId with _ | r
  · have hr' : (s.roomManager.roomList.subscript roomId none).ptr roomId = none := (foundRoom_room s ..).trans hr
    dsimp only
    rw [wp_bind, wp_createRoom (by exact hu)]
    simp [addRoom, foundRoom, hr', StdMap.assign_subscript]
  · rw [foundRoom_of_room hr]
    rfl

/-- The record of a login request. -/
def pendingInfo (tmpPackage : GateRoomServerPack) (rq : StruUserLoginRQ) : UserInfo :=
  { UserInfo.clear with
    gsHashkeyUserOn := tmpPackage.gsHashkey.toInt
    userHashKey := tmpPackage.userHashkey.toInt
    userId := rq.userId
    userNickname := rq.userAccountName ++ List.replicate (0x20 - rq.userAccountName.length) 0 }

/-- The room after `NewUserInfo` has taken `p` for a login request, and left `rest`. -/
def filled (room : ChatRoom) (tmpPackage : GateRoomServerPack) (rq : StruUserLoginRQ) (p : Ptr) (rest : List Ptr) :
    ChatRoom :=
  (room.took p rest).store p (pendingInfo tmpPackage rq)

/-- The room after a login request that took `p`. -/
def requested (room : ChatRoom) (tmpPackage : GateRoomServerPack) (rq : StruUserLoginRQ) (p : Ptr) (rest : List Ptr) :
    ChatRoom :=
  { filled room tmpPackage rq p rest with preUserList :=
    { room.preUserList with userInfoList := added room.preUserList.userInfoList rq.userId p } }

theorem memcpy_clear (name : List Byte) :
    memcpy UserInfo.clear.userNickname 0 name name.length =
      if name.length ≤ 0x20 then some (name ++ List.replicate (0x20 - name.length) 0) else none := by
  have hlen : UserInfo.clear.userNickname.length = 0x20 := by decide
  have hclear : UserInfo.clear.userNickname = List.replicate 0x20 0 := rfl
  split <;> rename_i h
  · rw [memcpy_front rfl (by omega) le_rfl, List.take_length, hclear, List.drop_replicate]
  · rw [memcpy, if_neg]
    omega

theorem wp_storeLogin {tmpPackage : GateRoomServerPack} {rq : StruUserLoginRQ} {room : ChatRoom} {p : Ptr}
    {rest : List Ptr} {B : ChatRoom → Prop} {Q : Unit → ChatRoom → Prop} :
    wp (storeLogin tmpPackage rq p) Q B F (room.took p rest) ↔
      if rq.userAccountName.length ≤ 0x20 then Q () (filled room tmpPackage rq p rest) else F := by
  have hrec : (room.took p rest).records p = .clear := Function.update_self ..
  unfold wp storeLogin
  dsimp only
  rw [hrec, memcpy_clear]
  by_cases h : rq.userAccountName.length ≤ 0x20 <;> simp only [h, if_true, if_false]
  rfl

theorem wp_clientLoginRQ {tmpPackage : GateRoomServerPack} {rq : StruUserLoginRQ}
    (hu : s.roomManager.unusedRoomList = []) {Q : Unit → Server → Prop} :
    wp (clientLoginRQ tmpPackage rq) Q B F s ↔
      let (r, s) := s.entered rq.roomId
      let room := s.chatRooms r
      if room.userList.locked then B s else match room.userList.unusedUserInfoList with
        | [] => F
        | p :: rest =>
          if rq.userAccountName.length ≤ 0x20 then
            if room.preUserList.locked then B (s.withRoom r (filled room tmpPackage rq p rest))
            else Q () { s.withRoom r (requested room tmpPackage rq p rest) with
              sent := s.sent ++ [.center tmpPackage.dataMsg tmpPackage.dataLen.toInt] }
          else F := by
  rw [clientLoginRQ, wp_bind, wp_loginRoom hu]
  rcases s.entered rq.roomId with ⟨r, s⟩
  dsimp only
  rw [wp_bind, wp_onRoom, wp_newUserInfo, withRoom_self]
  split
  · rfl
  rcases (s.chatRooms r).userList.unusedUserInfoList with _ | ⟨p, rest⟩
  · rfl
  dsimp only
  rw [wp_bind, wp_onRoom, withRoom_same, wp_storeLogin]
  split
  · rw [wp_bind, wp_onRoom, withRoom_withRoom, withRoom_same, wp_addPreUser]
    simp only [withRoom_withRoom]
    rfl
  · rfl

/-- The room after `tmp_user`'s (`p`) login has taken `q`, and left `rest`. -/
def loggedIn (room : ChatRoom) (rs : StruUserLoginRS) (p q : Ptr) (rest : List Ptr) : ChatRoom :=
  let room := room.took q rest
  { room.store q (loginInfo rs (room.records p)) with userList :=
    { room.userList with userInfoList := added room.userList.userInfoList rs.userId q } }

theorem wp_loginUserOf {new : Act ChatRoom (Option Ptr)} {next : List Ptr → Option (Ptr × List Ptr)}
    (hnew : HandsOut new next) {p : Ptr} {Q : Option Ptr → Server → Prop} :
    wp (loginUserOf new r rs p) Q B F s ↔ if (s.chatRooms r).userList.locked then B s else
      match next (s.chatRooms r).userList.unusedUserInfoList with
      | none => F
      | some (q, rest) => Q (some q) (s.withRoom r (loggedIn (s.chatRooms r) rs p q rest)) := by
  rw [loginUserOf, wp_bind, wp_onRoom, hnew, withRoom_self]
  split <;> rename_i hl
  · rfl
  rcases next (s.chatRooms r).userList.unusedUserInfoList with _ | ⟨q, rest⟩
  · rfl
  have hl' : (((s.chatRooms r).took q rest).store q
      (loginInfo rs (((s.chatRooms r).took q rest).records p))).userList.locked = false :=
    Bool.eq_false_of_not_eq_true hl
  dsimp only
  rw [wp_bind, wp_onRoom, wp_modify, withRoom_withRoom, withRoom_same, wp_bind, wp_onRoom, withRoom_same,
    wp_addUser, hl', if_neg Bool.false_ne_true, withRoom_withRoom]
  rfl

/-- The server after the reply to `tmp_user` (`p`) of the room `r`. -/
def replied (s : Server) (r : RoomPtr) (rs : StruUserLoginRS) (p : Ptr) : Server :=
  let info := (s.chatRooms r).records p
  { s.foundGate info.gsHashkeyUserOn with
    sent := s.sent ++ ((s.gate info.gsHashkeyUserOn).map
      fun gs => .toGS (.userLoginRS rs) rs.msgId gs.userSock info.userHashKey).toList }

theorem wp_replyLogin {p : Ptr} {Q : Option BaseUserInfo → Server → Prop} :
    wp (replyLogin r rs p) Q B F s ↔
      Q (s.gate ((s.chatRooms r).records p).gsHashkeyUserOn) (s.replied r rs p) := by
  rw [replyLogin, wp_bind, wp_record, wp_bind, wp_getUserByHashkey]
  rcases hg : s.gate ((s.chatRooms r).records p).gsHashkeyUserOn with _ | g
  · simp [replied, hg, foundGate]
  · simp [replied, hg, foundGate]

@[simp] theorem replied_chatRooms (s : Server) (r : RoomPtr) (rs : StruUserLoginRS) (p : Ptr) :
    (s.replied r rs p).chatRooms = s.chatRooms := rfl

@[simp] theorem replied_room (s : Server) (r : RoomPtr) (rs : StruUserLoginRS) (p : Ptr) (j : Int) :
    (s.replied r rs p).room j = s.room j := rfl

@[simp] theorem listSent_chatRooms (s : Server) (r : RoomPtr) (rs : StruUserLoginRS) (g : BaseUserInfo) (cur : Ptr) :
    (s.listSent r rs g cur).chatRooms = (s.withList r (s.chatRooms r).userList.walked).chatRooms := rfl

theorem wp_clientLoginRSOf {new : Act ChatRoom (Option Ptr)} {next : List Ptr → Option (Ptr × List Ptr)}
    (hnew : HandsOut new next) {Q : Unit → Server → Prop} :
    wp (clientLoginRSOf new rs) Q B F s ↔ match s.room rs.roomId with
      | none => Q () (s.foundRoom rs.roomId)
      | some r => if (s.chatRooms r).preUserList.locked then B s else
        match (s.chatRooms r).preUserList.userInfoList.ptr rs.userId with
        | none => Q () (s.withRoom r { s.chatRooms r with
            preUserList := lookedUp (s.chatRooms r).preUserList rs.userId })
        | some p => if rs.result = 1 then
            if (s.chatRooms r).userList.locked then B s else
            match next (s.chatRooms r).userList.unusedUserInfoList with
            | none => F
            | some (q, rest) =>
              wp (answerLogin r rs p (some q)) Q B F (s.withRoom r (loggedIn (s.chatRooms r) rs p q rest))
          else wp (answerLogin r rs p none) Q B F s := by
  rw [clientLoginRSOf, wp_bind, wp_getRoom]
  rcases hr : s.room rs.roomId with _ | r
  · rfl
  dsimp only
  rw [foundRoom_of_room hr, wp_bind, wp_onRoom, wp_getPreUserInfo, withRoom_self]
  split
  · rfl
  rcases hp : (s.chatRooms r).preUserList.userInfoList.ptr rs.userId with _ | p
  · rfl
  have hl : lookedUp (s.chatRooms r).preUserList rs.userId = (s.chatRooms r).preUserList := by
    rw [lookedUp, StdMap.subscript_of_ptr hp]
  rw [hl]
  have hs : s.withRoom r { s.chatRooms r with preUserList := (s.chatRooms r).preUserList } = s := withRoom_self ..
  rw [hs]
  dsimp only
  split
  · rw [wp_bind, wp_loginUserOf hnew]
  · rfl

theorem wp_clientLoginRS {Q : Unit → Server → Prop} :
    wp (clientLoginRS rs) Q B F s ↔ match s.room rs.roomId with
      | none => Q () (s.foundRoom rs.roomId)
      | some r => if (s.chatRooms r).preUserList.locked then B s else
        match (s.chatRooms r).preUserList.userInfoList.ptr rs.userId with
        | none => Q () (s.withRoom r { s.chatRooms r with
            preUserList := lookedUp (s.chatRooms r).preUserList rs.userId })
        | some p => if rs.result = 1 then
            if (s.chatRooms r).userList.locked then B s else
            match (s.chatRooms r).userList.unusedUserInfoList with
            | [] => F
            | q :: rest =>
              wp (answerLogin r rs p (some q)) Q B F (s.withRoom r (loggedIn (s.chatRooms r) rs p q rest))
          else wp (answerLogin r rs p none) Q B F s := by
  rw [clientLoginRS, wp_clientLoginRSOf handsOut_newUserInfo]
  rcases s.room rs.roomId with _ | r
  · rfl
  rcases h : (s.chatRooms r).userList.unusedUserInfoList with _ | ⟨q, rest⟩ <;> simp only [h, front]

end Server

end Miku.RoomServer
