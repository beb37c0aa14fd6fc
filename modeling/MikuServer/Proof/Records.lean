import Mathlib.Data.Multiset.AddSub
import MikuServer.Proof.RoomInvariant

/-!
# The records of a room

What the commands do to the lists of a room is `effect`, on a room whose lists
are the same up to `NULL` entries (`SameLists`). Over it the records are a
multiset (`stock`): a login request and an exit keep it, a second request of a
user who is pending loses a record, and so does every reply that finds its user.
`conserved_iff` says in which runs no record is lost.
-/

namespace Miku.RoomServer

open Act UserInfoList ChatRoom

/-- The same unused records, and the same users in the room and pending. -/
structure SameLists (room room' : ChatRoom) : Prop where
  free : room.userList.unusedUserInfoList = room'.userList.unusedUserInfoList
  preFree : room.preUserList.unusedUserInfoList = room'.preUserList.unusedUserInfoList
  online (u : Int) : room.userList.userInfoList.ptr u = room'.userList.userInfoList.ptr u
  pending (u : Int) : room.preUserList.userInfoList.ptr u = room'.preUserList.userInfoList.ptr u

theorem SameLists.rfl {room : ChatRoom} : SameLists room room :=
  ⟨Eq.refl _, Eq.refl _, fun _ => Eq.refl _, fun _ => Eq.refl _⟩

/-- Looking up and loops leave the lists of the rooms `R` as they are. -/
theorem look_sameLists (R : RoomPtr → ChatRoom) : LookInvariant fun r room => SameLists room (R r) where
  lookedUp u h _ := ⟨h.free, h.preFree, fun v => (lookedUp_ptr ..).trans (h.online v), h.pending⟩
  walked h _ := by
    refine ⟨?_, h.preFree, fun v => ?_, h.pending⟩
    · rw [Server.walked_unusedUserInfoList]
      exact h.free
    · rw [Server.walked_userInfoList]
      exact h.online v
  store _ _ h := ⟨h.free, h.preFree, h.online, h.pending⟩

/-! ## What is left of the records -/

/-- The records of `user_list_` that are unused, or of a user in the room or pending. -/
def stock (room : ChatRoom) : Multiset Ptr :=
  (room.userList.unusedUserInfoList : Multiset Ptr) + (room.userList.userInfoList.ptrs : Multiset Ptr) +
    (room.preUserList.userInfoList.ptrs : Multiset Ptr)

variable {room room' : ChatRoom} {p q : Ptr} {rest : List Ptr} {u : Int}

theorem SameLists.stock (h : SameLists room room') : stock room = stock room' := by
  unfold RoomServer.stock
  rw [h.free, Multiset.coe_eq_coe.mpr (StdMap.ptrs_perm h.online), Multiset.coe_eq_coe.mpr (StdMap.ptrs_perm h.pending)]

theorem coe_ptrs_added {m : StdMap (Option Ptr)} (h : m.ptr u = none) (p : Ptr) :
    ((added m u p).ptrs : Multiset Ptr) = p ::ₘ (m.ptrs : Multiset Ptr) := by
  refine Multiset.coe_eq_coe.mpr (StdMap.ptrs_perm_cons (k := u) ?_ fun j => ?_)
  · simp [ptr_added, h]
  · rw [ptr_added]
    by_cases hj : u = j
    · rw [if_pos hj, ← hj, h]
    · rw [if_neg hj, if_neg hj]

theorem coe_ptrs_erase {m : StdMap (Option Ptr)} (h : m.ptr u = some p) :
    (m.ptrs : Multiset Ptr) = p ::ₘ ((m.erase u).ptrs : Multiset Ptr) :=
  Multiset.coe_eq_coe.mpr (StdMap.ptrs_perm_cons h fun j => StdMap.ptr_erase m u j)

theorem added_of_isSome {m : StdMap (Option Ptr)} (h : (m.ptr u).isSome) (p : Ptr) : added m u p = m := if_pos h

/-! ## What the commands do to the lists of a room -/

/-- The room after a login request. -/
def requestRoom (room : ChatRoom) (tmpPackage : GateRoomServerPack) (rq : StruUserLoginRQ) : ChatRoom :=
  match room.userList.unusedUserInfoList with
  | [] => room
  | p :: rest => Server.requested room tmpPackage rq p rest

/-- The room before `RemovePreUser`, of a reply that has found the pending record `p`. -/
def repliedRoom (room : ChatRoom) (rs : StruUserLoginRS) (p : Ptr) : ChatRoom :=
  if rs.result = 1 then match room.userList.unusedUserInfoList with
    | [] => room
    | q :: rest => Server.loggedIn room rs p q rest
  else room

/-- The room after a reply. -/
def replyRoom (room : ChatRoom) (rs : StruUserLoginRS) : ChatRoom :=
  match room.preUserList.userInfoList.ptr rs.userId with
  | none => room
  | some p => Server.endedLogin (repliedRoom room rs p) rs.userId

/-- The room after an exit. -/
def exitRoom (room : ChatRoom) (u : Int) : ChatRoom :=
  match room.userList.userInfoList.ptr u with
  | none => room
  | some p => { room with userList := released room.userList u p }

theorem stock_requestRoom (tmpPackage : GateRoomServerPack) (rq : StruUserLoginRQ)
    (h : room.preUserList.userInfoList.ptr rq.userId = none) :
    stock (requestRoom room tmpPackage rq) = stock room := by
  unfold requestRoom
  rcases hq : room.userList.unusedUserInfoList with _ | ⟨p, rest⟩
  · rfl
  · show (rest : Multiset Ptr) + _ + ((added room.preUserList.userInfoList rq.userId p).ptrs : Multiset Ptr) = _
    rw [coe_ptrs_added h, stock, hq, ← Multiset.cons_coe, Multiset.add_cons, Multiset.cons_add, Multiset.cons_add]
    rfl

/-- A record is lost. -/
theorem card_requestRoom (tmpPackage : GateRoomServerPack) (rq : StruUserLoginRQ)
    (hf : room.userList.unusedUserInfoList ≠ [])
    (h : (room.preUserList.userInfoList.ptr rq.userId).isSome) :
    (stock (requestRoom room tmpPackage rq)).card < (stock room).card := by
  obtain ⟨p, rest, hq⟩ := List.exists_cons_of_ne_nil hf
  have hstock : stock (requestRoom room tmpPackage rq) = (rest : Multiset Ptr) +
      (room.userList.userInfoList.ptrs : Multiset Ptr) + (room.preUserList.userInfoList.ptrs : Multiset Ptr) := by
    rw [requestRoom, hq]
    show (rest : Multiset Ptr) + _ + ((added room.preUserList.userInfoList rq.userId p).ptrs : Multiset Ptr) = _
    rw [added_of_isSome h]
    rfl
  rw [hstock, stock, hq]
  simp only [Multiset.card_add, Multiset.coe_card, List.length_cons]
  omega

theorem stock_exitRoom (room : ChatRoom) (u : Int) : stock (exitRoom room u) = stock room := by
  unfold exitRoom
  rcases hp : room.userList.userInfoList.ptr u with _ | p
  · rfl
  · show ((room.userList.unusedUserInfoList ++ [p] : List Ptr) : Multiset Ptr) +
      ((room.userList.userInfoList.erase u).ptrs : Multiset Ptr) + _ = _
    rw [stock, coe_ptrs_erase hp, ← Multiset.coe_add, Multiset.add_assoc, ← Multiset.singleton_add p,
      ← Multiset.add_assoc, ← Multiset.add_assoc, Multiset.coe_singleton]

/-- A login takes a record, which is lost if the user is in the room already. -/
theorem stock_loggedIn_le (rs : StruUserLoginRS) (p : Ptr) (hq : room.userList.unusedUserInfoList = q :: rest) :
    stock (Server.loggedIn room rs p q rest) ≤ stock room := by
  show (rest : Multiset Ptr) + ((added room.userList.userInfoList rs.userId q).ptrs : Multiset Ptr) +
    (room.preUserList.userInfoList.ptrs : Multiset Ptr) ≤ _
  rcases hu : room.userList.userInfoList.ptr rs.userId with _ | j
  · rw [coe_ptrs_added hu, stock, hq, ← Multiset.cons_coe, Multiset.add_cons, Multiset.cons_add, Multiset.cons_add,
      Multiset.cons_add]
  · rw [added_of_isSome (Option.isSome_of_mem hu), stock, hq, ← Multiset.cons_coe, Multiset.cons_add,
      Multiset.cons_add]
    exact Multiset.le_cons_self _ _

theorem stock_repliedRoom_le (room : ChatRoom) (rs : StruUserLoginRS) (p : Ptr) :
    stock (repliedRoom room rs p) ≤ stock room ∧ (repliedRoom room rs p).preUserList = room.preUserList := by
  unfold repliedRoom
  split
  · rcases hq : room.userList.unusedUserInfoList with _ | ⟨q, rest⟩
    · exact ⟨le_refl _, rfl⟩
    · exact ⟨stock_loggedIn_le rs p hq, rfl⟩
  · exact ⟨le_refl _, rfl⟩

/-- The pending record goes to the unused records of `pre_user_list_`. -/
theorem stock_endedLogin (hp : room.preUserList.userInfoList.ptr u = some p) :
    stock room = p ::ₘ stock (Server.endedLogin room u) := by
  have hroom : Server.endedLogin room u = { room with preUserList := released room.preUserList u p } := by
    simp only [Server.endedLogin, hp]
  rw [hroom, stock, coe_ptrs_erase hp, Multiset.add_cons]
  rfl

theorem card_replyRoom (rs : StruUserLoginRS) (h : (room.preUserList.userInfoList.ptr rs.userId).isSome) :
    (stock (replyRoom room rs)).card < (stock room).card := by
  obtain ⟨p, hp⟩ := Option.isSome_iff_exists.mp h
  obtain ⟨hle, hpre⟩ := stock_repliedRoom_le room rs p
  have hp' : (repliedRoom room rs p).preUserList.userInfoList.ptr rs.userId = some p := hpre ▸ hp
  refine Nat.lt_of_lt_of_le ?_ (Multiset.card_le_card hle)
  rw [replyRoom, hp, stock_endedLogin hp', Multiset.card_cons]
  exact Nat.lt_succ_self _

/-- A room that is changed the same way in both. -/
theorem SameLists.endedLogin {room room' : ChatRoom} (h : SameLists room room') (u : Int) :
    SameLists (Server.endedLogin room u) (Server.endedLogin room' u) := by
  have hp := h.pending u
  have hf := h.preFree
  refine ⟨h.free, ?_, h.online, fun v => ?_⟩
  · unfold Server.endedLogin
    rw [hp]
    rcases room'.preUserList.userInfoList.ptr u with _ | p
    · exact hf
    · exact congrArg (· ++ [p]) hf
  · unfold Server.endedLogin
    rw [hp]
    rcases room'.preUserList.userInfoList.ptr u with _ | p
    · exact (lookedUp_ptr ..).trans ((h.pending v).trans (lookedUp_ptr ..).symm)
    · show (room.preUserList.userInfoList.erase u).ptr v = (room'.preUserList.userInfoList.erase u).ptr v
      rw [StdMap.ptr_erase, StdMap.ptr_erase, h.pending v]

namespace Server

/-! ## What the commands do to the lists of the rooms -/

variable {s t : Server} {r : RoomPtr}

/-- The server with `f` of the room `roomId`, if there is one. -/
def onFound (s : Server) (roomId : Int) (f : ChatRoom → ChatRoom) : Server :=
  match s.room roomId with
  | none => s
  | some r => s.withRoom r (f (s.chatRooms r))

/-- The lists of the rooms after an event that is done. -/
def effect (s : Server) : Event → Server
  | .message (.clientLoginRQ tmpPackage rq) =>
    let (r, s) := s.entered rq.roomId
    s.withRoom r (requestRoom (s.chatRooms r) tmpPackage rq)
  | .message (.clientLoginRS rs) => s.onFound rs.roomId fun room => replyRoom room rs
  | .message (.userExitRoomID m) => s.onFound m.roomId fun room => exitRoom room m.userId
  | _ => s

/-- The server after an event, if it is handled to the end. -/
def finish (s : Server) (e : Event) : Option Server :=
  match e with
  | .connect hashKey userSock => done (addUserInfo hashKey userSock)
  | .disconnect hashKey => done (releaseUserInfo hashKey)
  | .message m => done (handle m)
where
  done {α : Type} (x : Act Server α) : Option Server :=
    match x s with
    | .done _ t => some t
    | _ => none

/-- The rooms of `t` have the lists of those of `s`. -/
def Follows (s t : Server) : Prop := Rooms (fun r room => SameLists room (s.chatRooms r)) t

theorem finish_done {α : Type} {x : Act Server α} {Q : Server → Prop}
    (h : wp x (fun _ => Q) (fun _ => True) True s) (ht : finish.done s x = some t) : Q t := by
  unfold wp at h
  unfold finish.done at ht
  split at ht
  · rename_i hx
    rw [hx] at h
    cases ht
    exact h
  · cases ht

theorem Rooms.follows {P : RoomPtr → ChatRoom → Prop} (h : Rooms P s) : Follows s s :=
  { h with each := fun _ => .rfl }

theorem KeepsRooms.follows {α : Type} {x : Act Server α}
    (h : KeepsRooms (fun r room => SameLists room (s.chatRooms r)) x s) :
    wp x (fun _ => Follows s) (fun _ => True) True s :=
  wp_mono h (fun _ _ h => h.1) fun _ _ => trivial

theorem clientLoginRQ_effect (h : Rooms (fun _ _ => True) s) (tmpPackage : GateRoomServerPack) (rq : StruUserLoginRQ) :
    wp (clientLoginRQ tmpPackage rq) (fun _ => Follows (s.effect (.message (.clientLoginRQ tmpPackage rq))))
      (fun _ => True) True s := by
  obtain ⟨he, hr⟩ := h.entered (fun _ _ _ => trivial) rq.roomId
  rw [wp_clientLoginRQ h.unused, effect]
  generalize s.entered rq.roomId = e at he hr ⊢
  obtain ⟨r, t⟩ := e
  dsimp only at he hr ⊢
  split
  · trivial
  rcases hq : (t.chatRooms r).userList.unusedUserInfoList with _ | ⟨p, rest⟩
  · trivial
  dsimp only
  split
  · split
    · trivial
    · have hrooms : Follows (t.withRoom r (requestRoom (t.chatRooms r) tmpPackage rq))
          (t.withRoom r (requested (t.chatRooms r) tmpPackage rq p rest)) := by
        rw [requestRoom, hq]
        exact (he.withRoom (P := fun _ _ => True) hr trivial).follows
      exact hrooms.sent _
  · trivial

theorem onFound_of_room {roomId : Int} {f : ChatRoom → ChatRoom} (hr : s.room roomId = some r) :
    s.onFound roomId f = s.withRoom r (f (s.chatRooms r)) := by
  rw [onFound, hr]

theorem onFound_of_none {roomId : Int} {f : ChatRoom → ChatRoom} (hr : s.room roomId = none) :
    s.onFound roomId f = s := by
  rw [onFound, hr]

/-- The rest of a reply, once the room is as `repliedRoom` says. -/
theorem answerLogin_effect (h : Rooms (fun _ _ => True) s) (hr : r < s.nextRoom) (rs : StruUserLoginRS) (p : Ptr)
    (cur : Option Ptr) : wp (answerLogin r rs p cur)
      (fun _ => Follows (s.withRoom r (endedLogin (s.chatRooms r) rs.userId))) (fun _ => True) True s := by
  refine wp_mono (answerLogin_leads (look_sameLists s.chatRooms).toWalkInvariant (look_sameLists _).toWalkInvariant h.follows hr rs p cur
    (fun j hj room hroom => ?_) fun room hroom _ => ?_) (fun _ _ h => h.1) fun _ _ => trivial
  · rw [withRoom_other s hj]
    exact hroom
  · rw [withRoom_same]
    exact hroom.endedLogin rs.userId

theorem clientLoginRS_effect (h : Rooms (fun _ _ => True) s) (rs : StruUserLoginRS) :
    wp (clientLoginRS rs) (fun _ => Follows (s.effect (.message (.clientLoginRS rs)))) (fun _ => True) True s := by
  rw [wp_clientLoginRS, effect]
  rcases hr : s.room rs.roomId with _ | r
  · rw [onFound_of_none hr]
    exact h.follows.foundRoom _
  rw [onFound_of_room hr]
  dsimp only
  split
  · trivial
  rcases hp : (s.chatRooms r).preUserList.userInfoList.ptr rs.userId with _ | p
  · have hsame : replyRoom (s.chatRooms r) rs = s.chatRooms r := by rw [replyRoom, hp]
    rw [hsame, withRoom_self]
    exact h.follows.withRoom (h.known hr) ⟨rfl, rfl, fun _ => rfl, fun _ => lookedUp_ptr ..⟩
  have hreply : replyRoom (s.chatRooms r) rs = endedLogin (repliedRoom (s.chatRooms r) rs p) rs.userId := by
    rw [replyRoom, hp]
  rw [hreply, repliedRoom]
  dsimp only
  split
  · split
    · trivial
    rcases (s.chatRooms r).userList.unusedUserInfoList with _ | ⟨q, rest⟩
    · trivial
    have ht : Rooms (fun _ _ => True) (s.withRoom r (loggedIn (s.chatRooms r) rs p q rest)) :=
      h.withRoom (h.known hr) trivial
    have heffect := answerLogin_effect ht (h.known hr) rs p (some q)
    rw [withRoom_same, withRoom_withRoom] at heffect
    exact heffect
  · exact answerLogin_effect h (h.known hr) rs p none

theorem userExitRoomID_effect (h : Rooms (fun _ _ => True) s) (m : StruUserExitRoomID) :
    wp (userExitRoomID m) (fun _ => Follows (s.effect (.message (.userExitRoomID m)))) (fun _ => True) True s := by
  rw [effect]
  rcases hr : s.room m.roomId with _ | r
  · rw [onFound_of_none hr, userExitRoomID, wp_forRoomUser, hr]
    exact h.follows.foundRoom _
  rw [onFound_of_room hr, exitRoom]
  rcases hp : (s.chatRooms r).userList.userInfoList.ptr m.userId with _ | p
  · rw [withRoom_self, userExitRoomID, wp_forRoomUser, hr]
    dsimp only
    split
    · trivial
    · rw [hp]
      exact h.follows.withRoom (h.known hr) ⟨rfl, rfl, fun _ => lookedUp_ptr .., fun _ => rfl⟩
  · by_cases hl : (s.chatRooms r).userList.locked
    · rw [userExitRoomID, wp_forRoomUser, hr]
      dsimp only
      rw [if_pos hl]
      trivial
    · refine wp_mono (exit_establishes (look_sameLists _).toWalkInvariant h hr (Bool.eq_false_of_not_eq_true hl) hp
        (fun j hj => ?_) ?_) (fun _ _ h => h.1) fun _ _ => trivial
      · rw [withRoom_other s hj]
        exact .rfl
      · rw [withRoom_same]
        exact .rfl

/-- What an event does to the lists of the rooms, if it is handled to the end. -/
theorem finish_effect (h : Rooms (fun _ _ => True) s) {e : Event} (ht : finish s e = some t) :
    Follows (s.effect e) t := by
  have hlook := (look_sameLists s.chatRooms).toWalkInvariant
  have hgift {r : RoomPtr} {room : ChatRoom} {u : Int} {p : Ptr} (redD : Int) (hroom : SameLists room (s.chatRooms r))
      (_ : room.userList.userInfoList.ptr u = some p) :
      SameLists (room.store p { room.records p with userRedD := redD }) (s.chatRooms r) :=
    (look_sameLists s.chatRooms).store _ _ hroom
  cases e with
  | connect hashKey userSock => exact finish_done (keeps_connect h.follows hashKey userSock).follows ht
  | disconnect hashKey => exact finish_done (keeps_disconnect h.follows hashKey).follows ht
  | message m =>
    cases m with
    | clientLoginRQ tmpPackage rq => exact finish_done (clientLoginRQ_effect h tmpPackage rq) ht
    | clientLoginRS rs => exact finish_done (clientLoginRS_effect h rs) ht
    | userExitRoomID m => exact finish_done (userExitRoomID_effect h m) ht
    | userApplyMicRQ rq =>
      refine finish_done (keeps_userApplyMicRQ hlook h.follows rq fun r p _ _ => ?_).follows ht
      exact wp_userApplyOneNewVideo_of fun n list => ⟨rfl, rfl, fun _ => rfl, fun _ => rfl⟩
    | userOffMicRQ rq =>
      exact finish_done (keeps_userOffMicRQ hlook h.follows rq fun r _ => ⟨rfl, rfl, fun _ => rfl, fun _ => rfl⟩).follows ht
    | cancleUserMicRQ rq =>
      have hsame := keeps_online hlook h.follows (.cancleUserMicRQ rq) trivial hgift (by simp) (by simp)
      exact finish_done hsame.follows ht
    | putUserOnMicRQ rq =>
      have hsame := keeps_online hlook h.follows (.putUserOnMicRQ rq) trivial hgift (by simp) (by simp)
      exact finish_done hsame.follows ht
    | userGiveGiftRQ tmpPackage rq => exact finish_done (keeps_userGiveGiftRQ hlook h.follows tmpPackage rq).follows ht
    | userSendMsgRQ rq => exact finish_done (keeps_userSendMsgRQ hlook h.follows rq).follows ht
    | userGiveGiftRS rs =>
      exact finish_done (keeps_userGiveGiftRS hlook h.follows rs fun hroom hp => hgift rs.senderRedD hroom hp).follows ht

/-! ## Runs in which no record is lost -/

/-- Every record of the room is unused, of a user in the room, or pending. -/
structure Conserved (room : ChatRoom) : Prop where
  accounted : stock room = (List.range' 0 100000 : List Ptr)
  preAccounted : room.preUserList.unusedUserInfoList = List.range' 100000 1000
  idle : room.userList.userInfoList.ptrs = [] → room.preUserList.userInfoList.ptrs = [] →
    room.userList.unusedUserInfoList.length = 100000 ∧ room.preUserList.unusedUserInfoList.length = 1000
  supplied : room.userList.userInfoList.ptrs.length + room.preUserList.userInfoList.ptrs.length < 100000 →
    room.userList.unusedUserInfoList ≠ []

theorem card_stock (room : ChatRoom) : (stock room).card = room.userList.unusedUserInfoList.length +
    room.userList.userInfoList.ptrs.length + room.preUserList.userInfoList.ptrs.length := by
  simp only [stock, Multiset.card_add, Multiset.coe_card]

theorem conserved_of_accounted {room : ChatRoom} (h : stock room = (List.range' 0 100000 : List Ptr))
    (hpre : room.preUserList.unusedUserInfoList = List.range' 100000 1000) : Conserved room := by
  have hcard := congrArg Multiset.card h
  rw [card_stock, Multiset.coe_card, List.length_range'] at hcard
  refine ⟨h, hpre, fun hon hpend => ⟨?_, ?_⟩, fun hlt e => ?_⟩
  · rw [hon, hpend, List.length_nil] at hcard
    exact hcard
  · rw [hpre, List.length_range']
  · rw [e, List.length_nil] at hcard
    omega

variable {room room' : ChatRoom}

/-- A room with as many records. -/
theorem Conserved.of_stock (hc : Conserved room) (h : stock room' = stock room)
    (hpre : room'.preUserList.unusedUserInfoList = room.preUserList.unusedUserInfoList) : Conserved room' :=
  conserved_of_accounted (h.trans hc.accounted) (hpre.trans hc.preAccounted)

/-- A room with fewer records. -/
theorem Conserved.not_of_card (hc : Conserved room) (h : (stock room').card < (stock room).card) :
    ¬ Conserved room' := fun hc' => by
  rw [hc.accounted, hc'.accounted] at h
  exact Nat.lt_irrefl _ h

theorem conserved_congr (h : SameLists room room') : Conserved room ↔ Conserved room' :=
  ⟨fun hc => hc.of_stock h.stock.symm h.preFree.symm, fun hc => hc.of_stock h.stock h.preFree⟩

theorem ptrs_empty : (StdMap.empty : StdMap (Option Ptr)).ptrs = [] := by
  rw [List.eq_nil_iff_forall_not_mem]
  intro p hp
  obtain ⟨k, hk⟩ := StdMap.mem_ptrs.mp hp
  rw [StdMap.ptr_empty] at hk
  cases hk

theorem conserved_new : Conserved .new := by
  refine conserved_of_accounted ?_ rfl
  have hstock : stock .new = ((List.range' 0 100000 : List Ptr) : Multiset Ptr) +
      (StdMap.empty : StdMap (Option Ptr)).ptrs + (StdMap.empty : StdMap (Option Ptr)).ptrs := rfl
  rw [hstock, ptrs_empty]
  simp

theorem conserved_requestRoom (hc : Conserved room) (tmpPackage : GateRoomServerPack) (rq : StruUserLoginRQ)
    (hf : room.userList.unusedUserInfoList ≠ []) :
    Conserved (requestRoom room tmpPackage rq) ↔ room.preUserList.userInfoList.ptr rq.userId = none := by
  refine ⟨fun h => Option.not_isSome_iff_eq_none.mp fun hu => ?_, fun hu => ?_⟩
  · exact hc.not_of_card (card_requestRoom tmpPackage rq hf hu) h
  · refine hc.of_stock (stock_requestRoom tmpPackage rq hu) ?_
    unfold requestRoom
    split
    · rfl
    · rfl

theorem conserved_replyRoom (hc : Conserved room) (rs : StruUserLoginRS) :
    Conserved (replyRoom room rs) ↔ room.preUserList.userInfoList.ptr rs.userId = none := by
  refine ⟨fun h => Option.not_isSome_iff_eq_none.mp fun hu => ?_, fun hu => ?_⟩
  · exact hc.not_of_card (card_replyRoom rs hu) h
  · rw [replyRoom, hu]
    exact hc

theorem conserved_exitRoom (hc : Conserved room) (u : Int) : Conserved (exitRoom room u) := by
  refine hc.of_stock (stock_exitRoom room u) ?_
  unfold exitRoom
  split
  · rfl
  · rfl

/-- No login request is for a user who is pending, and no reply for one whom it finds. -/
def Lossless (s : Server) : Event → Prop
  | .message (.clientLoginRQ _ rq) => ∀ r, s.room rq.roomId = some r →
      (s.chatRooms r).preUserList.userInfoList.ptr rq.userId = none
  | .message (.clientLoginRS rs) => ∀ r, s.room rs.roomId = some r →
      (s.chatRooms r).preUserList.userInfoList.ptr rs.userId = none
  | _ => True

theorem conserved_withRoom (hc : ∀ j, Conserved (s.chatRooms j)) (r : RoomPtr) (room : ChatRoom) :
    (∀ j, Conserved ((s.withRoom r room).chatRooms j)) ↔ Conserved room := by
  refine ⟨fun h => ?_, fun h j => ?_⟩
  · have hr := h r
    rw [withRoom_same] at hr
    exact hr
  · by_cases hj : j = r
    · rw [hj, withRoom_same]
      exact h
    · rw [withRoom_other s hj]
      exact hc j

theorem conserved_onFound (hc : ∀ j, Conserved (s.chatRooms j)) {roomId : Int} {f : ChatRoom → ChatRoom}
    {C : ChatRoom → Prop} (hf : ∀ room, Conserved room → (Conserved (f room) ↔ C room)) :
    (∀ j, Conserved ((s.onFound roomId f).chatRooms j)) ↔ ∀ r, s.room roomId = some r → C (s.chatRooms r) := by
  rcases hr : s.room roomId with _ | r
  · rw [onFound_of_none hr]
    exact iff_of_true hc nofun
  · rw [onFound_of_room hr, conserved_withRoom hc, hf _ (hc r)]
    simp

/-- A request that is handled to the end has taken a record. -/
theorem finish_took (h : Rooms (fun _ _ => True) s) {tmpPackage : GateRoomServerPack} {rq : StruUserLoginRQ}
    (ht : finish s (.message (.clientLoginRQ tmpPackage rq)) = some t) :
    ((s.entered rq.roomId).2.chatRooms (s.entered rq.roomId).1).userList.unusedUserInfoList ≠ [] := by
  refine finish_done (Q := fun _ => ((s.entered rq.roomId).2.chatRooms
    (s.entered rq.roomId).1).userList.unusedUserInfoList ≠ []) ?_ ht
  show wp (clientLoginRQ tmpPackage rq) _ _ _ _
  rw [wp_clientLoginRQ h.unused]
  dsimp only
  split
  · trivial
  · split
    · trivial
    · split
      · split
        · trivial
        · simp_all
      · trivial

theorem entered_conserved (hc : ∀ j, Conserved (s.chatRooms j)) (roomId : Int) (j : RoomPtr) :
    Conserved ((s.entered roomId).2.chatRooms j) := by
  unfold entered
  rcases s.room roomId with _ | r
  · by_cases hj : j = s.nextRoom
    · subst hj
      dsimp only
      rw [Function.update_self]
      exact conserved_new.of_stock rfl rfl
    · dsimp only
      rw [Function.update_of_ne hj]
      exact hc j
  · exact hc j

theorem effect_conserved (h : Rooms (fun _ _ => True) s) (hc : ∀ j, Conserved (s.chatRooms j)) {e : Event}
    (ht : finish s e = some t) : (∀ j, Conserved ((s.effect e).chatRooms j)) ↔ Lossless s e := by
  unfold effect
  split
  · rename_i tmpPackage rq
    have hc' := entered_conserved hc rq.roomId
    rw [conserved_withRoom hc', conserved_requestRoom (hc' _) tmpPackage rq (finish_took h ht), entered_pending]
    rfl
  · rename_i rs
    exact conserved_onFound hc fun room hroom => conserved_replyRoom hroom rs
  · rename_i m
    refine (conserved_onFound (C := fun _ => True) hc fun room hroom => ?_).trans ?_
    · exact iff_of_true (conserved_exitRoom hroom m.userId) trivial
    · simp [Lossless]
  · rename_i hrq hrs _
    refine iff_of_true hc ?_
    unfold Lossless
    split
    · exact absurd rfl (hrq _ _)
    · exact absurd rfl (hrs _)
    · trivial

/-- In a run whose events are all handled to the end, no record is lost exactly if no reply
finds its user, and no request is for a user who is pending. -/
theorem conserved_iff {es : List Event} (hrun : es.foldlM finish .new = some t) :
    Always finish (fun s => ∀ r, Conserved (s.chatRooms r)) .new es ↔
      ∀ x ∈ runSteps finish .new es, Lossless x.1 x.2 := by
  refine always_iff_steps (I := Rooms fun _ _ => True) (fun s e t h ht => ?_) (fun s e t h hc ht => ?_)
    (rooms_new fun _ => trivial) (fun _ => conserved_new) hrun
  · exact { finish_effect h ht with each := fun _ => trivial }
  · rw [← effect_conserved h hc ht]
    exact forall_congr' fun r => conserved_congr ((finish_effect h ht).each r)

theorem conserved_iff_request :
    ∃ t, [requestOf 5 7 1 2, .message (.userOffMicRQ ⟨1, 2⟩)].foldlM finish .new = some t ∧
      Always finish (fun s => ∀ r, Conserved (s.chatRooms r)) .new
        [requestOf 5 7 1 2, .message (.userOffMicRQ ⟨1, 2⟩)] := by
  have hfirst : (finish .new (requestOf 5 7 1 2)).isSome := by decide +kernel
  have hrun : ([requestOf 5 7 1 2, .message (.userOffMicRQ ⟨1, 2⟩)].foldlM finish .new).isSome := by decide +kernel
  obtain ⟨s, hs⟩ := Option.isSome_iff_exists.mp hfirst
  obtain ⟨t, ht⟩ := Option.isSome_iff_exists.mp hrun
  refine ⟨t, ht, (conserved_iff ht).mpr ?_⟩
  rw [runSteps_cons hs, List.forall_mem_cons]
  refine ⟨fun r hr => ?_, fun x hx => ?_⟩
  · simp [Server.room, Server.new] at hr
  · rw [List.mem_singleton.mp (snd_mem_of_runSteps hx)]
    trivial

/-- A user logs in and leaves: nobody is in the room or pending, and the list of the unused
records of `pre_user_list_` has one of `user_list_`. -/
theorem not_conserved_login : ∃ s, (firstLogin ++ [exitOf 1 2]).foldlM finish .new = some s ∧
    (s.chatRooms 0).userList.userInfoList.ptrs = [] ∧ (s.chatRooms 0).preUserList.userInfoList.ptrs = [] ∧
    (s.chatRooms 0).preUserList.unusedUserInfoList.length = 1001 ∧ ¬ Conserved (s.chatRooms 0) := by
  have hrun : ∃ s, s ∈ (firstLogin ++ [exitOf 1 2]).foldlM finish .new ∧
      (s.chatRooms 0).userList.userInfoList.ptrs = [] := by
    decide +kernel
  have hpending : ∀ s, s ∈ (firstLogin ++ [exitOf 1 2]).foldlM finish .new →
      (s.chatRooms 0).preUserList.userInfoList.ptrs = [] := by
    decide +kernel
  have hfree : ∀ s, s ∈ (firstLogin ++ [exitOf 1 2]).foldlM finish .new →
      (s.chatRooms 0).preUserList.unusedUserInfoList.length = 1001 := by
    decide +kernel
  obtain ⟨s, hs, hon⟩ := hrun
  have hpend := hpending s hs
  refine ⟨s, hs, hon, hpend, hfree s hs, fun hc => ?_⟩
  exact absurd ((hc.idle hon hpend).2.symm.trans (hfree s hs)) (by decide)

end Server

end Miku.RoomServer
