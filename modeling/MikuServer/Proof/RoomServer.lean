import MikuServer.Impl.RoomServer
import MikuServer.Proof.ChatRoom
import Mathlib.Data.List.TakeWhile

/-!
# What the server's functions do

A weakest precondition for the functions of the server, and for the loop over
the users of a room: it takes the users in the order of their ids, up to the
first entry that is `NULL` (`reached`), and gives the mutex back if there is no
such entry (`walked`). `forUsers_eq` says so for any body, and `wp_broadcast`
for `SendDataToRoomAllUser`.
-/

namespace Miku.RoomServer

open Act

variable {α β : Type} {B : Server → Prop} {F : Prop} {s : Server} {r : RoomPtr}

namespace Server

/-- The server with `room` in place of the room `r`. -/
def withRoom (s : Server) (r : RoomPtr) (room : ChatRoom) : Server :=
  { s with chatRooms := Function.update s.chatRooms r room }

@[simp] theorem withRoom_same (s : Server) (r : RoomPtr) (room : ChatRoom) : (s.withRoom r room).chatRooms r = room :=
  Function.update_self ..

theorem withRoom_other (s : Server) {r q : RoomPtr} (h : q ≠ r) (room : ChatRoom) :
    (s.withRoom r room).chatRooms q = s.chatRooms q :=
  Function.update_of_ne h ..

@[simp] theorem withRoom_withRoom (s : Server) (r : RoomPtr) (room room' : ChatRoom) :
    (s.withRoom r room).withRoom r room' = s.withRoom r room' := by
  simp [withRoom]

@[simp] theorem withRoom_self (s : Server) (r : RoomPtr) : s.withRoom r (s.chatRooms r) = s := by
  simp [withRoom]

@[simp] theorem withRoom_roomManager (s : Server) (r : RoomPtr) (room : ChatRoom) :
    (s.withRoom r room).roomManager = s.roomManager := rfl

@[simp] theorem withRoom_sent (s : Server) (r : RoomPtr) (room : ChatRoom) : (s.withRoom r room).sent = s.sent := rfl

/-- The room that `GetRoom(roomId)` finds. -/
def room (s : Server) (roomId : Int) : Option RoomPtr := s.roomManager.roomList.ptr roomId

/-- The gate that `GetUserByHashkey(hashKey)` finds. -/
def gate (s : Server) (hashKey : Int) : Option BaseUserInfo := s.clientList.ptr hashKey

/-- The server after `GetRoom(roomId)`. -/
def foundRoom (s : Server) (roomId : Int) : Server :=
  { s with roomManager := { s.roomManager with roomList := s.roomManager.roomList.subscript roomId none } }

/-- The server after `GetUserByHashkey(hashKey)`. -/
def foundGate (s : Server) (hashKey : Int) : Server :=
  { s with clientList := s.clientList.subscript hashKey none }

theorem foundRoom_of_room {roomId : Int} (h : s.room roomId = some r) : s.foundRoom roomId = s := by
  rw [foundRoom, StdMap.subscript_of_ptr h]

@[simp] theorem foundRoom_room (s : Server) (roomId j : Int) : (s.foundRoom roomId).room j = s.room j :=
  StdMap.ptr_subscript ..

@[simp] theorem foundGate_gate (s : Server) (hashKey j : Int) : (s.foundGate hashKey).gate j = s.gate j :=
  StdMap.ptr_subscript ..

@[simp] theorem foundGate_chatRooms (s : Server) (hashKey : Int) : (s.foundGate hashKey).chatRooms = s.chatRooms := rfl

@[simp] theorem withRoom_gate (s : Server) (r : RoomPtr) (room : ChatRoom) (hashKey : Int) :
    (s.withRoom r room).gate hashKey = s.gate hashKey := rfl

@[simp] theorem wp_onRoom {x : Act ChatRoom α} {Q : α → Server → Prop} :
    wp (onRoom r x) Q B F s ↔
      wp x (fun a room => Q a (s.withRoom r room)) (fun room => B (s.withRoom r room)) F (s.chatRooms r) :=
  wp_zoom

@[simp] theorem wp_getRoom {roomId : Int} {Q : Option RoomPtr → Server → Prop} :
    wp (getRoom roomId) Q B F s ↔ Q (s.room roomId) (s.foundRoom roomId) := Iff.rfl

@[simp] theorem wp_getUserByHashkey {hashKey : Int} {Q : Option BaseUserInfo → Server → Prop} :
    wp (getUserByHashkey hashKey) Q B F s ↔ Q (s.gate hashKey) (s.foundGate hashKey) := Iff.rfl

@[simp] theorem wp_send {m : Sent} {Q : Unit → Server → Prop} :
    wp (send m) Q B F s ↔ Q () { s with sent := s.sent ++ [m] } := Iff.rfl

@[simp] theorem wp_record {p : Ptr} {Q : UserInfo → Server → Prop} :
    wp (record r p) Q B F s ↔ Q ((s.chatRooms r).records p) s := Iff.rfl

end Server

/-! ## The users of a room -/

namespace UserInfoList

/-- The users a loop takes. -/
def reached (l : UserInfoList) : List Ptr := (l.userInfoList.values.takeWhile Option.isSome).reduceOption

/-- The list during a loop. -/
def walking (l : UserInfoList) (i : Nat) : UserInfoList := { l with locked := true, listIter := i }

/-- The list after a loop. -/
def walked (l : UserInfoList) : UserInfoList :=
  if l.userInfoList.values = [] then l
  else if none ∈ l.userInfoList.values then l.walking (l.userInfoList.values.takeWhile Option.isSome).length
  else { l with locked := false, listIter := l.userInfoList.values.length }

end UserInfoList

namespace Server

open UserInfoList

/-- The server with `l` as `user_list_` of the room `r`. -/
def withList (s : Server) (r : RoomPtr) (l : UserInfoList) : Server :=
  s.withRoom r { s.chatRooms r with userList := l }

/-- A turn `body` of a loop over the users of `r`, whose list is `l`, does `f`. -/
structure Turns (r : RoomPtr) (l : UserInfoList) (body : Ptr → β → Act Server β)
    (f : Ptr → β × Server → Option (β × Server)) : Prop where
  eq (p : Ptr) (b : β) (s : Server) (i : Nat) : (s.chatRooms r).userList = l →
    body p b (s.withList r (l.walking i)) =
      match f p (b, s) with
      | none => .fault
      | some t => .done t.1 (t.2.withList r (l.walking i))
  keep {p : Ptr} {b : β} {s : Server} {t : β × Server} : (s.chatRooms r).userList = l → f p (b, s) = some t →
    (t.2.chatRooms r).userList = l

@[simp] theorem withList_withList (s : Server) (r : RoomPtr) (l l' : UserInfoList) :
    (s.withList r l).withList r l' = s.withList r l' := by
  simp [withList]

variable {l : UserInfoList} {body : Ptr → β → Act Server β} {f : Ptr → β × Server → Option (β × Server)}

/-- The list after the loop has taken the last of `rest`. -/
def ended (l : UserInfoList) (i : Nat) (rest : List (Option Ptr)) : UserInfoList :=
  if none ∈ rest then l.walking (i + (rest.takeWhile Option.isSome).length)
  else { l with locked := false, listIter := l.userInfoList.values.length }

theorem ended_some (l : UserInfoList) (i : Nat) (p : Ptr) (rest : List (Option Ptr)) :
    ended l i (some p :: rest) = ended l (i + 1) rest := by
  simp [ended, Nat.add_assoc, Nat.add_comm 1]

theorem getNextUser_eq (s : Server) (r : RoomPtr) (l : UserInfoList) (i : Nat) :
    onRoom r (ChatRoom.onUserList getNextUser) (s.withList r (l.walking i)) =
      match l.userInfoList.values[i + 1]? with
      | none => .done none (s.withList r { l with locked := false, listIter := i + 1 })
      | some v => .done v (s.withList r (l.walking (i + 1))) := by
  rcases h : l.userInfoList.values[i + 1]? with _ | v <;>
    simp [onRoom, ChatRoom.onUserList, zoom, getNextUser, walking, h, withList, withRoom]

theorem Turns.whileSome_eq (h : Turns r l body f) {rest : List (Option Ptr)} :
    ∀ {i p b s fuel}, (s.chatRooms r).userList = l → l.userInfoList.values.drop i = some p :: rest →
      rest.length < fuel →
      whileSome body (onRoom r (ChatRoom.onUserList getNextUser)) fuel p b (s.withList r (l.walking i)) =
        match (p :: (rest.takeWhile Option.isSome).reduceOption).foldlM (fun t p => f p t) (b, s) with
        | none => .fault
        | some t => .done t.1 (t.2.withList r (ended l (i + 1) rest)) := by
  induction rest with
  | nil =>
    intro i p b s fuel hs hd hf
    obtain ⟨n, rfl⟩ : ∃ n, fuel = n + 1 := ⟨fuel - 1, by simp only [List.length_nil] at hf; omega⟩
    have hlen : l.userInfoList.values.length = i + 1 := by
      have := congrArg List.length hd
      simp only [List.length_drop, List.length_cons, List.length_nil] at this
      omega
    have hn : l.userInfoList.values[i + 1]? = none := by rw [List.getElem?_eq_none_iff]; omega
    have hb := h.eq p b s i hs
    rcases hfp : f p (b, s) with _ | t <;> rw [hfp] at hb
    · simp [whileSome, bind_fault hb, hfp]
    · have hnext := getNextUser_eq t.2 r l i
      rw [hn] at hnext
      simp [whileSome, bind_done hb, bind_done hnext, hfp, ended, hlen]
  | cons v rest ih =>
    intro i p b s fuel hs hd hf
    obtain ⟨n, rfl⟩ : ∃ n, fuel = n + 1 := ⟨fuel - 1, by simp only [List.length_cons] at hf; omega⟩
    have hd' : l.userInfoList.values.drop (i + 1) = v :: rest := by
      rw [← List.tail_drop, hd, List.tail_cons]
    have hn : l.userInfoList.values[i + 1]? = some v := by
      rw [← List.head?_drop, hd', List.head?_cons]
    have hb := h.eq p b s i hs
    rcases hfp : f p (b, s) with _ | t <;> rw [hfp] at hb
    · simp [whileSome, bind_fault hb, hfp]
    · have hnext := getNextUser_eq t.2 r l i
      rw [hn] at hnext
      rw [whileSome, bind_done hb, bind_done hnext]
      rcases v with _ | q
      · simp [hfp, ended]
      · have hq := ih (p := q) (b := t.1) (h.keep hs hfp) hd' (Nat.lt_of_succ_lt_succ hf)
        show whileSome body _ n q t.1 (t.2.withList r (l.walking (i + 1))) = _
        rw [hq, ended_some]
        simp [hfp]

theorem walked_cons {p : Ptr} {rest : List (Option Ptr)} (hv : l.userInfoList.values = some p :: rest) :
    l.walked = ended l 1 rest := by
  simp [walked, ended, hv, Nat.add_comm 1]

/-- A loop over the users of a room. -/
theorem Turns.forUsers_eq (h : Turns r l body f) (hs : (s.chatRooms r).userList = l) {p : Ptr}
    {rest : List (Option Ptr)} (hv : l.userInfoList.values = some p :: rest) (b : β) :
    forUsers r body p b (s.withList r (l.walking 0)) =
      match l.reached.foldlM (fun t p => f p t) (b, s) with
      | none => .fault
      | some t => .done t.1 (t.2.withList r l.walked) := by
  have hd : l.userInfoList.values.drop 0 = some p :: rest := hv
  have hc : ((s.withList r (l.walking 0)).chatRooms r).userList.userInfoList.values.length = rest.length + 1 := by
    simp [withList, walking, hv]
  have hr : l.reached = p :: (rest.takeWhile Option.isSome).reduceOption := by simp [reached, hv]
  rw [forUsers, read_bind, hc, h.whileSome_eq hs hd (Nat.lt_succ_self _), walked_cons hv, hr]

/-! ## `SendDataToRoomAllUser` -/

variable {pack : Pack} {msgId : EnumMsgID} {roomId : Int}

/-- What a user of the room `r` is sent. -/
def toUser (s : Server) (r : RoomPtr) (pack : Pack) (msgId : EnumMsgID) (p : Ptr) : Option Sent :=
  let info := (s.chatRooms r).records p
  (s.gate info.gsHashkeyUserOn).map fun gs => .gate gs pack msgId info.userHashKey

/-- The server after a user's turn. -/
def sentTo (r : RoomPtr) (pack : Pack) (msgId : EnumMsgID) (s : Server) (p : Ptr) : Server :=
  { s.foundGate ((s.chatRooms r).records p).gsHashkeyUserOn with sent := s.sent ++ (s.toUser r pack msgId p).toList }

theorem sendToUser_eq (s : Server) (r : RoomPtr) (pack : Pack) (msgId : EnumMsgID) (p : Ptr) :
    sendToUser r pack msgId p s = .done () (sentTo r pack msgId s p) := by
  rw [sendToUser, record, read_bind, getUserByHashkey, ofFun_bind]
  rcases h : s.gate ((s.chatRooms r).records p).gsHashkeyUserOn with _ | gs
  · simp [gate] at h
    simp [sentTo, toUser, gate, h, foundGate]
  · simp [gate] at h
    simp [sentTo, toUser, gate, h, foundGate, send, Act.modify]

theorem sentTo_withList (s : Server) (p : Ptr) (l : UserInfoList) :
    sentTo r pack msgId (s.withList r l) p = (sentTo r pack msgId s p).withList r l := by
  simp [sentTo, toUser, withList, withRoom, gate, foundGate]

theorem sendToUser_turns (r : RoomPtr) (l : UserInfoList) (pack : Pack) (msgId : EnumMsgID) :
    Turns r l (fun user (_ : Unit) => sendToUser r pack msgId user)
      fun p t => some ((), sentTo r pack msgId t.2 p) where
  eq p b s i _ := by rw [sendToUser_eq, sentTo_withList]
  keep hs h := by
    cases h
    exact hs

/-- The server after `SendDataToRoomAllUser` has gone through the users of `r`. -/
def broadcasted (s : Server) (r : RoomPtr) (pack : Pack) (msgId : EnumMsgID) : Server :=
  ((s.chatRooms r).userList.reached.foldl (sentTo r pack msgId) s).withList r (s.chatRooms r).userList.walked

theorem foldlM_sent (r : RoomPtr) (ps : List Ptr) (s : Server) :
    ps.foldlM (fun (t : Unit × Server) p => some ((), sentTo r pack msgId t.2 p)) ((), s) =
      some ((), ps.foldl (sentTo r pack msgId) s) := by
  induction ps generalizing s with
  | nil => rfl
  | cons p ps ih => exact ih _

theorem wp_broadcast {Q : Bool → Server → Prop} :
    wp (sendDataToRoomAllUser pack msgId roomId) Q B F s ↔
      if roomId = 0 then Q true s else match s.room roomId with
        | none => Q false (s.foundRoom roomId)
        | some r => if (s.chatRooms r).userList.locked then B s else
          Q ((s.chatRooms r).userList.userInfoList.values.head?.join).isSome (s.broadcasted r pack msgId) := by
  rw [sendDataToRoomAllUser]
  split
  · rfl
  rw [wp_bind, wp_getRoom]
  rcases hr : s.room roomId with _ | r
  · rfl
  rw [foundRoom_of_room hr]
  simp only [wp_bind, wp_onRoom, ChatRoom.wp_onUserList, wp_getFirstUser]
  split
  · exact Iff.rfl.trans (by rw [withRoom_self])
  rcases hv : (s.chatRooms r).userList.userInfoList.values with _ | ⟨_ | p, rest⟩
  · simp [broadcasted, walked, reached, hv, withList]
  · simp [broadcasted, walked, reached, hv, withList, walking]
  · have hf := (sendToUser_turns r (s.chatRooms r).userList pack msgId).forUsers_eq rfl hv ()
    rw [foldlM_sent] at hf
    exact (wp_bind _ _).trans (wp_done hf)

theorem sentTo_toUser (s : Server) (p : Ptr) : (sentTo r pack msgId s p).toUser r pack msgId = s.toUser r pack msgId := by
  funext q
  simp [toUser, sentTo, gate, foundGate]

theorem foldl_sentTo (r : RoomPtr) (pack : Pack) (msgId : EnumMsgID) (ps : List Ptr) (s : Server) :
    (ps.foldl (sentTo r pack msgId) s).chatRooms = s.chatRooms ∧
      (ps.foldl (sentTo r pack msgId) s).roomManager = s.roomManager ∧
      (ps.foldl (sentTo r pack msgId) s).nextRoom = s.nextRoom ∧
      (∀ h, (ps.foldl (sentTo r pack msgId) s).gate h = s.gate h) ∧
      (ps.foldl (sentTo r pack msgId) s).sent = s.sent ++ ps.filterMap (s.toUser r pack msgId) := by
  induction ps generalizing s with
  | nil => simp
  | cons p ps ih =>
    obtain ⟨h1, h2, h3, h4, h5⟩ := ih (sentTo r pack msgId s p)
    refine ⟨h1, h2, h3, fun h => (h4 h).trans (foundGate_gate ..), ?_⟩
    rw [List.foldl_cons, h5, sentTo_toUser, List.filterMap_cons]
    rcases ht : s.toUser r pack msgId p with _ | m <;> simp [sentTo, ht]

theorem broadcasted_chatRooms (s : Server) (r : RoomPtr) (pack : Pack) (msgId : EnumMsgID) :
    (s.broadcasted r pack msgId).chatRooms = (s.withList r (s.chatRooms r).userList.walked).chatRooms := by
  simp [broadcasted, withList, withRoom, (foldl_sentTo r pack msgId _ s).1]

@[simp] theorem broadcasted_room (s : Server) (r : RoomPtr) (pack : Pack) (msgId : EnumMsgID) (j : Int) :
    (s.broadcasted r pack msgId).room j = s.room j := by
  simp [broadcasted, withList, room, (foldl_sentTo r pack msgId _ s).2.1]

@[simp] theorem broadcasted_gate (s : Server) (r : RoomPtr) (pack : Pack) (msgId : EnumMsgID) (h : Int) :
    (s.broadcasted r pack msgId).gate h = s.gate h :=
  (foldl_sentTo r pack msgId _ s).2.2.2.1 h

@[simp] theorem broadcasted_sent (s : Server) (r : RoomPtr) (pack : Pack) (msgId : EnumMsgID) :
    (s.broadcasted r pack msgId).sent =
      s.sent ++ (s.chatRooms r).userList.reached.filterMap (s.toUser r pack msgId) :=
  (foldl_sentTo r pack msgId _ s).2.2.2.2

/-! ## Lists without a `NULL` entry -/

theorem reached_of_full (h : ¬ none ∈ l.userInfoList.values) : l.reached = l.userInfoList.ptrs := by
  have hall : ∀ v ∈ l.userInfoList.values, v.isSome := fun v hv => by
    rcases v with _ | p
    · exact absurd hv h
    · rfl
  rw [reached, StdMap.ptrs, List.takeWhile_eq_self_iff.mpr hall]

@[simp] theorem walked_userInfoList (l : UserInfoList) : l.walked.userInfoList = l.userInfoList := by
  unfold walked
  split
  · rfl
  · split <;> rfl

@[simp] theorem walked_unusedUserInfoList (l : UserInfoList) :
    l.walked.unusedUserInfoList = l.unusedUserInfoList := by
  unfold walked
  split
  · rfl
  · split <;> rfl

theorem walked_locked (hl : l.locked = false) : l.walked.locked = true ↔ none ∈ l.userInfoList.values := by
  unfold walked
  split
  · simp_all
  · split <;> simp_all [walking]

end Server

end Miku.RoomServer
