import MikuServer.Framework.Loop
import MikuServer.Proof.RoomCommands

/-!
# Invariants of the rooms

`Rooms P s` says that the rooms of the server are distinct and that each
satisfies `P`. `RoomInvariant P` is what the functions that every command uses
have to keep; from it, `P` is kept by the parts of the commands, and by each
command with what it needs besides (`keeps_*`). `Reachable` are the states that
runs of events reach.
-/

namespace Miku.RoomServer

open Act UserInfoList ChatRoom

/-- What looking up and a loop over the users keep. -/
structure WalkInvariant (P : RoomPtr → ChatRoom → Prop) : Prop where
  lookedUp {r : RoomPtr} {room : ChatRoom} (u : Int) : P r room → room.userList.locked = false →
    P r { room with userList := lookedUp room.userList u }
  walked {r : RoomPtr} {room : ChatRoom} : P r room → room.userList.locked = false →
    P r { room with userList := room.userList.walked }

/-- What a new value in a record keeps besides. -/
structure LookInvariant (P : RoomPtr → ChatRoom → Prop) : Prop extends WalkInvariant P where
  store {r : RoomPtr} {room : ChatRoom} (p : Ptr) (info : UserInfo) : P r room → P r (room.store p info)

/-- What taking a record and a pending login keep besides. -/
structure RoomInvariant (P : RoomPtr → ChatRoom → Prop) : Prop extends LookInvariant P where
  ids {r : RoomPtr} {room : ChatRoom} (roomId sock : Int) : P r room → P r { room with roomId := roomId, sock := sock }
  took {r : RoomPtr} {room : ChatRoom} {p : Ptr} {rest : List Ptr} : P r room → room.userList.locked = false →
    room.userList.unusedUserInfoList = p :: rest → P r (room.took p rest)
  pre {r : RoomPtr} {room : ChatRoom} (list : UserInfoList) : P r room → P r { room with preUserList := list }

namespace Server

/-- The rooms of the server are distinct, and each satisfies `P`. -/
structure Rooms (P : RoomPtr → ChatRoom → Prop) (s : Server) : Prop where
  unused : s.roomManager.unusedRoomList = []
  known {roomId : Int} {r : RoomPtr} : s.room roomId = some r → r < s.nextRoom
  inj {i j : Int} {r : RoomPtr} : s.room i = some r → s.room j = some r → i = j
  fresh {r : RoomPtr} : s.nextRoom ≤ r → s.chatRooms r = .new
  each (r : RoomPtr) : P r (s.chatRooms r)

variable {P P' : RoomPtr → ChatRoom → Prop} {s t : Server} {r : RoomPtr} {room : ChatRoom}

theorem rooms_new (h : ∀ r, P r .new) : Rooms P .new where
  unused := rfl
  known h := by simp [Server.room, Server.new] at h
  inj h := by simp [Server.room, Server.new] at h
  fresh _ := rfl
  each := h

/-- A server with the same rooms. -/
theorem Rooms.congr (h : Rooms P s) (hu : t.roomManager.unusedRoomList = s.roomManager.unusedRoomList)
    (hr : ∀ j, t.room j = s.room j) (hn : t.nextRoom = s.nextRoom) (hc : t.chatRooms = s.chatRooms) : Rooms P t where
  unused := hu.trans h.unused
  known e := hn ▸ h.known ((hr _).symm.trans e)
  inj e e' := h.inj ((hr _).symm.trans e) ((hr _).symm.trans e')
  fresh e := hc ▸ h.fresh (hn ▸ e)
  each r := hc ▸ h.each r

theorem Rooms.foundRoom (h : Rooms P s) (roomId : Int) : Rooms P (s.foundRoom roomId) :=
  h.congr rfl (foundRoom_room s roomId) rfl rfl

theorem Rooms.foundGate (h : Rooms P s) (hashKey : Int) : Rooms P (s.foundGate hashKey) :=
  h.congr rfl (fun _ => rfl) rfl rfl

theorem Rooms.sent (h : Rooms P s) (ms : List Sent) : Rooms P { s with sent := ms } :=
  h.congr rfl (fun _ => rfl) rfl rfl

theorem Rooms.replied (h : Rooms P s) (r : RoomPtr) (rs : StruUserLoginRS) (p : Ptr) : Rooms P (s.replied r rs p) :=
  h.congr rfl (fun _ => rfl) rfl rfl

/-- The rooms when `r` is changed, where the others satisfy `P` already. -/
theorem Rooms.establish {P₀ : RoomPtr → ChatRoom → Prop} (h : Rooms P₀ s) (hr : r < s.nextRoom)
    (ho : ∀ q ≠ r, P q (s.chatRooms q)) (hp : P r room) : Rooms P (s.withRoom r room) where
  unused := h.unused
  known := h.known
  inj := h.inj
  fresh {q} e := by
    have hne : q ≠ r := Nat.ne_of_gt (Nat.lt_of_lt_of_le hr e)
    rw [withRoom_other s hne]
    exact h.fresh e
  each q := by
    by_cases e : q = r
    · rw [e, withRoom_same]
      exact hp
    · rw [withRoom_other s e]
      exact ho q e

theorem Rooms.withRoom (h : Rooms P s) (hr : r < s.nextRoom) (hp : P r room) : Rooms P (s.withRoom r room) :=
  h.establish hr (fun q _ => h.each q) hp

theorem Rooms.broadcasted (h : Rooms P s) (hP : WalkInvariant P) (hr : r < s.nextRoom)
    (hl : (s.chatRooms r).userList.locked = false) (pack : Pack) (msgId : EnumMsgID) :
    Rooms P (s.broadcasted r pack msgId) := by
  have hf := foldl_sentTo r pack msgId (s.chatRooms r).userList.reached s
  have hw : Rooms P (s.withList r (s.chatRooms r).userList.walked) := h.withRoom hr (hP.walked (h.each r) hl)
  exact hw.congr (congrArg RoomManager.unusedRoomList hf.2.1) (fun j => broadcasted_room s r pack msgId j) hf.2.2.1
    (broadcasted_chatRooms s r pack msgId)

theorem Rooms.entered (h : Rooms P s) (hids : ∀ {r : RoomPtr} {room : ChatRoom} (roomId sock : Int), P r room →
    P r { room with roomId := roomId, sock := sock }) (roomId : Int) :
    Rooms P (s.entered roomId).2 ∧ (s.entered roomId).1 < (s.entered roomId).2.nextRoom := by
  unfold Server.entered
  rcases hr : s.room roomId with _ | r
  · refine ⟨⟨h.unused, ?_, ?_, ?_, ?_⟩, Nat.lt_succ_self _⟩
    · intro j q e
      simp only [Server.room, StdMap.ptr_assign] at e
      split at e
      · cases e
        exact Nat.lt_succ_self _
      · exact Nat.lt_succ_of_lt (h.known e)
    · intro i j q e e'
      simp only [Server.room, StdMap.ptr_assign] at e e'
      split at e <;> split at e'
      · omega
      · cases e
        exact absurd (h.known e') (Nat.lt_irrefl _)
      · cases e'
        exact absurd (h.known e) (Nat.lt_irrefl _)
      · exact h.inj e e'
    · intro q e
      have hne : q ≠ s.nextRoom := Nat.ne_of_gt e
      exact (Function.update_of_ne hne ..).trans (h.fresh (Nat.le_of_lt e))
    · intro q
      by_cases e : q = s.nextRoom
      · have hnew : P q .new := e ▸ h.fresh (Nat.le_refl _) ▸ h.each s.nextRoom
        subst e
        dsimp only
        rw [Function.update_self]
        exact hids roomId (-1) hnew
      · dsimp only
        rw [Function.update_of_ne e]
        exact h.each q
  · exact ⟨h, h.known hr⟩

@[simp] theorem broadcasted_nextRoom (s : Server) (r : RoomPtr) (pack : Pack) (msgId : EnumMsgID) :
    (s.broadcasted r pack msgId).nextRoom = s.nextRoom :=
  (foldl_sentTo r pack msgId _ s).2.2.1

theorem entered_nextRoom (s : Server) (roomId : Int) : s.nextRoom ≤ (s.entered roomId).2.nextRoom := by
  unfold Server.entered
  split
  · exact Nat.le_refl _
  · exact Nat.le_succ _

theorem entered_self (s : Server) (roomId : Int) : (s.entered roomId).2.room roomId = some (s.entered roomId).1 := by
  unfold Server.entered
  rcases hr : s.room roomId with _ | r
  · exact (StdMap.ptr_assign ..).trans (if_pos rfl)
  · exact hr

theorem entered_pending (s : Server) (roomId u : Int) :
    ((s.entered roomId).2.chatRooms (s.entered roomId).1).preUserList.userInfoList.ptr u = none ↔
      ∀ r, s.room roomId = some r → (s.chatRooms r).preUserList.userInfoList.ptr u = none := by
  unfold Server.entered
  rcases hr : s.room roomId with _ | r
  · exact iff_of_true (by simp [createdRoom, ChatRoom.new, initUserList]) nofun
  · simp

/-! ## The commands -/

/-- Whatever the outcome of `x`, the rooms satisfy `P` again. -/
def KeepsRooms (P : RoomPtr → ChatRoom → Prop) {α : Type} (x : Act Server α) (s : Server) : Prop :=
  wp x (fun _ t => Rooms P t ∧ s.nextRoom ≤ t.nextRoom) (Rooms P) True s

theorem keeps_broadcast (hP : WalkInvariant P) (h : Rooms P s) (pack : Pack) (msgId : EnumMsgID) (roomId : Int) :
    KeepsRooms P (sendDataToRoomAllUser pack msgId roomId) s := by
  rw [KeepsRooms, wp_broadcast]
  split
  · exact ⟨h, Nat.le_refl _⟩
  rcases hr : s.room roomId with _ | r
  · exact ⟨h.foundRoom roomId, Nat.le_refl _⟩
  dsimp only
  split <;> rename_i hl
  · exact h
  · refine ⟨h.broadcasted hP (h.known hr) (Bool.eq_false_of_not_eq_true hl) pack msgId, ?_⟩
    rw [broadcasted_nextRoom]

/-- Two actions of which each keeps the rooms. -/
theorem KeepsRooms.bind {α β : Type} {x : Act Server α} {f : α → Act Server β} (hx : KeepsRooms P x s)
    (hf : ∀ a t, Rooms P t → s.nextRoom ≤ t.nextRoom → KeepsRooms P (f a) t) : KeepsRooms P (x >>= f) s := by
  rw [KeepsRooms, wp_bind]
  refine wp_mono hx (fun a t ⟨ht, hn⟩ => ?_) fun _ h => h
  exact wp_mono (hf a t ht hn) (fun _ _ ⟨h1, h2⟩ => ⟨h1, Nat.le_trans hn h2⟩) fun _ h => h

/-- A broadcast to the room `r` under its own id. -/
theorem keeps_roomBroadcast (hP : WalkInvariant P) (h : Rooms P s) (r : RoomPtr) (pack : Pack) (msgId : EnumMsgID) :
    KeepsRooms P (do let roomId ← getRoomID r; let _ ← sendDataToRoomAllUser pack msgId roomId) s := by
  refine KeepsRooms.bind (x := getRoomID r) ⟨h, Nat.le_refl _⟩ fun roomId t ht _ => ?_
  exact (keeps_broadcast hP ht pack msgId roomId).bind fun _ _ ht _ => ⟨ht, Nat.le_refl _⟩

/-- The rooms are kept by a command on a user of a room, if they are by what it does for a user that is there. -/
theorem keeps_forRoomUser (hP : WalkInvariant P) (h : Rooms P s) {roomId u : Int}
    {body : RoomPtr → Ptr → Act Server Unit}
    (hb : ∀ r p, s.room roomId = some r → (s.chatRooms r).userList.locked = false →
      (s.chatRooms r).userList.userInfoList.ptr u = some p → KeepsRooms P (body r p) s) :
    KeepsRooms P (forRoomUser roomId u body) s := by
  rw [KeepsRooms, wp_forRoomUser]
  rcases hr : s.room roomId with _ | r
  · exact ⟨h.foundRoom roomId, Nat.le_refl _⟩
  dsimp only
  split <;> rename_i hl
  · exact h
  have hl' := Bool.eq_false_of_not_eq_true hl
  rcases hp : (s.chatRooms r).userList.userInfoList.ptr u with _ | p
  · exact ⟨h.withRoom (h.known hr) (hP.lookedUp u (h.each r) hl'), Nat.le_refl _⟩
  · exact hb r p hr hl' hp

/-- A login request, from what it does to its room. -/
theorem keeps_loginRequest (h : Rooms P s) (hids : ∀ {r : RoomPtr} {room : ChatRoom} (roomId sock : Int), P r room →
    P r { room with roomId := roomId, sock := sock }) (tmpPackage : GateRoomServerPack) (rq : StruUserLoginRQ)
    (hfilled : ∀ {r : RoomPtr} {room : ChatRoom} {p : Ptr} {rest : List Ptr}, P r room →
      room.userList.locked = false → room.userList.unusedUserInfoList = p :: rest →
      P r (filled room tmpPackage rq p rest))
    (hrequested : ∀ {r : RoomPtr} {room : ChatRoom} {p : Ptr} {rest : List Ptr}, P r room →
      room.userList.locked = false → room.userList.unusedUserInfoList = p :: rest →
      P r (requested room tmpPackage rq p rest)) : KeepsRooms P (clientLoginRQ tmpPackage rq) s := by
  rw [KeepsRooms, wp_clientLoginRQ h.unused]
  obtain ⟨he, hr⟩ := h.entered hids rq.roomId
  have hn := entered_nextRoom s rq.roomId
  generalize s.entered rq.roomId = e at he hr hn ⊢
  obtain ⟨r, t⟩ := e
  dsimp only at he hr hn ⊢
  split <;> rename_i hl
  · exact he
  have hl' := Bool.eq_false_of_not_eq_true hl
  rcases hq : (t.chatRooms r).userList.unusedUserInfoList with _ | ⟨p, rest⟩
  · trivial
  dsimp only
  split
  · split
    · exact he.withRoom hr (hfilled (he.each r) hl' hq)
    · exact ⟨(he.withRoom hr (hrequested (he.each r) hl' hq)).sent _, hn⟩
  · trivial

theorem keeps_clientLoginRQ (hP : RoomInvariant P) (h : Rooms P s) (tmpPackage : GateRoomServerPack)
    (rq : StruUserLoginRQ) : KeepsRooms P (clientLoginRQ tmpPackage rq) s := by
  have hfilled {r : RoomPtr} {room : ChatRoom} {p : Ptr} {rest : List Ptr} (hroom : P r room)
      (hl : room.userList.locked = false) (hq : room.userList.unusedUserInfoList = p :: rest) :
      P r (filled room tmpPackage rq p rest) :=
    hP.store _ _ (hP.took hroom hl hq)
  exact keeps_loginRequest h hP.ids tmpPackage rq hfilled fun hroom hl hq => hP.pre _ (hfilled hroom hl hq)

theorem keeps_sendUserList (hP : WalkInvariant P) (h : Rooms P s) (hr : r < s.nextRoom) (rs : StruUserLoginRS)
    (gs : Option BaseUserInfo) (cur : Ptr) : KeepsRooms P (sendUserList r rs gs cur) s := by
  rw [KeepsRooms, wp_sendUserList]
  split <;> rename_i hl
  · exact h
  have hw : Rooms P (s.withList r (s.chatRooms r).userList.walked) :=
    h.withRoom hr (hP.walked (h.each r) (Bool.eq_false_of_not_eq_true hl))
  rcases (s.chatRooms r).userList.userInfoList.values.head?.join with _ | v
  · exact ⟨hw, Nat.le_refl _⟩
  · rcases gs with _ | g
    · trivial
    · exact ⟨hw.sent _, Nat.le_refl _⟩

theorem micsLookedUp_keeps (hP : WalkInvariant P) {l : UserInfoList} (hl : l.locked = false)
    (h : P r { room with userList := l }) (mics : List (Int × List Byte)) :
    P r { room with userList := micsLookedUp l mics } := by
  induction mics generalizing l with
  | nil => exact h
  | cons mic mics ih =>
    apply ih
    · exact hl
    · exact hP.lookedUp mic.1 h hl

theorem keeps_sendMicList (hP : WalkInvariant P) (h : Rooms P s) (hr : r < s.nextRoom) (gs : Option BaseUserInfo)
    (cur : Option Ptr) : KeepsRooms P (sendMicList r gs cur) s := by
  rw [KeepsRooms, wp_sendMicList]
  split
  · exact ⟨h, Nat.le_refl _⟩
  rcases cur with _ | cur
  · trivial
  dsimp only
  split <;> rename_i hl
  · exact h
  rcases gs with _ | g
  · trivial
  · have hm := micsLookedUp_keeps hP (Bool.eq_false_of_not_eq_true hl) (h.each r)
      (s.chatRooms r).videoChannelList.toList
    exact ⟨(h.withRoom hr hm).sent _, Nat.le_refl _⟩

/-- The room after `RemovePreUser(u)`. -/
def endedLogin (room : ChatRoom) (u : Int) : ChatRoom :=
  { room with preUserList := match room.preUserList.userInfoList.ptr u with
    | none => lookedUp room.preUserList u
    | some p => released room.preUserList u p }

theorem wp_removePreUser_ended {B : ChatRoom → Prop} {F : Prop} {Q : Unit → ChatRoom → Prop} {u : Int} :
    wp (removePreUser u) Q B F room ↔ if room.preUserList.locked then B room else Q () (endedLogin room u) := by
  rw [wp_removePreUser, endedLogin]
  split
  · rfl
  · cases room.preUserList.userInfoList.ptr u <;> rfl

/-- Rooms of `P'` when an action is done; when it is blocked, possibly of `P` still. -/
def LeadsRooms (P P' : RoomPtr → ChatRoom → Prop) {α : Type} (x : Act Server α) (s : Server) : Prop :=
  wp x (fun _ t => Rooms P' t ∧ s.nextRoom ≤ t.nextRoom) (fun t => Rooms P t ∨ Rooms P' t) True s

theorem KeepsRooms.leads {α β : Type} {x : Act Server α} {f : α → Act Server β} (hx : KeepsRooms P x s)
    (hf : ∀ a t, Rooms P t → s.nextRoom ≤ t.nextRoom → LeadsRooms P P' (f a) t) : LeadsRooms P P' (x >>= f) s := by
  rw [LeadsRooms, wp_bind]
  refine wp_mono hx (fun a t ⟨ht, hn⟩ => ?_) fun _ h => .inl h
  exact wp_mono (hf a t ht hn) (fun _ _ ⟨h1, h2⟩ => ⟨h1, Nat.le_trans hn h2⟩) fun _ h => h

theorem LeadsRooms.keeps {α : Type} {x : Act Server α} (h : LeadsRooms P P x s) : KeepsRooms P x s :=
  wp_mono h (fun _ _ h => h) fun _ h => h.elim id id

theorem endLogin_leads (hP' : WalkInvariant P') (h : Rooms P s) (hr : r < s.nextRoom) (u : Int)
    (gs : Option BaseUserInfo) (cur : Option Ptr) (ho : ∀ q ≠ r, ∀ room, P q room → P' q room)
    (hend : ∀ room, P r room → room.preUserList.locked = false → P' r (endedLogin room u)) :
    LeadsRooms P P' (do onRoom r (removePreUser u); sendMicList r gs cur) s := by
  rw [LeadsRooms, wp_bind, wp_onRoom, wp_removePreUser_ended]
  split <;> rename_i hl
  · rw [withRoom_self]
    exact .inl h
  have hroom := hend _ (h.each r) (Bool.eq_false_of_not_eq_true hl)
  have hrooms : Rooms P' (s.withRoom r (endedLogin (s.chatRooms r) u)) :=
    h.establish hr (fun q hq => ho q hq _ (h.each q)) hroom
  exact wp_mono (keeps_sendMicList hP' hrooms hr gs cur) (fun _ _ h => h) fun _ h => .inr h

theorem answerLogin_leads (hP : WalkInvariant P) (hP' : WalkInvariant P') (h : Rooms P s) (hr : r < s.nextRoom)
    (rs : StruUserLoginRS) (p : Ptr) (cur : Option Ptr) (ho : ∀ q ≠ r, ∀ room, P q room → P' q room)
    (hend : ∀ room, P r room → room.preUserList.locked = false → P' r (endedLogin room rs.userId)) :
    LeadsRooms P P' (answerLogin r rs p cur) s := by
  have hreply : KeepsRooms P (replyLogin r rs p) s := by
    rw [KeepsRooms, wp_replyLogin]
    exact ⟨h.replied r rs p, Nat.le_refl _⟩
  refine hreply.leads fun gs t ht hn => KeepsRooms.leads ?_ fun _ t' ht' hn' =>
    endLogin_leads hP' ht' (Nat.lt_of_lt_of_le hr (Nat.le_trans hn hn')) rs.userId gs cur ho hend
  rcases cur with _ | cur
  · exact ⟨ht, Nat.le_refl _⟩
  · refine KeepsRooms.bind (x := record r cur) ⟨ht, Nat.le_refl _⟩ fun info t₁ h₁ n₁ => ?_
    refine (keeps_broadcast hP h₁ _ _ _).bind fun _ t₂ h₂ n₂ => ?_
    exact keeps_sendUserList hP h₂ (Nat.lt_of_lt_of_le hr (Nat.le_trans hn (Nat.le_trans n₁ n₂))) rs gs cur

theorem keeps_answerLogin (hP : WalkInvariant P) (h : Rooms P s) (hr : r < s.nextRoom) (rs : StruUserLoginRS)
    (p : Ptr) (cur : Option Ptr)
    (hend : ∀ room, P r room → room.preUserList.locked = false → P r (endedLogin room rs.userId)) :
    KeepsRooms P (answerLogin r rs p cur) s :=
  (answerLogin_leads hP hP h hr rs p cur (fun _ _ _ h => h) hend).keeps

/-- A reply, from what it does to its room. -/
theorem keeps_loginReply (hP : WalkInvariant P) (h : Rooms P s) (rs : StruUserLoginRS)
    (hlook : ∀ r, P r (s.chatRooms r) → P r { s.chatRooms r with
      preUserList := ChatRoom.lookedUp (s.chatRooms r).preUserList rs.userId })
    (hadd : ∀ r p q rest, s.room rs.roomId = some r → (s.chatRooms r).preUserList.locked = false →
      (s.chatRooms r).preUserList.userInfoList.ptr rs.userId = some p → rs.result = 1 →
      (s.chatRooms r).userList.locked = false → (s.chatRooms r).userList.unusedUserInfoList = q :: rest →
      P r (loggedIn (s.chatRooms r) rs p q rest))
    (hend : ∀ r room, P r room → room.preUserList.locked = false → P r (endedLogin room rs.userId)) :
    KeepsRooms P (clientLoginRS rs) s := by
  rw [KeepsRooms, wp_clientLoginRS]
  rcases hr : s.room rs.roomId with _ | r
  · exact ⟨h.foundRoom _, Nat.le_refl _⟩
  dsimp only
  split <;> rename_i hpre
  · exact h
  rcases hp : (s.chatRooms r).preUserList.userInfoList.ptr rs.userId with _ | p
  · exact ⟨h.withRoom (h.known hr) (hlook r (h.each r)), Nat.le_refl _⟩
  dsimp only
  split <;> rename_i h1
  · split <;> rename_i hl
    · exact h
    rcases hq : (s.chatRooms r).userList.unusedUserInfoList with _ | ⟨q, rest⟩
    · trivial
    · have hroom := hadd r p q rest hr (Bool.eq_false_of_not_eq_true hpre) hp h1
        (Bool.eq_false_of_not_eq_true hl) hq
      exact keeps_answerLogin hP (h.withRoom (h.known hr) hroom) (h.known hr) rs p (some q) (hend r)
  · exact keeps_answerLogin hP h (h.known hr) rs p none (hend r)

/-- The rooms are kept by a reply, if they are by the user that a login makes. -/
theorem keeps_clientLoginRS (hP : RoomInvariant P) (h : Rooms P s) (rs : StruUserLoginRS)
    (hadd : ∀ r p q rest, s.room rs.roomId = some r → (s.chatRooms r).preUserList.locked = false →
      (s.chatRooms r).preUserList.userInfoList.ptr rs.userId = some p → rs.result = 1 →
      (s.chatRooms r).userList.locked = false → (s.chatRooms r).userList.unusedUserInfoList = q :: rest →
      P r (loggedIn (s.chatRooms r) rs p q rest)) : KeepsRooms P (clientLoginRS rs) s :=
  keeps_loginReply hP.toWalkInvariant h rs (fun _ hr => hP.pre _ hr) hadd fun _ _ hroom _ => hP.pre _ hroom

/-- What a login establishes in the room. -/
theorem login_establishes {P₀ : RoomPtr → ChatRoom → Prop} (hP : RoomInvariant P) (h : Rooms P₀ s)
    {rs : StruUserLoginRS} {p : Ptr} (hr : s.room rs.roomId = some r)
    (hpre : (s.chatRooms r).preUserList.locked = false) (hl : (s.chatRooms r).userList.locked = false)
    (hp : (s.chatRooms r).preUserList.userInfoList.ptr rs.userId = some p) (h1 : rs.result = 1)
    (ho : ∀ q ≠ r, P q (s.chatRooms q))
    (hroom : ∀ q rest, (s.chatRooms r).userList.unusedUserInfoList = q :: rest →
      P r (loggedIn (s.chatRooms r) rs p q rest)) : KeepsRooms P (clientLoginRS rs) s := by
  rw [KeepsRooms, wp_clientLoginRS, hr]
  dsimp only
  rw [hpre, if_neg Bool.false_ne_true, hp]
  dsimp only
  rw [if_pos h1, hl, if_neg Bool.false_ne_true]
  rcases hq : (s.chatRooms r).userList.unusedUserInfoList with _ | ⟨q, rest⟩
  · trivial
  · exact keeps_answerLogin hP.toWalkInvariant (h.establish (h.known hr) ho (hroom q rest hq)) (h.known hr) rs p (some q)
      fun _ hp _ => hP.pre _ hp

theorem keeps_userGiveGiftRS (hP : WalkInvariant P) (h : Rooms P s) (rs : StruUserGiveGiftRS)
    (hgift : ∀ {r : RoomPtr} {room : ChatRoom} {p : Ptr}, P r room →
      room.userList.userInfoList.ptr rs.userId = some p →
      P r (room.store p { room.records p with userRedD := rs.senderRedD })) :
    KeepsRooms P (userGiveGiftRS rs) s := by
  refine keeps_forRoomUser hP h fun r p hr hl hp => ?_
  have hlook : Rooms P (s.withRoom r { s.chatRooms r with userList := lookedUp (s.chatRooms r).userList rs.dstUserId }) :=
    h.withRoom (h.known hr) (hP.lookedUp rs.dstUserId (h.each r) hl)
  rw [KeepsRooms, wp_bind, wp_onRoom, ChatRoom.wp_getUserInfo, hl, if_neg Bool.false_ne_true]
  rcases (s.chatRooms r).userList.userInfoList.ptr rs.dstUserId with _ | q
  · exact ⟨hlook, Nat.le_refl _⟩
  dsimp only
  rw [wp_bind, wp_record, wp_bind, wp_getUserByHashkey]
  have hgate := hlook.foundGate (((s.withRoom r { s.chatRooms r with
    userList := lookedUp (s.chatRooms r).userList rs.dstUserId }).chatRooms r).records p).gsHashkeyUserOn
  split
  · rw [wp_bind, wp_deref]
    split
    · trivial
    · exact ⟨hgate.sent _, Nat.le_refl _⟩
  · rw [wp_bind, wp_onRoom, wp_modify, wp_bind]
    refine keeps_broadcast hP (hgate.withRoom ?_ ?_) _ _ _
    · exact h.known hr
    · refine hgift (hgate.each r) ?_
      rw [foundGate_chatRooms, withRoom_same]
      exact (lookedUp_ptr ..).trans hp

/-- What an exit establishes in the room of a user that is there. -/
theorem exit_establishes {P₀ : RoomPtr → ChatRoom → Prop} (hP : WalkInvariant P) (h : Rooms P₀ s)
    {m : StruUserExitRoomID} {p : Ptr} (hr : s.room m.roomId = some r) (hl : (s.chatRooms r).userList.locked = false)
    (hp : (s.chatRooms r).userList.userInfoList.ptr m.userId = some p) (ho : ∀ q ≠ r, P q (s.chatRooms q))
    (hroom : P r { s.chatRooms r with userList := released (s.chatRooms r).userList m.userId p }) :
    KeepsRooms P (userExitRoomID m) s := by
  rw [KeepsRooms, userExitRoomID, wp_forRoomUser, hr]
  dsimp only
  rw [hl, if_neg Bool.false_ne_true, hp]
  dsimp only
  rw [wp_bind, wp_onRoom, ChatRoom.wp_removeUser, hl, if_neg Bool.false_ne_true, hp]
  exact keeps_roomBroadcast hP (h.establish (h.known hr) ho hroom) r _ _

theorem keeps_userExitRoomID (hP : WalkInvariant P) (h : Rooms P s) (m : StruUserExitRoomID)
    (hrem : ∀ r p, s.room m.roomId = some r → (s.chatRooms r).userList.locked = false →
      (s.chatRooms r).userList.userInfoList.ptr m.userId = some p →
      P r { s.chatRooms r with userList := released (s.chatRooms r).userList m.userId p }) :
    KeepsRooms P (userExitRoomID m) s := by
  refine keeps_forRoomUser hP h fun r p hr hl hp => ?_
  rw [KeepsRooms, wp_bind, wp_onRoom, ChatRoom.wp_removeUser, hl, if_neg Bool.false_ne_true, hp]
  exact keeps_roomBroadcast hP (h.withRoom (h.known hr) (hrem r p hr hl hp)) r _ _

theorem keeps_userApplyMicRQ (hP : WalkInvariant P) (h : Rooms P s) (rq : StruUserApplyMicRQ)
    (happly : ∀ r p, s.room rq.roomId = some r → (s.chatRooms r).userList.userInfoList.ptr rq.userId = some p →
      wp (userApplyOneNewVideo rq.userId) (fun _ => P r) (P r) True (s.chatRooms r)) :
    KeepsRooms P (userApplyMicRQ rq) s := by
  refine keeps_forRoomUser hP h fun r p hr hl hp => ?_
  rw [KeepsRooms, getRoomID, wp_bind, wp_read, wp_bind, wp_onRoom]
  refine wp_mono (happly r p hr hp) (fun channel room hroom => ?_) fun room hroom => h.withRoom (h.known hr) hroom
  have ht := h.withRoom (h.known hr) hroom
  split
  · exact ⟨ht.sent _, Nat.le_refl _⟩
  · exact keeps_roomBroadcast hP ht r _ _

theorem keeps_userOffMicRQ (hP : WalkInvariant P) (h : Rooms P s) (rq : StruUserOffMicRQ)
    (hoff : ∀ r, P r (s.chatRooms r) → P r { s.chatRooms r with
      videoChannelList := (s.chatRooms r).videoChannelList.erase rq.userId }) :
    KeepsRooms P (userOffMicRQ rq) s := by
  refine keeps_forRoomUser hP h fun r p hr hl hp => ?_
  rw [KeepsRooms, wp_bind, wp_onRoom, userGetOffVideo, wp_modify]
  exact keeps_roomBroadcast hP (h.withRoom (h.known hr) (hoff r (h.each r))) r _ _

theorem keeps_userGiveGiftRQ (hP : WalkInvariant P) (h : Rooms P s) (tmpPackage : GateRoomServerPack)
    (rq : StruUserGiveGiftRQ) : KeepsRooms P (userGiveGiftRQ tmpPackage rq) s := by
  refine keeps_forRoomUser hP h fun r p hr hl hp => ?_
  have hlook : Rooms P (s.withRoom r { s.chatRooms r with userList := lookedUp (s.chatRooms r).userList rq.dstUserId }) :=
    h.withRoom (h.known hr) (hP.lookedUp rq.dstUserId (h.each r) hl)
  rw [KeepsRooms, wp_bind, wp_onRoom, ChatRoom.wp_getUserInfo, hl, if_neg Bool.false_ne_true]
  rcases (s.chatRooms r).userList.userInfoList.ptr rq.dstUserId with _ | q
  · exact ⟨hlook, Nat.le_refl _⟩
  · exact ⟨hlook.sent _, Nat.le_refl _⟩

theorem keeps_userSendMsgRQ (hP : WalkInvariant P) (h : Rooms P s) (rq : StruUserMsgRQ) :
    KeepsRooms P (userSendMsgRQ rq) s := by
  refine keeps_forRoomUser hP h fun r p hr hl hp => ?_
  split
  · have hprivate : KeepsRooms P (sendPrivateMsg r rq) s := by
      have hlook : Rooms P (s.withRoom r { s.chatRooms r with
          userList := lookedUp (s.chatRooms r).userList rq.dstUserId }) :=
        h.withRoom (h.known hr) (hP.lookedUp rq.dstUserId (h.each r) hl)
      rw [KeepsRooms, sendPrivateMsg, wp_bind, wp_onRoom, ChatRoom.wp_getUserInfo, hl, if_neg Bool.false_ne_true]
      rcases (s.chatRooms r).userList.userInfoList.ptr rq.dstUserId with _ | q
      · exact ⟨hlook, Nat.le_refl _⟩
      dsimp only
      rw [wp_bind, wp_record, wp_bind, wp_getUserByHashkey]
      split
      · exact ⟨(hlook.foundGate _).sent _, Nat.le_refl _⟩
      · exact ⟨hlook.foundGate _, Nat.le_refl _⟩
    exact hprivate.bind fun result t ht _ => ⟨ht.sent _, Nat.le_refl _⟩
  · refine KeepsRooms.bind (x := record r p) ⟨h, Nat.le_refl _⟩ fun info t ht _ => ?_
    refine KeepsRooms.bind (x := send _) ⟨ht.sent _, Nat.le_refl _⟩ fun _ t ht _ => ?_
    exact (keeps_broadcast hP ht _ _ _).bind fun _ _ ht _ => ⟨ht, Nat.le_refl _⟩

/-! ## Runs -/

def run (s : Server) (es : List Event) : Option Server := es.foldlM step s

/-- A state that a run of events reaches. -/
def Reachable (s : Server) : Prop := ∃ es, run .new es = some s

theorem run_append {es es' : List Event} (h : run s es = some t) : run s (es ++ es') = run t es' := by
  unfold run at h ⊢
  rw [List.foldlM_append, h]
  rfl

/-- An event that ends the process is a message whose command faults. -/
theorem step_message_eq_none {m : Message} : step s (.message m) = none ↔ ¬ Safe (handle m) s := by
  rw [safe_iff, not_not]
  show step.after (handle m) s = none ↔ _
  unfold step.after
  split <;> rename_i h <;> simp [h]

/-- The login request of the user `u`, who is on the gate `g` with the key `h`. -/
def requestOf (g h : CInt) (u roomId : Int) : Event :=
  .message (.clientLoginRQ ⟨[], h, g, 0, [], []⟩ ⟨u, roomId, []⟩)

/-- The reply to a login request of the user `u`. -/
def replyOf (u roomId result : Int) : Event :=
  .message (.clientLoginRS ⟨.userLoginRS, u, roomId, result, 0, 0, 0, 0, 0, 0, 0, 0, 0, 0, 0⟩)

/-- The exit of the user `u`. -/
def exitOf (u roomId : Int) : Event := .message (.userExitRoomID ⟨.userExitRoomID, u, roomId⟩)

/-- A gate with the key 5, and the user 1 of the room 2, who logs in through it. -/
def firstLogin : List Event := [.connect 5 50, requestOf 5 7 1 2, replyOf 1 2 1]

/-- The user 1 is online, alone in the room. -/
theorem firstLogin_online : ∃ s, s ∈ run .new firstLogin ∧ s.room 2 = some 0 ∧
    (s.chatRooms 0).userList.userInfoList.ptr 1 = some 1 ∧ (s.chatRooms 0).userList.locked = false ∧
    ¬ none ∈ (s.chatRooms 0).userList.userInfoList.values := by
  decide +kernel

/-- What an action leaves that does not fault, done or blocked. -/
theorem after_wp {α : Type} {x : Act Server α} {Q : Server → Prop} (h : wp x (fun _ => Q) Q True s) {s' : Server}
    (hs : step.after x s = some s') : Q s' := by
  unfold wp at h
  unfold step.after at hs
  split at hs
  · rename_i hx
    rw [hx] at h
    cases hs
    exact h
  · rename_i hx
    rw [hx] at h
    cases hs
    exact h
  · cases hs

theorem KeepsRooms.after {α : Type} {x : Act Server α} (h : KeepsRooms P x s) {s' : Server}
    (hs : step.after x s = some s') : Rooms P s' :=
  after_wp (wp_mono h (fun _ _ h => h.1) fun _ h => h) hs

theorem keeps_connect (h : Rooms P s) (hashKey userSock : Int) : KeepsRooms P (addUserInfo hashKey userSock) s := by
  rw [KeepsRooms, addUserInfo, wp_ofFun]
  split
  · exact ⟨h.congr rfl (fun _ => rfl) rfl rfl, Nat.le_refl _⟩
  · exact ⟨h.congr rfl (fun _ => rfl) rfl rfl, Nat.le_refl _⟩

theorem keeps_disconnect (h : Rooms P s) (hashKey : Int) : KeepsRooms P (releaseUserInfo hashKey) s := by
  rw [KeepsRooms, releaseUserInfo, wp_modify]
  split
  · exact ⟨h.congr rfl (fun _ => rfl) rfl rfl, Nat.le_refl _⟩
  · exact ⟨h.congr rfl (fun _ => rfl) rfl rfl, Nat.le_refl _⟩

/-- What every command keeps. -/
structure CommandInvariant (P : RoomPtr → ChatRoom → Prop) : Prop extends RoomInvariant P where
  added {r : RoomPtr} {room : ChatRoom} (u : Int) (p : Ptr) : P r room → room.userList.locked = false →
    P r { room with userList := { room.userList with userInfoList := added room.userList.userInfoList u p } }
  released {r : RoomPtr} {room : ChatRoom} (u : Int) (p : Ptr) : P r room → room.userList.locked = false →
    P r { room with userList := released room.userList u p }
  channels {r : RoomPtr} {room : ChatRoom} (n : Int) (list : StdMap (List Byte)) : P r room →
    P r { room with startChannelId := n, videoChannelList := list }

/-- What `P` needs besides, for a command. -/
def Kept (P : RoomPtr → ChatRoom → Prop) (s : Server) : Message → Prop
  | .userExitRoomID m => ∀ r p, s.room m.roomId = some r → (s.chatRooms r).userList.locked = false →
      (s.chatRooms r).userList.userInfoList.ptr m.userId = some p →
      P r { s.chatRooms r with userList := released (s.chatRooms r).userList m.userId p }
  | .userApplyMicRQ rq => ∀ r p, s.room rq.roomId = some r →
      (s.chatRooms r).userList.userInfoList.ptr rq.userId = some p →
      wp (userApplyOneNewVideo rq.userId) (fun _ => P r) (P r) True (s.chatRooms r)
  | .userOffMicRQ rq => ∀ r, P r (s.chatRooms r) →
      P r { s.chatRooms r with videoChannelList := (s.chatRooms r).videoChannelList.erase rq.userId }
  | .clientLoginRS rs => ∀ r p q rest, s.room rs.roomId = some r → (s.chatRooms r).preUserList.locked = false →
      (s.chatRooms r).preUserList.userInfoList.ptr rs.userId = some p → rs.result = 1 →
      (s.chatRooms r).userList.locked = false → (s.chatRooms r).userList.unusedUserInfoList = q :: rest →
      P r (loggedIn (s.chatRooms r) rs p q rest)
  | _ => True

/-- The commands but those of a login. -/
theorem keeps_online (hP : WalkInvariant P) (h : Rooms P s) (m : Message) (hm : Kept P s m)
    (hgift : ∀ {r : RoomPtr} {room : ChatRoom} {u : Int} {p : Ptr} (redD : Int), P r room →
      room.userList.userInfoList.ptr u = some p → P r (room.store p { room.records p with userRedD := redD }))
    (hrq : ∀ tmpPackage rq, m ≠ .clientLoginRQ tmpPackage rq) (hrs : ∀ rs, m ≠ .clientLoginRS rs) :
    KeepsRooms P (handle m) s := by
  cases m with
  | clientLoginRQ tmpPackage rq => exact absurd rfl (hrq _ _)
  | userExitRoomID m => exact keeps_userExitRoomID hP h m hm
  | userApplyMicRQ rq => exact keeps_userApplyMicRQ hP h rq hm
  | userOffMicRQ rq => exact keeps_userOffMicRQ hP h rq hm
  | cancleUserMicRQ rq => exact keeps_forRoomUser hP h fun _ _ _ _ _ => ⟨h, Nat.le_refl _⟩
  | putUserOnMicRQ rq => exact keeps_forRoomUser hP h fun _ _ _ _ _ => ⟨h, Nat.le_refl _⟩
  | userGiveGiftRQ tmpPackage rq => exact keeps_userGiveGiftRQ hP h tmpPackage rq
  | userSendMsgRQ rq => exact keeps_userSendMsgRQ hP h rq
  | clientLoginRS rs => exact absurd rfl (hrs _)
  | userGiveGiftRS rs => exact keeps_userGiveGiftRS hP h rs (hgift _)

theorem keeps_message (hP : RoomInvariant P) (h : Rooms P s) (m : Message) (hm : Kept P s m) :
    KeepsRooms P (handle m) s := by
  by_cases hrq : ∃ tmpPackage rq, m = .clientLoginRQ tmpPackage rq
  · obtain ⟨tmpPackage, rq, rfl⟩ := hrq
    exact keeps_clientLoginRQ hP h tmpPackage rq
  by_cases hrs : ∃ rs, m = .clientLoginRS rs
  · obtain ⟨rs, rfl⟩ := hrs
    exact keeps_clientLoginRS hP h rs hm
  exact keeps_online hP.toWalkInvariant h m hm (fun _ hroom _ => hP.store _ _ hroom) (fun _ _ e => hrq ⟨_, _, e⟩)
    fun _ e => hrs ⟨_, e⟩

/-- The rooms after an event, where a message keeps what it needs to. -/
theorem keeps_step (hP : RoomInvariant P) (h : Rooms P s) {e : Event} (hm : ∀ m, e = .message m → Kept P s m)
    {s' : Server} (hs : step s e = some s') : Rooms P s' := by
  cases e with
  | connect hashKey userSock => exact (keeps_connect h hashKey userSock).after hs
  | disconnect hashKey => exact (keeps_disconnect h hashKey).after hs
  | message m => exact (keeps_message hP h m (hm m rfl)).after hs

theorem invariant_true : CommandInvariant fun _ _ => True where
  ids _ _ _ := trivial
  took _ _ _ := trivial
  store _ _ _ := trivial
  lookedUp _ _ _ := trivial
  walked _ _ := trivial
  pre _ _ := trivial
  added _ _ _ _ := trivial
  released _ _ _ _ := trivial
  channels _ _ _ := trivial

/-- The channels of a room, after a request for a microphone. -/
theorem wp_userApplyOneNewVideo_of {Q : ChatRoom → Prop} {F : Prop} {u : Int}
    (h : ∀ n list, Q { room with startChannelId := n, videoChannelList := list }) :
    wp (userApplyOneNewVideo u) (fun _ => Q) Q F room := by
  rw [userApplyOneNewVideo, wp_ofFun]
  dsimp only
  split
  · exact h _ _
  · exact h _ _

theorem CommandInvariant.kept (hP : CommandInvariant P) (h : Rooms P s) (m : Message) : Kept P s m := by
  cases m with
  | userExitRoomID m => exact fun r p _ hl _ => hP.released _ _ (h.each r) hl
  | userApplyMicRQ rq => exact fun r p _ _ => wp_userApplyOneNewVideo_of fun n list => hP.channels n list (h.each r)
  | userOffMicRQ rq => exact fun r hr => hP.channels _ _ hr
  | clientLoginRS rs =>
    intro r p q rest _ _ _ _ hl hq
    exact hP.added _ _ (hP.store _ _ (hP.took (h.each r) hl hq)) hl
  | clientLoginRQ | cancleUserMicRQ | putUserOnMicRQ | userGiveGiftRQ | userSendMsgRQ | userGiveGiftRS => trivial

theorem CommandInvariant.reachable (hP : CommandInvariant P) (hnew : ∀ r, P r .new) (h : Reachable s) : Rooms P s := by
  obtain ⟨es, hes⟩ := h
  exact foldlM_inv (fun _ _ _ hs e => keeps_step hP.toRoomInvariant hs (fun m _ => hP.kept hs m) e) (rooms_new hnew) hes

/-- What every command keeps, of a property of the records: each field is what a command does to its room. -/
structure RecordInvariant (P : RoomPtr → ChatRoom → Prop) : Prop extends WalkInvariant P where
  ids {r : RoomPtr} {room : ChatRoom} (roomId sock : Int) : P r room → P r { room with roomId := roomId, sock := sock }
  filled {r : RoomPtr} {room : ChatRoom} {p : Ptr} {rest : List Ptr} (tmpPackage : GateRoomServerPack)
    (rq : StruUserLoginRQ) : P r room → room.userList.locked = false →
    room.userList.unusedUserInfoList = p :: rest → P r (filled room tmpPackage rq p rest)
  requested {r : RoomPtr} {room : ChatRoom} {p : Ptr} {rest : List Ptr} (tmpPackage : GateRoomServerPack)
    (rq : StruUserLoginRQ) : P r room → room.userList.locked = false →
    room.userList.unusedUserInfoList = p :: rest → P r (requested room tmpPackage rq p rest)
  preLookedUp {r : RoomPtr} {room : ChatRoom} (u : Int) : P r room →
    P r { room with preUserList := ChatRoom.lookedUp room.preUserList u }
  loggedIn {r : RoomPtr} {room : ChatRoom} {rs : StruUserLoginRS} {p q : Ptr} {rest : List Ptr} : P r room →
    room.preUserList.userInfoList.ptr rs.userId = some p → room.userList.locked = false →
    room.userList.unusedUserInfoList = q :: rest → P r (loggedIn room rs p q rest)
  endedLogin {r : RoomPtr} {room : ChatRoom} (u : Int) : P r room → room.preUserList.locked = false →
    P r (endedLogin room u)
  released {r : RoomPtr} {room : ChatRoom} {u : Int} {p : Ptr} : P r room → room.userList.locked = false →
    room.userList.userInfoList.ptr u = some p → P r { room with userList := released room.userList u p }
  channels {r : RoomPtr} {room : ChatRoom} (n : Int) (list : StdMap (List Byte)) : P r room →
    P r { room with startChannelId := n, videoChannelList := list }
  gift {r : RoomPtr} {room : ChatRoom} {u : Int} {p : Ptr} (redD : Int) : P r room →
    room.userList.userInfoList.ptr u = some p → P r (room.store p { room.records p with userRedD := redD })

theorem RecordInvariant.message (hP : RecordInvariant P) (h : Rooms P s) (m : Message) :
    KeepsRooms P (handle m) s := by
  by_cases hrq : ∃ tmpPackage rq, m = .clientLoginRQ tmpPackage rq
  · obtain ⟨tmpPackage, rq, rfl⟩ := hrq
    exact keeps_loginRequest h hP.ids tmpPackage rq (hP.filled tmpPackage rq) (hP.requested tmpPackage rq)
  by_cases hrs : ∃ rs, m = .clientLoginRS rs
  · obtain ⟨rs, rfl⟩ := hrs
    exact keeps_loginReply hP.toWalkInvariant h rs (fun _ hr => hP.preLookedUp _ hr)
      (fun r p q rest _ _ hp _ hl hq => hP.loggedIn (h.each r) hp hl hq) fun _ _ hroom hl => hP.endedLogin _ hroom hl
  refine keeps_online hP.toWalkInvariant h m ?_ hP.gift (fun _ _ e => hrq ⟨_, _, e⟩) fun _ e => hrs ⟨_, e⟩
  cases m with
  | userExitRoomID m => exact fun r p _ hl hp => hP.released (h.each r) hl hp
  | userApplyMicRQ rq => exact fun r p _ _ => wp_userApplyOneNewVideo_of fun n list => hP.channels n list (h.each r)
  | userOffMicRQ rq => exact fun r hr => hP.channels _ _ hr
  | clientLoginRS rs => exact absurd ⟨rs, rfl⟩ hrs
  | clientLoginRQ | cancleUserMicRQ | putUserOnMicRQ | userGiveGiftRQ | userSendMsgRQ | userGiveGiftRS => trivial

theorem RecordInvariant.step (hP : RecordInvariant P) (h : Rooms P s) {e : Event} {s' : Server}
    (hs : step s e = some s') : Rooms P s' := by
  cases e with
  | connect hashKey userSock => exact (keeps_connect h hashKey userSock).after hs
  | disconnect hashKey => exact (keeps_disconnect h hashKey).after hs
  | message m => exact (hP.message h m).after hs

theorem RecordInvariant.run (hP : RecordInvariant P) (h : Rooms P s) {es : List Event} {s' : Server}
    (hs : run s es = some s') : Rooms P s' :=
  foldlM_inv (fun _ _ _ hs e => hP.step hs e) h hs

theorem RecordInvariant.reachable (hP : RecordInvariant P) (hnew : ∀ r, P r .new) (h : Reachable s) : Rooms P s := by
  obtain ⟨es, hes⟩ := h
  exact hP.run (rooms_new hnew) hes

end Server

end Miku.RoomServer
