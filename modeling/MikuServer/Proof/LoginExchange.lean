import MikuServer.Impl.LoginExchange
import MikuServer.Proof.FirstLogin
import MikuServer.Proof.LoginAnswer

/-!
# Turns of requests and replies

What a turn leaves (`Goes`): the rooms are calm, the users that are pending or in
a room stay, with their records, and no record comes from nowhere. `thread_turn`
and `reply_turn` say this of every turn of a thread with a request and of the
thread with a reply, and besides what is true of the thread then (`ThreadOk`,
`ReplyOk`) and which login replies the turn sends. `reply_steps` is the thread
that nobody interrupts.
-/

namespace Miku.RoomServer

open Act UserInfoList ChatRoom

/-! ## A room -/

/-- A room that nobody has asked for a microphone, without `NULL` entries. No mutex is held. -/
structure Calm (room : ChatRoom) : Prop where
  locked : room.userList.locked = false
  preLocked : room.preUserList.locked = false
  full : ¬ none ∈ room.userList.userInfoList.values
  mics : room.videoChannelList.toList = []

/-- The users in the room and the pending ones stay, with their records, but for pending ones that are `gone`. -/
structure UsersStay (gone : Int → Prop) (room room' : ChatRoom) : Prop where
  pending {u : Int} {p : Ptr} : room.preUserList.userInfoList.ptr u = some p → ¬ gone u →
    room'.preUserList.userInfoList.ptr u = some p ∧ room'.records p = room.records p
  online {u : Int} {p : Ptr} : room.userList.userInfoList.ptr u = some p →
    room'.userList.userInfoList.ptr u = some p ∧ room'.records p = room.records p

variable {room room' room'' : ChatRoom} {gone : Int → Prop} {p q : Ptr} {rest : List Ptr} {u v : Int} {l : UserInfoList}

theorem usersStay_self (room : ChatRoom) : UsersStay gone room room :=
  ⟨fun h _ => ⟨h, rfl⟩, fun h => ⟨h, rfl⟩⟩

theorem UsersStay.trans (h : UsersStay gone room room') (h' : UsersStay gone room' room'') :
    UsersStay gone room room'' where
  pending hu hg := by
    obtain ⟨hu', hrec⟩ := h.pending hu hg
    exact ⟨(h'.pending hu' hg).1, (h'.pending hu' hg).2.trans hrec⟩
  online hu := by
    obtain ⟨hu', hrec⟩ := h.online hu
    exact ⟨(h'.online hu').1, (h'.online hu').2.trans hrec⟩

/-- A record that is no user's. -/
theorem usersStay_store (gone : Int → Prop) (info : UserInfo) (h : p ∉ stock room) :
    UsersStay gone room (room.store p info) := by
  have hmem : p ∈ stock room ↔ (p ∈ room.userList.unusedUserInfoList ∨ p ∈ room.userList.userInfoList.ptrs) ∨
      p ∈ room.preUserList.userInfoList.ptrs := by
    simp only [stock, Multiset.mem_add, Multiset.mem_coe]
  refine ⟨fun {v q} hq _ => ⟨hq, Function.update_of_ne ?_ ..⟩, fun {v q} hq => ⟨hq, Function.update_of_ne ?_ ..⟩⟩ <;>
    rintro rfl
  · exact h (hmem.mpr (.inr (StdMap.mem_ptrs.mpr ⟨v, hq⟩)))
  · exact h (hmem.mpr (.inl (.inr (StdMap.mem_ptrs.mpr ⟨v, hq⟩))))

theorem ptr_added_of_ptr {m : StdMap (Option Ptr)} (h : m.ptr v = some q) : (added m u p).ptr v = some q := by
  rw [ptr_added]
  split <;> rename_i e
  · rw [e, h]
    rfl
  · exact h

theorem Calm.preFree (h : Calm room) : ¬ room.preUserList.locked = true := by
  rw [h.preLocked]
  exact Bool.false_ne_true

theorem Calm.took (h : Calm room) (p : Ptr) (rest : List Ptr) : Calm (room.took p rest) :=
  ⟨h.locked, h.preLocked, h.full, h.mics⟩

theorem Calm.store (h : Calm room) (p : Ptr) (info : UserInfo) : Calm (room.store p info) :=
  ⟨h.locked, h.preLocked, h.full, h.mics⟩

theorem Calm.pre (h : Calm room) (hl : l.locked = false) : Calm { room with preUserList := l } :=
  ⟨h.locked, hl, h.full, h.mics⟩

theorem Calm.added (h : Calm room) (u : Int) (q : Ptr) : Calm { room with userList :=
    { room.userList with userInfoList := added room.userList.userInfoList u q } } where
  locked := h.locked
  preLocked := h.preLocked
  full hn := by
    obtain ⟨v, -, hv⟩ := none_mem_added.mp hn
    exact h.full (StdMap.mem_values.mpr ⟨v, hv⟩)
  mics := h.mics

theorem calm_new : Calm .new where
  locked := rfl
  preLocked := rfl
  full h := by
    obtain ⟨k, hk⟩ := StdMap.mem_values.mp h
    exact absurd hk (by simp [ChatRoom.new, initUserList])
  mics := StdMap.toList_eq_nil.mpr fun _ => StdMap.find?_empty _

/-! ### The records -/

theorem stock_took (h : room.userList.unusedUserInfoList = p :: rest) :
    stock room = p ::ₘ stock (room.took p rest) := by
  show _ = p ::ₘ ((rest : Multiset Ptr) + _ + _)
  rw [stock, h, ← Multiset.cons_coe, Multiset.cons_add, Multiset.cons_add]
  rfl

theorem usersStay_took (h : (stock room).Nodup) (hf : room.userList.unusedUserInfoList = p :: rest) :
    UsersStay gone room (room.took p rest) where
  pending hu _ := ⟨hu, Function.update_of_ne (pending_ne_unused h hu hf) ..⟩
  online hu := ⟨hu, Function.update_of_ne (online_ne_unused h hu hf) ..⟩

theorem stock_preAdded_le (room : ChatRoom) (u : Int) (p : Ptr) : stock { room with preUserList :=
    { room.preUserList with userInfoList := added room.preUserList.userInfoList u p } } ≤ p ::ₘ stock room := by
  show _ + ((added room.preUserList.userInfoList u p).ptrs : Multiset Ptr) ≤ _
  rcases hu : room.preUserList.userInfoList.ptr u with _ | j
  · rw [coe_ptrs_added hu, Multiset.add_cons]
    exact le_refl _
  · rw [added_of_isSome (Option.isSome_of_mem hu)]
    exact Multiset.le_cons_self _ _

theorem stock_added_le (room : ChatRoom) (u : Int) (p : Ptr) : stock { room with userList :=
    { room.userList with userInfoList := added room.userList.userInfoList u p } } ≤ p ::ₘ stock room := by
  show _ + ((added room.userList.userInfoList u p).ptrs : Multiset Ptr) + _ ≤ _
  rcases hu : room.userList.userInfoList.ptr u with _ | j
  · rw [coe_ptrs_added hu, Multiset.add_cons, Multiset.cons_add]
    exact le_refl _
  · rw [added_of_isSome (Option.isSome_of_mem hu)]
    exact Multiset.le_cons_self _ _

theorem stock_preErased_le (room : ChatRoom) (u : Int) : stock { room with preUserList :=
    { room.preUserList with userInfoList := room.preUserList.userInfoList.erase u } } ≤ stock room := by
  show _ + ((room.preUserList.userInfoList.erase u).ptrs : Multiset Ptr) ≤ _
  rcases hu : room.preUserList.userInfoList.ptr u with _ | j
  · have hsame : (room.preUserList.userInfoList.erase u).ptrs.Perm room.preUserList.userInfoList.ptrs := by
      refine StdMap.ptrs_perm fun v => ?_
      rw [StdMap.ptr_erase]
      split <;> rename_i e
      · rw [← e, hu]
      · rfl
    rw [Multiset.coe_eq_coe.mpr hsame]
    exact le_refl _
  · rw [stock, coe_ptrs_erase hu, Multiset.add_cons]
    exact Multiset.le_cons_self _ _

/-! ## A turn -/

namespace Server

/-- The record of a user in the room `r`. -/
def online (s : Server) (r : RoomPtr) (u : Int) : Option Ptr := (s.chatRooms r).userList.userInfoList.ptr u

end Server

/-- What a thread has of the records of the room `r`: the record that it has taken and not added yet. -/
def inHand (hand : Option (RoomPtr × Ptr)) (r : RoomPtr) : Multiset Ptr :=
  match hand with
  | none => 0
  | some (q, p) => if q = r then {p} else 0

/-- What a turn leaves, of a thread that had the record `had` and `has` one then. It puts no other room than
`added` in the table, and only users that are `gone` are not pending any more. -/
structure Goes (s t : Server) (had has : Option (RoomPtr × Ptr)) (added : Option RoomPtr)
    (gone : RoomPtr → Int → Prop) : Prop where
  rooms : Server.Rooms (fun _ => Calm) t
  nextRoom : s.nextRoom ≤ t.nextRoom
  room {j : Int} {r : RoomPtr} : s.room j = some r → t.room j = some r
  news {j : Int} {r : RoomPtr} : t.room j = some r → s.room j = some r ∨ added = some r
  users (r : RoomPtr) : UsersStay (gone r) (s.chatRooms r) (t.chatRooms r)
  owned (r : RoomPtr) : stock (t.chatRooms r) + inHand has r ≤ stock (s.chatRooms r) + inHand had r

variable {s t t' : Server} {r : RoomPtr} {had has : Option (RoomPtr × Ptr)} {new : Option RoomPtr}
  {leave : RoomPtr → Int → Prop}

theorem inHand_self (r : RoomPtr) (p : Ptr) : inHand (some (r, p)) r = {p} := if_pos rfl

theorem inHand_other (p : Ptr) {q : RoomPtr} (h : q ≠ r) : inHand (some (r, p)) q = 0 := if_neg (Ne.symm h)

/-- The same rooms. -/
theorem Goes.congr (h : Goes s t had has new leave) (hu : t'.roomManager.unusedRoomList = t.roomManager.unusedRoomList)
    (hr : ∀ j, t'.room j = t.room j) (hn : t'.nextRoom = t.nextRoom) (hc : t'.chatRooms = t.chatRooms) :
    Goes s t' had has new leave where
  rooms := h.rooms.congr hu hr hn hc
  nextRoom := hn ▸ h.nextRoom
  room e := (hr _).trans (h.room e)
  news e := h.news ((hr _).symm.trans e)
  users r := hc ▸ h.users r
  owned r := hc ▸ h.owned r

theorem goes_self (h : Server.Rooms (fun _ => Calm) s) : Goes s s had had new leave :=
  ⟨h, Nat.le_refl _, id, .inl, fun _ => usersStay_self _, fun _ => le_refl _⟩

/-- A turn that changes the room `r`. -/
theorem goes_withRoom (h : Server.Rooms (fun _ => Calm) s) (hr : r < s.nextRoom) (hc : Calm room)
    (hu : UsersStay (leave r) (s.chatRooms r) room)
    (ho : stock room + inHand has r ≤ stock (s.chatRooms r) + inHand had r)
    (hhas : ∀ q ≠ r, inHand has q = 0) : Goes s (s.withRoom r room) had has new leave where
  rooms := h.withRoom hr hc
  nextRoom := Nat.le_refl _
  room := id
  news := .inl
  users q := by
    by_cases e : q = r
    · subst e
      rw [Server.withRoom_same]
      exact hu
    · rw [Server.withRoom_other s e]
      exact usersStay_self _
  owned q := by
    by_cases e : q = r
    · subst e
      rw [Server.withRoom_same]
      exact ho
    · rw [Server.withRoom_other s e, hhas q e, Multiset.add_zero]
      exact Multiset.le_add_right _ _

/-! ## Requests and what is true of them -/

/-- The record has the keys of the request. -/
def HasKeys (info : UserInfo) (x : GateRoomServerPack × StruUserLoginRQ) : Prop :=
  info.gsHashkeyUserOn = x.1.gsHashkey.toInt ∧ info.userHashKey = x.1.userHashkey.toInt

instance (info : UserInfo) (x : GateRoomServerPack × StruUserLoginRQ) : Decidable (HasKeys info x) :=
  inferInstanceAs (Decidable (_ ∧ _))

/-- The request has a pending record with its keys. -/
def Waits (s : Server) (x : GateRoomServerPack × StruUserLoginRQ) : Prop :=
  ∃ r p, s.room x.2.roomId = some r ∧ s.pending r x.2.userId = some p ∧ HasKeys ((s.chatRooms r).records p) x

/-- The user of the request is in the room, with its keys. -/
def LoginOnline (s : Server) (r : RoomPtr) (x : GateRoomServerPack × StruUserLoginRQ) : Prop :=
  ∃ p, s.online r x.2.userId = some p ∧ HasKeys ((s.chatRooms r).records p) x

variable {x : GateRoomServerPack × StruUserLoginRQ}

theorem Waits.frame (h : Waits s x) (hg : Goes s t had has new leave)
    (hl : ∀ r, s.room x.2.roomId = some r → ¬ leave r x.2.userId) : Waits t x := by
  obtain ⟨r, p, hr, hp, hk⟩ := h
  obtain ⟨hp', hrec⟩ := (hg.users r).pending hp (hl r hr)
  exact ⟨r, p, hg.room hr, hp', hrec ▸ hk⟩

theorem LoginOnline.frame (h : LoginOnline s r x) (hg : Goes s t had has new leave) : LoginOnline t r x := by
  obtain ⟨p, hp, hk⟩ := h
  obtain ⟨hp', hrec⟩ := (hg.users r).online hp
  exact ⟨p, hp', hrec ▸ hk⟩

open Server (loginReplies loginReplies_append)

/-! ## A thread with a request -/

namespace LoginPlace

/-- The record that the thread has taken and not added yet. -/
def hand : LoginPlace → Option (RoomPtr × Ptr)
  | .took r p => some (r, p)
  | _ => none

/-- The room that the thread is about to add. -/
def adds : LoginPlace → Option RoomPtr
  | .made r => some r
  | _ => none

end LoginPlace

/-- The room that a thread has made is not in the table; and the room it is in is the one of the table. -/
def ThreadOk (s : Server) (rq : StruUserLoginRQ) : LoginPlace → Prop
  | .made r => r < s.nextRoom ∧ ∀ j, s.room j ≠ some r
  | .inRoom r | .took r _ => s.room rq.roomId = some r
  | .start | .missing | .finished _ => True

theorem ThreadOk.frame {rq : StruUserLoginRQ} {place : LoginPlace} (h : ThreadOk s rq place)
    (hg : Goes s t had has new leave) (hne : ∀ r, place = .made r → new ≠ some r) : ThreadOk t rq place := by
  cases place with
  | made r =>
    obtain ⟨hlt, hno⟩ := h
    exact ⟨Nat.lt_of_lt_of_le hlt hg.nextRoom, fun j e => (hg.news e).elim (hno j) (hne r rfl)⟩
  | inRoom r | took r p => exact hg.room h
  | start | missing | finished r => trivial

namespace LoginThread

/-- A thread adds its room where there is none, and its user where the user is not pending. -/
def Ready (t : LoginThread) (s : Server) : Prop :=
  match t.place with
  | .made _ => s.room t.rq.roomId = none
  | .took r _ => s.pending r t.rq.userId = none
  | _ => True

instance : (t : LoginThread) → (s : Server) → Decidable (t.Ready s)
  | ⟨_, rq, .made _⟩, s => inferInstanceAs (Decidable (s.room rq.roomId = none))
  | ⟨_, rq, .took r _⟩, s => inferInstanceAs (Decidable (s.pending r rq.userId = none))
  | ⟨_, _, .start⟩, _ | ⟨_, _, .missing⟩, _ | ⟨_, _, .inRoom _⟩, _ | ⟨_, _, .finished _⟩, _ => isTrue trivial

/-- What a turn of the thread leaves. -/
structure TurnOk (t : LoginThread) (s : Server) (place : LoginPlace) (s' : Server) : Prop where
  goes : Goes s s' t.place.hand place.hand t.place.adds fun _ _ => False
  ok : ThreadOk s' t.rq place
  fresh {r : RoomPtr} : place = .made r → s.nextRoom ≤ r
  waits : ∀ x ∈ LoginExchange.forwards t, Waits s' x
  replies : loginReplies s'.sent = loginReplies s.sent

variable {th : LoginThread}

/-- Nothing is forwarded in other turns than the last. -/
theorem waits_nothing (th : LoginThread) (h : ∀ r p, th.place ≠ .took r p) (s : Server) :
    ∀ x ∈ LoginExchange.forwards th, Waits s x := by
  unfold LoginExchange.forwards
  split
  · rename_i e
    exact absurd e (h _ _)
  · exact List.forall_mem_nil _

theorem start_turn (h : Server.Rooms (fun _ => Calm) s) (hp : th.place = .start) :
    wp (do
      match ← Server.getRoom th.rq.roomId with
      | some tmpRoom => pure (.inRoom tmpRoom)
      | none => pure .missing)
      (th.TurnOk s) (fun _ => True) True s := by
  have hg : Goes s (s.foundRoom th.rq.roomId) th.place.hand none th.place.adds fun _ _ => False := by
    rw [hp]
    exact (goes_self h).congr rfl (Server.foundRoom_room s _) rfl rfl
  rw [wp_bind, Server.wp_getRoom]
  rcases hr : s.room th.rq.roomId with _ | r
  · exact ⟨hg, trivial, by simp, waits_nothing th (by simp [hp]) _, rfl⟩
  · exact ⟨hg, (Server.foundRoom_room s ..).trans hr, by simp, waits_nothing th (by simp [hp]) _, rfl⟩

theorem missing_turn (h : Server.Rooms (fun _ => Calm) s) (hp : th.place = .missing) :
    wp (do
      let tmpRoom ← Server.createRoom th.rq.roomId
      pure (.made tmpRoom))
      (th.TurnOk s) (fun _ => True) True s := by
  rw [wp_bind, Server.wp_createRoom h.unused, wp_pure]
  have hnew : s.chatRooms s.nextRoom = .new := h.fresh (Nat.le_refl _)
  refine ⟨⟨⟨h.unused, fun e => Nat.lt_succ_of_lt (h.known e), h.inj, fun {q} e => ?_, fun q => ?_⟩,
    Nat.le_succ _, id, .inl, fun q => ?_, fun q => ?_⟩, ⟨Nat.lt_succ_self _, fun j e => ?_⟩, ?_, ?_, rfl⟩
  · exact (Function.update_of_ne (Nat.ne_of_gt e) ..).trans (h.fresh (Nat.le_of_lt e))
  · by_cases e : q = s.nextRoom
    · subst e
      dsimp only
      rw [Function.update_self]
      exact ⟨rfl, rfl, calm_new.full, calm_new.mics⟩
    · dsimp only
      rw [Function.update_of_ne e]
      exact h.each q
  · by_cases e : q = s.nextRoom
    · subst e
      dsimp only
      rw [Function.update_self, hnew]
      exact ⟨fun hu _ => ⟨hu, rfl⟩, fun hu => ⟨hu, rfl⟩⟩
    · dsimp only
      rw [Function.update_of_ne e]
      exact usersStay_self _
  · by_cases e : q = s.nextRoom
    · subst e
      dsimp only
      rw [Function.update_self, hnew, hp]
      exact le_refl _
    · dsimp only
      rw [Function.update_of_ne e, hp]
      exact le_refl _
  · exact Nat.lt_irrefl _ (h.known e)
  · rintro r ⟨⟩
    exact Nat.le_refl _
  · exact waits_nothing th (by simp [hp]) _

theorem made_turn (h : Server.Rooms (fun _ => Calm) s) (hp : th.place = .made r) (hok : ThreadOk s th.rq th.place)
    (hready : th.Ready s) :
    wp (do
      let _ ← Server.addRoom th.rq.roomId (some r)
      pure (.inRoom r))
      (th.TurnOk s) (fun _ => True) True s := by
  rw [hp] at hok
  obtain ⟨hlt, hno⟩ := hok
  have hr : s.roomManager.roomList.ptr th.rq.roomId = none := by
    rw [Ready, hp] at hready
    exact hready
  have hroom (j : Int) : (((s.roomManager.roomList.subscript th.rq.roomId none).assign th.rq.roomId (some r)).ptr j) =
      if th.rq.roomId = j then some r else s.room j := by
    rw [StdMap.assign_subscript, StdMap.ptr_assign]
    rfl
  rw [wp_bind, Server.addRoom, wp_ofFun, hr]
  refine ⟨⟨⟨h.unused, fun {j q} e => ?_, fun {i j q} e e' => ?_, h.fresh, h.each⟩, Nat.le_refl _, fun {j q} e => ?_,
    fun {j q} e => ?_, fun _ => usersStay_self _, fun _ => ?_⟩, ?_, by simp, ?_, rfl⟩
  · rw [Server.room, hroom] at e
    split at e
    · cases e
      exact hlt
    · exact h.known e
  · rw [Server.room, hroom] at e e'
    split at e <;> split at e'
    · omega
    · cases e
      exact absurd e' (hno j)
    · cases e'
      exact absurd e (hno i)
    · exact h.inj e e'
  · rw [Server.room, hroom, if_neg]
    · exact e
    · rintro rfl
      cases hr.symm.trans e
  · rw [Server.room, hroom] at e
    split at e
    · cases e
      exact .inr (by rw [hp]; rfl)
    · exact .inl e
  · rw [hp]
    exact le_refl _
  · exact (hroom _).trans (if_pos rfl)
  · exact waits_nothing th (by simp [hp]) _

theorem inRoom_turn (h : Server.Rooms (fun _ => Calm) s) (hp : th.place = .inRoom r) (hok : ThreadOk s th.rq th.place)
    (ho : (stock (s.chatRooms r)).Nodup) :
    wp (do
      match ← Server.onRoom r newUserInfo with
      | none => pure (.finished r)
      | some tmpUser => pure (.took r tmpUser))
      (th.TurnOk s) (fun _ => True) True s := by
  rw [hp] at hok
  have hroom : s.room th.rq.roomId = some r := hok
  rw [wp_bind, Server.wp_onRoom, wp_newUserInfo]
  split
  · trivial
  rcases hf : (s.chatRooms r).userList.unusedUserInfoList with _ | ⟨p, rest⟩
  · trivial
  refine ⟨goes_withRoom h (h.known hroom) ((h.each r).took p rest) (usersStay_took ho hf) ?_
    fun q hq => inHand_other p hq, hroom, by simp, ?_, rfl⟩
  · show _ + inHand (some (r, p)) r ≤ _
    rw [stock_took hf, inHand_self, hp, Multiset.add_comm, Multiset.singleton_add]
    exact Multiset.le_add_right _ _
  · exact waits_nothing th (by simp [hp]) _

theorem took_turn (h : Server.Rooms (fun _ => Calm) s) (hp : th.place = .took r p) (hok : ThreadOk s th.rq th.place)
    (ho : (stock (s.chatRooms r) + inHand th.place.hand r).Nodup) (hready : th.Ready s) :
    wp (do
      Server.onRoom r (Server.storeLogin th.tmpPackage th.rq p)
      let _ ← Server.onRoom r (addPreUser th.rq.userId (some p))
      Server.sendToCenter th.tmpPackage
      pure (.finished r))
      (th.TurnOk s) (fun _ => True) True s := by
  rw [hp] at hok ho
  have hroom : s.room th.rq.roomId = some r := hok
  have hfree : (s.chatRooms r).preUserList.userInfoList.ptr th.rq.userId = none := by
    rw [Ready, hp] at hready
    exact hready
  have hno : p ∉ stock (s.chatRooms r) := fun hmem => by
    rw [show LoginPlace.hand (.took r p) = some (r, p) from rfl, inHand_self] at ho
    exact Multiset.disjoint_left.mp (Multiset.nodup_add.mp ho).2.2 hmem (Multiset.mem_singleton_self p)
  rw [wp_bind, Server.wp_onRoom]
  refine wp_storeLogin_of fun info hgs hkey => ?_
  rw [wp_bind, Server.wp_onRoom, Server.withRoom_same, wp_addPreUser, Server.withRoom_withRoom]
  split
  · trivial
  rw [wp_bind, Server.sendToCenter, Server.wp_send, wp_pure]
  have hstore := usersStay_store (fun _ => False) info hno
  have hgoes : Goes s (s.withRoom r { (s.chatRooms r).store p info with preUserList :=
      { (s.chatRooms r).preUserList with
        userInfoList := added (s.chatRooms r).preUserList.userInfoList th.rq.userId p } }) th.place.hand none
      th.place.adds fun _ _ => False := by
    refine goes_withRoom h (h.known hroom) (((h.each r).store p info).pre (h.each r).preLocked) ?_ ?_ fun _ _ => rfl
    · exact hstore.trans ⟨fun hu _ => ⟨ptr_added_of_ptr hu, rfl⟩, fun hu => ⟨hu, rfl⟩⟩
    · rw [hp]
      show _ + 0 ≤ _ + inHand (some (r, p)) r
      rw [inHand_self, Multiset.add_zero, Multiset.add_comm, Multiset.singleton_add]
      exact stock_preAdded_le ((s.chatRooms r).store p info) th.rq.userId p
  refine ⟨hgoes.congr rfl (fun _ => rfl) rfl rfl, trivial, by simp, fun x hx => ?_, ?_⟩
  · rw [LoginExchange.forwards, hp] at hx
    cases List.mem_singleton.mp hx
    refine ⟨r, p, hroom, ?_, ?_⟩
    · show ((s.withRoom r _).chatRooms r).preUserList.userInfoList.ptr th.rq.userId = some p
      rw [Server.withRoom_same]
      show (added (s.chatRooms r).preUserList.userInfoList th.rq.userId p).ptr th.rq.userId = some p
      rw [ptr_added, if_pos rfl, hfree]
      rfl
    · have hrec : ((s.chatRooms r).store p info).records p = info := Function.update_self ..
      show HasKeys (((s.withRoom r _).chatRooms r).records p) _
      rw [Server.withRoom_same]
      exact hrec.symm ▸ ⟨hgs, hkey⟩
  · show loginReplies (s.sent ++ [_]) = _
    rw [loginReplies_append]
    exact List.append_nil _

/-- Every turn of a thread with a request. -/
theorem turn_ok (h : Server.Rooms (fun _ => Calm) s) (hok : ThreadOk s th.rq th.place)
    (ho : ∀ r, (stock (s.chatRooms r) + inHand th.place.hand r).Nodup) (hready : th.Ready s) {y : Act Server LoginPlace}
    (hy : th.next = some y) : wp y (th.TurnOk s) (fun _ => True) True s := by
  unfold next at hy
  split at hy <;> rename_i hp <;> cases hy
  · exact start_turn h hp
  · exact missing_turn h hp
  · exact made_turn h hp hok hready
  · exact inRoom_turn h hp hok (Multiset.nodup_add.mp (ho _)).1
  · exact took_turn h hp hok (ho _) hready

end LoginThread

/-! ## The thread with a reply -/

namespace ReplyPlace

/-- The record that the thread has taken and not added yet. -/
def hand : ReplyPlace → Option (RoomPtr × Ptr)
  | .took r _ q => some (r, q)
  | _ => none

/-- The pending record is not erased yet. -/
def Open : ReplyPlace → Prop
  | .push .. | .mics .. | .finished => False
  | _ => True

instance : DecidablePred Open
  | .push .. | .mics .. | .finished => isFalse id
  | .start | .missed | .inRoom _ | .found .. | .took .. | .known .. | .announce .. | .list .. | .remove ..
  | .erase .. => isTrue trivial

end ReplyPlace

namespace ReplyThread

/-- The request that the reply is to. -/
def request (t : ReplyThread) : GateRoomServerPack × StruUserLoginRQ := (t.tmpPackage, t.rq)

/-- The user that the turn takes out of the pending ones of a room. -/
def leaves (t : ReplyThread) (r : RoomPtr) (u : Int) : Prop :=
  match t.place with
  | .erase q _ _ _ => q = r ∧ t.rs.userId = u
  | _ => False

/-- There is a record for a new user; the user is not in the room, or there with the keys of the request; and the
gate of the request is registered. -/
def Ready (t : ReplyThread) (s : Server) : Prop :=
  match t.place with
  | .found r _ => (s.chatRooms r).userList.unusedUserInfoList ≠ []
  | .took r _ _ => ∀ p, s.online r t.rq.userId = some p → HasKeys ((s.chatRooms r).records p) t.request
  | .known .. => (s.gate t.tmpPackage.gsHashkey.toInt).isSome
  | _ => True

instance : (t : ReplyThread) → (s : Server) → Decidable (t.Ready s)
  | ⟨_, _, _, .found r _⟩, s => inferInstanceAs (Decidable ((s.chatRooms r).userList.unusedUserInfoList ≠ []))
  | ⟨tmpPackage, rq, _, .took r _ _⟩, s => inferInstanceAs (Decidable (∀ p ∈ s.online r rq.userId,
    HasKeys ((s.chatRooms r).records p) (tmpPackage, rq)))
  | ⟨tmpPackage, _, _, .known ..⟩, s => inferInstanceAs (Decidable ((s.gate tmpPackage.gsHashkey.toInt).isSome = true))
  | ⟨_, _, _, .start⟩, _ | ⟨_, _, _, .missed⟩, _ | ⟨_, _, _, .inRoom _⟩, _ | ⟨_, _, _, .announce ..⟩, _
  | ⟨_, _, _, .list ..⟩, _ | ⟨_, _, _, .remove ..⟩, _ | ⟨_, _, _, .erase ..⟩, _ | ⟨_, _, _, .push ..⟩, _
  | ⟨_, _, _, .mics ..⟩, _ | ⟨_, _, _, .finished⟩, _ => isTrue trivial

/-- The login replies of a turn: there is one in the turn for it, to the gate and the user's key of the request. -/
def Answers (t : ReplyThread) (s s' : Server) : Prop :=
  match t.place with
  | .known .. => ∃ gs, s.gate t.tmpPackage.gsHashkey.toInt = some gs ∧
    loginReplies s'.sent = loginReplies s.sent ++ [(gs.userSock, t.tmpPackage.userHashkey.toInt, t.rs)]
  | _ => loginReplies s'.sent = loginReplies s.sent

/-- What is true of the thread where it is: it has the room of the table and the pending record of the user; and once
it has added a user there is one in the room with the keys of the request. -/
def At (t : ReplyThread) (s : Server) : ReplyPlace → Prop
  | .start => True
  | .missed => False
  | .inRoom r => s.room t.rq.roomId = some r
  | .found r p | .took r p _ => s.room t.rq.roomId = some r ∧ s.pending r t.rq.userId = some p ∧ t.rs.result = 1
  | .known r p cur => s.room t.rq.roomId = some r ∧ s.pending r t.rq.userId = some p ∧
    (t.rs.result = 1 ↔ cur.isSome) ∧ (t.rs.result = 1 → LoginOnline s r t.request)
  | .announce r gs _ | .list r gs _ => s.room t.rq.roomId = some r ∧ gs.isSome ∧ LoginOnline s r t.request
  | .remove r _ _ | .erase r _ _ _ | .push r _ _ _ | .mics r _ _ =>
    s.room t.rq.roomId = some r ∧ (t.rs.result = 1 → LoginOnline s r t.request)
  | .finished => t.rs.result = 1 → ∃ r, s.room t.rq.roomId = some r ∧ LoginOnline s r t.request

/-- The reply is to the request of the thread, which waits for it until its pending record is erased. -/
structure Ok (t : ReplyThread) (s : Server) : Prop where
  userId : t.rs.userId = t.rq.userId
  roomId : t.rs.roomId = t.rq.roomId
  place : t.At s t.place
  waits : t.place.Open → Waits s t.request

/-- What a turn of the thread leaves. -/
structure TurnOk (t : ReplyThread) (s : Server) (place : ReplyPlace) (s' : Server) : Prop where
  goes : Goes s s' t.place.hand place.hand none t.leaves
  at_place : t.At s' place
  answers : t.Answers s s'
  stays : place.Open → t.place.Open ∧ ∀ r u, ¬ t.leaves r u

variable {th : ReplyThread}

theorem stays_at {place : ReplyPlace} (hp : th.place = place) (ho : place.Open)
    (h : ∀ r gs cur p, place ≠ .erase r gs cur p) : th.place.Open ∧ ∀ r u, ¬ th.leaves r u := by
  refine ⟨hp ▸ ho, fun r u hl => ?_⟩
  unfold leaves at hl
  split at hl
  · rename_i e
    exact h _ _ _ _ (hp.symm.trans e)
  · exact hl

theorem At.frame {place : ReplyPlace} (h : th.At s place) (hg : Goes s t had has new leave)
    (hl : ∀ r, ¬ leave r th.rq.userId) : th.At t place := by
  have hpending {r : RoomPtr} {p : Ptr} (hp : s.pending r th.rq.userId = some p) : t.pending r th.rq.userId = some p :=
    ((hg.users r).pending hp (hl r)).1
  cases place with
  | start => trivial
  | missed => exact h
  | inRoom r => exact hg.room h
  | found r p | took r p q => exact ⟨hg.room h.1, hpending h.2.1, h.2.2⟩
  | known r p cur => exact ⟨hg.room h.1, hpending h.2.1, h.2.2.1, fun e => (h.2.2.2 e).frame hg⟩
  | announce r gs cur | list r gs cur => exact ⟨hg.room h.1, h.2.1, h.2.2.frame hg⟩
  | remove r gs cur | erase r gs cur p | push r gs cur p | mics r gs cur =>
    exact ⟨hg.room h.1, fun e => (h.2 e).frame hg⟩
  | finished =>
    intro e
    obtain ⟨r, hr, ho⟩ := h e
    exact ⟨r, hg.room hr, ho.frame hg⟩

/-- The pending record of the user has the keys of the request. -/
theorem Ok.hasKeys (h : th.Ok s) (hopen : th.place.Open) (hr : s.room th.rq.roomId = some r)
    (hp : s.pending r th.rq.userId = some p) : HasKeys ((s.chatRooms r).records p) th.request := by
  obtain ⟨r', p', hr', hp', hk⟩ := h.waits hopen
  cases hr.symm.trans hr'
  cases hp.symm.trans hp'
  exact hk

theorem start_turn (h : Server.Rooms (fun _ => Calm) s) (hok : th.Ok s) (hp : th.place = .start) :
    wp (do
      match ← Server.getRoom th.rs.roomId with
      | none => pure .missed
      | some tmpRoom => pure (.inRoom tmpRoom))
      (th.TurnOk s) (fun _ => False) False s := by
  obtain ⟨r, p, hr, -, -⟩ := hok.waits (by rw [hp]; trivial)
  have hr' : s.room th.rq.roomId = some r := hr
  rw [wp_bind, Server.wp_getRoom, hok.roomId, hr', Server.foundRoom_of_room hr']
  refine ⟨?_, hr', ?_, fun _ => stays_at hp trivial (by simp)⟩
  · rw [hp]
    exact goes_self h
  · rw [Answers, hp]

theorem inRoom_turn (h : Server.Rooms (fun _ => Calm) s) (hok : th.Ok s) (hp : th.place = .inRoom r) :
    wp (do
      match ← Server.onRoom r (getPreUserInfo th.rs.userId) with
      | none => pure .missed
      | some tmpUser => pure (if th.rs.result = 1 then .found r tmpUser else .known r tmpUser none))
      (th.TurnOk s) (fun _ => False) False s := by
  have hat := hok.place
  rw [hp] at hat
  have hr : s.room th.rq.roomId = some r := hat
  obtain ⟨r', p, hr', hu, -⟩ := hok.waits (by rw [hp]; trivial)
  cases hr.symm.trans hr'
  have hu' : (s.chatRooms r).preUserList.userInfoList.ptr th.rq.userId = some p := hu
  have hsame : lookedUp (s.chatRooms r).preUserList th.rq.userId = (s.chatRooms r).preUserList := by
    rw [lookedUp, StdMap.subscript_of_ptr hu']
  have hself : s.withRoom r { s.chatRooms r with preUserList := (s.chatRooms r).preUserList } = s :=
    Server.withRoom_self ..
  rw [wp_bind, Server.wp_onRoom, wp_getPreUserInfo, (h.each r).preLocked, if_neg Bool.false_ne_true, hok.userId, hu',
    hsame, hself]
  show th.TurnOk s (if th.rs.result = 1 then .found r p else .known r p none) s
  have hanswers : th.Answers s s := by rw [Answers, hp]
  split <;> rename_i h1
  · exact ⟨by rw [hp]; exact goes_self h, ⟨hr, hu, h1⟩, hanswers, fun _ => stays_at hp trivial (by simp)⟩
  · exact ⟨by rw [hp]; exact goes_self h, ⟨hr, hu, iff_of_false h1 Bool.false_ne_true, fun e => absurd e h1⟩, hanswers,
      fun _ => stays_at hp trivial (by simp)⟩

theorem found_turn (h : Server.Rooms (fun _ => Calm) s) (hok : th.Ok s) (hp : th.place = .found r p)
    (ho : (stock (s.chatRooms r)).Nodup) (hready : th.Ready s) :
    wp (do
      match ← Server.onRoom r newUserInfo with
      | none => pure (.known r p none)
      | some tmpCurrentUser => pure (.took r p tmpCurrentUser))
      (th.TurnOk s) (fun _ => False) False s := by
  have hat := hok.place
  rw [hp] at hat
  obtain ⟨hr, hu, h1⟩ := hat
  have hfree : (s.chatRooms r).userList.unusedUserInfoList ≠ [] := by
    rw [Ready, hp] at hready
    exact hready
  obtain ⟨q, rest, hf⟩ := List.exists_cons_of_ne_nil hfree
  rw [wp_bind, Server.wp_onRoom, wp_newUserInfo, (h.each r).locked, if_neg Bool.false_ne_true, hf]
  have hstay : UsersStay (th.leaves r) (s.chatRooms r) ((s.chatRooms r).took q rest) := usersStay_took ho hf
  refine ⟨goes_withRoom h (h.known hr) ((h.each r).took q rest) hstay ?_ fun _ hq => inHand_other q hq,
    ⟨hr, ?_, h1⟩, ?_, fun _ => stays_at hp trivial (by simp)⟩
  · show _ + inHand (some (r, q)) r ≤ _
    rw [stock_took hf, inHand_self, hp, Multiset.add_comm, Multiset.singleton_add]
    exact Multiset.le_add_right _ _
  · show ((s.withRoom r _).chatRooms r).preUserList.userInfoList.ptr th.rq.userId = some p
    rw [Server.withRoom_same]
    exact hu
  · rw [Answers, hp]
    rfl

theorem took_turn (h : Server.Rooms (fun _ => Calm) s) (hok : th.Ok s) (hp : th.place = .took r p q)
    (ho : (stock (s.chatRooms r) + inHand th.place.hand r).Nodup) (hready : th.Ready s) :
    wp (do
      Server.onRoom r (.modify fun room => room.store q (Server.loginInfo th.rs (room.records p)))
      let _ ← Server.onRoom r (addUser th.rs.userId (some q))
      pure (.known r p (some q)))
      (th.TurnOk s) (fun _ => False) False s := by
  have hat := hok.place
  rw [hp] at hat ho
  obtain ⟨hr, hu, h1⟩ := hat
  have hkeys := hok.hasKeys (by rw [hp]; trivial) hr hu
  have hno : q ∉ stock (s.chatRooms r) := fun hmem => by
    rw [show ReplyPlace.hand (.took r p q) = some (r, q) from rfl, inHand_self] at ho
    exact Multiset.disjoint_left.mp (Multiset.nodup_add.mp ho).2.2 hmem (Multiset.mem_singleton_self q)
  rw [wp_bind, Server.wp_onRoom, wp_modify, wp_bind, Server.wp_onRoom, Server.withRoom_same, wp_addUser,
    Server.withRoom_withRoom, wp_pure]
  generalize hinfo : Server.loginInfo th.rs ((s.chatRooms r).records p) = info
  have hstored : ((s.chatRooms r).store q info).userList.locked = false := (h.each r).locked
  rw [hstored, if_neg Bool.false_ne_true]
  have hstore := usersStay_store (th.leaves r) info hno
  have hstay : UsersStay (th.leaves r) (s.chatRooms r) { (s.chatRooms r).store q info with userList :=
      { (s.chatRooms r).userList with
        userInfoList := added (s.chatRooms r).userList.userInfoList th.rs.userId q } } :=
    hstore.trans ⟨fun hv _ => ⟨hv, rfl⟩, fun hv => ⟨ptr_added_of_ptr hv, rfl⟩⟩
  refine ⟨goes_withRoom h (h.known hr) (((h.each r).store q info).added th.rs.userId q) hstay ?_ fun _ _ => rfl,
    ⟨hr, ?_, iff_of_true h1 rfl, fun _ => ?_⟩, ?_, fun _ => stays_at hp trivial (by simp)⟩
  · rw [hp]
    show _ + 0 ≤ _ + inHand (some (r, q)) r
    rw [inHand_self, Multiset.add_zero, Multiset.add_comm, Multiset.singleton_add]
    exact stock_added_le ((s.chatRooms r).store q info) th.rs.userId q
  · show ((s.withRoom r _).chatRooms r).preUserList.userInfoList.ptr th.rq.userId = some p
    rw [Server.withRoom_same]
    exact hu
  · unfold LoginOnline Server.online
    simp only [Server.withRoom_same]
    rcases hold : (s.chatRooms r).userList.userInfoList.ptr th.rq.userId with _ | j
    · refine ⟨q, ?_, ?_⟩
      · show (added (s.chatRooms r).userList.userInfoList th.rs.userId q).ptr th.rq.userId = some q
        rw [ptr_added, if_pos hok.userId, hok.userId, hold]
        rfl
      · have hrec : ((s.chatRooms r).store q info).records q = info := Function.update_self ..
        rw [hrec, ← hinfo]
        exact hkeys
    · rw [Ready, hp] at hready
      refine ⟨j, (hstay.online hold).1, ?_⟩
      rw [(hstay.online hold).2]
      exact hready j hold
  · rw [Answers, hp]
    rfl

theorem known_turn (h : Server.Rooms (fun _ => Calm) s) (hok : th.Ok s) {cur : Option Ptr}
    (hp : th.place = .known r p cur) (hready : th.Ready s) :
    wp (do
      let tmpGs ← Server.replyLogin r th.rs p
      match cur with
      | none => pure (.remove r tmpGs none)
      | some tmpCurrentUser => pure (.announce r tmpGs tmpCurrentUser))
      (th.TurnOk s) (fun _ => False) False s := by
  have hat := hok.place
  rw [hp] at hat
  obtain ⟨hr, hu, hcur, honline⟩ := hat
  obtain ⟨hgs, hkey⟩ := hok.hasKeys (by rw [hp]; trivial) hr hu
  rw [Ready, hp] at hready
  obtain ⟨gs, hgate⟩ := Option.isSome_iff_exists.mp hready
  have hgate' : s.gate ((s.chatRooms r).records p).gsHashkeyUserOn = some gs := hgs ▸ hgate
  have hgoes : Goes s (s.replied r th.rs p) th.place.hand none none th.leaves := by
    rw [hp]
    exact (goes_self h).congr rfl (fun _ => rfl) rfl rfl
  have hanswers : th.Answers s (s.replied r th.rs p) := by
    rw [Answers, hp]
    refine ⟨gs, hgate, ?_⟩
    rw [Server.replied, hgate', loginReplies_append, hkey]
    rfl
  rw [wp_bind, Server.wp_replyLogin, hgate']
  rcases cur with _ | cur
  · exact ⟨hgoes, ⟨hr, fun e => (honline e).frame hgoes⟩, hanswers, fun _ => stays_at hp trivial (by simp)⟩
  · exact ⟨hgoes, ⟨hr, rfl, (honline (hcur.mpr rfl)).frame hgoes⟩, hanswers, fun _ => stays_at hp trivial (by simp)⟩

/-- What is sent to the users of a room, or to one of them, leaves it as it is. -/
theorem goes_of_sends {ms : List Sent} (h : Server.Rooms (fun _ => Calm) s) (hr : s.room th.rq.roomId = some r)
    (hl : l.locked = false) (hmap : l.userInfoList = (s.chatRooms r).userList.userInfoList)
    (hunused : l.unusedUserInfoList = (s.chatRooms r).userList.unusedUserInfoList) (ht : Server.Sends s t r l ms) :
    Goes s t none none none leave := by
  have hroom : Goes s (s.withList r l) none none none leave := by
    refine goes_withRoom h (h.known hr) ⟨hl, (h.each r).preLocked, ?_, (h.each r).mics⟩ ?_ ?_ fun _ _ => rfl
    · show ¬ none ∈ l.userInfoList.values
      rw [hmap]
      exact (h.each r).full
    · refine ⟨fun hu _ => ⟨hu, rfl⟩, fun hu => ⟨?_, rfl⟩⟩
      show l.userInfoList.ptr _ = _
      rw [hmap]
      exact hu
    · have hstock : stock { s.chatRooms r with userList := l } = stock (s.chatRooms r) := by
        show (l.unusedUserInfoList : Multiset Ptr) + (l.userInfoList.ptrs : Multiset Ptr) + _ = _
        rw [hmap, hunused]
        rfl
      rw [hstock]
  exact hroom.congr ht.unused ht.room ht.nextRoom ht.rooms

theorem values_ne_nil_of_online (h : LoginOnline s r x) : (s.chatRooms r).userList.userInfoList.values ≠ [] := by
  intro hn
  obtain ⟨p, hp, -⟩ := h
  have hnone := StdMap.values_eq_nil.mp hn x.2.userId
  cases hnone.symm.trans (StdMap.ptr_eq_some.mp hp)

theorem announce_turn (h : Server.Rooms (fun _ => Calm) s) (hok : th.Ok s) {gs : Option BaseUserInfo}
    (hp : th.place = .announce r gs q) :
    wp (do
      let online ← Server.record r q
      let _ ← Server.sendDataToRoomAllUser (.userInfo (Server.userInfoOf online)) .userInfo th.rs.roomId
      pure (.list r gs q))
      (th.TurnOk s) (fun _ => False) False s := by
  have hat := hok.place
  rw [hp] at hat
  obtain ⟨hr, hgs, honline⟩ := hat
  have hcalm := h.each r
  have hsends := Server.broadcast_sends (hok.roomId ▸ hr) hcalm.locked hcalm.full (values_ne_nil_of_online honline)
    (.userInfo (Server.userInfoOf ((s.chatRooms r).records q))) .userInfo
  rw [wp_bind, Server.wp_record, wp_bind]
  refine wp_mono hsends (fun _ t ⟨l, hl, hmap, hwalk, ht⟩ => ?_) fun _ h => h
  have hunused : l.unusedUserInfoList = (s.chatRooms r).userList.unusedUserInfoList := by
    have hw := congrArg UserInfoList.unusedUserInfoList hwalk
    rw [Server.walked_unusedUserInfoList, Server.walked_unusedUserInfoList] at hw
    exact hw
  have hgoes : Goes s t th.place.hand none none th.leaves := by
    rw [hp]
    exact goes_of_sends h hr hl hmap hunused ht
  refine ⟨hgoes, ⟨hgoes.room hr, hgs, honline.frame hgoes⟩, ?_, fun _ => stays_at hp trivial (by simp)⟩
  rw [Answers, hp]
  show loginReplies t.sent = _
  rw [ht.sent, loginReplies_append, Server.broadcastSent]
  split
  · exact List.append_nil _
  · rw [Server.loginReplies_toUser, List.append_nil]

theorem list_turn (h : Server.Rooms (fun _ => Calm) s) (hok : th.Ok s) {gs : Option BaseUserInfo}
    (hp : th.place = .list r gs q) :
    wp (do
      Server.sendUserList r th.rs gs q
      pure (.remove r gs (some q)))
      (th.TurnOk s) (fun _ => False) False s := by
  have hat := hok.place
  rw [hp] at hat
  obtain ⟨hr, hgs, honline⟩ := hat
  obtain ⟨gs, rfl⟩ := Option.isSome_iff_exists.mp hgs
  have hcalm := h.each r
  have hvalues := values_ne_nil_of_online honline
  rw [wp_bind]
  refine wp_mono (Server.sendUserList_sends hcalm.locked hcalm.full hvalues) (fun _ t ht => ?_) fun _ h => h
  have hgoes : Goes s t th.place.hand none none th.leaves := by
    rw [hp]
    refine goes_of_sends h hr ?_ (Server.walked_userInfoList _) (Server.walked_unusedUserInfoList _) ht
    rw [walked_of_full hcalm.full hvalues]
  refine ⟨hgoes, ⟨hgoes.room hr, fun _ => honline.frame hgoes⟩, ?_, fun _ => stays_at hp trivial (by simp)⟩
  rw [Answers, hp]
  show loginReplies t.sent = _
  rw [ht.sent, loginReplies_append, Server.listsSent, Server.loginReplies_toCurrent, List.append_nil]

/-- A turn that changes the list of the pending users. -/
theorem goes_pre (h : Server.Rooms (fun _ => Calm) s) (hr : s.room th.rq.roomId = some r) (hl : l.locked = false)
    (hu : ∀ u p, (s.chatRooms r).preUserList.userInfoList.ptr u = some p → ¬ leave r u → l.userInfoList.ptr u = some p)
    (ho : stock { s.chatRooms r with preUserList := l } ≤ stock (s.chatRooms r)) :
    Goes s (s.withRoom r { s.chatRooms r with preUserList := l }) none none none leave :=
  goes_withRoom h (h.known hr) ((h.each r).pre hl) ⟨fun hv hg => ⟨hu _ _ hv hg, rfl⟩, fun hv => ⟨hv, rfl⟩⟩
    (by rw [inHand, Multiset.add_zero, Multiset.add_zero]; exact ho) fun _ _ => rfl

theorem remove_turn (h : Server.Rooms (fun _ => Calm) s) (hok : th.Ok s) {gs : Option BaseUserInfo} {cur : Option Ptr}
    (hp : th.place = .remove r gs cur) :
    wp (do
      match ← Server.onRoom r (onPreUserList (UserInfoList.getUserInfo th.rs.userId)) with
      | none => pure (.mics r gs cur)
      | some tmpUser => pure (.erase r gs cur tmpUser))
      (th.TurnOk s) (fun _ => False) False s := by
  have hat := hok.place
  rw [hp] at hat
  obtain ⟨hr, honline⟩ := hat
  obtain ⟨r', p, hr', hu, -⟩ := hok.waits (by rw [hp]; trivial)
  cases hr.symm.trans hr'
  have hu' : (s.chatRooms r).preUserList.userInfoList.ptr th.rs.userId = some p := hok.userId ▸ hu
  rw [wp_bind, Server.wp_onRoom, wp_onPreUserList, UserInfoList.wp_getUserInfo,
    if_neg (h.each r).preFree, hu', StdMap.subscript_of_ptr hu']
  have hgoes : Goes s (s.withRoom r { s.chatRooms r with preUserList := (s.chatRooms r).preUserList }) th.place.hand
      none none th.leaves := by
    rw [hp]
    exact goes_pre h hr (h.each r).preLocked (fun _ _ hv _ => hv) (le_refl _)
  refine ⟨hgoes, ⟨hr, fun e => (honline e).frame hgoes⟩, ?_, fun _ => stays_at hp trivial (by simp)⟩
  rw [Answers, hp]
  rfl

theorem erase_turn (h : Server.Rooms (fun _ => Calm) s) (hok : th.Ok s) {gs : Option BaseUserInfo} {cur : Option Ptr}
    (hp : th.place = .erase r gs cur p) :
    wp (do
      Server.onRoom r (onPreUserList (UserInfoList.removeUser th.rs.userId))
      pure (.push r gs cur p))
      (th.TurnOk s) (fun _ => False) False s := by
  have hat := hok.place
  rw [hp] at hat
  obtain ⟨hr, honline⟩ := hat
  rw [wp_bind, Server.wp_onRoom, wp_onPreUserList, UserInfoList.wp_removeUser,
    if_neg (h.each r).preFree, wp_pure]
  generalize hl : { (s.chatRooms r).preUserList with
    userInfoList := (s.chatRooms r).preUserList.userInfoList.erase th.rs.userId } = l
  have hgoes : Goes s (s.withRoom r { s.chatRooms r with preUserList := l }) th.place.hand none none th.leaves := by
    rw [hp, ← hl]
    refine goes_pre h hr (h.each r).preLocked (fun v p hv hg => ?_) (stock_preErased_le ..)
    refine (StdMap.ptr_erase ..).trans ((if_neg fun e => hg ?_).trans hv)
    rw [leaves, hp]
    exact ⟨rfl, e⟩
  refine ⟨hgoes, ⟨hr, fun e => (honline e).frame hgoes⟩, ?_, False.elim⟩
  rw [Answers, hp]
  rfl

theorem push_turn (h : Server.Rooms (fun _ => Calm) s) (hok : th.Ok s) {gs : Option BaseUserInfo} {cur : Option Ptr}
    (hp : th.place = .push r gs cur p) :
    wp (do
      let _ ← Server.onRoom r (onPreUserList (pushUserInUnusedList p))
      pure (.mics r gs cur))
      (th.TurnOk s) (fun _ => False) False s := by
  have hat := hok.place
  rw [hp] at hat
  obtain ⟨hr, honline⟩ := hat
  rw [wp_bind, Server.wp_onRoom, wp_onPreUserList, UserInfoList.wp_pushUserInUnusedList,
    if_neg (h.each r).preFree, wp_pure]
  generalize hl : { (s.chatRooms r).preUserList with
    unusedUserInfoList := (s.chatRooms r).preUserList.unusedUserInfoList ++ [p] } = l
  have hgoes : Goes s (s.withRoom r { s.chatRooms r with preUserList := l }) th.place.hand none none th.leaves := by
    rw [hp, ← hl]
    exact goes_pre h hr (h.each r).preLocked (fun _ _ hv _ => hv) (le_refl _)
  refine ⟨hgoes, ⟨hr, fun e => (honline e).frame hgoes⟩, ?_, False.elim⟩
  rw [Answers, hp]
  rfl

theorem mics_turn (h : Server.Rooms (fun _ => Calm) s) (hok : th.Ok s) {gs : Option BaseUserInfo} {cur : Option Ptr}
    (hp : th.place = .mics r gs cur) :
    wp (do
      Server.sendMicList r gs cur
      pure .finished)
      (th.TurnOk s) (fun _ => False) False s := by
  have hat := hok.place
  rw [hp] at hat
  obtain ⟨hr, honline⟩ := hat
  rw [wp_bind, Server.wp_sendMicList, if_pos (h.each r).mics]
  refine ⟨?_, fun e => ⟨r, hr, honline e⟩, ?_, False.elim⟩
  · rw [hp]
    exact goes_self h
  · rw [Answers, hp]

/-- Every turn of the thread with a reply has a value. -/
theorem turn_ok (h : Server.Rooms (fun _ => Calm) s) (hok : th.Ok s)
    (ho : ∀ r, (stock (s.chatRooms r) + inHand th.place.hand r).Nodup) (hready : th.Ready s) {y : Act Server ReplyPlace}
    (hy : th.next = some y) : wp y (th.TurnOk s) (fun _ => False) False s := by
  unfold next at hy
  split at hy <;> rename_i hp <;> cases hy
  · exact start_turn h hok hp
  · exact inRoom_turn h hok hp
  · exact found_turn h hok hp (Multiset.nodup_add.mp (ho _)).1 hready
  · exact took_turn h hok hp (ho _) hready
  · exact known_turn h hok hp hready
  · exact announce_turn h hok hp
  · exact list_turn h hok hp
  · exact remove_turn h hok hp
  · exact erase_turn h hok hp
  · exact push_turn h hok hp
  · exact mics_turn h hok hp

end ReplyThread

end Miku.RoomServer
