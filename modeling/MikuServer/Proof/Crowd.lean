import MikuServer.Proof.HoldersMessage

/-!
# A room that fills up

The users 1, 2, … log in to the room 2 one after the other, each with a nickname of 31
bytes (`crowd_run`), and then each of them asks for a microphone (`holding_run`).
-/

namespace Miku.RoomServer

open Act UserInfoList ChatRoom WireFormat

namespace Server

/-- A nickname of 31 bytes. -/
def longName : List Byte := List.replicate 31 65

/-- The login request of the user `u`, who is on the gate with the key 5. -/
def longRequest (u : Int) : StruUserLoginRQ := ⟨u, 2, longName⟩

def longPackage : GateRoomServerPack := ⟨[], 0, 5, 0, [], []⟩

/-- The reply to it. -/
def longReply (u : Int) : StruUserLoginRS := ⟨.userLoginRS, u, 2, 1, 0, 0, 0, 0, 0, 0, 0, 0, 0, 0, 0⟩

/-- The user `u` comes into the room. -/
def comesIn (u : Int) : List Event :=
  [.message (.clientLoginRQ longPackage (longRequest u)), .message (.clientLoginRS (longReply u))]

/-- A room that the users 1, …, `n` have come into. Each took two records. -/
structure Crowd (n : Nat) (room : ChatRoom) : Prop where
  locked : room.userList.locked = false
  preLocked : room.preUserList.locked = false
  full : ¬ none ∈ room.userList.userInfoList.values
  free : room.userList.unusedUserInfoList = List.range' (2 * n) (100000 - 2 * n)
  pending {v : Int} : n < v → room.preUserList.userInfoList.ptr v = none
  new {v : Int} : n < v → room.userList.userInfoList.ptr v = none
  online {v : Int} : 0 < v → v ≤ n → ∃ p < 2 * n, room.userList.userInfoList.ptr v = some p ∧
    (room.records p).nickname.length = 31

variable {n : Nat} {s t : Server} {r : RoomPtr} {room : ChatRoom} {l : UserInfoList} {u : Int}

theorem crowd_createdRoom : Crowd 0 (createdRoom 2) where
  locked := rfl
  preLocked := rfl
  full h := by
    obtain ⟨v, hv⟩ := StdMap.mem_values.mp h
    rw [show (createdRoom 2).userList.userInfoList = .empty from rfl, StdMap.find?_empty] at hv
    cases hv
  free := rfl
  pending _ := StdMap.ptr_empty _
  new _ := StdMap.ptr_empty _
  online h0 hn := absurd hn (not_le.mpr h0)

/-- The room after the request of the user that comes next. -/
def crowdRequested (n : Nat) (room : ChatRoom) : ChatRoom :=
  requested room longPackage (longRequest (n + 1)) (2 * n) (List.range' (2 * n + 1) (99999 - 2 * n))

/-- The room after the reply to it. -/
def crowdLoggedIn (n : Nat) (room : ChatRoom) : ChatRoom :=
  loggedIn (crowdRequested n room) (longReply (n + 1)) (2 * n) (2 * n + 1) (List.range' (2 * n + 2) (99998 - 2 * n))

theorem Crowd.free_cons (h : Crowd n room) (hn : n < 50000) :
    room.userList.unusedUserInfoList = 2 * n :: List.range' (2 * n + 1) (99999 - 2 * n) := by
  rw [h.free, show 100000 - 2 * n = 99999 - 2 * n + 1 by omega, List.range'_succ]

theorem crowdRequested_free (room : ChatRoom) (hn : n < 50000) :
    (crowdRequested n room).userList.unusedUserInfoList =
      (2 * n + 1) :: List.range' (2 * n + 2) (99998 - 2 * n) := by
  show List.range' (2 * n + 1) (99999 - 2 * n) = _
  rw [show 99999 - 2 * n = 99998 - 2 * n + 1 by omega, List.range'_succ]

theorem crowdRequested_pending (h : Crowd n room) :
    (crowdRequested n room).preUserList.userInfoList.ptr (n + 1) = some (2 * n) := by
  show (added room.preUserList.userInfoList (n + 1) (2 * n)).ptr (n + 1) = _
  rw [ptr_added, if_pos rfl, h.pending (by omega)]
  rfl

theorem crowdLoggedIn_record (room : ChatRoom) :
    ((crowdLoggedIn n room).records (2 * n + 1)).nickname.length = 31 := by
  have hrec : (crowdLoggedIn n room).records (2 * n + 1) =
      loginInfo (longReply (n + 1)) (pendingInfo longPackage (longRequest (n + 1))) := by
    simp [crowdLoggedIn, loggedIn, crowdRequested, requested, filled, store, took]
  have hname : (loginInfo (longReply (n + 1)) (pendingInfo longPackage (longRequest (n + 1)))).userNickname =
      longName ++ 0 :: [] := rfl
  rw [hrec, nickname_eq hname]
  decide

theorem crowdLoggedIn_record_of_lt (room : ChatRoom) {p : Nat} (hp : p < 2 * n) :
    (crowdLoggedIn n room).records p = room.records p := by
  have h1 : p ≠ 2 * n := by omega
  have h2 : p ≠ 2 * n + 1 := by omega
  simp [crowdLoggedIn, loggedIn, crowdRequested, requested, filled, store, took, Function.update_of_ne h1,
    Function.update_of_ne h2]

theorem Crowd.loggedIn_online (h : Crowd n room) {v : Int} (h0 : 0 < v) (hv : v ≤ n) :
    ∃ p < 2 * n, (crowdLoggedIn n room).userList.userInfoList.ptr v = some p ∧
      ((crowdLoggedIn n room).records p).nickname.length = 31 := by
  obtain ⟨p, hp, hptr, hname⟩ := h.online h0 hv
  refine ⟨p, hp, ?_, ?_⟩
  · show (added room.userList.userInfoList (n + 1) (2 * n + 1)).ptr v = some p
    rw [ptr_added, if_neg (by omega), hptr]
  · rw [crowdLoggedIn_record_of_lt room hp, hname]

/-- The next user has come in. -/
theorem Crowd.next (h : Crowd n room) (hl : l.locked = false)
    (hmap : l.userInfoList = (crowdLoggedIn n room).userList.userInfoList)
    (hfree : l.unusedUserInfoList = (crowdLoggedIn n room).userList.unusedUserInfoList) :
    Crowd (n + 1) { endedLogin (crowdLoggedIn n room) (n + 1) with userList := l } where
  locked := hl
  preLocked := by
    show (endedLogin (crowdLoggedIn n room) (n + 1)).preUserList.locked = false
    rw [endedLogin_preLocked]
    exact h.preLocked
  full := by
    show ¬ none ∈ l.userInfoList.values
    rw [hmap]
    show ¬ none ∈ (added room.userList.userInfoList (n + 1) (2 * n + 1)).values
    rw [none_mem_added]
    exact fun ⟨v, _, hv⟩ => h.full (StdMap.mem_values.mpr ⟨v, hv⟩)
  free := by
    show l.unusedUserInfoList = _
    rw [hfree, show 100000 - 2 * (n + 1) = 99998 - 2 * n by omega]
    rfl
  pending {v} hv := by
    have hp : (crowdLoggedIn n room).preUserList.userInfoList.ptr (n + 1) = some (2 * n) := crowdRequested_pending h
    show (endedLogin (crowdLoggedIn n room) (n + 1)).preUserList.userInfoList.ptr v = none
    simp only [endedLogin, hp, released]
    show ((added room.preUserList.userInfoList (n + 1) (2 * n)).erase (n + 1)).ptr v = none
    rw [StdMap.ptr_erase, if_neg (by omega), ptr_added, if_neg (by omega), h.pending (by omega)]
  new {v} hv := by
    show l.userInfoList.ptr v = none
    rw [hmap]
    show (added room.userList.userInfoList (n + 1) (2 * n + 1)).ptr v = none
    rw [ptr_added, if_neg (by omega), h.new (by omega)]
  online {v} h0 hv := by
    show ∃ p < 2 * (n + 1), l.userInfoList.ptr v = some p ∧ ((crowdLoggedIn n room).records p).nickname.length = 31
    rw [hmap]
    by_cases he : (n + 1 : Int) = v
    · refine ⟨2 * n + 1, by omega, ?_, crowdLoggedIn_record room⟩
      show (added room.userList.userInfoList (n + 1) (2 * n + 1)).ptr v = _
      rw [ptr_added, if_pos he, h.new (by omega)]
      rfl
    · obtain ⟨p, hp, honline⟩ := h.loggedIn_online h0 (show v ≤ n by omega)
      exact ⟨p, by omega, honline⟩

/-! ## The logins -/

/-- The gate with the key 5 is there, and the room 2 is `room`, or will be when it is made. -/
structure Hosts (room : ChatRoom) (s : Server) : Prop where
  unused : s.roomManager.unusedRoomList = []
  gate : s.gate 5 = some ⟨50, 5⟩
  room : (s.entered 2).2.chatRooms (s.entered 2).1 = room

/-- The room 2 is `r`, and the gate with the key 5 is there. -/
structure HostsAs (r : RoomPtr) (s : Server) : Prop where
  unused : s.roomManager.unusedRoomList = []
  gate : s.gate 5 = some ⟨50, 5⟩
  room : s.room 2 = some r

theorem entered_of_room (h : s.room 2 = some r) : s.entered 2 = (r, s) := by rw [entered, h]

/-- A request of the user that comes next. -/
theorem crowd_request (h : Hosts room s) (hc : Crowd n room) (hn : n < 50000) :
    ∃ r t, clientLoginRQ longPackage (longRequest (n + 1)) s = .done () t ∧ HostsAs r t ∧
      t.chatRooms r = crowdRequested n room := by
  have hwp : wp (clientLoginRQ longPackage (longRequest (n + 1))) (fun _ t => HostsAs (s.entered 2).1 t ∧
      t.chatRooms (s.entered 2).1 = crowdRequested n room) (fun _ => False) False s := by
    have hunused : (s.entered 2).2.roomManager.unusedRoomList = [] ∧ (s.entered 2).2.gate 5 = some ⟨50, 5⟩ := by
      unfold entered
      split
      · exact ⟨h.unused, h.gate⟩
      · exact ⟨h.unused, h.gate⟩
    have hself := entered_self s 2
    have hroom := h.room
    rw [wp_clientLoginRQ h.unused, show (longRequest (n + 1)).roomId = 2 from rfl]
    generalize s.entered 2 = e at hunused hself hroom
    obtain ⟨r, t⟩ := e
    dsimp only at hunused hself hroom ⊢
    have hname : (longRequest (n + 1)).userAccountName.length ≤ 0x20 := show longName.length ≤ 0x20 by decide
    rw [hroom, hc.locked, if_neg Bool.false_ne_true, hc.free_cons hn]
    dsimp only
    rw [if_pos hname, hc.preLocked, if_neg Bool.false_ne_true]
    exact ⟨⟨hunused.1, hunused.2, hself⟩, withRoom_same t r _⟩
  obtain ⟨t, ht, hr⟩ := wp_total_unit.mp hwp
  exact ⟨_, t, ht, hr⟩

theorem wp_crowd_reply {Q : Unit → Server → Prop} {B : Server → Prop} {F : Prop} (hs : s.room 2 = some r)
    (hroom : s.chatRooms r = crowdRequested n room) (hc : Crowd n room) (hn : n < 49999) :
    wp (clientLoginRS (longReply (n + 1))) Q B F s ↔
      wp (answerLogin r (longReply (n + 1)) (2 * n) (some (2 * n + 1))) Q B F (s.withRoom r (crowdLoggedIn n room)) := by
  have hlocked : (crowdRequested n room).userList.locked = false := hc.locked
  have hpre : (crowdRequested n room).preUserList.locked = false := hc.preLocked
  have hresult : (longReply (n + 1)).result = 1 := rfl
  rw [wp_clientLoginRS, show (longReply (n + 1)).roomId = 2 from rfl, hs]
  dsimp only
  rw [hroom, hpre, if_neg Bool.false_ne_true, show (longReply (n + 1)).userId = n + 1 from rfl,
    crowdRequested_pending hc]
  dsimp only
  rw [if_pos hresult, hlocked, if_neg Bool.false_ne_true, crowdRequested_free room (by omega)]
  rfl

theorem crowdLoggedIn_gate (room : ChatRoom) : ((crowdLoggedIn n room).records (2 * n)).gsHashkeyUserOn = 5 := by
  have hrec : (crowdLoggedIn n room).records (2 * n) = pendingInfo longPackage (longRequest (n + 1)) := by
    simp [crowdLoggedIn, loggedIn, crowdRequested, requested, filled, store, took]
  rw [hrec]
  rfl

theorem crowdLoggedIn_full (hc : Crowd n room) : ¬ none ∈ (crowdLoggedIn n room).userList.userInfoList.values := by
  show ¬ none ∈ (added room.userList.userInfoList (n + 1) (2 * n + 1)).values
  rw [none_mem_added]
  exact fun ⟨v, _, hv⟩ => hc.full (StdMap.mem_values.mpr ⟨v, hv⟩)

theorem crowdLoggedIn_values (room : ChatRoom) : (crowdLoggedIn n room).userList.userInfoList.values ≠ [] :=
  values_added_ne_nil _ _ _

theorem crowdLoggedIn_mics (room : ChatRoom) : (crowdLoggedIn n room).videoChannelList = room.videoChannelList := by
  simp only [crowdLoggedIn, loggedIn, crowdRequested, requested, filled, store, took]

theorem crowdLoggedIn_locked (hc : Crowd n room) : (crowdLoggedIn n room).userList.locked = false := by
  simp only [crowdLoggedIn, loggedIn, crowdRequested, requested, filled, store, took, hc.locked]

theorem crowdLoggedIn_preLocked (hc : Crowd n room) : (crowdLoggedIn n room).preUserList.locked = false := by
  simp only [crowdLoggedIn, loggedIn, crowdRequested, requested, filled, store, took, hc.preLocked]

theorem crowd_reply (h : HostsAs r s) (hroom : s.chatRooms r = crowdRequested n room) (hc : Crowd n room)
    (hn : n < 49999) (hm : room.videoChannelList.toList = []) :
    ∃ t, clientLoginRS (longReply (n + 1)) s = .done () t ∧ HostsAs r t ∧ Crowd (n + 1) (t.chatRooms r) ∧
      (t.chatRooms r).videoChannelList.toList = [] := by
  refine wp_total_unit.mp ((wp_crowd_reply h.room hroom hc hn).mpr ?_)
  have hsame := withRoom_same s r (crowdLoggedIn n room)
  refine wp_mono (answerLogin_quiet h.room ?_ ?_ ?_ (?_ : _ = some ⟨50, 5⟩) fun _ => ⟨?_, ?_⟩)
    (fun _ t ht => ?_) fun _ h => h
  · rw [hsame, crowdLoggedIn_locked hc]
  · rw [hsame, crowdLoggedIn_preLocked hc]
  · rw [hsame, crowdLoggedIn_mics, hm]
  · rw [hsame, crowdLoggedIn_gate]
    exact h.gate
  · rw [hsame]
    exact crowdLoggedIn_full hc
  · rw [hsame]
    exact crowdLoggedIn_values room
  · obtain ⟨l, hl, hmap, hfree, htables, hrooms, -⟩ := ht
    rw [hsame] at hmap hfree hrooms
    refine ⟨⟨htables.unused.trans h.unused, (htables.gate 5).trans h.gate, (htables.room 2).trans h.room⟩, ?_⟩
    rw [hrooms, withRoom_same]
    refine ⟨hc.next hl hmap hfree, ?_⟩
    show (crowdLoggedIn n room).videoChannelList.toList = []
    rw [crowdLoggedIn_mics, hm]

theorem run_message {m : Message} (h : handle m s = .done () t) (es : List Event) :
    run s (.message m :: es) = run t es := by
  have hstep : step s (.message m) = some t := by
    show step.after (handle m) s = some t
    rw [step.after, h]
  show (step s (.message m)).bind _ = _
  rw [hstep]
  rfl

theorem HostsAs.hosts (h : HostsAs r s) : Hosts (s.chatRooms r) s := ⟨h.unused, h.gate, by rw [entered_of_room h.room]⟩

/-- The next user comes in. -/
theorem crowd_comesIn (h : Hosts room s) (hc : Crowd n room) (hn : n < 49999)
    (hm : room.videoChannelList.toList = []) :
    ∃ r t, run s (comesIn (n + 1)) = some t ∧ HostsAs r t ∧ Crowd (n + 1) (t.chatRooms r) ∧
      (t.chatRooms r).videoChannelList.toList = [] := by
  obtain ⟨r, s₁, h₁, hhosts, hroom⟩ := crowd_request h hc (by omega)
  obtain ⟨t, h₂, ht⟩ := crowd_reply hhosts hroom hc hn hm
  have hrequest := run_message (m := .clientLoginRQ longPackage (longRequest (n + 1))) h₁
  have hreply := run_message (m := .clientLoginRS (longReply (n + 1))) h₂
  exact ⟨r, t, (hrequest _).trans (hreply []), ht⟩

/-- The gate with the key 5, and the users 1, …, `n`, who log in through it. -/
def crowd (n : Nat) : List Event := .connect 5 50 :: (List.range n).flatMap fun i : Nat => comesIn (i + 1)

theorem crowd_connect : ∃ s, run .new (crowd 0) = some s ∧ Hosts (createdRoom 2) s := by
  have hconnect : ∃ s, s ∈ run .new (crowd 0) ∧ s.roomManager.unusedRoomList = [] ∧ s.gate 5 = some ⟨50, 5⟩ ∧
      s.room 2 = none := by
    decide +kernel
  obtain ⟨s, hs, hu, hg, hr⟩ := hconnect
  refine ⟨s, hs, hu, hg, ?_⟩
  rw [entered, hr]
  exact Function.update_self ..

theorem crowd_succ (n : Nat) : crowd (n + 1) = crowd n ++ comesIn (n + 1) := by
  rw [crowd, List.range_succ, List.flatMap_append, crowd, List.cons_append, List.flatMap_singleton]

/-- All of them are online. -/
theorem crowd_run (hn : n < 49999) : ∃ s room, run .new (crowd n) = some s ∧ Hosts room s ∧ Crowd n room ∧
    room.videoChannelList.toList = [] := by
  induction n with
  | zero =>
    obtain ⟨s, hs, hh⟩ := crowd_connect
    exact ⟨s, _, hs, hh, crowd_createdRoom, StdMap.toList_eq_nil.mpr fun _ => StdMap.find?_empty _⟩
  | succ n ih =>
    obtain ⟨s, room, hs, hh, hc, hm⟩ := ih (by omega)
    obtain ⟨r, t, ht, hhosts, hroom⟩ := crowd_comesIn hh hc (by omega) hm
    refine ⟨t, t.chatRooms r, ?_, hhosts.hosts, hroom⟩
    rw [crowd_succ, run_append hs, ht]

/-! ## The microphones -/

/-- The users 1, …, `k` have asked for a microphone. -/
def HeldBy (k : Nat) (room : ChatRoom) : Prop :=
  ∀ v : Int, (room.videoChannelList.find? v).isSome ↔ 0 < v ∧ v ≤ k

theorem applied_isSome (room : ChatRoom) (u : Int) :
    ∃ c list, userApplyOneNewVideo u room = .done [] { room with startChannelId := c, videoChannelList := list } ∧
      ∀ v, (list.find? v).isSome ↔ v = u ∨ (room.videoChannelList.find? v).isSome := by
  have hsub (v : Int) : ((room.videoChannelList.subscript u []).find? v).isSome ↔
      v = u ∨ (room.videoChannelList.find? v).isSome := by
    rw [StdMap.find?_subscript]
    split
    · rename_i h
      exact iff_of_true rfl (.inl h.1.symm)
    · rename_i h
      refine ⟨.inr, fun hv => hv.elim (fun e => ?_) id⟩
      subst e
      exact Option.isSome_iff_ne_none.mpr fun hnone => h ⟨rfl, hnone⟩
  unfold userApplyOneNewVideo ofFun
  dsimp only
  split
  · exact ⟨_, _, rfl, hsub⟩
  · refine ⟨_, _, rfl, fun v => ?_⟩
    rw [StdMap.find?_assign]
    split
    · rename_i h
      exact iff_of_true rfl (.inl h.symm)
    · exact hsub v

theorem crowd_apply (h : HostsAs r s) (hc : Crowd n (s.chatRooms r)) {k : Nat} (hk : HeldBy k (s.chatRooms r))
    (hkn : k < n) : ∃ t, userApplyMicRQ ⟨k + 1, 2⟩ s = .done () t ∧ HostsAs r t ∧ Crowd n (t.chatRooms r) ∧
      HeldBy (k + 1) (t.chatRooms r) := by
  refine wp_total_unit.mp ?_
  obtain ⟨p, -, hp, -⟩ := hc.online (v := k + 1) (by omega) (by omega)
  obtain ⟨c, list, happly, hlist⟩ := applied_isSome (s.chatRooms r) (k + 1)
  rw [userApplyMicRQ, wp_forRoomUser, h.room]
  dsimp only
  rw [hc.locked, if_neg Bool.false_ne_true, hp]
  dsimp only
  rw [getRoomID, wp_bind, wp_read, wp_bind, wp_onRoom, wp_done happly, if_pos rfl, wp_bind, wp_record, wp_send]
  refine ⟨⟨h.unused, h.gate, h.room⟩, ?_⟩
  show Crowd n ((s.withRoom r _).chatRooms r) ∧ HeldBy (k + 1) ((s.withRoom r _).chatRooms r)
  rw [withRoom_same]
  refine ⟨⟨hc.locked, hc.preLocked, hc.full, hc.free, hc.pending, hc.new, hc.online⟩, fun v => ?_⟩
  rw [hlist, hk v]
  omega

/-- The users 1, …, `n` ask for a microphone. -/
def asking (n : Nat) : List Event := (List.range n).map fun i : Nat => .message (.userApplyMicRQ ⟨i + 1, 2⟩)

theorem asking_succ (n : Nat) : asking (n + 1) = asking n ++ [.message (.userApplyMicRQ ⟨n + 1, 2⟩)] := by
  rw [asking, List.range_succ, List.map_append, asking, List.map_singleton]

theorem asking_run (h : HostsAs r s) (hc : Crowd n (s.chatRooms r)) (hm : (s.chatRooms r).videoChannelList.toList = [])
    {k : Nat} (hk : k ≤ n) : ∃ t, run s (asking k) = some t ∧ HostsAs r t ∧ Crowd n (t.chatRooms r) ∧
      HeldBy k (t.chatRooms r) := by
  induction k with
  | zero =>
    refine ⟨s, rfl, h, hc, fun v => ?_⟩
    rw [StdMap.toList_eq_nil.mp hm v]
    simp
  | succ k ih =>
    obtain ⟨t, ht, hh, hc', hheld⟩ := ih (by omega)
    obtain ⟨t', ht', hnext⟩ := crowd_apply hh hc' hheld hk
    refine ⟨t', ?_, hnext⟩
    rw [asking_succ, run_append ht]
    exact run_message (m := .userApplyMicRQ ⟨k + 1, 2⟩) ht' []

theorem HeldBy.length (h : HeldBy n room) : n ≤ room.videoChannelList.toList.length := by
  have hsub : (List.range n).map (fun i : Nat => (i + 1 : Int)) ⊆ room.videoChannelList.toList.map Prod.fst := by
    intro v hv
    obtain ⟨i, hi, rfl⟩ := List.mem_map.mp hv
    have hi := List.mem_range.mp hi
    obtain ⟨channel, hchannel⟩ := Option.isSome_iff_exists.mp ((h (i + 1)).mpr (by omega))
    exact List.mem_map.mpr ⟨_, StdMap.mem_toList.mpr hchannel, rfl⟩
  have hnodup : ((List.range n).map fun i : Nat => (i + 1 : Int)).Nodup :=
    List.nodup_range.map fun i j hij => by simpa using hij
  have hle := (List.subperm_of_subset hnodup hsub).length_le
  rwa [List.length_map, List.length_map, List.length_range] at hle

/-- A message with holders who have nicknames of 31 bytes. -/
theorem le_byteSize_holdersMessage (h : ∀ mic ∈ room.videoChannelList.toList, ∃ p,
      room.userList.userInfoList.ptr mic.1 = some p ∧ (room.records p).nickname.length = 31) (cur : Ptr) :
    room.videoChannelList.toList.length * 42 ≤ (holdersMessage room cur).byteSize := by
  have hlen : (room.videoChannelList.toList.filterMap (micInfo room)).length = room.videoChannelList.toList.length := by
    refine List.filterMap_length_eq_length.mpr fun mic hmic => ?_
    obtain ⟨p, hp, -⟩ := h mic hmic
    rw [micInfo, hp]
    rfl
  have heach : ∀ k ∈ (room.videoChannelList.toList.filterMap (micInfo room)).map fun e => stringSize e.byteSize, 41 ≤ k := by
    intro k hk
    obtain ⟨e, he, rfl⟩ := List.mem_map.mp hk
    obtain ⟨mic, hmic, hinfo⟩ := List.mem_filterMap.mp he
    obtain ⟨p, hp, hname⟩ := h mic hmic
    rw [micInfo, hp, Option.map_some, Option.some.injEq] at hinfo
    have hid := int32Size_pos (room.records p).userId
    have hchannel := lt_stringSize mic.2.length
    have hlt := lt_stringSize e.byteSize
    have hsize : 40 ≤ e.byteSize := by
      rw [← hinfo, StruMicInfo.byteSize]
      simp only [fieldsSize_cons, fieldsSize_nil, enumMsgID_size, hname, stringSize_of_lt (show 31 < 2 ^ 7 by decide)]
      omega
    omega
  have hle := le_fieldsSize heach
  rw [List.length_map, hlen] at hle
  rw [StruRoomMicInfoID.byteSize, fieldsSize_append]
  exact Nat.le_trans hle (Nat.le_add_left _ _)

theorem crowdLoggedIn_message (hc : Crowd n room) (hk : HeldBy n room) (cur : Ptr) :
    n * 42 ≤ (holdersMessage (crowdLoggedIn n room) cur).byteSize := by
  have hlength : n ≤ (crowdLoggedIn n room).videoChannelList.toList.length := by
    rw [crowdLoggedIn_mics]
    exact hk.length
  refine (Nat.mul_le_mul_right 42 hlength).trans (le_byteSize_holdersMessage (fun mic hmic => ?_) cur)
  rw [crowdLoggedIn_mics] at hmic
  have hheld := (hk mic.1).mp (Option.isSome_iff_exists.mpr ⟨mic.2, StdMap.mem_toList.mp hmic⟩)
  obtain ⟨p, -, honline⟩ := hc.loggedIn_online hheld.1 hheld.2
  exact ⟨p, honline⟩

/-- A message with microphone holders of `size` bytes or more was sent. -/
def SentHolders (size : Nat) (s : Server) : Prop :=
  ∃ list fd key, .toGS (.roomMicInfoID list) .roomMicInfoID fd key ∈ s.sent ∧ size ≤ list.byteSize

/-- The next user comes into a room where `n` users hold microphones. -/
theorem crowd_message (h : HostsAs r s) (hroom : s.chatRooms r = crowdRequested n room) (hc : Crowd n room)
    (hk : HeldBy n room) (h0 : 0 < n) (hn : n < 49999) :
    ∃ t, clientLoginRS (longReply (n + 1)) s = .done () t ∧ SentHolders (n * 42) t := by
  refine wp_total_unit.mp ((wp_crowd_reply h.room hroom hc hn).mpr ?_)
  have hsame := withRoom_same s r (crowdLoggedIn n room)
  have hgate : (s.withRoom r (crowdLoggedIn n room)).gate
      (((s.withRoom r (crowdLoggedIn n room)).chatRooms r).records (2 * n)).gsHashkeyUserOn = some ⟨50, 5⟩ := by
    rw [hsame, crowdLoggedIn_gate]
    exact h.gate
  have hmics : (crowdLoggedIn n room).videoChannelList.toList ≠ [] := by
    rw [crowdLoggedIn_mics]
    exact List.ne_nil_of_length_pos (Nat.lt_of_lt_of_le h0 hk.length)
  have hroom' : (s.withRoom r (crowdLoggedIn n room)).room (longReply (n + 1)).roomId = some r := h.room
  have hreplied : Answering (s.withRoom r (crowdLoggedIn n room))
      ((s.withRoom r (crowdLoggedIn n room)).replied r (longReply (n + 1)) (2 * n)) r _ _ := replied_answering hgate
  rw [answerLogin, wp_bind, wp_replyLogin, hgate, wp_bind, announceLogin, wp_bind, wp_record, wp_bind]
  generalize s.withRoom r (crowdLoggedIn n room) = s₀ at hsame hroom' hreplied ⊢
  rw [hsame] at hreplied
  have hfull := crowdLoggedIn_full hc
  have hvalues := crowdLoggedIn_values (n := n) room
  refine wp_mono (broadcast_answering hreplied (crowdLoggedIn_locked hc) hroom' hfull hvalues _) (fun _ t₁ h₁ => ?_)
    fun _ h => h
  obtain ⟨l, hl, hmap, -, h₁⟩ := h₁
  refine wp_mono (sendUserList_answering h₁ hl (hmap ▸ hfull) (hmap ▸ hvalues)) (fun _ t₂ h₂ => ?_) fun _ h => h
  have hwalked : l.walked.locked = false := by rw [walked_of_full (hmap ▸ hfull) (hmap ▸ hvalues)]
  refine wp_mono (endLogin_message h₂ hwalked ?_ ?_ ?_ (n + 1) ⟨50, 5⟩ (2 * n + 1)) (fun _ t ht => ?_) fun _ h => h
  · rw [walked_userInfoList, hmap, hsame]
  · rw [hsame, crowdLoggedIn_preLocked hc]
  · rw [hsame]
    exact hmics
  · obtain ⟨key, hsent⟩ := ht
    rw [hsame] at hsent
    exact ⟨_, _, key, hsent, crowdLoggedIn_message hc hk _⟩

/-- `n` users come into the room and ask for a microphone, and then one more user comes in. -/
def crowded (n : Nat) : List Event := crowd n ++ asking n ++ comesIn (n + 1)

theorem crowded_run (h0 : 0 < n) (hn : n < 49999) :
    ∃ s, run .new (crowded n) = some s ∧ SentHolders (n * 42) s := by
  obtain ⟨k, rfl⟩ : ∃ k, n = k + 1 := ⟨n - 1, by omega⟩
  obtain ⟨s, room, hs, hh, hc, hm⟩ := crowd_run (n := k) (by omega)
  obtain ⟨r, s₁, hs₁, hh₁, hc₁, hm₁⟩ := crowd_comesIn hh hc (by omega) hm
  obtain ⟨s₂, hs₂, hh₂, hc₂, hk⟩ := asking_run hh₁ hc₁ hm₁ (le_refl (k + 1))
  obtain ⟨q, s₃, hs₃, hh₃, hroom⟩ := crowd_request hh₂.hosts hc₂ (by omega)
  obtain ⟨t, ht, hsent⟩ := crowd_message hh₃ hroom hc₂ hk h0 hn
  refine ⟨t, ?_, hsent⟩
  have hrequest := run_message (m := .clientLoginRQ longPackage (longRequest ((k + 1 : Nat) + 1))) hs₃
  have hreply := run_message (m := .clientLoginRS (longReply ((k + 1 : Nat) + 1))) ht
  rw [crowded, List.append_assoc, crowd_succ, List.append_assoc, run_append hs, run_append hs₁, run_append hs₂]
  exact (hrequest _).trans (hreply [])

theorem fromFrame_comesIn (u : Int) : ∀ e ∈ comesIn u, FromFrame e := by
  intro e he
  rcases List.mem_cons.mp he with rfl | he
  · exact show longName.length ≤ 31 by decide
  · rw [List.mem_singleton.mp he]
    trivial

theorem fromFrame_crowded (n : Nat) : ∀ e ∈ crowded n, FromFrame e := by
  intro e he
  rcases List.mem_append.mp he with he | he
  · rcases List.mem_append.mp he with he | he
    · rcases List.mem_cons.mp he with rfl | he
      · trivial
      · obtain ⟨i, -, hi⟩ := List.mem_flatMap.mp he
        exact fromFrame_comesIn _ e hi
    · obtain ⟨i, -, rfl⟩ := List.mem_map.mp he
      trivial
  · exact fromFrame_comesIn _ e he

end Server

end Miku.RoomServer
