import MikuServer.Proof.RoomInvariant

/-!
# Microphone holders

Who asks for a microphone is entered in the table of the holders, and is never
given a channel (`not_canApply`). `UserExitRoomID::Execute` leaves the table as
it is. `holders_iff` says in which runs the holders are online in every state.
-/

namespace Miku.RoomServer

open Act UserInfoList ChatRoom
open Server (Event Message Rooms Kept KeepsRooms run)

/-- The user `u` is in the room. -/
def Online (room : ChatRoom) (u : Int) : Prop := (room.userList.userInfoList.ptr u).isSome

/-- `u` would be given a channel. -/
def CanApply (room : ChatRoom) (u : Int) : Prop :=
  ∃ channel room', userApplyOneNewVideo u room = .done channel room' ∧ channel ≠ []

/-- No channel is given, and only the entry of `u` is written. -/
theorem applied_nothing (room : ChatRoom) (u : Int) :
    ∃ n list, userApplyOneNewVideo u room = .done [] { room with startChannelId := n, videoChannelList := list } ∧
      ∀ v, v ≠ u → list.find? v = room.videoChannelList.find? v := by
  have hsub {v : Int} (hv : v ≠ u) : (room.videoChannelList.subscript u []).find? v = room.videoChannelList.find? v := by
    rw [StdMap.find?_subscript, if_neg fun h => hv h.1.symm]
  unfold userApplyOneNewVideo ofFun
  dsimp only
  split
  · exact ⟨_, _, rfl, fun v hv => hsub hv⟩
  · refine ⟨_, _, rfl, fun v hv => ?_⟩
    rw [StdMap.find?_assign, if_neg (Ne.symm hv), hsub hv]

theorem not_canApply (room : ChatRoom) (u : Int) : ¬ CanApply room u := fun ⟨channel, room', h, hne⟩ => by
  unfold userApplyOneNewVideo ofFun at h
  dsimp only at h
  split at h
  · cases h
    exact hne rfl
  · cases h
    exact hne rfl

/-- The holders of a room are online, and who has left it is not. -/
def Holders (left : RoomPtr → Int → Prop) (r : RoomPtr) (room : ChatRoom) : Prop :=
  (∀ u channel, room.videoChannelList.find? u = some channel → Online room u) ∧ ∀ u, left r u → ¬ Online room u

/-- A room with the same holders, and the same users. -/
theorem Holders.congr {left : RoomPtr → Int → Prop} {r : RoomPtr} {room room' : ChatRoom} (h : Holders left r room)
    (hv : room'.videoChannelList = room.videoChannelList) (ho : ∀ u, Online room' u ↔ Online room u) :
    Holders left r room' :=
  ⟨fun u channel hu => (ho u).mpr (h.1 u channel (hv ▸ hu)), fun u hu => mt (ho u).mp (h.2 u hu)⟩

/-- An invariant of what the users of a room and the holders are. -/
theorem invariant_of_congr {P : RoomPtr → ChatRoom → Prop} (h : ∀ {r : RoomPtr} {room room' : ChatRoom}, P r room →
    room'.videoChannelList = room.videoChannelList → (∀ u, Online room' u ↔ Online room u) → P r room') :
    RoomInvariant P where
  ids _ _ hP := h hP rfl fun _ => Iff.rfl
  took hP _ _ := h hP rfl fun _ => Iff.rfl
  store _ _ hP := h hP rfl fun _ => Iff.rfl
  lookedUp u hP _ := h hP rfl fun v => by rw [Online, lookedUp_ptr, Online]
  walked hP _ := h hP rfl fun v => by rw [Online, Server.walked_userInfoList, Online]
  pre _ hP := h hP rfl fun _ => Iff.rfl

/-! ## Channels -/

/-- The channel of `u`, who holds it. -/
def HoldsChannel (room : ChatRoom) (u : Int) (channel : List Byte) : Prop :=
  room.videoChannelList.find? u = some channel ∧ channel ≠ []

/-- `UserApplyOneNewVideo(u)` returns the empty string exactly if `u` holds a channel, and else a channel
that is not empty and that no other holder has, which it records for `u` and for nobody else. -/
def Allocates (room : ChatRoom) (u : Int) : Prop :=
  ∃ channel room', userApplyOneNewVideo u room = .done channel room' ∧
    (channel = [] ↔ ∃ c, HoldsChannel room u c) ∧
    ((¬ ∃ c, HoldsChannel room u c) → channel ≠ [] ∧ (∀ v c, v ≠ u → HoldsChannel room v c → channel ≠ c) ∧
      room'.videoChannelList.find? u = some channel ∧ room'.roomId = room.roomId ∧
      ∀ v, v ≠ u → room'.videoChannelList.find? v = room.videoChannelList.find? v)

/-- In a room whatever, `UserApplyOneNewVideo` does what it ought to exactly for who holds a channel. -/
theorem allocates_iff (room : ChatRoom) (u : Int) : Allocates room u ↔ ∃ c, HoldsChannel room u c := by
  obtain ⟨n, list, h, -⟩ := applied_nothing room u
  refine ⟨fun ⟨channel, room', h', hiff, _⟩ => ?_, fun hc => ?_⟩
  · rw [h, Outcome.done.injEq] at h'
    exact hiff.mp h'.1.symm
  · exact ⟨[], _, h, iff_of_true rfl hc, fun hn => absurd hc hn⟩

/-- Nobody holds a channel. -/
def NoChannel (_ : RoomPtr) (room : ChatRoom) : Prop := ∀ u c, ¬ HoldsChannel room u c

/-- Who has an entry has the empty string. -/
theorem NoChannel.eq_nil {r : RoomPtr} {room : ChatRoom} (h : NoChannel r room) {u : Int} {c : List Byte}
    (hu : room.videoChannelList.find? u = some c) : c = [] :=
  not_not.mp fun hne => h u c ⟨hu, hne⟩

theorem noChannel_invariant : RoomInvariant NoChannel :=
  invariant_of_congr fun h hv _ u c ⟨hu, hne⟩ => h u c ⟨hv ▸ hu, hne⟩

theorem noChannel_applied {r : RoomPtr} {room : ChatRoom} (h : NoChannel r room) (u : Int) :
    wp (userApplyOneNewVideo u) (fun _ => NoChannel r) (NoChannel r) True room := by
  have hsub : ∀ v c, (room.videoChannelList.subscript u []).find? v = some c → c = [] := by
    intro v c hv
    rw [StdMap.find?_subscript] at hv
    split at hv
    · cases hv
      rfl
    · exact h.eq_nil hv
  rw [userApplyOneNewVideo, wp_ofFun]
  dsimp only
  split
  · exact fun v c hv => hv.2 (hsub v c hv.1)
  · refine fun v c hv => hv.2 ?_
    obtain ⟨hv, -⟩ := hv
    rw [StdMap.find?_assign] at hv
    split at hv
    · cases hv
      rfl
    · exact hsub v c hv

theorem kept_noChannel {s : Server} (hR : Rooms NoChannel s) (m : Message) : Kept NoChannel s m := by
  cases m with
  | userExitRoomID m => exact fun r p _ _ _ => hR.each r
  | userApplyMicRQ rq => exact fun r p _ _ => noChannel_applied (hR.each r) rq.userId
  | userOffMicRQ rq =>
    rintro r hr u c ⟨hu, hne⟩
    rw [StdMap.find?_erase] at hu
    split at hu
    · cases hu
    · exact hr u c ⟨hu, hne⟩
  | clientLoginRS rs => exact fun r p q rest _ _ _ _ _ _ => hR.each r
  | clientLoginRQ | cancleUserMicRQ | putUserOnMicRQ | userGiveGiftRQ | userSendMsgRQ | userGiveGiftRS => trivial

/-- In no state that is reached is a channel allocated to anybody. -/
theorem not_allocates {s : Server} (hs : Server.Reachable s) (r : RoomPtr) (u : Int) :
    ¬ Allocates (s.chatRooms r) u := by
  obtain ⟨es, hes⟩ := hs
  have hnew : Rooms NoChannel Server.new :=
    Server.rooms_new fun r u c h => by simp [HoldsChannel, ChatRoom.new] at h
  have hR : Rooms NoChannel s :=
    foldlM_inv (fun _ _ _ h e => Server.keeps_step noChannel_invariant h (fun m _ => kept_noChannel h m) e) hnew hes
  rw [allocates_iff]
  rintro ⟨c, hc⟩
  exact hR.each r u c hc

/-- The user 1 is in the room. -/
theorem not_allocates_firstLogin : ∃ s, Server.run .new Server.firstLogin = some s ∧
    (s.chatRooms 0).userList.userInfoList.ptr 1 = some 1 ∧ ¬ Allocates (s.chatRooms 0) 1 := by
  obtain ⟨s, hs, -, hp, -⟩ := Server.firstLogin_online
  exact ⟨s, hs, hp, not_allocates ⟨_, hs⟩ 0 1⟩

/-- The user 1, alone in a room, asks for a channel and gets the empty string. -/
theorem empty_channel : ∃ s, s ∈ run .new Server.firstLogin ∧ (s.chatRooms 0).videoChannelList.find? 1 = none ∧
    (∃ room', userApplyOneNewVideo 1 (s.chatRooms 0) = .done [] room') ∧ ¬ Allocates (s.chatRooms 0) 1 := by
  have hrun : ∃ s, s ∈ run .new Server.firstLogin ∧ (s.chatRooms 0).videoChannelList.find? 1 = none := by
    decide +kernel
  obtain ⟨s, hs, hv⟩ := hrun
  obtain ⟨n, list, h, -⟩ := applied_nothing (s.chatRooms 0) 1
  refine ⟨s, hs, hv, ⟨_, h⟩, fun ha => ?_⟩
  obtain ⟨c, hc, -⟩ := (allocates_iff _ _).mp ha
  rw [hv] at hc
  cases hc

/-! ## Runs -/

/-- The server, and the users that were online in a room and left it. -/
structure History where
  server : Server
  left : RoomPtr → Int → Prop

namespace History

def start : History := ⟨.new, fun _ _ => False⟩

/-- The users who leave are online before the step and not after it. -/
def step (h : History) (e : Event) : Option History :=
  (Server.step h.server e).map fun s => ⟨s, fun r u =>
    h.left r u ∨ Online (h.server.chatRooms r) u ∧ ¬ Online (s.chatRooms r) u⟩

/-- Every holder is online, and who has left and is online again can apply. -/
def Right (h : History) : Prop :=
  ∀ r, (∀ u channel, (h.server.chatRooms r).videoChannelList.find? u = some channel →
      Online (h.server.chatRooms r) u) ∧
    ∀ u, h.left r u → Online (h.server.chatRooms r) u → CanApply (h.server.chatRooms r) u

/-- An exit of a user who is not in the table of the holders, a login of one who has not left
before, or any other event. -/
def Allowed (h : History) : Event → Prop
  | .message (.userExitRoomID m) => ∀ r, h.server.room m.roomId = some r →
      (h.server.chatRooms r).userList.locked = false → Online (h.server.chatRooms r) m.userId →
      (h.server.chatRooms r).videoChannelList.find? m.userId = none
  | .message (.clientLoginRS rs) => rs.result = 1 → ∀ r, h.server.room rs.roomId = some r →
      (h.server.chatRooms r).preUserList.locked = false → (h.server.chatRooms r).userList.locked = false →
      ((h.server.chatRooms r).preUserList.userInfoList.ptr rs.userId).isSome → ¬ h.left r rs.userId
  | _ => True

variable {h h' : History} {e : Event}

theorem right_iff : Right h ↔ ∀ r, Holders h.left r (h.server.chatRooms r) := by
  refine forall_congr' fun r => and_congr_right fun _ => forall_congr' fun u => imp_congr_right fun _ => ?_
  exact ⟨fun hc ho => not_canApply _ _ (hc ho), fun hn ho => absurd ho hn⟩

/-- Who leaves in a step is not online after it. -/
theorem right_step (hs : h.step e = some h') :
    Right h' ↔ ∀ r, Holders h.left r (h'.server.chatRooms r) := by
  obtain ⟨s, -, rfl⟩ := Option.map_eq_some_iff.mp hs
  rw [right_iff]
  refine forall_congr' fun r => and_congr_right fun _ => forall_congr' fun u => ?_
  exact ⟨fun hn hu => hn (.inl hu), fun hn hu => hu.elim hn And.right⟩

theorem kept_of_allowed (hR : Rooms (Holders h.left) h.server) {m : Message} (ha : Allowed h (.message m)) :
    Kept (Holders h.left) h.server m := by
  cases m with
  | userExitRoomID m =>
    intro r p hr hl hp
    have hno := ha r hr hl (Option.isSome_of_mem hp)
    obtain ⟨hv, hn⟩ := hR.each r
    refine ⟨fun u channel hu => ?_, fun u hu ho => hn u hu ?_⟩
    · have hne : m.userId ≠ u := fun e => by
        rw [← e, hno] at hu
        cases hu
      rw [Online, released, StdMap.ptr_erase, if_neg hne]
      exact hv u channel hu
    · rw [Online, released, StdMap.ptr_erase] at ho
      split at ho
      · cases ho
      · exact ho
  | userApplyMicRQ rq =>
    intro r p hr hp
    obtain ⟨hv, hn⟩ := hR.each r
    have hnew (u : Int) (channel : List Byte)
        (hu : ((h.server.chatRooms r).videoChannelList.subscript rq.userId []).find? u = some channel) :
        Online (h.server.chatRooms r) u := by
      rw [StdMap.find?_subscript] at hu
      split at hu <;> rename_i he
      · rw [← he.1]
        exact Option.isSome_of_mem hp
      · exact hv u channel hu
    rw [userApplyOneNewVideo, wp_ofFun]
    dsimp only
    split
    · exact ⟨hnew, hn⟩
    · refine ⟨fun u channel hu => ?_, hn⟩
      rw [StdMap.find?_assign] at hu
      split at hu <;> rename_i he
      · rw [← he]
        exact Option.isSome_of_mem hp
      · exact hnew u channel hu
  | userOffMicRQ rq =>
    rintro r ⟨hv, hn⟩
    refine ⟨fun u channel hu => ?_, hn⟩
    rw [StdMap.find?_erase] at hu
    split at hu
    · cases hu
    · exact hv u channel hu
  | clientLoginRS rs =>
    intro r p q rest hr hpre hp h1 hl hq
    have hno := ha h1 r hr hpre hl (Option.isSome_of_mem hp)
    obtain ⟨hv, hn⟩ := hR.each r
    have hon (u : Int) : Online (Server.loggedIn (h.server.chatRooms r) rs p q rest) u ↔
        rs.userId = u ∨ Online (h.server.chatRooms r) u := by
      show ((added (h.server.chatRooms r).userList.userInfoList rs.userId q).ptr u).isSome ↔ _
      rw [ptr_added]
      split <;> simp_all [Online]
    refine ⟨fun u channel hu => (hon u).mpr (.inr (hv u channel hu)), fun u hu ho => ?_⟩
    rcases (hon u).mp ho with rfl | ho
    · exact hno hu
    · exact hn u hu ho
  | clientLoginRQ | cancleUserMicRQ | putUserOnMicRQ | userGiveGiftRQ | userSendMsgRQ | userGiveGiftRS => trivial

/-- A step of another kind leaves a holder who is not online, or puts a user online who has left. -/
theorem not_right_of_not_allowed (hR : Rooms (fun _ _ => True) h.server) (hs : h.step e = some h')
    (hna : ¬ Allowed h e) : ¬ Right h' := by
  obtain ⟨s, hstep, rfl⟩ := Option.map_eq_some_iff.mp hs
  intro hright
  unfold Allowed at hna
  split at hna
  · rename_i m
    simp only [not_forall] at hna
    obtain ⟨r, hr, hl, ho, hv⟩ := hna
    obtain ⟨p, hp⟩ := Option.isSome_iff_exists.mp ho
    obtain ⟨channel, hchannel⟩ := Option.ne_none_iff_exists'.mp hv
    have hP : RoomInvariant fun j room => j = r →
        room.videoChannelList.find? m.userId = some channel ∧ ¬ Online room m.userId :=
      invariant_of_congr fun hj hv ho e => by
        rw [hv, ho]
        exact hj e
    have hexit := (Server.exit_establishes hP.toWalkInvariant hR hr hl hp (fun _ hq e => absurd e hq) fun _ =>
      ⟨hchannel, by simp [Online, released, StdMap.ptr_erase]⟩).after hstep
    obtain ⟨hholder, hoff⟩ := hexit.each r rfl
    exact hoff ((hright r).1 _ _ hholder)
  · rename_i rs
    simp only [not_forall, not_not] at hna
    obtain ⟨h1, r, hr, hpre, hl, hpend, hleft⟩ := hna
    obtain ⟨p, hp⟩ := Option.isSome_iff_exists.mp hpend
    have hP : RoomInvariant fun j room => j = r → Online room rs.userId :=
      invariant_of_congr fun hj _ ho e => (ho _).mpr (hj e)
    have hlogin := (Server.login_establishes hP hR hr hpre hl hp h1 (fun _ hq e => absurd e hq) fun q rest _ _ => by
      simp [Online, Server.loggedIn, ptr_added]).after hstep
    exact not_canApply _ _ ((hright r).2 _ (.inl hleft) (hlogin.each r rfl))
  · exact hna trivial

/-- In a run every holder is online in every state, and who has left and is online again can
apply, exactly if every step is allowed. -/
theorem holders_iff {es : List Event} {t : History} (hrun : es.foldlM step start = some t) :
    Always step Right start es ↔ ∀ x ∈ runSteps step start es, Allowed x.1 x.2 := by
  refine always_iff_steps (I := fun h => Rooms (fun _ _ => True) h.server) (fun h e h' hI hs => ?_)
    (fun h e h' hI hright hs => ⟨fun hr => ?_, fun ha => ?_⟩) (Server.rooms_new fun _ => trivial) (fun r => ?_) hrun
  · obtain ⟨s, hstep, rfl⟩ := Option.map_eq_some_iff.mp hs
    exact Server.keeps_step Server.invariant_true.toRoomInvariant hI (fun m _ => Server.invariant_true.kept hI m) hstep
  · exact Classical.byContradiction fun hna => not_right_of_not_allowed hI hs hna hr
  · have hR : Rooms (Holders h.left) h.server := { hI with each := right_iff.mp hright }
    have hP : RoomInvariant (Holders h.left) := invariant_of_congr Holders.congr
    obtain ⟨s, hstep, -⟩ := Option.map_eq_some_iff.mp hs
    have hkeeps := Server.keeps_step hP hR (fun m he => kept_of_allowed hR (he ▸ ha)) hstep
    rw [right_step hs]
    obtain ⟨s', hstep', rfl⟩ := Option.map_eq_some_iff.mp hs
    cases hstep.symm.trans hstep'
    exact hkeeps.each
  · exact ⟨fun u channel hu => by simp [start, Server.new, ChatRoom.new] at hu, fun u hu => hu.elim⟩

/-- A run of the server, with its history. -/
theorem exists_history {es : List Event} {h : History} {s : Server} (hrun : run h.server es = some s) :
    ∃ h', es.foldlM step h = some h' ∧ h'.server = s ∧
      ∀ r u, h.left r u ∨ Online (h.server.chatRooms r) u ∧ ¬ Online (s.chatRooms r) u → h'.left r u := by
  induction es generalizing h with
  | nil =>
    cases hrun
    exact ⟨h, rfl, rfl, fun _ _ hu => hu.elim id fun hu => absurd hu.1 hu.2⟩
  | cons e es ih =>
    unfold run at hrun
    rw [List.foldlM_cons] at hrun
    obtain ⟨s₁, h1, h2⟩ := Option.bind_eq_some_iff.mp hrun
    obtain ⟨h', hf, hserver, hleft⟩ := ih (h := ⟨s₁, fun r u =>
      h.left r u ∨ Online (h.server.chatRooms r) u ∧ ¬ Online (s₁.chatRooms r) u⟩) h2
    refine ⟨h', ?_, hserver, fun r u hu => hleft r u ?_⟩
    · rw [List.foldlM_cons, step, h1]
      exact hf
    · by_cases ho : Online (s₁.chatRooms r) u
      · exact hu.elim (fun hu => .inl (.inl hu)) fun hu => .inr ⟨ho, hu.2⟩
      · exact .inl (hu.elim .inl fun hu => .inr ⟨hu.1, ho⟩)

/-- Who leaves does so by an exit message. -/
theorem online_kept {s s' : Server} {r : RoomPtr} {u : Int} (hR : Rooms (fun _ _ => True) s)
    (hs : Server.step s e = some s') (he : ∀ m, e ≠ .message (.userExitRoomID m)) (ho : Online (s.chatRooms r) u) :
    Online (s'.chatRooms r) u := by
  have hP : RoomInvariant fun j room => j = r → Online room u :=
    invariant_of_congr fun hj _ ho e => (ho _).mpr (hj e)
  have hR' : Rooms (fun j room => j = r → Online room u) s := { hR with each := fun j hj => hj ▸ ho }
  refine (Server.keeps_step hP hR' (fun m hm => ?_) hs).each r rfl
  subst hm
  cases m with
  | userExitRoomID m => exact absurd rfl (he m)
  | userApplyMicRQ rq =>
    intro j p _ _
    rw [userApplyOneNewVideo, wp_ofFun]
    dsimp only
    split
    · exact hR'.each j
    · exact hR'.each j
  | userOffMicRQ rq => exact fun j hj => hj
  | clientLoginRS rs =>
    rintro j p q rest - - - - - - rfl
    show ((added (s.chatRooms j).userList.userInfoList rs.userId q).ptr u).isSome
    rw [ptr_added]
    split
    · rfl
    · exact ho
  | clientLoginRQ | cancleUserMicRQ | putUserOnMicRQ | userGiveGiftRQ | userSendMsgRQ | userGiveGiftRS => trivial

/-- Without an exit message nobody has left. -/
theorem not_left {es : List Event} (he : ∀ m, .message (.userExitRoomID m) ∉ es) (hR : Rooms (fun _ _ => True) h.server)
    (hl : ∀ r u, ¬ h.left r u) : ∀ x ∈ runSteps step h es, ∀ r u, ¬ x.1.left r u := by
  induction es generalizing h with
  | nil => simp [runSteps, runTurns]
  | cons e es ih =>
    rcases hs : step h e with _ | h₁
    · intro x hx
      simp [runSteps, runTurns, hs] at hx
      rw [hx]
      exact hl
    · rw [runSteps_cons hs, List.forall_mem_cons]
      obtain ⟨s, hstep, rfl⟩ := Option.map_eq_some_iff.mp hs
      refine ⟨hl, ih (fun m hm => he m (List.mem_cons_of_mem _ hm)) ?_ fun r u hu => ?_⟩
      · exact Server.keeps_step Server.invariant_true.toRoomInvariant hR (fun m _ => Server.invariant_true.kept hR m) hstep
      · rcases hu with hu | ⟨ho, hoff⟩
        · exact hl r u hu
        · exact hoff (online_kept hR hstep (fun m hm => he m (hm ▸ List.mem_cons_self)) ho)

/-- A user logs in and asks for a microphone. -/
def application : List Event := Server.firstLogin ++ [.message (.userApplyMicRQ ⟨1, 2⟩)]

theorem holders_iff_application : ∃ t, application.foldlM step start = some t ∧
    ((t.server.chatRooms 0).videoChannelList.find? 1).isSome ∧ Always step Right start application := by
  have hrun : ∃ s, s ∈ run .new application ∧ ((s.chatRooms 0).videoChannelList.find? 1).isSome := by
    decide +kernel
  obtain ⟨s, hs, hv⟩ := hrun
  obtain ⟨t, ht, rfl, -⟩ := exists_history (h := start) hs
  have hmsg : ∀ m, .message (.userExitRoomID m) ∉ application := by
    simp [application, Server.firstLogin, Server.requestOf, Server.replyOf]
  refine ⟨t, ht, hv, (holders_iff ht).mpr fun x hx => ?_⟩
  have hleft := not_left hmsg (h := start) (Server.rooms_new fun _ => trivial) (fun _ _ h => h) x hx
  have hmem := snd_mem_of_runSteps hx
  unfold Allowed
  split <;> rename_i he
  · exact absurd (he ▸ hmem) (hmsg _)
  · exact fun _ r _ _ _ _ => hleft r _
  · trivial

/-- The next login of the user 1. -/
def again : List Event := [Server.requestOf 5 8 1 2, Server.replyOf 1 2 1]

/-- A holder leaves the room; and a user leaves and logs in again. -/
theorem not_right_exit :
    (∃ h, (application ++ [Server.exitOf 1 2]).foldlM step start = some h ∧ ¬ Right h) ∧
    ∃ h, (Server.firstLogin ++ [Server.exitOf 1 2] ++ again).foldlM step start = some h ∧ ¬ Right h := by
  have hholder : ∃ s, s ∈ run .new (application ++ [Server.exitOf 1 2]) ∧
      (s.chatRooms 0).videoChannelList.find? 1 = some [] ∧ (s.chatRooms 0).userList.userInfoList.ptr 1 = none := by
    decide +kernel
  have hout : ∃ s, s ∈ run .new (Server.firstLogin ++ [Server.exitOf 1 2]) ∧
      (s.chatRooms 0).userList.userInfoList.ptr 1 = none := by
    decide +kernel
  have hagain : ∃ s, s ∈ run .new (Server.firstLogin ++ [Server.exitOf 1 2] ++ again) ∧
      (s.chatRooms 0).userList.userInfoList.ptr 1 = some 3 := by
    decide +kernel
  constructor
  · obtain ⟨s, hs, hv, hp⟩ := hholder
    obtain ⟨h, hh, rfl, -⟩ := exists_history (h := start) hs
    refine ⟨h, hh, fun hright => ?_⟩
    have ho := (hright 0).1 1 [] hv
    rw [Online, hp] at ho
    cases ho
  · obtain ⟨s₁, hs₁, -, hp₁, -⟩ := Server.firstLogin_online
    obtain ⟨s₂, hs₂, hp₂⟩ := hout
    obtain ⟨s₃, hs₃, hp₃⟩ := hagain
    obtain ⟨h₁, hf₁, rfl, -⟩ := exists_history (h := start) hs₁
    obtain ⟨h₂, hf₂, rfl, hleft₂⟩ := exists_history ((Server.run_append hs₁).symm.trans hs₂)
    obtain ⟨h₃, hf₃, rfl, hleft₃⟩ := exists_history ((Server.run_append hs₂).symm.trans hs₃)
    have hleft : h₃.left 0 1 := hleft₃ 0 1 (.inl (hleft₂ 0 1 (.inr ⟨by simp [Online, hp₁], by simp [Online, hp₂]⟩)))
    refine ⟨h₃, ?_, fun hright => not_canApply _ _ ((hright 0).2 1 hleft (by simp [Online, hp₃]))⟩
    rw [List.foldlM_append, List.foldlM_append, hf₁]
    exact (congrArg (fun o => Option.bind o fun h => List.foldlM step h again) hf₂).trans hf₃

end History

end Miku.RoomServer
