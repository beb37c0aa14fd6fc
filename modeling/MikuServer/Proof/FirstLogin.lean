import MikuServer.Impl.LoginThreads
import MikuServer.Proof.RoomInvariant

/-!
# First logins of a room

Threads with login requests for one room that is not there yet. `turn_spec` says
what a turn does to the server and where the thread is then, and `Inv` what is
true of every run. The threads share one room (`Good`) until one of them finds no
room while another is about to add one, and never again after that (`good_step`).
`shared_iff` is the result for whole runs, and `login_steps` says that a thread
that nobody interrupts does what `ClientLoginRQ::Execute` does.
-/

namespace Miku.RoomServer

open Act ChatRoom UserInfoList

namespace Server

/-- The record of a user whose login is pending in the room `r`. -/
def pending (s : Server) (r : RoomPtr) (u : Int) : Option Ptr := (s.chatRooms r).preUserList.userInfoList.ptr u

end Server

namespace LoginPlace

/-- Between `GetRoom`, which returned `NULL`, and `AddRoom`. -/
def Adding : LoginPlace → Prop
  | .missing | .made _ => True
  | _ => False

instance : DecidablePred Adding
  | .missing | .made _ => isTrue trivial
  | .start | .inRoom _ | .took .. | .finished _ => isFalse id

/-- The room of a thread, once it is one that `GetRoom` returned, or `AddRoom` was called with. -/
def room : LoginPlace → Option RoomPtr
  | .inRoom r | .took r _ | .finished r => some r
  | _ => none

end LoginPlace

namespace LoginThread

variable {s s' : Server} {t : LoginThread}

/-- What a turn leaves of the rooms. -/
structure Kept (roomId : Int) (s s' : Server) : Prop where
  unused : s'.roomManager.unusedRoomList = []
  nextRoom : s.nextRoom ≤ s'.nextRoom
  pending {r : RoomPtr} {u : Int} : r < s.nextRoom → (s.pending r u).isSome → (s'.pending r u).isSome
  room {r : RoomPtr} : s.room roomId = some r → s'.room roomId = some r

/-- The turns of a thread: where it is then, and what it did. -/
inductive Turned (t : LoginThread) (s : Server) : LoginPlace → Server → Prop
  | found {r : RoomPtr} {s' : Server} (hp : t.place = .start) (hr : s.room t.rq.roomId = some r)
      (hr' : s'.room t.rq.roomId = s.room t.rq.roomId) : Turned t s (.inRoom r) s'
  | missed {s' : Server} (hp : t.place = .start) (hr : s.room t.rq.roomId = none)
      (hr' : s'.room t.rq.roomId = s.room t.rq.roomId) : Turned t s .missing s'
  | made {s' : Server} (hp : t.place = .missing) (hr' : s'.room t.rq.roomId = s.room t.rq.roomId)
      (hn : s'.nextRoom = s.nextRoom + 1) : Turned t s (.made s.nextRoom) s'
  | added {r : RoomPtr} {s' : Server} (hp : t.place = .made r) (hr : s.room t.rq.roomId = none)
      (hr' : s'.room t.rq.roomId = some r) : Turned t s (.inRoom r) s'
  | ignored {r m : RoomPtr} {s' : Server} (hp : t.place = .made r) (hr : s.room t.rq.roomId = some m)
      (hr' : s'.room t.rq.roomId = s.room t.rq.roomId) : Turned t s (.inRoom r) s'
  | took {r : RoomPtr} {p : Ptr} {s' : Server} (hp : t.place = .inRoom r)
      (hr' : s'.room t.rq.roomId = s.room t.rq.roomId) : Turned t s (.took r p) s'
  | finished {r : RoomPtr} {p : Ptr} {s' : Server} (hp : t.place = .took r p)
      (hr' : s'.room t.rq.roomId = s.room t.rq.roomId) (hpending : (s'.pending r t.rq.userId).isSome) :
      Turned t s (.finished r) s'

/-- A turn that changes one room at most, in which nobody stops being pending. -/
theorem kept_of_rooms {roomId : Int} (hu : s'.roomManager.unusedRoomList = []) (hn : s'.nextRoom = s.nextRoom)
    (hr : s'.room roomId = s.room roomId) (hp : ∀ r u, (s.pending r u).isSome → (s'.pending r u).isSome) :
    Kept roomId s s' :=
  ⟨hu, Nat.le_of_eq hn.symm, fun _ h => hp _ _ h, fun h => hr.trans h⟩

theorem pending_withRoom {r : RoomPtr} {room : ChatRoom}
    (h : ∀ u, ((s.chatRooms r).preUserList.userInfoList.ptr u).isSome → (room.preUserList.userInfoList.ptr u).isSome)
    (q : RoomPtr) (u : Int) (hq : (s.pending q u).isSome) : ((s.withRoom r room).pending q u).isSome := by
  unfold Server.pending at hq ⊢
  by_cases e : q = r
  · subst e
    rw [Server.withRoom_same]
    exact h u hq
  · rw [Server.withRoom_other s e]
    exact hq

theorem start_spec (hu : s.roomManager.unusedRoomList = []) (ht : t.place = .start) :
    wp (do
      match ← Server.getRoom t.rq.roomId with
      | some tmpRoom => pure (.inRoom tmpRoom)
      | none => pure .missing)
      (fun place s' => Kept t.rq.roomId s s' ∧ t.Turned s place s') (fun _ => True) True s := by
  rw [wp_bind, Server.wp_getRoom]
  have hk : Kept t.rq.roomId s (s.foundRoom t.rq.roomId) :=
    kept_of_rooms hu rfl (Server.foundRoom_room ..) fun _ _ h => h
  have hsame : (s.foundRoom t.rq.roomId).room t.rq.roomId = s.room t.rq.roomId := Server.foundRoom_room ..
  rcases hr : s.room t.rq.roomId with _ | r
  · exact ⟨hk, .missed ht hr hsame⟩
  · exact ⟨hk, .found ht hr hsame⟩

theorem missing_spec (hu : s.roomManager.unusedRoomList = []) (ht : t.place = .missing) :
    wp (do
      let tmpRoom ← Server.createRoom t.rq.roomId
      pure (.made tmpRoom))
      (fun place s' => Kept t.rq.roomId s s' ∧ t.Turned s place s') (fun _ => True) True s := by
  rw [wp_bind, Server.wp_createRoom hu, wp_pure]
  refine ⟨⟨hu, Nat.le_succ _, fun {r u} hr hp => ?_, id⟩, .made ht rfl rfl⟩
  unfold Server.pending at hp ⊢
  dsimp only
  rw [Function.update_of_ne (Nat.ne_of_lt hr)]
  exact hp

theorem made_spec (hu : s.roomManager.unusedRoomList = []) {r : RoomPtr} (ht : t.place = .made r) :
    wp (do
      let _ ← Server.addRoom t.rq.roomId (some r)
      pure (.inRoom r))
      (fun place s' => Kept t.rq.roomId s s' ∧ t.Turned s place s') (fun _ => True) True s := by
  rw [wp_bind, Server.addRoom, wp_ofFun]
  dsimp only
  rcases hr : s.roomManager.roomList.ptr t.rq.roomId with _ | m <;> rw [wp_pure]
  · have hroom : s.room t.rq.roomId = none := hr
    refine ⟨⟨hu, Nat.le_refl _, fun _ h => h, fun h => ?_⟩, .added ht hroom ?_⟩
    · cases hroom.symm.trans h
    · exact (StdMap.ptr_assign ..).trans (if_pos rfl)
  · have hsame : (s.foundRoom t.rq.roomId).room t.rq.roomId = s.room t.rq.roomId := Server.foundRoom_room ..
    exact ⟨kept_of_rooms hu rfl hsame fun _ _ h => h, .ignored ht hr hsame⟩

theorem inRoom_spec (hu : s.roomManager.unusedRoomList = []) {r : RoomPtr} (ht : t.place = .inRoom r) :
    wp (do
      match ← Server.onRoom r newUserInfo with
      | none => pure (.finished r)
      | some tmpUser => pure (.took r tmpUser))
      (fun place s' => Kept t.rq.roomId s s' ∧ t.Turned s place s') (fun _ => True) True s := by
  rw [wp_bind, Server.wp_onRoom, wp_newUserInfo]
  split
  · trivial
  rcases (s.chatRooms r).userList.unusedUserInfoList with _ | ⟨p, rest⟩
  · trivial
  exact ⟨kept_of_rooms hu rfl rfl (pending_withRoom fun _ h => h), .took ht rfl⟩

theorem wp_storeLogin_of {tmpPackage : GateRoomServerPack} {rq : StruUserLoginRQ} {p : Ptr} {room : ChatRoom}
    {Q : Unit → ChatRoom → Prop} {B : ChatRoom → Prop} (h : ∀ info, info.gsHashkeyUserOn = tmpPackage.gsHashkey.toInt →
      info.userHashKey = tmpPackage.userHashkey.toInt → Q () (room.store p info)) :
    wp (Server.storeLogin tmpPackage rq p) Q B True room := by
  rcases hm : memcpy (room.records p).userNickname 0 rq.userAccountName rq.userAccountName.length with _ | nickname
  · refine (wp_fault ?_).mpr trivial
    simp only [Server.storeLogin, hm]
  · have hs : Server.storeLogin tmpPackage rq p room = .done () (room.store p { room.records p with
        gsHashkeyUserOn := tmpPackage.gsHashkey.toInt
        userHashKey := tmpPackage.userHashkey.toInt
        userId := rq.userId
        userNickname := nickname }) := by
      simp only [Server.storeLogin, hm]
    exact (wp_done hs).mpr (h _ rfl rfl)

theorem took_spec (hu : s.roomManager.unusedRoomList = []) {r : RoomPtr} {p : Ptr} (ht : t.place = .took r p) :
    wp (do
      Server.onRoom r (Server.storeLogin t.tmpPackage t.rq p)
      let _ ← Server.onRoom r (addPreUser t.rq.userId (some p))
      Server.sendToCenter t.tmpPackage
      pure (.finished r))
      (fun place s' => Kept t.rq.roomId s s' ∧ t.Turned s place s') (fun _ => True) True s := by
  rw [wp_bind, Server.wp_onRoom]
  refine wp_storeLogin_of fun info _ _ => ?_
  rw [wp_bind, Server.wp_onRoom, Server.withRoom_same, wp_addPreUser, Server.withRoom_withRoom]
  split
  · trivial
  rw [wp_bind, Server.sendToCenter, Server.wp_send, wp_pure]
  refine ⟨kept_of_rooms hu rfl rfl (pending_withRoom fun u hu => ?_), .finished ht rfl ?_⟩
  · show ((added _ t.rq.userId p).ptr u).isSome
    rw [ptr_added]
    split <;> rename_i he
    · rfl
    · exact hu
  · show (((s.withRoom r _).chatRooms r).preUserList.userInfoList.ptr t.rq.userId).isSome
    rw [Server.withRoom_same]
    show ((added _ t.rq.userId p).ptr t.rq.userId).isSome
    rw [ptr_added, if_pos rfl]
    rfl

theorem turn_spec (hu : s.roomManager.unusedRoomList = []) {x : Act Server LoginPlace} (hx : t.next = some x) :
    wp x (fun place s' => Kept t.rq.roomId s s' ∧ t.Turned s place s') (fun _ => True) True s := by
  unfold next at hx
  split at hx <;> rename_i ht <;> cases hx
  · exact start_spec hu ht
  · exact missing_spec hu ht
  · exact made_spec hu ht
  · exact inRoom_spec hu ht
  · exact took_spec hu ht

/-! ## What is true of a thread -/

/-- What is true of a thread: a room that it has made is not that of the manager, and once it
is in a room there is one in the manager, and in the end its user is pending. -/
structure Ok (roomId : Int) (s : Server) (t : LoginThread) : Prop where
  request : t.rq.roomId = roomId
  made {r : RoomPtr} : t.place = .made r → r < s.nextRoom ∧ s.room roomId ≠ some r
  inRoom {r : RoomPtr} : t.place.room = some r → r < s.nextRoom ∧ (s.room roomId).isSome
  pending {r : RoomPtr} : t.place = .finished r → (s.pending r t.rq.userId).isSome

variable {roomId : Int} {r : RoomPtr} {place : LoginPlace}

theorem Ok.frame (h : Ok roomId s t) (hk : Kept roomId s s')
    (hm : ∀ r, t.place = .made r → s'.room roomId ≠ some r) : Ok roomId s' t where
  request := h.request
  made {r} e := ⟨Nat.lt_of_lt_of_le (h.made e).1 hk.nextRoom, hm r e⟩
  inRoom e := by
    obtain ⟨hlt, hsome⟩ := h.inRoom e
    obtain ⟨m, hroom⟩ := Option.isSome_iff_exists.mp hsome
    exact ⟨Nat.lt_of_lt_of_le hlt hk.nextRoom, hk.room hroom ▸ rfl⟩
  pending {r} e := hk.pending (h.inRoom (r := r) (by rw [e]; rfl)).1 (h.pending e)

/-- The room of the manager is as it was, or the one that the thread added. -/
theorem Turned.room_cases (ht : t.Turned s place s') :
    s'.room t.rq.roomId = s.room t.rq.roomId ∨
      ∃ r, t.place = .made r ∧ place = .inRoom r ∧ s.room t.rq.roomId = none ∧ s'.room t.rq.roomId = some r := by
  cases ht with
  | added hp hr hr' => exact .inr ⟨_, hp, rfl, hr, hr'⟩
  | found _ _ hr' | missed _ _ hr' | made _ hr' | ignored _ _ hr' | took _ hr' | finished _ hr' => exact .inl hr'

theorem Ok.turned (h : Ok roomId s t) (hknown : ∀ r, s.room roomId = some r → r < s.nextRoom) (hk : Kept roomId s s')
    (ht : t.Turned s place s') : Ok roomId s' { t with place := place } := by
  have hroom {r : RoomPtr} (hlt : r < s.nextRoom) (hr : (s.room roomId).isSome) :
      r < s'.nextRoom ∧ (s'.room roomId).isSome := by
    obtain ⟨m, hm⟩ := Option.isSome_iff_exists.mp hr
    exact ⟨Nat.lt_of_lt_of_le hlt hk.nextRoom, hk.room hm ▸ rfl⟩
  have hreq := h.request
  cases ht with
  | found hp hr hr' =>
    refine ⟨hreq, nofun, fun e => ?_, nofun⟩
    cases e
    rw [hreq] at hr
    exact hroom (hknown _ hr) (hr ▸ rfl)
  | missed hp hr hr' => exact ⟨hreq, nofun, nofun, nofun⟩
  | made hp hr' hn =>
    refine ⟨hreq, fun e => ?_, nofun, nofun⟩
    cases e
    rw [← hreq, hr', hreq, hn]
    exact ⟨Nat.lt_succ_self _, fun e => Nat.lt_irrefl _ (hknown _ e)⟩
  | added hp hr hr' =>
    refine ⟨hreq, nofun, fun e => ?_, nofun⟩
    cases e
    exact ⟨Nat.lt_of_lt_of_le (h.made hp).1 hk.nextRoom, hreq ▸ hr' ▸ rfl⟩
  | ignored hp hr hr' =>
    refine ⟨hreq, nofun, fun e => ?_, nofun⟩
    cases e
    exact hroom (h.made hp).1 (hreq ▸ hr ▸ rfl)
  | took hp hr' =>
    refine ⟨hreq, nofun, fun e => ?_, nofun⟩
    cases e
    obtain ⟨hlt, hsome⟩ := h.inRoom (by rw [hp]; rfl)
    exact hroom hlt hsome
  | finished hp hr' hpending =>
    refine ⟨hreq, nofun, fun e => ?_, fun e => ?_⟩
    · cases e
      obtain ⟨hlt, hsome⟩ := h.inRoom (by rw [hp]; rfl)
      exact hroom hlt hsome
    · cases e
      exact hpending

end LoginThread

namespace LoginThreads

open LoginThread

variable {ι : Type} {roomId : Int} {s s' t : LoginThreads ι} {i j : ι} {r : RoomPtr}

/-- Where a thread is. -/
def place (s : LoginThreads ι) (i : ι) : LoginPlace := (s.thread i).place

/-- What is true of the server and the threads in every run. -/
structure Inv (roomId : Int) (s : LoginThreads ι) : Prop where
  unused : s.shared.roomManager.unusedRoomList = []
  known {r : RoomPtr} : s.shared.room roomId = some r → r < s.shared.nextRoom
  each (i : ι) : Ok roomId s.shared (s.thread i)
  apart {i j : ι} {r : RoomPtr} : s.place i = .made r → s.place j = .made r → i = j

/-- The threads have one room: while one adds it, no other does, and it is not in the manager
yet; and the room of every thread that is in one is that of the manager. -/
structure Good (roomId : Int) (s : LoginThreads ι) : Prop where
  adding {i : ι} : (s.place i).Adding → s.shared.room roomId = none ∧ ∀ j, (s.place j).Adding → j = i
  inRoom {i : ι} {r : RoomPtr} : (s.place i).room = some r → s.shared.room roomId = some r

/-- A thread that is about to call `GetRoom` finds a room, or no other is about to add one. -/
def Alone (roomId : Int) (s : LoginThreads ι) (i : ι) : Prop :=
  s.place i = .start → s.shared.room roomId = none → ∀ j, ¬ (s.place j).Adding

/-- `GetRoom` finds a room in which every user is pending, and it is the room of every thread. -/
def Shared (roomId : Int) (user : ι → Int) (t : LoginThreads ι) : Prop :=
  ∃ r, t.shared.room roomId = some r ∧ ∀ i, t.place i = .finished r ∧ (t.shared.pending r (user i)).isSome

variable {server : Server} {request : ι → GateRoomServerPack × StruUserLoginRQ}

theorem inv_start (hs : Server.Reachable server) (hroom : server.room roomId = none)
    (hreq : ∀ i, (request i).2.roomId = roomId) : Inv roomId (start server request) where
  unused := (Server.invariant_true.reachable (fun _ => trivial) hs).unused
  known h := by cases hroom.symm.trans h
  each i := ⟨hreq i, nofun, nofun, nofun⟩
  apart h := by cases h

theorem good_start : Good roomId (start server request) where
  adding h := h.elim
  inRoom h := by cases h

theorem shared_of_good [Nonempty ι] (h : Inv roomId t) (hdone : ∀ i, ∃ r, t.place i = .finished r) :
    Good roomId t ↔ Shared roomId (fun i => (t.thread i).rq.userId) t := by
  constructor
  · intro hg
    obtain ⟨r, hr⟩ := hdone (Classical.arbitrary ι)
    have hroom := hg.inRoom (i := Classical.arbitrary ι) (r := r) (by rw [hr]; rfl)
    refine ⟨r, hroom, fun i => ?_⟩
    obtain ⟨q, hq⟩ := hdone i
    cases hroom.symm.trans (hg.inRoom (i := i) (r := q) (by rw [hq]; rfl))
    exact ⟨hq, (h.each i).pending hq⟩
  · rintro ⟨r, hroom, hall⟩
    refine ⟨fun {i} hi => ?_, fun {i q} hi => ?_⟩ <;> rw [(hall i).1] at hi
    · exact hi.elim
    · cases hi
      exact hroom

/-! ## Turns -/

variable [DecidableEq ι]

/-- A turn of the thread `i`. -/
structure StepOf (s s' : LoginThreads ι) (i : ι) : Prop where
  kept : Kept (s.thread i).rq.roomId s.shared s'.shared
  turned : (s.thread i).Turned s.shared (s'.place i) s'.shared
  thread : s'.thread = Function.update s.thread i { s.thread i with place := s'.place i }

theorem step_spec (hu : s.shared.roomManager.unusedRoomList = []) (hs : s.step i = some s') : StepOf s s' i := by
  refine Threads.step_inv (P := fun s' => StepOf s s' i) hs fun x hx => ?_
  obtain ⟨y, hy, rfl⟩ := Option.map_eq_some_iff.mp hx
  rw [wp_bind]
  refine wp_mono (turn_spec hu hy) (fun p sh h => ?_) fun _ h => h
  have hp : place ⟨sh, Function.update s.thread i { s.thread i with place := p }⟩ i = p := by simp [place]
  exact ⟨h.1, hp.symm ▸ h.2, by rw [hp]⟩

theorem StepOf.other (h : StepOf s s' i) (hj : j ≠ i) : s'.thread j = s.thread j := by
  rw [h.thread, Function.update_of_ne hj]

theorem StepOf.place_other (h : StepOf s s' i) (hj : j ≠ i) : s'.place j = s.place j :=
  congrArg LoginThread.place (h.other hj)

theorem StepOf.self (h : StepOf s s' i) : s'.thread i = { s.thread i with place := s'.place i } := by
  conv_lhs => rw [h.thread, Function.update_self]

theorem inv_step (h : Inv roomId s) (hs : s.step i = some s') : Inv roomId s' := by
  have hst := step_spec h.unused hs
  have hreq := (h.each i).request
  have hk : Kept roomId s.shared s'.shared := hreq ▸ hst.kept
  have hroom := hst.turned.room_cases
  rw [hreq] at hroom
  refine ⟨hk.unused, fun {r} hr => ?_, fun j => ?_, fun {j k r} hj hk' => ?_⟩
  · rcases hroom with hsame | ⟨r', hp, -, -, hr'⟩
    · exact Nat.lt_of_lt_of_le (h.known (hsame ▸ hr)) hk.nextRoom
    · cases hr'.symm.trans hr
      exact Nat.lt_of_lt_of_le ((h.each i).made hp).1 hk.nextRoom
  · by_cases hj : j = i
    · subst hj
      rw [hst.self]
      exact (h.each j).turned (fun _ => h.known) hk hst.turned
    · rw [hst.other hj]
      refine (h.each j).frame hk fun r hp => ?_
      rcases hroom with hsame | ⟨r', hp', -, -, hr'⟩
      · rw [hsame]
        exact ((h.each j).made hp).2
      · rw [hr']
        rintro ⟨⟩
        exact hj (h.apart hp hp')
  · have hnew {k : ι} (hk : k ≠ i) (hi : s'.place i = .made r) (hk' : s'.place k = .made r) : False := by
      have hold := hst.turned
      rw [hi] at hold
      rw [hst.place_other hk] at hk'
      cases hold
      exact Nat.lt_irrefl _ ((h.each k).made hk').1
    by_cases hji : j = i <;> by_cases hki : k = i
    · exact hji.trans hki.symm
    · subst hji
      exact (hnew hki hj hk').elim
    · subst hki
      exact (hnew hji hk' hj).elim
    · rw [hst.place_other hji] at hj
      rw [hst.place_other hki] at hk'
      exact h.apart hj hk'

/-- A turn of a thread that neither begins to add a room nor has added one: the same threads add a
room after it, and the same are in another room than that of the manager. -/
theorem StepOf.good_congr (h : StepOf s s' i) (hroom : s'.shared.room roomId = s.shared.room roomId)
    (ha : (s'.place i).Adding ↔ (s.place i).Adding)
    (hin : ∀ r, s.shared.room roomId ≠ some r → ((s'.place i).room = some r ↔ (s.place i).room = some r)) :
    Good roomId s' ↔ Good roomId s := by
  have ha (k : ι) : (s'.place k).Adding ↔ (s.place k).Adding := by
    by_cases hk : k = i
    · exact hk ▸ ha
    · rw [h.place_other hk]
  have hin (k : ι) (r : RoomPtr) (hne : s.shared.room roomId ≠ some r) :
      (s'.place k).room = some r ↔ (s.place k).room = some r := by
    by_cases hk : k = i
    · exact hk ▸ hin r hne
    · rw [h.place_other hk]
  refine ⟨fun hg => ⟨fun {k} hk => ?_, fun {k r} hk => ?_⟩, fun hg => ⟨fun {k} hk => ?_, fun {k r} hk => ?_⟩⟩
  · obtain ⟨hn, hone⟩ := hg.adding ((ha k).mpr hk)
    exact ⟨hroom ▸ hn, fun j hj => hone j ((ha j).mpr hj)⟩
  · by_contra hne
    exact hne (hroom ▸ hg.inRoom ((hin k r hne).mpr hk))
  · obtain ⟨hn, hone⟩ := hg.adding ((ha k).mp hk)
    exact ⟨hroom.trans hn, fun j hj => hone j ((ha j).mp hj)⟩
  · rw [hroom]
    by_contra hne
    exact hne (hg.inRoom ((hin k r hne).mp hk))

/-- A thread that finds no room. -/
theorem StepOf.good_missed (h : StepOf s s' i) (hp : s.place i = .start) (hp' : s'.place i = .missing)
    (hr : s.shared.room roomId = none) (hr' : s'.shared.room roomId = none) :
    Good roomId s' ↔ Good roomId s ∧ Alone roomId s i := by
  have hi : (s'.place i).Adding := hp' ▸ trivial
  constructor
  · intro hg
    have hnone (j : ι) : ¬ (s.place j).Adding := fun hj => by
      by_cases hji : j = i
      · rw [hji, hp] at hj
        exact hj
      · exact hji ((hg.adding hi).2 j (by rw [h.place_other hji]; exact hj))
    refine ⟨⟨fun {k} hk => absurd hk (hnone k), fun {k r} hk => ?_⟩, fun _ _ => hnone⟩
    by_cases hki : k = i
    · rw [hki, hp] at hk
      cases hk
    · cases hr'.symm.trans (hg.inRoom (by rw [h.place_other hki]; exact hk))
  · intro ⟨hg, ha⟩
    have hone (j : ι) (hj : (s'.place j).Adding) : j = i := by
      by_contra hji
      rw [h.place_other hji] at hj
      exact ha hp hr j hj
    refine ⟨fun {k} hk => ⟨hr', fun j hj => (hone j hj).trans (hone k hk).symm⟩, fun {k r} hk => ?_⟩
    by_cases hki : k = i
    · rw [hki, hp'] at hk
      cases hk
    · rw [h.place_other hki] at hk
      cases hr.symm.trans (hg.inRoom hk)

/-- A thread that adds its room. -/
theorem StepOf.good_added (h : StepOf s s' i) (hi : Inv roomId s) (hp : s.place i = .made r)
    (hp' : s'.place i = .inRoom r) (hr : s.shared.room roomId = none) (hr' : s'.shared.room roomId = some r) :
    Good roomId s' ↔ Good roomId s := by
  have hadding : (s.place i).Adding := hp ▸ trivial
  constructor
  · intro hg
    have hone (j : ι) (hj : (s.place j).Adding) : j = i := by
      by_contra hji
      rw [← h.place_other hji] at hj
      cases hr'.symm.trans (hg.adding hj).1
    refine ⟨fun {k} hk => ⟨hr, fun j hj => (hone j hj).trans (hone k hk).symm⟩, fun {k q} hk => ?_⟩
    have hsome := ((hi.each k).inRoom hk).2
    rw [hr] at hsome
    cases hsome
  · intro hg
    refine ⟨fun {k} hk => ?_, fun {k q} hk => ?_⟩ <;> by_cases hki : k = i
    · rw [hki, hp'] at hk
      exact hk.elim
    · rw [h.place_other hki] at hk
      exact absurd ((hg.adding hadding).2 k hk) hki
    · rw [hki, hp'] at hk
      exact hr'.trans hk
    · rw [h.place_other hki] at hk
      cases hr.symm.trans (hg.inRoom hk)

/-- One room after a turn, exactly if there was before it and the thread was alone. -/
theorem good_step (h : Inv roomId s) (hs : s.step i = some s') : Good roomId s' ↔ Good roomId s ∧ Alone roomId s i := by
  have hst := step_spec h.unused hs
  have hreq := (h.each i).request
  have hturned := hst.turned
  generalize hp' : s'.place i = p at hturned
  have halone (hne : s.place i ≠ .start) : Alone roomId s i := fun e => absurd e hne
  cases hturned with
  | found hp hr hr' =>
    have hp : s.place i = .start := hp
    rw [hreq] at hr hr'
    have ha : Alone roomId s i := fun _ e => by cases hr.symm.trans e
    rw [and_iff_left ha]
    refine hst.good_congr hr' (by rw [hp, hp']; rfl) fun q hne => ?_
    rw [hp, hp']
    exact iff_of_false (fun e => hne (hr.trans e)) nofun
  | missed hp hr hr' =>
    rw [hreq] at hr hr'
    exact hst.good_missed hp hp' hr (hr'.trans hr)
  | made hp hr' hn =>
    have hp : s.place i = .missing := hp
    rw [hreq] at hr'
    rw [and_iff_left (halone (by rw [hp]; exact nofun))]
    exact hst.good_congr hr' (by rw [hp, hp']; rfl) fun q _ => by rw [hp, hp']; rfl
  | added hp hr hr' =>
    have hp : s.place i = .made _ := hp
    rw [hreq] at hr hr'
    rw [and_iff_left (halone (by rw [hp]; exact nofun))]
    exact hst.good_added h hp hp' hr hr'
  | ignored hp hr hr' =>
    have hp : s.place i = .made _ := hp
    rw [hreq] at hr hr'
    refine iff_of_false (fun hg => ?_) fun hg => ?_
    · exact ((h.each i).made hp).2 (hr'.symm.trans (hg.inRoom (by rw [hp']; rfl)))
    · cases hr.symm.trans (hg.1.adding (i := i) (by rw [hp]; trivial)).1
  | took hp hr' =>
    have hp : s.place i = .inRoom _ := hp
    rw [hreq] at hr'
    rw [and_iff_left (halone (by rw [hp]; exact nofun))]
    exact hst.good_congr hr' (by rw [hp, hp']; rfl) fun q _ => by rw [hp, hp']; rfl
  | finished hp hr' hpending =>
    have hp : s.place i = .took _ _ := hp
    rw [hreq] at hr'
    rw [and_iff_left (halone (by rw [hp]; exact nofun))]
    exact hst.good_congr hr' (by rw [hp, hp']; rfl) fun q _ => by rw [hp, hp']; rfl

/-! ## Runs -/

theorem run_rq {is : List ι} (hi : Inv roomId s) (ht : run s is = some t) (i : ι) : (t.thread i).rq = (s.thread i).rq := by
  have hkeep (u : LoginThreads ι) (k : ι) (u' : LoginThreads ι) (h : Inv roomId u ∧ (u.thread i).rq = (s.thread i).rq)
      (hs : u.step k = some u') : Inv roomId u' ∧ (u'.thread i).rq = (s.thread i).rq := by
    have hst := step_spec h.1.unused hs
    refine ⟨inv_step h.1 hs, ?_⟩
    by_cases hk : i = k
    · subst hk
      rw [hst.self]
      exact h.2
    · rw [hst.other hk]
      exact h.2
  exact (foldlM_inv hkeep ⟨hi, rfl⟩ ht).2

/-- Once every thread has finished, the users are pending in one room exactly if no thread
called `GetRoom` while another one was about to add the room. -/
theorem shared_iff [Nonempty ι] (hs : Server.Reachable server) (hroom : server.room roomId = none)
    (hreq : ∀ i, (request i).2.roomId = roomId) {is : List ι} (ht : run (start server request) is = some t)
    (hdone : ∀ i, ∃ r, t.place i = .finished r) :
    Shared roomId (fun i => (request i).2.userId) t ↔
      ∀ x ∈ runSteps step (start server request) is, Alone roomId x.1 x.2 := by
  have hi := inv_start hs hroom hreq
  have hrq (i : ι) : (t.thread i).rq = (request i).2 := run_rq hi ht i
  have hinv : Inv roomId t := foldlM_inv (fun _ _ _ h hs => inv_step h hs) hi ht
  have hgood := foldlM_iff_steps (fun _ _ _ h hs => inv_step h hs) (fun _ _ _ h hs => good_step h hs) hi ht
  rw [and_iff_right good_start] at hgood
  rw [← hgood, shared_of_good hinv hdone]
  simp only [hrq]

/-! ## A thread alone -/

/-- A turn of the thread `i`, that leads to `place`. -/
def moved (s : LoginThreads ι) (i : ι) (place : LoginPlace) (server : Server) : LoginThreads ι :=
  ⟨server, Function.update s.thread i { s.thread i with place := place }⟩

variable {place place' : LoginPlace} {server' : Server} {x : Act Server LoginPlace}

theorem moved_self (h : s.place i = place) : s.moved i place s.shared = s := by
  subst h
  simp [moved, LoginThreads.place]

/-- The next turn of a thread that has moved. -/
theorem step_moved (hx : LoginThread.next { s.thread i with place := place } = some x)
    (h : x server = .done place' server') : (s.moved i place server).step i = some (s.moved i place' server') := by
  have hturn : turn ((s.moved i place server).thread i) () =
      some (x >>= fun place => pure { s.thread i with place := place }) := by
    simp [turn, moved, hx]
  rw [step, Threads.step_of_done hturn ((bind_done h).trans (pure_apply ..))]
  simp [moved]

/-- Turns of the thread `i`, and of no other. -/
def TurnsOf (i : ι) : LoginThreads ι → LoginThreads ι → Prop :=
  Relation.ReflTransGen fun s s' => s.step i = some s'

theorem loginRoom_steps (h : Server.loginRoom (s.thread i).rq.roomId server = .done r server') :
    TurnsOf i (s.moved i .start server) (s.moved i (.inRoom r) server') := by
  have hget : Server.getRoom (s.thread i).rq.roomId server = .done (server.room (s.thread i).rq.roomId)
      (server.foundRoom (s.thread i).rq.roomId) := rfl
  rw [Server.loginRoom, bind_done hget] at h
  rcases hr : server.room (s.thread i).rq.roomId with _ | r' <;> rw [hr] at hget h
  · obtain ⟨r', made, hmade, h⟩ := bind_eq_done.mp h
    obtain ⟨ok, added, hadded, h⟩ := bind_eq_done.mp h
    cases h
    refine .head (step_moved rfl (bind_done hget)) (.head (step_moved rfl (bind_done hmade)) ?_)
    exact .single (step_moved rfl (bind_done hadded))
  · cases h
    exact .single (step_moved rfl (bind_done hget))

/-- A thread that nobody interrupts does what `ClientLoginRQ::Execute` does. -/
theorem login_steps (hp : s.place i = .start)
    (h : Server.clientLoginRQ (s.thread i).tmpPackage (s.thread i).rq s.shared = .done () server) :
    ∃ r, TurnsOf i s (s.moved i (.finished r) server) := by
  obtain ⟨r, server₁, hroom, h⟩ := bind_eq_done.mp h
  obtain ⟨found, server₂, hnew, h⟩ := bind_eq_done.mp h
  have hsteps := loginRoom_steps hroom
  rw [moved_self hp] at hsteps
  refine ⟨r, hsteps.trans ?_⟩
  rcases found with _ | p
  · cases h
    exact .single (step_moved rfl (bind_done hnew))
  · obtain ⟨_, server₃, hstore, h⟩ := bind_eq_done.mp h
    obtain ⟨_, server₄, hadd, h⟩ := bind_eq_done.mp h
    refine .head (step_moved rfl (bind_done hnew)) (.single (step_moved rfl ?_))
    exact (bind_done hstore).trans ((bind_done hadd).trans (bind_done h))

/-- The requests of the users 1 and 2 for the room 2. -/
def twoRequests (second : Bool) : GateRoomServerPack × StruUserLoginRQ :=
  (⟨[], 7, 5, 0, [], []⟩, ⟨if second then 2 else 1, 2, []⟩)

/-- The second thread begins when the first one has finished. -/
theorem shared_iff_inTurn : ∃ t, run (start .new twoRequests)
    [false, false, false, false, false, true, true, true] = some t ∧
      Shared 2 (fun i => (twoRequests i).2.userId) t := by
  have hrun : ∃ t, t ∈ run (start .new twoRequests) [false, false, false, false, false, true, true, true] ∧
      ∀ i, t.place i = .finished 0 := by
    decide +kernel
  have halone : ∀ x ∈ runSteps step (start .new twoRequests) [false, false, false, false, false, true, true, true],
      Alone 2 x.1 x.2 := by
    unfold Alone
    decide +kernel
  obtain ⟨t, ht, hdone⟩ := hrun
  exact ⟨t, ht, (shared_iff ⟨[], rfl⟩ rfl (by decide) ht fun i => ⟨0, hdone i⟩).mpr halone⟩

/-- Both threads find no room. The room of the second thread is not that of the manager. -/
theorem not_shared_both : ∃ is t, run (start .new twoRequests) is = some t ∧ (∀ i, ∃ r, t.place i = .finished r) ∧
    ¬ Shared 2 (fun i => (twoRequests i).2.userId) t := by
  have hrun : ∃ t, t ∈ run (start .new twoRequests)
      [false, true, false, true, false, true, false, true, false, true] ∧
      ∀ i, t.place i = .finished (if i then 1 else 0) := by
    decide +kernel
  obtain ⟨t, ht, hdone⟩ := hrun
  refine ⟨_, t, ht, fun i => ⟨_, hdone i⟩, fun ⟨r, _, hall⟩ => ?_⟩
  have hfalse := (hdone false).symm.trans (hall false).1
  have htrue := (hdone true).symm.trans (hall true).1
  cases hfalse.trans htrue.symm

end LoginThreads

end Miku.RoomServer
