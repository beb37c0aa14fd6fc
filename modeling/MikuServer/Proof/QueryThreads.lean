import MikuServer.Framework.Loop
import MikuServer.Impl.QueryChatRoom
import MikuServer.Proof.GateLogins

/-!
# Rooms that stay pending

`QueryChatRoomRS::Execute` takes a room out of `room_list_` once, after it has
made it known. What `AddOneUndealPack` puts there later stays: in a run that
ends with no thread in a handler and no query open, no room that is known is
pending exactly if each `AddOneUndealPack` of the run comes while its room is
unknown, or before that `DeleteRoom` (`not_pending_iff`).
-/

namespace Miku.GateServer

namespace ClientProcessor

variable {self : ClientProcessor}

theorem find?_markRoom (roomId j : Int) :
    ((self.markRoom roomId).roomList.find? j).isSome ↔ (self.roomList.find? j).isSome ∨ j = roomId := by
  have hsub : ((self.roomList.subscript roomId 0).find? j).isSome ↔ (self.roomList.find? j).isSome ∨ j = roomId := by
    rw [StdMap.find?_subscript]
    split <;> rename_i h
    · simp [h.1]
    · refine ⟨Or.inl, fun h' => h'.elim id fun hj => ?_⟩
      rw [hj, Option.isSome_iff_ne_none]
      exact fun hn => h ⟨hj.symm, hn⟩
  rw [markRoom]
  dsimp only
  split
  · rw [StdMap.find?_assign]
    split <;> rename_i h
    · simp [h]
    · exact hsub
  · exact hsub

/-- What `AddOneUndealPack` does to `room_list_`. -/
theorem addOneUndealPack_roomList {buff : List Byte} {len : Int} {roomId userHashkey : CInt} {ret : Bool}
    {self' : ClientProcessor} (h : self.addOneUndealPack buff len roomId userHashkey = some (ret, self')) :
    self'.roomList = (self.markRoom roomId.toInt).roomList := by
  rw [addOneUndealPack] at h
  dsimp only at h
  split at h
  · simp only [Option.bind_eq_bind, Option.bind_eq_some_iff] at h
    obtain ⟨b, -, b', -, ⟨ret', list⟩, -, h⟩ := h
    cases h
    rfl
  · cases h
    rfl

end ClientProcessor

namespace Gate

variable (g : Gate) (rs : StruDsGSGetRoomInfoRs) (o : Connect)

theorem startConnector_snd : (g.startConnector rs o).2.roomManager = g.roomManager ∧
    (g.startConnector rs o).2.clProcessor = g.clProcessor := by
  rw [startConnector]
  split
  · exact ⟨rfl, rfl⟩
  · split <;> exact ⟨rfl, rfl⟩

/-- `Execute` up to the connector goes on only for a room that is not known. -/
theorem findConnector_effect : (∀ r, (g.findConnector rs o).2.roomManager.room r = g.roomManager.room r) ∧
    (g.findConnector rs o).2.clProcessor = g.clProcessor ∧
    ((g.findConnector rs o).1.isSome → g.roomManager.room rs.roomId = none) := by
  have hlook (r : Int) : (g.roomManager.getChatRoom rs.roomId).2.room r = g.roomManager.room r :=
    RoomManager.getChatRoom_room ..
  rw [findConnector]
  dsimp only
  rw [RoomManager.getChatRoom_fst]
  split <;> rename_i hroom
  · exact ⟨hlook, rfl, fun h => absurd h Bool.false_ne_true⟩
  · split
    · obtain ⟨h1, h2⟩ := startConnector_snd { g with roomManager := (g.roomManager.getChatRoom rs.roomId).2 } rs o
      rw [h1, h2]
      exact ⟨hlook, rfl, fun _ => hroom⟩
    · exact ⟨hlook, rfl, fun _ => hroom⟩

end Gate

namespace QueryThreads

variable {ι : Type} {t t' : QueryThreads ι} {x : QueryEvent ι} {n : Nat}

/-- `RoomManager` knows the room. -/
def Known (t : QueryThreads ι) (roomId : Int) : Prop := (t.gate.roomManager.room roomId).isSome

/-- The room is in `room_list_`. -/
def Pending (t : QueryThreads ι) (roomId : Int) : Prop := (t.gate.clProcessor.roomList.find? roomId).isSome

/-- No thread is in a handler, and every query has been answered. -/
structure Quiet (t : QueryThreads ι) : Prop where
  user (i : ι) : t.user i = .idle
  director : t.director = .idle
  queries : t.queries = []

/-- `DeleteRoom` of the room comes next. -/
def Deletes (t : QueryThreads ι) (roomId : Int) : Prop := ∃ rs, t.director = .added rs ∧ rs.roomId = roomId

/-- `AddOneUndealPack` comes while the room is not known, or before it is deleted. -/
def Allowed (t : QueryThreads ι) : QueryEvent ι → Prop
  | .user i => ∀ login, t.user i = .asked login →
      ¬ Known t login.roomId.toInt ∨ Deletes t login.roomId.toInt
  | _ => True

theorem deletes_added {rs : StruDsGSGetRoomInfoRs} (h : t.director = .added rs) (r : Int) :
    Deletes t r ↔ rs.roomId = r := by
  simp [Deletes, h]

theorem not_deletes_idle (h : t.director = .idle) (r : Int) : ¬ Deletes t r := by
  simp [Deletes, h]

theorem not_deletes_found {rs : StruDsGSGetRoomInfoRs} {conn : RoomServerConnector} (h : t.director = .found rs conn)
    (r : Int) : ¬ Deletes t r := by
  simp [Deletes, h]

theorem allowed_user {i : ι} {login : LoginPack} (h : t.user i = .asked login) :
    Allowed t (.user i) ↔ ¬ Known t login.roomId.toInt ∨ Deletes t login.roomId.toInt := by
  simp [Allowed, h]

theorem not_known_start (r : Int) : ¬ Known (start n : QueryThreads ι) r := by
  rw [Known, start, Gate.start, RoomManager.new_room]
  exact Bool.false_ne_true

/-- What a step does to the rooms that are known, those that are pending, and the director's thread. -/
inductive Effect (t : QueryThreads ι) (x : QueryEvent ι) (t' : QueryThreads ι) : Prop
  /-- A user's `GetChatRoom` or `SendQueryRoom`. -/
  | asks (allowed : Allowed t x) (known : ∀ r, Known t' r ↔ Known t r) (pending : ∀ r, Pending t' r ↔ Pending t r)
    (director : t'.director = t.director)
  /-- A user's `AddOneUndealPack`. -/
  | adds (i : ι) (login : LoginPack) (event : x = .user i) (user : t.user i = .asked login)
    (known : ∀ r, Known t' r ↔ Known t r) (pending : ∀ r, Pending t' r ↔ Pending t r ∨ r = login.roomId.toInt)
    (director : t'.director = t.director)
  /-- The director's `GetChatRoom`. -/
  | looks (allowed : Allowed t x) (known : ∀ r, Known t' r ↔ Known t r) (pending : ∀ r, Pending t' r ↔ Pending t r)
    (before : t.director = .idle)
    (director : t'.director = .idle ∨ ∃ rs conn, t'.director = .found rs conn ∧ ¬ Known t rs.roomId)
  /-- The director's `AddRoom`. -/
  | addRoom (rs : StruDsGSGetRoomInfoRs) (conn : RoomServerConnector) (allowed : Allowed t x)
    (before : t.director = .found rs conn) (known : ∀ r, Known t' r ↔ Known t r ∨ r = rs.roomId)
    (pending : ∀ r, Pending t' r ↔ Pending t r) (director : t'.director = .added rs)
  /-- The director's `DeleteRoom`. -/
  | deleteRoom (rs : StruDsGSGetRoomInfoRs) (allowed : Allowed t x) (before : t.director = .added rs)
    (known : ∀ r, Known t' r ↔ Known t r) (pending : ∀ r, Pending t' r ↔ Pending t r ∧ r ≠ rs.roomId)
    (director : t'.director = .idle)

variable [DecidableEq ι]

theorem known_getChatRoom (i : ι) (login : LoginPack) (r : Int) : Known (t.getChatRoom i login) r ↔ Known t r := by
  have h : ((t.gate.roomManager.getChatRoom login.roomId.toInt).2.room r).isSome ↔
      (t.gate.roomManager.room r).isSome := by
    rw [RoomManager.getChatRoom_room]
  rw [getChatRoom]
  dsimp only
  split
  · exact h
  · exact h

theorem login_effect {i : ι} {login : LoginPack} (h : t.step (.login i login) = some t') :
    Effect t (.login i login) t' := by
  rw [step] at h
  split at h
  · cases h
    refine .asks trivial (known_getChatRoom i login) (fun r => ?_) ?_
    · rw [getChatRoom]
      dsimp only
      split <;> rfl
    · rw [getChatRoom]
      dsimp only
      split <;> rfl
  · cases h

theorem user_effect {i : ι} (h : t.step (.user i) = some t') : Effect t (.user i) t' := by
  rw [step] at h
  split at h <;> rename_i hu
  · cases h
  · cases h
    exact .asks (fun l hl => nomatch hu.symm.trans hl) (fun _ => .rfl) (fun _ => .rfl) rfl
  · rename_i login
    simp only [Option.bind_eq_bind, Option.bind_eq_some_iff] at h
    obtain ⟨⟨ret, cl⟩, hadd, h⟩ := h
    cases h
    refine .adds i login rfl hu (fun _ => .rfl) (fun r => ?_) rfl
    show (cl.roomList.find? r).isSome ↔ _
    rw [ClientProcessor.addOneUndealPack_roomList hadd, ClientProcessor.find?_markRoom]
    rfl

theorem reply_effect {rs : StruDsGSGetRoomInfoRs} {o : Connect} (h : t.step (.reply rs o) = some t') :
    Effect t (.reply rs o) t' := by
  rw [step] at h
  split at h <;> rename_i hd
  · obtain ⟨hroom, hcl, hnew⟩ := t.gate.findConnector_effect rs o
    rcases hf : t.gate.findConnector rs o with ⟨tmpRsConn, gate⟩
    rw [hf] at h hroom hcl hnew
    split at h
    · cases h
      refine .looks trivial (fun r => ?_) (fun r => ?_) hd ?_
      · show (gate.roomManager.room r).isSome ↔ _
        rw [hroom]
        rfl
      · show (gate.clProcessor.roomList.find? r).isSome ↔ _
        rw [hcl]
        rfl
      · rcases tmpRsConn with _ | conn
        · exact .inl rfl
        · refine .inr ⟨rs, conn, rfl, ?_⟩
          rw [Known, hnew rfl]
          exact nofun
    · cases h
  · cases h

theorem director_effect (h : t.step .director = some t') : Effect t .director t' := by
  rw [step] at h
  split at h <;> rename_i hd
  · cases h
  · cases h
    refine .addRoom _ _ trivial hd (fun r => ?_) (fun _ => .rfl) rfl
    show ((t.gate.roomManager.addRoom _ _).2.room r).isSome ↔ _
    rw [RoomManager.addRoom_room]
    split <;> rename_i hr
    · simp [hr]
    · simp [Known, Ne.symm hr]
  · cases h
    refine .deleteRoom _ trivial hd (fun _ => .rfl) (fun r => ?_) rfl
    show ((t.gate.clProcessor.roomList.erase _).find? r).isSome ↔ _
    rw [StdMap.find?_erase]
    split <;> rename_i hr
    · simp [hr]
    · simp [Pending, Ne.symm hr]

theorem step_effect (h : t.step x = some t') : Effect t x t' := by
  cases x with
  | login i login => exact login_effect h
  | user i => exact user_effect h
  | reply rs o => exact reply_effect h
  | director => exact director_effect h

/-! ## Runs -/

/-- The director's thread adds a room that is not known. -/
def Adds (t : QueryThreads ι) : Prop := ∀ rs conn, t.director = .found rs conn → ¬ Known t rs.roomId

/-- A room that is known is pending only while the director's thread is about to delete it. -/
def Settled (t : QueryThreads ι) : Prop := ∀ r, Known t r → Pending t r → Deletes t r

theorem adds_step (ha : Adds t) (h : t.step x = some t') : Adds t' := by
  intro rs conn hd
  cases step_effect h with
  | asks _ known _ director =>
    rw [known]
    exact ha rs conn (director.symm.trans hd)
  | adds i login _ _ known _ director =>
    rw [known]
    exact ha rs conn (director.symm.trans hd)
  | looks _ known _ _ director =>
    rcases director with hi | ⟨rs', conn', hf, hn⟩
    · cases hi.symm.trans hd
    · cases hf.symm.trans hd
      rwa [known]
  | addRoom rs' _ _ _ _ _ director => cases director.symm.trans hd
  | deleteRoom rs' _ _ _ _ director => cases director.symm.trans hd

theorem settled_step (ha : Adds t) (h : t.step x = some t') : Settled t' ↔ Settled t ∧ Allowed t x := by
  cases step_effect h with
  | asks allowed known pending director => simp [Settled, Deletes, known, pending, director, allowed]
  | adds i login event user known pending director =>
    have hdel (r : Int) : Deletes t' r ↔ Deletes t r := by simp [Deletes, director]
    rw [event, allowed_user user]
    simp only [Settled, known, pending, hdel]
    refine ⟨fun hs => ⟨fun r hk hp => hs r hk (.inl hp), ?_⟩, fun ⟨hs, hr⟩ r hk hp => ?_⟩
    · exact or_iff_not_imp_left.mpr fun hk => hs _ (not_not.mp hk) (.inr rfl)
    · rcases hp with hp | rfl
      · exact hs r hk hp
      · exact hr.resolve_left (not_not_intro hk)
  | looks allowed known pending before director =>
    have hdel (r : Int) : ¬ Deletes t' r := by
      rcases director with hi | ⟨rs, conn, hf, -⟩
      · exact not_deletes_idle hi r
      · exact not_deletes_found hf r
    simp only [Settled, known, pending, hdel, not_deletes_idle before, allowed, and_true]
  | addRoom rs conn allowed before known pending director =>
    simp only [Settled, known, pending, deletes_added director, not_deletes_found before, allowed, and_true]
    refine ⟨fun hs r hk hp => ?_, fun hs r hk hp => ?_⟩
    · exact ha rs conn before (hs r (.inl hk) hp ▸ hk)
    · rcases hk with hk | rfl
      · exact (hs r hk hp).elim
      · rfl
  | deleteRoom rs allowed before known pending director =>
    simp only [Settled, known, pending, deletes_added before, not_deletes_idle director, allowed, and_true]
    refine ⟨fun hs r hk hp => ?_, fun hs r hk hp => hp.2 (hs r hk hp.1).symm⟩
    by_contra hne
    exact hs r hk ⟨hp, Ne.symm hne⟩

/-- In a run that ends quietly no room that is known is pending exactly if each `AddOneUndealPack` comes
while its room is unknown or before it is deleted. -/
theorem not_pending_iff {xs : List (QueryEvent ι)} (ht : xs.foldlM step (start n) = some t) (hq : Quiet t) :
    (∀ r, Known t r → ¬ Pending t r) ↔ ∀ x ∈ runSteps step (start n) xs, Allowed x.1 x.2 := by
  have hs : Settled (start n : QueryThreads ι) := fun r hk => absurd hk (not_known_start r)
  have ha : Adds (start n : QueryThreads ι) := fun rs conn hd => nomatch (show DirectorPlace.idle = .found rs conn from hd)
  have hrun := foldlM_iff_steps (P := Settled) (I := Adds) (fun _ _ _ ha h => adds_step ha h)
    (fun _ _ _ ha h => settled_step ha h) ha ht
  rw [iff_true_intro hs, true_and] at hrun
  rw [← hrun]
  exact forall₃_congr fun r _ _ => (iff_false_intro (not_deletes_idle hq.director r)).symm

/-! ## One user -/

/-- The login of a user with key 5 for room 7. -/
def login7 : LoginPack := ⟨(LoginHistory.loginOf 7).pack.wire, 7, 5⟩

/-- User 0 asks for room 7. -/
def ask7 : List (QueryEvent ℕ) := [.login 0 login7, .user 0]

/-- The director's thread adds room 7. -/
def answer7 : List (QueryEvent ℕ) := [.reply ⟨7, 1⟩ ⟨some 30, true⟩, .director, .director]

/-- After the `AddOneUndealPack` of user 0. -/
def queued7 (t : QueryThreads ℕ) (list : CircleList) : QueryThreads ℕ :=
  { t.setUser 0 .idle with
    gate := { t.gate with clProcessor := { t.gate.clProcessor.markRoom 7 with dataList := list } } }

theorem step_login7 {t : QueryThreads ℕ} (hu : t.user 0 = .asked login7)
    (hl : t.gate.clProcessor.dataList = (CircleList.new 0).initBuffer (1000 : ℕ)) :
    ∃ list, [QueryEvent.user 0].foldlM step t = some (t.queued7 list) := by
  have hlen : login7.data.length < 0x1ffc := by
    show 19 < 0x1ffc
    decide
  obtain ⟨list, h, -⟩ := ClientProcessor.addOneUndealPack_ok (hl ▸ CircleList.initBuffer_holds _ (by decide)) hlen
    login7.roomId login7.userHashkey
  refine ⟨list, ?_⟩
  rw [List.foldlM_cons, step, hu]
  dsimp only
  rw [h]
  rfl

/-- Only user 0 has been in `DealWithData`. -/
theorem quiet_of_user {t : QueryThreads ℕ} {user : ℕ → UserPlace} (h : ∀ i, i ≠ 0 → user i = .idle)
    (hu : t.user = Function.update user 0 .idle) (hd : t.director = .idle) (hq : t.queries = []) : Quiet t where
  user i := by
    rw [hu, Function.update_apply]
    split <;> rename_i hi
    · rfl
    · exact h i hi
  director := hd
  queries := hq

/-- The gate when user 0 has asked for room 7. -/
def asked7 : QueryThreads ℕ := { ((start 1000).getChatRoom 0 login7).setUser 0 (.asked login7) with queries := [7] }

theorem user_asked7 (i : ℕ) (hi : i ≠ 0) : asked7.user i = .idle :=
  (Function.update_of_ne hi ..).trans (Function.update_of_ne hi ..)

theorem not_known_asked7 : ¬ Known asked7 7 := by
  have hroom : asked7.gate.roomManager.room 7 = none := rfl
  rw [Known, hroom]
  exact nofun

theorem allowed_asked7 : Allowed asked7 (.user 0) := by
  have hu : asked7.user 0 = .asked login7 := rfl
  have hroom : login7.roomId.toInt = 7 := rfl
  rw [allowed_user hu, hroom]
  exact .inl not_known_asked7

theorem run_asked7 : ask7.foldlM step (start 1000) = some asked7 := rfl

/-- The reply comes after `AddOneUndealPack`. -/
theorem settled_in_order : ∃ t, t ∈ (ask7 ++ ([QueryEvent.user 0] ++ answer7)).foldlM step (start 1000) ∧
    Known t 7 ∧ ∀ r, Known t r → ¬ Pending t r := by
  obtain ⟨list, h3⟩ := step_login7 (t := asked7) rfl rfl
  obtain ⟨t, ht, hknown, hu, hd, hq⟩ : ∃ t, answer7.foldlM step (asked7.queued7 list) = some t ∧
      Known t 7 ∧ t.user = Function.update asked7.user 0 .idle ∧ t.director = .idle ∧ t.queries = [] :=
    ⟨_, rfl, rfl, rfl, rfl, rfl⟩
  have hrun : (ask7 ++ ([QueryEvent.user 0] ++ answer7)).foldlM step (start 1000) =
      some t := by
    rw [List.foldlM_append, run_asked7, Option.bind_eq_bind, Option.bind_some, List.foldlM_append, h3,
      Option.bind_eq_bind, Option.bind_some, ht]
  refine ⟨t, hrun, hknown, (not_pending_iff hrun (quiet_of_user user_asked7 hu hd hq)).mpr ?_⟩
  rw [runSteps_append run_asked7, runSteps_append h3]
  simp only [List.forall_mem_append]
  refine ⟨?_, ?_, ?_⟩
  · rw [ask7, runSteps_cons rfl, runSteps_last]
    simp only [List.forall_mem_cons]
    exact ⟨trivial, fun l hl => (nomatch hl), List.forall_mem_nil _⟩
  · rw [runSteps_last]
    simp only [List.forall_mem_cons]
    exact ⟨allowed_asked7, List.forall_mem_nil _⟩
  · rw [answer7, runSteps_cons rfl, runSteps_cons rfl, runSteps_last]
    simp only [List.forall_mem_cons]
    exact ⟨trivial, trivial, trivial, List.forall_mem_nil _⟩

/-- The reply comes before `AddOneUndealPack`, which makes the room pending for good. -/
theorem pending_late : ∃ t, t ∈ (ask7 ++ (answer7 ++ [QueryEvent.user 0])).foldlM step (start 1000) ∧
    Quiet t ∧ Known t 7 ∧ Pending t 7 := by
  obtain ⟨t, ht, hu, hl, hknown, huser, hd, hq⟩ : ∃ t, answer7.foldlM step asked7 = some t ∧
      t.user 0 = .asked login7 ∧ t.gate.clProcessor.dataList = (CircleList.new 0).initBuffer (1000 : ℕ) ∧
      Known t 7 ∧ t.user = asked7.user ∧ t.director = .idle ∧ t.queries = [] := ⟨_, rfl, rfl, rfl, rfl, rfl, rfl, rfl⟩
  obtain ⟨list, h6⟩ := step_login7 hu hl
  refine ⟨t.queued7 list, ?_, quiet_of_user (huser ▸ user_asked7) rfl hd hq, hknown,
    (ClientProcessor.find?_markRoom 7 7).mpr (.inr rfl)⟩
  rw [List.foldlM_append, run_asked7, Option.bind_eq_bind, Option.bind_some, List.foldlM_append, ht,
    Option.bind_eq_bind, Option.bind_some, h6]
  rfl

end QueryThreads

end Miku.GateServer
