import MikuServer.Framework.Loop
import MikuServer.Impl.QueryChatRoom

/-!
# The rooms and connectors of the gate

What the functions of `RoomManager` do to the rooms that are known, and in which
runs of replies the connectors are recorded (`recorded_iff`): those in which
none is ever started, since `Execute` puts none into `rs_conn_list_`.
-/

namespace Miku.GateServer

namespace RoomManager

variable (self : RoomManager) (roomId serverFd j : Int)

/-- The room that `GetChatRoom(roomId)` finds. -/
def room (self : RoomManager) (roomId : Int) : Option ChatRoom := self.roomList.ptr roomId

@[simp] theorem new_room : new.room roomId = none := StdMap.ptr_empty _

@[simp] theorem getChatRoom_fst : (self.getChatRoom roomId).1 = self.room roomId := rfl

@[simp] theorem getChatRoom_room : (self.getChatRoom roomId).2.room j = self.room j := StdMap.ptr_subscript ..

theorem addRoom_room : (self.addRoom roomId serverFd).2.room j =
    if roomId = j then (self.room roomId).or (some ⟨roomId, serverFd⟩) else self.room j := by
  have hsub (k : Int) : (self.roomList.subscript roomId none).ptr k = self.room k := StdMap.ptr_subscript ..
  unfold addRoom
  rcases hr : self.roomList.ptr roomId with _ | room
  · have hroom : self.room roomId = none := hr
    show ((self.roomList.subscript roomId none).assign roomId _).ptr j = _
    rw [StdMap.ptr_assign, hsub, hroom, Option.none_or]
  · have hroom : self.room roomId = some room := hr
    show (self.roomList.subscript roomId none).ptr j = _
    rw [hsub, hroom, Option.some_or]
    split <;> rename_i h
    · rw [← h, hroom]
    · rfl

/-- A room that is known stays as it is. -/
theorem addRoom_of_room {room : ChatRoom} (h : self.room j = some room) :
    (self.addRoom roomId serverFd).2.room j = some room := by
  rw [addRoom_room]
  split <;> rename_i he
  · rw [he, h, Option.some_or]
  · exact h

end RoomManager

namespace Gate

variable {g g' : Gate} {rs : StruDsGSGetRoomInfoRs} {o : Connect} {conn : RoomServerConnector}

/-- A connector is started once for a room server, and recorded, and every room that is known has the
socket of the connector recorded for the server that the reply named. -/
structure Recorded (g : Gate) : Prop where
  once : (g.started.map Prod.fst).Nodup
  recorded {rsServerId : Int} {conn : RoomServerConnector} : (rsServerId, conn) ∈ g.started →
    g.rsConnList.find? rsServerId = some conn
  socket {roomId : Int} {room : ChatRoom} : g.roomManager.room roomId = some room →
    ∃ conn, g.rsConnList.find? (g.addedBy roomId) = some conn ∧ room.serverFd = conn.socket

/-- The room is known, or no connector can be started. -/
def StartsNothing (g : Gate) (x : StruDsGSGetRoomInfoRs × Connect) : Prop :=
  (g.roomManager.room x.1.roomId).isSome ∨ x.2.startConnect = none ∨ x.2.startRSProcessor = false

def step (g : Gate) (x : StruDsGSGetRoomInfoRs × Connect) : Option Gate := some (g.execute x.1 x.2)

/-- The gate after `GetChatRoom`. -/
def looked (g : Gate) (roomId : Int) : Gate := { g with roomManager := (g.roomManager.getChatRoom roomId).2 }

theorem findConnector_known (h : (g.roomManager.room rs.roomId).isSome) :
    g.findConnector rs o = (none, g.looked rs.roomId) := by
  obtain ⟨room, hr⟩ := Option.isSome_iff_exists.mp h
  rw [findConnector]
  dsimp only
  rw [RoomManager.getChatRoom_fst, hr]
  rfl

theorem findConnector_unknown (h : g.roomManager.room rs.roomId = none) (hc : g.rsConnList = .empty) :
    g.findConnector rs o = (g.looked rs.roomId).startConnector rs o := by
  rw [findConnector]
  dsimp only
  rw [RoomManager.getChatRoom_fst, h]
  dsimp only
  rw [hc, StdMap.find?_empty]
  simp only [looked, hc]

theorem recorded_looked (h : Recorded g) (roomId : Int) : Recorded (g.looked roomId) where
  once := h.once
  recorded := h.recorded
  socket hr := h.socket ((RoomManager.getChatRoom_room ..).symm.trans hr)

/-- `Execute` starts no connector, and makes no room known. -/
theorem execute_nothing (hc : g.rsConnList = .empty) (h : StartsNothing g (rs, o)) :
    g.execute rs o = g.looked rs.roomId := by
  rw [execute]
  by_cases hr : (g.roomManager.room rs.roomId).isSome
  · rw [findConnector_known hr]
  · rw [findConnector_unknown (Option.not_isSome_iff_eq_none.mp hr) hc, startConnector]
    rcases h with h | h | h
    · exact absurd h hr
    · rw [h]
    · rcases o.startConnect with _ | socket
      · rfl
      · dsimp only
        rw [if_neg (by simpa using h)]

/-- `Execute` starts a connector, which it does not record. -/
theorem execute_starts (hc : g.rsConnList = .empty) (h : ¬ StartsNothing g (rs, o)) :
    ∃ conn, (rs.rsServerId, conn) ∈ (g.execute rs o).started ∧ (g.execute rs o).rsConnList = .empty := by
  simp only [StartsNothing, not_or, Option.not_isSome_iff_eq_none, Bool.not_eq_false] at h
  obtain ⟨hr, hs, hp⟩ := h
  obtain ⟨socket, hs⟩ := Option.ne_none_iff_exists'.mp hs
  have hstart : (g.looked rs.roomId).startConnector rs o = (some ⟨g.started.length, socket⟩, { g.looked rs.roomId with
      started := g.started ++ [(rs.rsServerId, ⟨g.started.length, socket⟩)] }) := by
    rw [startConnector, hs]
    exact if_pos hp
  rw [execute, findConnector_unknown hr hc, hstart]
  exact ⟨⟨g.started.length, socket⟩, List.mem_append_right _ List.mem_cons_self, hc⟩

/-- `rs_conn_list_` stays empty. -/
theorem execute_rsConnList (hc : g.rsConnList = .empty) (rs : StruDsGSGetRoomInfoRs) (o : Connect) :
    (g.execute rs o).rsConnList = .empty := by
  by_cases h : StartsNothing g (rs, o)
  · rw [execute_nothing hc h]
    exact hc
  · obtain ⟨-, -, h⟩ := execute_starts hc h
    exact h

theorem recorded_execute (hc : g.rsConnList = .empty) (h : Recorded g) (rs : StruDsGSGetRoomInfoRs) (o : Connect) :
    Recorded (g.execute rs o) ↔ StartsNothing g (rs, o) := by
  refine ⟨fun h' => ?_, fun h' => ?_⟩
  · by_contra hn
    obtain ⟨conn, hm, he⟩ := execute_starts hc hn
    have hrec := h'.recorded hm
    rw [he, StdMap.find?_empty] at hrec
    cases hrec
  · rw [execute_nothing hc h']
    exact recorded_looked h rs.roomId

theorem recorded_start (n : Nat) : Recorded (start n) where
  once := List.nodup_nil
  recorded h := absurd h List.not_mem_nil
  socket h := by
    rw [start, RoomManager.new_room] at h
    cases h

/-- The connectors are recorded in every state of a run exactly if none is started in it. -/
theorem recorded_iff (n : Nat) (xs : List (StruDsGSGetRoomInfoRs × Connect)) :
    Always step Recorded (start n) xs ↔ ∀ x ∈ runSteps step (start n) xs, StartsNothing x.1 x.2 := by
  have ok (g : Gate) (x : StruDsGSGetRoomInfoRs × Connect) (_ _ : True) : ∃ g', step g x = some g' ∧ True :=
    ⟨_, rfl, trivial⟩
  obtain ⟨t, ht, -⟩ := run_inv ok (fun x (_ : x ∈ xs) => trivial) (s := start n) trivial
  refine always_iff_steps (I := fun g => g.rsConnList = .empty) (fun g x g' hc h => ?_) (fun g x g' hc hg h => ?_) rfl
    (recorded_start n) ht
  · cases h
    exact execute_rsConnList hc x.1 x.2
  · cases h
    exact recorded_execute hc hg x.1 x.2

/-- Two rooms of one room server: each has a connector of its own, and none is recorded. -/
theorem not_recorded_two : ∃ g, g ∈ [((⟨2, 7⟩, ⟨some 30, true⟩) : StruDsGSGetRoomInfoRs × Connect),
      (⟨3, 7⟩, ⟨some 31, true⟩)].foldlM step (start 1000) ∧
    g.started = [(7, ⟨0, 30⟩), (7, ⟨1, 31⟩)] ∧ ¬ Recorded g := by
  refine ⟨_, rfl, rfl, fun h => ?_⟩
  have honce := h.once
  revert honce
  decide

end Gate

end Miku.GateServer
