import Mathlib.Data.Multiset.UnionInter
import MikuServer.Proof.Records

/-!
# The records of the users

In every reachable state no record of a room has two owners, and the record of a
user who is in the room or pending has the user's id (`Owned`). A record that is
unused is then nobody's (`online_ne_unused`, `pending_ne_unused`), so taking it
leaves the users' records as they are.
-/

namespace Miku.RoomServer

open Act UserInfoList ChatRoom

/-- No record has two owners, each user's record has the user's id, and the mutex of the pending users is free. -/
structure Owned (room : ChatRoom) : Prop where
  nodup : (stock room).Nodup
  online {u : Int} {p : Ptr} : room.userList.userInfoList.ptr u = some p → (room.records p).userId = u
  pending {u : Int} {p : Ptr} : room.preUserList.userInfoList.ptr u = some p → (room.records p).userId = u
  preLocked : room.preUserList.locked = false

variable {room room' : ChatRoom} {u v : Int} {p q : Ptr} {rest : List Ptr}

theorem online_ne_unused (h : (stock room).Nodup) (hp : room.userList.userInfoList.ptr u = some p)
    (hq : room.userList.unusedUserInfoList = q :: rest) : p ≠ q := by
  have hdis := (Multiset.nodup_add.mp (Multiset.nodup_add.mp h).1).2.2
  rintro rfl
  refine Multiset.disjoint_left.mp hdis ?_ (Multiset.mem_coe.mpr (StdMap.mem_ptrs.mpr ⟨u, hp⟩))
  rw [hq]
  exact List.mem_cons_self

theorem pending_ne_unused (h : (stock room).Nodup) (hp : room.preUserList.userInfoList.ptr u = some p)
    (hq : room.userList.unusedUserInfoList = q :: rest) : p ≠ q := by
  have hdis := (Multiset.nodup_add.mp h).2.2
  rintro rfl
  refine Multiset.disjoint_left.mp hdis ?_ (Multiset.mem_coe.mpr (StdMap.mem_ptrs.mpr ⟨u, hp⟩))
  rw [hq]
  exact Multiset.mem_add.mpr (.inl List.mem_cons_self)

/-! ## What the commands do to the stock -/

theorem stock_filled (tmpPackage : GateRoomServerPack) (rq : StruUserLoginRQ)
    (h : room.userList.unusedUserInfoList = p :: rest) :
    stock room = p ::ₘ stock (Server.filled room tmpPackage rq p rest) := by
  show _ = p ::ₘ ((rest : Multiset Ptr) + _ + _)
  rw [stock, h, ← Multiset.cons_coe, Multiset.cons_add, Multiset.cons_add]
  rfl

theorem stock_requested_le (tmpPackage : GateRoomServerPack) (rq : StruUserLoginRQ)
    (h : room.userList.unusedUserInfoList = p :: rest) :
    stock (Server.requested room tmpPackage rq p rest) ≤ stock room := by
  rw [stock_filled tmpPackage rq h]
  show _ + ((added room.preUserList.userInfoList rq.userId p).ptrs : Multiset Ptr) ≤ _
  rcases hu : room.preUserList.userInfoList.ptr rq.userId with _ | j
  · rw [coe_ptrs_added hu, Multiset.add_cons]
    exact le_refl _
  · rw [added_of_isSome (Option.isSome_of_mem hu)]
    exact Multiset.le_cons_self _ _

theorem stock_released (h : room.userList.userInfoList.ptr u = some p) :
    stock { room with userList := released room.userList u p } = stock room := by
  have e : exitRoom room u = { room with userList := released room.userList u p } := by rw [exitRoom, h]
  rw [← e, stock_exitRoom]

theorem stock_endedLogin_le (room : ChatRoom) (u : Int) : stock (Server.endedLogin room u) ≤ stock room := by
  rcases hp : room.preUserList.userInfoList.ptr u with _ | p
  · have hsame : SameLists (Server.endedLogin room u) room := by
      unfold Server.endedLogin
      rw [hp]
      exact ⟨rfl, rfl, fun _ => rfl, fun _ => lookedUp_ptr ..⟩
    exact hsame.stock.le
  · rw [stock_endedLogin hp]
    exact Multiset.le_cons_self _ _

/-! ## What the commands do to the records -/

namespace Server

theorem filled_records (room : ChatRoom) (tmpPackage : GateRoomServerPack) (rq : StruUserLoginRQ) (rest : List Ptr) :
    (filled room tmpPackage rq p rest).records p = pendingInfo tmpPackage rq :=
  Function.update_self ..

theorem filled_records_of_ne (room : ChatRoom) (tmpPackage : GateRoomServerPack) (rq : StruUserLoginRQ)
    (rest : List Ptr) (h : p ≠ q) : (filled room tmpPackage rq q rest).records p = room.records p := by
  simp [filled, store, took, Function.update_of_ne h]

theorem loggedIn_records_of_ne (room : ChatRoom) (rs : StruUserLoginRS) (j : Ptr) (rest : List Ptr) (h : p ≠ q) :
    (loggedIn room rs j q rest).records p = room.records p := by
  simp [loggedIn, store, took, Function.update_of_ne h]

theorem loggedIn_records (room : ChatRoom) (rs : StruUserLoginRS) (rest : List Ptr) (h : p ≠ q) :
    (loggedIn room rs p q rest).records q = loginInfo rs (room.records p) := by
  simp [loggedIn, store, took, Function.update_of_ne h]

end Server

/-! ## Every command -/

namespace Owned

theorem of_sameLists (h : Owned room) (hl : SameLists room' room)
    (hu : ∀ j, (room'.records j).userId = (room.records j).userId)
    (hpre : room'.preUserList.locked = room.preUserList.locked) : Owned room' where
  nodup := hl.stock ▸ h.nodup
  online hp := (hu _).trans (h.online ((hl.online _).symm.trans hp))
  pending hp := (hu _).trans (h.pending ((hl.pending _).symm.trans hp))
  preLocked := hpre.trans h.preLocked

theorem filled (h : Owned room) (tmpPackage : GateRoomServerPack) (rq : StruUserLoginRQ)
    (hq : room.userList.unusedUserInfoList = p :: rest) : Owned (Server.filled room tmpPackage rq p rest) where
  nodup := Multiset.nodup_of_le (stock_filled tmpPackage rq hq ▸ Multiset.le_cons_self _ _) h.nodup
  online hp := by
    rw [Server.filled_records_of_ne room tmpPackage rq rest (online_ne_unused h.nodup hp hq)]
    exact h.online hp
  pending hp := by
    rw [Server.filled_records_of_ne room tmpPackage rq rest (pending_ne_unused h.nodup hp hq)]
    exact h.pending hp
  preLocked := h.preLocked

theorem requested (h : Owned room) (tmpPackage : GateRoomServerPack) (rq : StruUserLoginRQ)
    (hq : room.userList.unusedUserInfoList = p :: rest) : Owned (Server.requested room tmpPackage rq p rest) where
  nodup := Multiset.nodup_of_le (stock_requested_le tmpPackage rq hq) h.nodup
  online := (h.filled tmpPackage rq hq).online
  pending {v j} hp := by
    have hp' : (added room.preUserList.userInfoList rq.userId p).ptr v = some j := hp
    rw [ptr_added] at hp'
    split at hp' <;> rename_i hv
    · rcases hold : room.preUserList.userInfoList.ptr rq.userId with _ | k
      · rw [hold] at hp'
        cases hp'
        show ((Server.filled room tmpPackage rq p rest).records p).userId = v
        rw [Server.filled_records, ← hv]
        rfl
      · rw [hold] at hp'
        cases hp'
        exact (h.filled tmpPackage rq hq).pending (hv ▸ hold)
    · exact (h.filled tmpPackage rq hq).pending hp'
  preLocked := h.preLocked

theorem loggedIn {rs : StruUserLoginRS} (h : Owned room) (hp : room.preUserList.userInfoList.ptr rs.userId = some p)
    (hq : room.userList.unusedUserInfoList = q :: rest) : Owned (Server.loggedIn room rs p q rest) where
  nodup := Multiset.nodup_of_le (stock_loggedIn_le rs p hq) h.nodup
  online {v j} hj := by
    have honline {v : Int} {j : Ptr} (hj : room.userList.userInfoList.ptr v = some j) :
        ((Server.loggedIn room rs p q rest).records j).userId = v := by
      rw [Server.loggedIn_records_of_ne room rs p rest (online_ne_unused h.nodup hj hq)]
      exact h.online hj
    have hj' : (added room.userList.userInfoList rs.userId q).ptr v = some j := hj
    rw [ptr_added] at hj'
    split at hj' <;> rename_i hv
    · rcases hold : room.userList.userInfoList.ptr rs.userId with _ | k
      · rw [hold] at hj'
        cases hj'
        show ((Server.loggedIn room rs p q rest).records q).userId = v
        rw [Server.loggedIn_records room rs rest (pending_ne_unused h.nodup hp hq), ← hv]
        exact h.pending hp
      · rw [hold] at hj'
        cases hj'
        exact honline (hv ▸ hold)
    · exact honline hj'
  pending {v j} hj := by
    rw [Server.loggedIn_records_of_ne room rs p rest (pending_ne_unused h.nodup hj hq)]
    exact h.pending hj
  preLocked := h.preLocked

theorem endedLogin (h : Owned room) (u : Int) : Owned (Server.endedLogin room u) where
  nodup := Multiset.nodup_of_le (stock_endedLogin_le room u) h.nodup
  online hp := h.online hp
  pending {v j} hp := by
    refine h.pending ?_
    unfold Server.endedLogin at hp
    rcases hold : room.preUserList.userInfoList.ptr u with _ | k <;> rw [hold] at hp
    · exact (lookedUp_ptr ..).symm.trans hp
    · exact StdMap.ptr_of_erase hp
  preLocked := by
    unfold Server.endedLogin
    rcases room.preUserList.userInfoList.ptr u with _ | k <;> exact h.preLocked

theorem exited (h : Owned room) (hp : room.userList.userInfoList.ptr u = some p) :
    Owned { room with userList := released room.userList u p } where
  nodup := stock_released hp ▸ h.nodup
  online hj := h.online (StdMap.ptr_of_erase hj)
  pending hj := h.pending hj
  preLocked := h.preLocked

end Owned

theorem owned_invariant : Server.RecordInvariant fun _ => Owned where
  lookedUp u h _ := h.of_sameLists ⟨rfl, rfl, fun _ => lookedUp_ptr .., fun _ => rfl⟩ (fun _ => rfl) rfl
  walked h _ := by
    refine h.of_sameLists ⟨Server.walked_unusedUserInfoList _, rfl, fun v => ?_, fun _ => rfl⟩ (fun _ => rfl) rfl
    rw [Server.walked_userInfoList]
  ids _ _ h := h.of_sameLists ⟨rfl, rfl, fun _ => rfl, fun _ => rfl⟩ (fun _ => rfl) rfl
  filled tmpPackage rq h _ hq := h.filled tmpPackage rq hq
  requested tmpPackage rq h _ hq := h.requested tmpPackage rq hq
  preLookedUp u h := h.of_sameLists ⟨rfl, rfl, fun _ => rfl, fun _ => lookedUp_ptr ..⟩ (fun _ => rfl) rfl
  loggedIn h hp _ hq := h.loggedIn hp hq
  endedLogin u h _ := h.endedLogin u
  released h _ hp := h.exited hp
  channels _ _ h := h.of_sameLists ⟨rfl, rfl, fun _ => rfl, fun _ => rfl⟩ (fun _ => rfl) rfl
  gift {r room u p} redD h hp := by
    refine h.of_sameLists ⟨rfl, rfl, fun _ => rfl, fun _ => rfl⟩ (fun j => ?_) rfl
    by_cases e : j = p
    · rw [e, store]
      dsimp only
      rw [Function.update_self]
    · exact congrArg UserInfo.userId (Function.update_of_ne e ..)

theorem owned_new : Owned .new where
  nodup := by
    have hstock : stock .new = ((List.range' 0 100000 : List Ptr) : Multiset Ptr) := Server.conserved_new.accounted
    rw [hstock]
    exact List.nodup_range'
  online hp := by
    rw [show (ChatRoom.new).userList.userInfoList = .empty from rfl, StdMap.ptr_empty] at hp
    cases hp
  pending hp := by
    rw [show (ChatRoom.new).preUserList.userInfoList = .empty from rfl, StdMap.ptr_empty] at hp
    cases hp
  preLocked := rfl

theorem owned_of_reachable {s : Server} (h : s.Reachable) (r : RoomPtr) : Owned (s.chatRooms r) :=
  (owned_invariant.reachable (fun _ => owned_new) h).each r

end Miku.RoomServer
