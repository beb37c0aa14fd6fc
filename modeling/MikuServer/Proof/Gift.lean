import MikuServer.Impl.CenterCommands
import MikuServer.Proof.Broadcast

/-!
# The settlement of a gift

The center server swaps the two values that the database reports. `settled_iff`
says for which of them the settlement goes right, and in which states of the
room server.
-/

namespace Miku.RoomServer.Server

open Act UserInfoList ChatRoom CenterServer

variable {s : Server} {r₀ : RoomPtr} {p q : Ptr} {rs : StruUserGiveGiftRS} {rq : StruUserGiveGiftRQ}

/-- A record after a payment that leaves `b`. -/
def paidInfo (info : UserInfo) (b : Int) : UserInfo := { info with userRedD := b }

/-- The server when the sender `p` of a gift has paid, before it is announced. -/
def paid (s : Server) (r : RoomPtr) (p : Ptr) (b : Int) : Server :=
  let room := s.chatRooms r
  (s.foundGate (room.records p).gsHashkeyUserOn).withRoom r (room.store p (paidInfo (room.records p) b))

/-- What the sender `p` is sent when the payment was refused. -/
def refusal (s : Server) (r : RoomPtr) (p : Ptr) (rs : StruUserGiveGiftRS) : List Sent :=
  let info := (s.chatRooms r).records p
  ((s.gate info.gsHashkeyUserOn).map fun gs => .toGS (.userGiveGiftRS rs) rs.msgId gs.userSock info.userHashKey).toList

/-- Only the sender is notified, and every record is as it was. -/
def Refused (s : Server) (r : RoomPtr) (p : Ptr) (rs : StruUserGiveGiftRS) (s' : Server) : Prop :=
  s'.sent = s.sent ++ s.refusal r p rs ∧ s.refusal r p rs ≠ [] ∧ s'.chatRooms = s.chatRooms

/-- The sender's `user_red_d` is `b`, every other member and record is as it was, the users of
the room are sent the reply, and the lock of their list is free again. -/
def Paid (s : Server) (r : RoomPtr) (p : Ptr) (b : Int) (rs : StruUserGiveGiftRS) (s' : Server) : Prop :=
  (s'.chatRooms r).records = Function.update (s.chatRooms r).records p (paidInfo ((s.chatRooms r).records p) b) ∧
    (∀ j ≠ r, s'.chatRooms j = s.chatRooms j) ∧
    s'.sent = s.sent ++
      (s.chatRooms r).userList.userInfoList.ptrs.filterMap (s.toUser r (.userGiveGiftRS rs) rs.msgId) ∧
    (s'.chatRooms r).userList.locked = false

/-- A payment with the result `res`, which leaves `b`, is settled. -/
def Settled (s : Server) (r : RoomPtr) (p : Ptr) (call : GiveGift) (rq : StruUserGiveGiftRQ) (res b : Int) : Prop :=
  ∃ rs, CenterServer.userGiveGiftRQ call rq = some rs ∧ rs.result = res ∧ rs.senderRedD = b ∧
    ∃ s', userGiveGiftRS rs s = .done () s' ∧ if res = 0 then Refused s r p rs s' else Paid s r p b rs s'

/-- A payment with equal values, whose reply reaches the sender or the room. -/
def Settles (s : Server) (r : RoomPtr) (p : Ptr) (roomId res b : Int) : Prop :=
  res = b ∧ (s.chatRooms r).userList.locked = false ∧
    if res = 0 then (s.gate ((s.chatRooms r).records p).gsHashkeyUserOn).isSome = true else Broadcastable s r roomId

theorem wp_userGiveGiftRS {B : Server → Prop} {F : Prop} {Q : Unit → Server → Prop} (hr : s.room rs.roomId = some r₀)
    (hp : (s.chatRooms r₀).userList.userInfoList.ptr rs.userId = some p)
    (hq : (s.chatRooms r₀).userList.userInfoList.ptr rs.dstUserId = some q) :
    wp (userGiveGiftRS rs) Q B F s ↔ if (s.chatRooms r₀).userList.locked then B s else
      if rs.result = 0 then match s.gate ((s.chatRooms r₀).records p).gsHashkeyUserOn with
        | none => F
        | some gs => Q () { s.foundGate ((s.chatRooms r₀).records p).gsHashkeyUserOn with sent := s.sent ++
            [.toGS (.userGiveGiftRS rs) rs.msgId gs.userSock ((s.chatRooms r₀).records p).userHashKey] }
      else wp (sendDataToRoomAllUser (.userGiveGiftRS rs) rs.msgId rs.roomId) (fun _ => Q ()) B F
        (s.paid r₀ p rs.senderRedD) := by
  rw [userGiveGiftRS, wp_forRoomUser, hr]
  dsimp only
  split <;> rename_i hl
  · rfl
  have hlook : s.withRoom r₀ { s.chatRooms r₀ with userList := lookedUp (s.chatRooms r₀).userList rs.dstUserId } = s := by
    rw [lookedUp, StdMap.subscript_of_ptr hq]
    exact withRoom_self s r₀
  rw [hp]
  dsimp only
  rw [wp_bind, wp_onRoom, ChatRoom.wp_getUserInfo, if_neg hl, hq, hlook]
  dsimp only
  rw [wp_bind, wp_record, wp_bind, wp_getUserByHashkey]
  split
  · rw [wp_bind, wp_deref]
    rcases s.gate ((s.chatRooms r₀).records p).gsHashkeyUserOn with _ | gs
    · rfl
    · rfl
  · rw [wp_bind, wp_onRoom, wp_modify, wp_bind]
    rfl

theorem userGiveGiftRQ_eq {call : GiveGift} {row : Row} {res b : Int}
    (hcall : call rq.userId rq.dstUserId rq.countGift rq.giftCode = some row) (hb : row 1 = some b)
    (hres : row 2 = some res) : CenterServer.userGiveGiftRQ call rq =
      some ⟨.userGiveGiftRS, rq.userId, rq.roomId, b, rq.giftCode, rq.dstUserId, res⟩ := by
  simp [CenterServer.userGiveGiftRQ, CenterServer.userGiveGift, hcall, hb, hres]

theorem paid_toUser (s : Server) (r : RoomPtr) (p : Ptr) (b : Int) (pack : Pack) (msgId : EnumMsgID) :
    (s.paid r p b).toUser r pack msgId = s.toUser r pack msgId := by
  have hgate (h : Int) : (s.paid r p b).gate h = s.gate h := foundGate_gate ..
  funext j
  simp only [toUser, hgate]
  by_cases h : j = p
  · simp [paid, store, h, paidInfo]
  · simp [paid, store, Function.update_of_ne h]

/-- A broadcast leaves the records and the other rooms as they are. -/
theorem broadcast_frame {pack : Pack} {msgId : EnumMsgID} {roomId : Int} {a : Bool} {s' : Server}
    (hr : s.room roomId = some r₀) (h : sendDataToRoomAllUser pack msgId roomId s = .done a s') :
    (s'.chatRooms r₀).records = (s.chatRooms r₀).records ∧ ∀ j ≠ r₀, s'.chatRooms j = s.chatRooms j := by
  refine (wp_done (Q := fun _ t => (t.chatRooms r₀).records = (s.chatRooms r₀).records ∧
    ∀ j ≠ r₀, t.chatRooms j = s.chatRooms j) (B := fun _ => True) (F := True) h).mp (wp_broadcast.mpr ?_)
  split
  · exact ⟨rfl, fun _ _ => rfl⟩
  rw [hr]
  dsimp only
  split
  · trivial
  · rw [broadcasted_chatRooms]
    exact ⟨withList_records .., fun j hj => withRoom_other s hj _⟩

theorem broadcast_paid (hl : (s.chatRooms r₀).userList.locked = false) (hr : s.room rs.roomId = some r₀) (b : Int) :
    (∃ a s', sendDataToRoomAllUser (.userGiveGiftRS rs) rs.msgId rs.roomId (s.paid r₀ p b) = .done a s' ∧
      Paid s r₀ p b rs s') ↔ Broadcastable s r₀ rs.roomId := by
  have hroom : (s.paid r₀ p b).chatRooms r₀ =
      (s.chatRooms r₀).store p (paidInfo ((s.chatRooms r₀).records p) b) := withRoom_same ..
  have hother (j : RoomPtr) (hj : j ≠ r₀) : (s.paid r₀ p b).chatRooms j = s.chatRooms j := withRoom_other _ hj _
  have hr' : (s.paid r₀ p b).room rs.roomId = some r₀ := hr
  have hstopped : StoppedAtNull r₀ ((s.paid r₀ p b).chatRooms r₀) := fun h => by
    rw [hroom] at h
    exact absurd (h.symm.trans hl) nofun
  have hiff := hstopped.broadcastRight_iff hr' (.userGiveGiftRS rs) rs.msgId
  have hcond : Broadcastable (s.paid r₀ p b) r₀ rs.roomId ↔ Broadcastable s r₀ rs.roomId := by
    have hkey (j : Ptr) : (((s.paid r₀ p b).chatRooms r₀).records j).gsHashkeyUserOn =
        ((s.chatRooms r₀).records j).gsHashkeyUserOn := by
      by_cases h : j = p
      · simp [hroom, store, h, paidInfo]
      · simp [hroom, store, Function.update_of_ne h]
    have hgate (h : Int) : (s.paid r₀ p b).gate h = s.gate h := foundGate_gate ..
    have hlist : ((s.paid r₀ p b).chatRooms r₀).userList = (s.chatRooms r₀).userList :=
      (congrArg userList hroom).trans rfl
    simp only [Broadcastable, hkey, hgate, hlist]
  rw [← hcond, ← hiff]
  refine exists_congr fun a => exists_congr fun s' => and_congr_right fun h => ?_
  obtain ⟨hrec, hrest⟩ := broadcast_frame hr' h
  rw [Paid, hrec, hroom, paid_toUser]
  have hsame (j : RoomPtr) (hj : j ≠ r₀) : s'.chatRooms j = s.chatRooms j := (hrest j hj).trans (hother j hj)
  constructor
  · rintro ⟨-, -, hsent, hlocked⟩
    exact ⟨hsent, hlocked⟩
  · rintro ⟨hsent, hlocked⟩
    exact ⟨rfl, hsame, hsent, hlocked⟩

/-- What the room server does with a reply. -/
theorem handled_iff (hr : s.room rs.roomId = some r₀)
    (hp : (s.chatRooms r₀).userList.userInfoList.ptr rs.userId = some p)
    (hq : (s.chatRooms r₀).userList.userInfoList.ptr rs.dstUserId = some q) :
    (∃ s', userGiveGiftRS rs s = .done () s' ∧
        if rs.result = 0 then Refused s r₀ p rs s' else Paid s r₀ p rs.senderRedD rs s') ↔
      (s.chatRooms r₀).userList.locked = false ∧
        if rs.result = 0 then (s.gate ((s.chatRooms r₀).records p).gsHashkeyUserOn).isSome = true
        else Broadcastable s r₀ rs.roomId := by
  rw [← wp_total_unit, wp_userGiveGiftRS hr hp hq]
  split <;> rename_i hl
  · simp [hl]
  have hl' : (s.chatRooms r₀).userList.locked = false := Bool.eq_false_of_not_eq_true hl
  split <;> rename_i h0
  · simp only [hl', true_and]
    rcases hg : s.gate ((s.chatRooms r₀).records p).gsHashkeyUserOn with _ | gs
    · simp
    · simp [Refused, refusal, hg]
  · rw [wp_total, broadcast_paid hl' hr]
    simp [hl']

theorem settled_iff {call : GiveGift} {row : Row} {res b : Int}
    (hcall : call rq.userId rq.dstUserId rq.countGift rq.giftCode = some row) (hb : row 1 = some b)
    (hres : row 2 = some res) (hr : s.room rq.roomId = some r₀)
    (hp : (s.chatRooms r₀).userList.userInfoList.ptr rq.userId = some p)
    (hq : (s.chatRooms r₀).userList.userInfoList.ptr rq.dstUserId = some q) :
    Settled s r₀ p call rq res b ↔ Settles s r₀ p rq.roomId res b := by
  rw [Settled, Settles, userGiveGiftRQ_eq hcall hb hres]
  simp only [Option.some.injEq, exists_eq_left']
  by_cases heq : res = b
  · subst heq
    simp only [true_and]
    exact handled_iff hr hp hq
  · exact iff_of_false (fun h => heq h.1.symm) fun h => heq h.1

theorem settled_iff_equal : ∃ s, Reachable s ∧ s.room 2 = some 0 ∧
    (s.chatRooms 0).userList.userInfoList.ptr 1 = some 1 ∧
    Settled s 0 1 (fun _ _ _ _ => some fun _ => some 1) ⟨1, 2, [], 1, 1⟩ 1 1 := by
  obtain ⟨s, hs, hr, hp, hl, hn⟩ := firstLogin_online
  refine ⟨s, ⟨_, hs⟩, hr, hp, (settled_iff rfl rfl rfl hr hp hp).mpr ⟨rfl, hl, ?_⟩⟩
  exact fun u hfind => hn (StdMap.mem_values.mpr ⟨u, hfind⟩)

/-- A refused payment that leaves 500 is announced as one that leaves 0. -/
theorem not_settled_refused : ∃ s, Reachable s ∧ s.room 2 = some 0 ∧
    (s.chatRooms 0).userList.userInfoList.ptr 1 = some 1 ∧
    ¬ Settled s 0 1 (fun _ _ _ _ => some fun column => if column = 1 then some 500 else some 0)
      ⟨1, 2, [], 1, 1⟩ 0 500 := by
  obtain ⟨s, hs, hr, hp, -, -⟩ := firstLogin_online
  refine ⟨s, ⟨_, hs⟩, hr, hp, fun ⟨rs, hrs, hres, _⟩ => ?_⟩
  rw [userGiveGiftRQ_eq rfl rfl rfl] at hrs
  cases hrs
  exact absurd hres (by decide)

end Miku.RoomServer.Server
