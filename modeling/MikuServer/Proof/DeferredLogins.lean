import MikuServer.Proof.GateFraming
import MikuServer.Proof.GateLogins

/-!
# Logins that are sent at once, and later

A login for a room that is known is sent to it by `UserInfoEx::DealWithData`
(`DirectlyWrites`), and one for a room that is not by `DealWithDataThread`, once
the room is. The queue gives back the frame as it is, and of the hash key behind
it the bytes that are in its first slot; those in the second are the first of the
frame (`Login.queuedAs`). So the two send the same bytes exactly if these are
the same (`forwarded_iff`).
-/

namespace Miku.GateServer

open CircleList

namespace Login

variable {l : Login}

/-- As the queue gives it back. -/
def queuedAs (l : Login) : Login := ⟨l.pack, intAt (stored l.bytes) l.pack.wire.length⟩

/-- The bytes of the key that are in the second slot are those the frame begins with. -/
def KeyKept (l : Login) : Prop :=
  ∀ j < 4, 0x1000 ≤ l.pack.wire.length + j →
    (leBytes l.userHashkey)[j]? = l.pack.wire[l.pack.wire.length + j - 0x1000]?

theorem Valid.queuedAs (hl : l.Valid) : l.queuedAs.Valid := ⟨hl.wellFormed, hl.length, hl.msgType⟩

theorem queuedAs_bytes (hl : l.Valid) : l.queuedAs.bytes = stored l.bytes := by
  have hlen : (stored l.bytes).length = l.pack.wire.length + 4 := (length_stored _).trans l.length_bytes
  have hfront : (stored l.bytes).take l.pack.wire.length = l.pack.wire := by
    rw [take_stored _ hl.length.2, bytes, List.take_left]
  have hkey : slice (stored l.bytes) l.pack.wire.length 4 = (stored l.bytes).drop l.pack.wire.length :=
    List.take_of_length_le (by rw [List.length_drop]; omega)
  have hbytes := List.take_append_drop l.pack.wire.length (stored l.bytes)
  rwa [hfront, ← hkey, ← leBytes_intAt (by omega)] at hbytes

theorem waits_queuedAs (hl : l.Valid) : LoginHistory.Waits l.queuedAs :=
  ⟨hl.queuedAs, queuedAs_bytes hl ▸ repeats_stored l.bytes⟩

theorem repeats_bytes_iff (hl : l.Valid) : Repeats l.bytes ↔ l.KeyKept := by
  have hlen := hl.length
  have hb := l.length_bytes
  have hM : maxSizePerBuff = 0x1000 := rfl
  have hkey (j : Nat) : l.bytes[l.pack.wire.length + j]? = (leBytes l.userHashkey)[j]? := by
    rw [bytes, List.getElem?_append_right (Nat.le_add_right ..), Nat.add_sub_cancel_left]
  have hframe (j : Nat) (hj : j < 4) (h : 0x1000 ≤ l.pack.wire.length + j) :
      l.bytes[(l.pack.wire.length + j) % maxSizePerBuff]? = l.pack.wire[l.pack.wire.length + j - 0x1000]? := by
    rw [hM, Nat.mod_eq_sub_mod h, Nat.mod_eq_of_lt (by omega), bytes, List.getElem?_append_left (by omega)]
  constructor
  · intro h j hj hle
    rw [← hkey, h _ (by omega), hframe j hj hle]
  · intro h i hi
    by_cases hlt : i < 0x1000
    · rw [hM, Nat.mod_eq_of_lt hlt]
    · obtain ⟨j, rfl⟩ := Nat.exists_eq_add_of_le (show l.pack.wire.length ≤ i by omega)
      rw [hkey, hframe j (by omega) (by omega), h j (by omega) (by omega)]

/-- The queue gives it back as it was. -/
theorem queuedAs_eq_iff (hl : l.Valid) : l.queuedAs = l ↔ l.KeyKept := by
  rw [← repeats_bytes_iff hl, ← stored_eq_iff, ← queuedAs_bytes hl]
  refine ⟨fun h => by rw [h], fun h => ?_⟩
  have hkey := List.append_cancel_left (show l.pack.wire ++ _ = l.pack.wire ++ _ from h)
  have hint := congrArg (fun b => intAt (b ++ []) 0) hkey
  simp only [intAt_leBytes] at hint
  rw [Login.queuedAs] at hint ⊢
  rw [show intAt _ _ = l.userHashkey from hint]

/-- The packet tells the key. -/
theorem packet_wire_inj (hl : l.Valid) {l' : Login} (hl' : l'.Valid) (h : l.packet.wire = l'.packet.wire) :
    l.userHashkey = l'.userHashkey := by
  have hkey {l : Login} (hl : l.Valid) : intAt l.packet.wire 3 = l.userHashkey := by
    have hlen := hl.length
    obtain ⟨hw, -⟩ := GateRoomServerPack.wrap_wf (h := l.userHashkey) (show 0 < l.pack.wire.length by omega) le_rfl
      (by omega)
    obtain ⟨h0, -, -⟩ := Fields.intAt_wire hw.head []
    rwa [List.append_nil] at h0
  rw [← hkey hl, ← hkey hl', h]

end Login

/-! ## The room is known -/

/-- The sockets that `GetChatRoom` finds. -/
def RoomManager.sockets (self : RoomManager) (roomId : CInt) : Option Int :=
  (self.room roomId.toInt).map ChatRoom.serverFd

/-- What `DealWithData` writes when it reads the login, on a connection whose buffer is empty, is `w`. -/
def DirectlyWrites (rooms : RoomManager) (l : Login) (w : Int × List Byte) : Prop :=
  ∀ recv : RecvBuff, recv.Ok → recv.validBuffLen = 0 →
    ∃ user, UserInfoEx.dealWithData rooms.sockets
      ⟨l.userHashkey, recv⟩ [] l.pack.wire = some (user, [.write w.1 w.2])

variable {rooms : RoomManager} {l : Login} {room : ChatRoom}

theorem dealWithData_login (hl : l.Valid) (hr : rooms.room l.pack.roomId.toInt = some room) {recv : RecvBuff}
    (ho : recv.Ok) (h0 : recv.validBuffLen = 0) :
    ∃ user, UserInfoEx.dealWithData rooms.sockets
      ⟨l.userHashkey, recv⟩ [] l.pack.wire = some (user, [.write room.serverFd l.packet.wire]) := by
  have hlen := hl.length
  have hview : UserInfoEx.View l.userHashkey (⟨l.userHashkey, recv⟩, []) [] [] :=
    ⟨rfl, ho, h0 ▸ window_nil ho.size, rfl⟩
  obtain ⟨b, hstart, -, hcall⟩ := UserInfoEx.call_view rooms.sockets
    hview hlen.2 (show 0 + l.pack.wire.length < 0x4000 by omega)
  obtain ⟨k, hk⟩ : ∃ k, l.pack.wire.length = k + 1 := ⟨l.pack.wire.length - 1, by omega⟩
  have hwin := hstart.window
  have hval := hwin.valid
  rw [List.nil_append] at hval hwin
  rw [← List.append_nil l.pack.wire] at hwin
  obtain ⟨v, e1, e2, e3, e4⟩ := UserInfoEx.turn_next rooms.sockets
    l.userHashkey hstart.sized (by omega) hl.wellFormed hwin hlen.2
  have hstop : UserInfoEx.turn rooms.sockets l.userHashkey v =
      some (v, false) := by
    rw [UserInfoEx.turn, if_pos]
    rw [e3]
    show (UserInfoEx.Vars.start b []).recv.validBuffLen - l.pack.wire.length ≤ 18
    omega
  obtain ⟨hroom, -, -⟩ := Fields.intAt_wire hl.wellFormed.head []
  rw [List.append_nil] at hroom
  have hroom : intAt l.pack.wire 3 = l.pack.roomId := hroom
  have hsock : rooms.sockets l.pack.roomId = some room.serverFd := by rw [RoomManager.sockets, hr, Option.map_some]
  refine ⟨⟨l.userHashkey, v.recv⟩, hcall.trans ?_⟩
  rw [List.nil_append, hk, doWhile_next e1, doWhile_stop hstop, Option.bind_some, e4, UserInfoEx.sent, hroom, hsock]
  rfl

theorem directlyWrites_iff (hl : l.Valid) (hr : rooms.room l.pack.roomId.toInt = some room) {w : Int × List Byte} :
    DirectlyWrites rooms l w ↔ w = (room.serverFd, l.packet.wire) := by
  constructor
  · intro h
    have hnew : (RecvBuff.new (List.replicate maxRecvBuffLen 0)).Ok :=
      ⟨List.length_replicate, le_rfl, (by decide : (0 : Int) < maxRecvBuffLen)⟩
    obtain ⟨user, e⟩ := h _ hnew rfl
    obtain ⟨user', e'⟩ := dealWithData_login hl hr hnew rfl
    rw [e', Option.some_inj, Prod.mk.injEq, List.cons.injEq, Event.write.injEq] at e
    exact Prod.ext e.2.1.1.symm e.2.1.2.symm
  · rintro rfl recv ho h0
    exact dealWithData_login hl hr ho h0

/-! ## The room becomes known later -/

namespace LoginHistory

variable {n : Nat} {h h' : LoginHistory} {accepted queued done : List Login} {hand : Option Login}

/-- The logins of `accepted`, as the queue gives them back, are in it, with the thread, or written. -/
def Carries (n : Nat) (h : LoginHistory) : Prop :=
  ∃ accepted queued hand done, Inv n ⟨h.gate, accepted⟩ queued hand done ∧
    ∀ l ∈ accepted, ∃ a ∈ h.accepted, a.Valid ∧ l = a.queuedAs

theorem carries_start (hn : 0 < n) : Carries n (start n) :=
  ⟨[], [], none, [], inv_start hn, List.forall_mem_nil _⟩

theorem step_login_ok (hi : Inv n ⟨h.gate, accepted⟩ queued hand done) (hl : l.Valid) :
    ∃ list, h.step (.login l) = some (h.added l list) ∧
      if slotsUsed (queued.map Login.bytes) + slotsFor (l.pack.wire.length + 4) ≤ n then
        Holds list n (queued.map Login.bytes ++ [l.queuedAs.bytes])
      else list = h.gate.clProcessor.dataList := by
  have hlen := hl.length
  obtain ⟨list, h1, h2⟩ := ClientProcessor.addOneUndealPack_ok hi.holds
    (show l.pack.wire.length < 0x1ffc by omega) l.pack.roomId l.userHashkey
  rw [← Login.bytes, ← Login.queuedAs_bytes hl] at h2
  have h1 : h.gate.clProcessor.addOneUndealPack l.pack.wire l.pack.wire.length l.pack.roomId l.userHashkey = _ := h1
  refine ⟨list, ?_, h2⟩
  rw [step, h1]
  rfl

/-- A login is queued, or there is no room for it. -/
theorem Carries.login (hc : Carries n h) (hl : l.Valid) : ∃ h', h.step (.login l) = some h' ∧ Carries n h' := by
  obtain ⟨accepted, queued, hand, done, hi, ha⟩ := hc
  obtain ⟨list, h1, h2⟩ := step_login_ok hi hl
  have hold (a : Login) (hm : a ∈ accepted) : ∃ b ∈ h.accepted ++ [l], b.Valid ∧ a = b.queuedAs := by
    obtain ⟨b, hb, hv⟩ := ha a hm
    exact ⟨b, List.mem_append_left _ hb, hv⟩
  refine ⟨h.added l list, h1, ?_⟩
  split at h2
  · refine ⟨accepted ++ [l.queuedAs], _, hand, done, hi.added (Login.waits_queuedAs hl) h2, ?_⟩
    rw [List.forall_mem_append, List.forall_mem_singleton]
    exact ⟨hold, l, List.mem_append_right _ (List.mem_singleton_self l), hl, rfl⟩
  · exact ⟨accepted, queued, hand, done, { hi with holds := h2 ▸ hi.holds }, hold⟩

theorem dealWithData_of_step (hs : step ⟨h.gate, accepted⟩ .dealWithData = some h') :
    h.step .dealWithData = some { h with gate := h'.gate } ∧ h'.accepted = accepted := by
  rw [step, Option.map_eq_some_iff] at hs
  obtain ⟨gate, hg, rfl⟩ := hs
  have hg : h.gate.dealWithData = some gate := hg
  rw [step, hg]
  exact ⟨rfl, rfl⟩

/-- The thread goes on, with the logins that it had. -/
theorem carries_of_step (ha : ∀ l ∈ accepted, ∃ a ∈ h.accepted, a.Valid ∧ l = a.queuedAs)
    (hs : step ⟨h.gate, accepted⟩ .dealWithData = some h') (hi : Inv n h' queued hand done) :
    ∃ h', h.step .dealWithData = some h' ∧ Carries n h' := by
  obtain ⟨h1, h2⟩ := dealWithData_of_step hs
  subst h2
  exact ⟨_, h1, _, _, _, _, hi, ha⟩

/-- The login that the thread had is not put back, as the queue is full, or not sent, as its room is not known. -/
theorem Inv.dropped (hi : Inv n ⟨h.gate, accepted⟩ queued hand done) (rooms : RoomManager)
    (hr : ∀ j, rooms.room j = h.gate.roomManager.room j) :
    Inv n ⟨{ h.gate with roomManager := rooms, thread := { h.gate.thread with place := .get } }, queued ++ done⟩
      queued none done where
  holds := hi.holds
  waits := hi.waits
  buff := hi.buff
  holding := rfl
  perm := by simp
  written := hi.written.imp fun _ _ ⟨room, hroom, e⟩ => ⟨room, (hr _).trans hroom, e⟩

theorem Carries.dropped (hi : Inv n ⟨h.gate, accepted⟩ queued hand done)
    (ha : ∀ l ∈ accepted, ∃ a ∈ h.accepted, a.Valid ∧ l = a.queuedAs) (rooms : RoomManager)
    (hr : ∀ j, rooms.room j = h.gate.roomManager.room j) :
    Carries n { h with gate := { h.gate with roomManager := rooms, thread := { h.gate.thread with place := .get } } } := by
  refine ⟨queued ++ done, queued, none, done, hi.dropped rooms hr, fun l hl => ha l (hi.perm.mem_iff.mpr ?_)⟩
  rcases List.mem_append.mp hl with hl | hl
  · exact List.mem_append_left _ (List.mem_append_left _ hl)
  · exact List.mem_append_right _ hl

theorem Carries.dealWithData (hc : Carries n h) : ∃ h', h.step .dealWithData = some h' ∧ Carries n h' := by
  obtain ⟨accepted, queued, hand, done, hi, ha⟩ := hc
  rcases hp : h.gate.thread.place with _ | ⟨tmpRoomId, key⟩ | _ | ⟨tmpRoomId, key⟩
  · obtain ⟨h', queued', hand', h1, h2⟩ := hi.get hp
    exact carries_of_step ha h1 h2
  · obtain ⟨h', h1, h2⟩ := hi.check hp
    exact carries_of_step ha h1 h2
  · by_cases hroom : HasRoom h.gate.clProcessor.dataList h.gate.thread.tmpOutLen.toNat
    · obtain ⟨h', l, -, h1, h2⟩ := hi.putBack hp (by rwa [Allowed, hp])
      exact carries_of_step ha h1 h2
    · refine ⟨_, ?_, Carries.dropped hi ha h.gate.roomManager fun _ => rfl⟩
      have hhold := hi.holding
      rw [Holding, hp] at hhold
      obtain ⟨l, -, -, hlen, -⟩ := hhold
      rw [hasRoom_iff hi.holds] at hroom
      have hlen : h.gate.thread.tmpOutLen = l.bytes.length := hlen
      rw [hlen, Int.toNat_natCast] at hroom
      have hfull : h.gate.clProcessor.dataList.addBuffer h.gate.thread.tmpOutBuff h.gate.thread.tmpOutLen =
          some (false, h.gate.clProcessor.dataList) :=
        hlen ▸ addBuffer_full hi.holds h.gate.thread.tmpOutBuff (Nat.lt_of_not_ge hroom)
      simp [step, GateLogins.dealWithData, hp, GateLogins.putBack, hfull]
  · by_cases hknown : (h.gate.roomManager.room tmpRoomId.toInt).isSome
    · obtain ⟨h', l, -, h1, h2⟩ := hi.deal hp (by rwa [Allowed, hp])
      exact carries_of_step ha h1 h2
    · refine ⟨_, ?_, Carries.dropped hi ha (h.gate.roomManager.getChatRoom tmpRoomId.toInt).2
        fun _ => RoomManager.getChatRoom_room ..⟩
      have hnone : h.gate.roomManager.room tmpRoomId.toInt = none := Option.not_isSome_iff_eq_none.mp hknown
      simp [step, GateLogins.dealWithData, hp, GateLogins.deal, RoomManager.getChatRoom_fst, hnone]

theorem Carries.step (hc : Carries n h) {x : LoginCall} (hv : x.Valid) : ∃ h', h.step x = some h' ∧ Carries n h' := by
  cases x with
  | login l => exact hc.login hv
  | deleteRoom roomId =>
    obtain ⟨accepted, queued, hand, done, hi, ha⟩ := hc
    exact ⟨_, rfl, accepted, queued, hand, done, { hi with holds := hi.holds }, ha⟩
  | addRoom roomId serverFd =>
    obtain ⟨accepted, queued, hand, done, hi, ha⟩ := hc
    exact ⟨_, rfl, accepted, queued, hand, done, { hi with written := forall₂_addRoom roomId serverFd hi.written }, ha⟩
  | dealWithData => exact hc.dealWithData

theorem forall₂_queuedAs {rooms : RoomManager} {written : List (Int × List Byte)}
    (hw : List.Forall₂ (WrittenTo rooms) done written)
    (ha : ∀ l ∈ done, ∃ a ∈ accepted, a.Valid ∧ l = a.queuedAs) :
    ∃ done : List Login, (∀ l ∈ done, l ∈ accepted ∧ l.Valid) ∧
      List.Forall₂ (fun l w => WrittenTo rooms l.queuedAs w) done written := by
  induction hw with
  | nil => exact ⟨[], List.forall_mem_nil _, .nil⟩
  | cons hfirst _ ih =>
    rw [List.forall_mem_cons] at ha
    obtain ⟨⟨a, hm, hv, rfl⟩, hrest⟩ := ha
    obtain ⟨as, has, hall⟩ := ih hrest
    exact ⟨a :: as, List.forall_mem_cons.mpr ⟨⟨hm, hv⟩, has⟩, .cons hfirst hall⟩

theorem Carries.forwarded (hc : Carries n h) : ∃ done : List Login, (∀ l ∈ done, l ∈ h.accepted ∧ l.Valid) ∧
    List.Forall₂ (fun l w => WrittenTo h.gate.roomManager l.queuedAs w) done h.gate.written := by
  obtain ⟨accepted, queued, hand, done, hi, ha⟩ := hc
  exact forall₂_queuedAs hi.written fun l hl => ha l (hi.perm.mem_iff.mpr (List.mem_append_right _ hl))

/-- What is written for `l` when its room is known at last is what is written when it is known at once. -/
theorem directlyWrites_forwarded {rooms : RoomManager} (hl : l.Valid) {w : Int × List Byte}
    (hw : WrittenTo rooms l.queuedAs w) : DirectlyWrites rooms l w ↔ l.KeyKept := by
  obtain ⟨room, hr, rfl⟩ := hw
  rw [directlyWrites_iff hl hr, ← Login.queuedAs_eq_iff hl]
  refine ⟨fun e => ?_, fun e => by rw [e]⟩
  have hkey := Login.packet_wire_inj hl.queuedAs hl (Prod.mk.inj e).2
  exact congrArg (Login.mk l.pack) hkey

/-- In every run, what is written is for logins that were taken, and it is what is written when the room is
known at once, exactly if the key's bytes in the second slot are those that the frame begins with. -/
theorem forwarded_iff (hn : 0 < n) {xs : List LoginCall} (hv : ∀ x ∈ xs, x.Valid) :
    ∃ h done, xs.foldlM step (start n) = some h ∧ (∀ l ∈ done, l ∈ h.accepted) ∧
      List.Forall₂ (fun l w => WrittenTo h.gate.roomManager l.queuedAs w ∧
        (DirectlyWrites h.gate.roomManager l w ↔ l.KeyKept)) done h.gate.written := by
  have ok (h : LoginHistory) (x : LoginCall) (hc : Carries n h) (hv : x.Valid) :
      ∃ h', h.step x = some h' ∧ Carries n h' := hc.step hv
  obtain ⟨h, hrun, hc⟩ := run_inv ok hv (carries_start hn)
  obtain ⟨done, hdone, hall⟩ := hc.forwarded
  refine ⟨h, done, hrun, fun l hl => (hdone l hl).1, ?_⟩
  have hboth := (List.forall₂_and_left (p := fun l => l ∈ h.accepted ∧ l.Valid) done h.gate.written).mpr ⟨hdone, hall⟩
  exact hboth.imp fun l w ⟨hl, hw⟩ => ⟨hw, directlyWrites_forwarded hl.2 hw⟩

/-- A login that is taken, and a room that is added for it, before the thread's turn. -/
def becomesKnown (l : Login) (serverFd : Int) : List LoginCall :=
  [.login l, .addRoom l.pack.roomId.toInt serverFd, .deleteRoom l.pack.roomId.toInt, .dealWithData, .dealWithData,
    .dealWithData]

theorem becomesKnown_valid (hl : l.Valid) (serverFd : Int) : ∀ x ∈ becomesKnown l serverFd, x.Valid := by
  simp [becomesKnown, LoginCall.Valid, hl]

/-- The thread sends the first login of the queue, if its room is known and not marked. -/
theorem Inv.sends (hi : Inv n h (l :: queued) none done) (hp : h.gate.thread.place = .get)
    (hm : (h.gate.clProcessor.isMarked l.pack.roomId.toInt).1 = false)
    (hk : (h.gate.roomManager.room l.pack.roomId.toInt).isSome) :
    ∃ h', [LoginCall.dealWithData, .dealWithData, .dealWithData].foldlM LoginHistory.step h = some h' ∧
      Inv n h' queued none (done ++ [l]) := by
  obtain ⟨h₁, h₂, h1, h2, -, hplace, hroom, hi₂⟩ := hi.toDeal hp hm
  obtain ⟨h₃, l', e, h3, hi₃⟩ := hi₂.deal hplace (by rwa [Allowed, hplace, hroom])
  cases e
  refine ⟨h₃, ?_, hi₃⟩
  rw [List.foldlM_cons, h1, Option.bind_eq_bind, Option.bind_some, List.foldlM_cons, h2, Option.bind_eq_bind,
    Option.bind_some, List.foldlM_cons, h3]
  rfl

/-- The turns of the thread do not depend on what has been accepted. -/
theorem foldlM_dealWithData {xs : List LoginCall} (hx : ∀ x ∈ xs, x = .dealWithData)
    (hs : xs.foldlM step ⟨h.gate, accepted⟩ = some h') : xs.foldlM step h = some { h with gate := h'.gate } := by
  induction xs generalizing h with
  | nil =>
    cases hs
    rfl
  | cons x xs ih =>
    obtain ⟨rfl, hrest⟩ := List.forall_mem_cons.mp hx
    rw [List.foldlM_cons] at hs ⊢
    obtain ⟨h₁, h1, h2⟩ := Option.bind_eq_some_iff.mp hs
    obtain ⟨e, hacc⟩ := dealWithData_of_step h1
    rw [e]
    exact ih (h := { h with gate := h₁.gate }) hrest (hacc ▸ h2)

/-- It is sent. -/
theorem becomesKnown_written (hn : 2 ≤ n) (hl : l.Valid) (serverFd : Int) :
    ∃ h w, (becomesKnown l serverFd).foldlM step (start n) = some h ∧ h.gate.written = [w] ∧
      WrittenTo h.gate.roomManager l.queuedAs w := by
  have hlen := hl.length
  have hi₀ : Inv n ⟨(start n).gate, []⟩ [] none [] := inv_start (by omega)
  obtain ⟨list, h1, hlist⟩ := step_login_ok hi₀ hl
  have hslots : slotsFor (l.pack.wire.length + 4) ≤ 2 := by
    rw [slotsFor, show maxSizePerBuff = 4096 from rfl]
    omega
  rw [if_pos (by simp [slotsUsed]; omega)] at hlist
  have hi₁ := hi₀.added (Login.waits_queuedAs hl) hlist
  obtain ⟨h₂, h2, hi₂⟩ := hi₁.addRoom l.pack.roomId.toInt serverFd
  obtain ⟨h₃, h3, hi₃⟩ := hi₂.deleteRoom l.pack.roomId.toInt
  cases h2
  cases h3
  have hknown : ((RoomManager.new.addRoom l.pack.roomId.toInt serverFd).2.room l.pack.roomId.toInt).isSome := by
    simp [RoomManager.addRoom_room]
  obtain ⟨h₄, h4, hi₄⟩ := hi₃.sends rfl (isMarked_deleteRoom ..) hknown
  have hwritten := hi₄.written
  rw [List.nil_append, List.forall₂_cons_left_iff] at hwritten
  obtain ⟨w, ws, hw, hnil, e⟩ := hwritten
  rw [List.forall₂_nil_left_iff.mp hnil] at e
  have h2 (h : LoginHistory) : h.step (.addRoom l.pack.roomId.toInt serverFd) =
      some { h with gate := { h.gate with roomManager := (h.gate.roomManager.addRoom l.pack.roomId.toInt serverFd).2 } } := rfl
  have h3 (h : LoginHistory) : h.step (.deleteRoom l.pack.roomId.toInt) =
      some { h with gate := { h.gate with clProcessor := h.gate.clProcessor.deleteRoom l.pack.roomId.toInt } } := rfl
  refine ⟨⟨h₄.gate, [l]⟩, w, ?_, e, hw⟩
  rw [becomesKnown, List.foldlM_cons, h1, Option.bind_eq_bind, Option.bind_some, List.foldlM_cons, h2,
    Option.bind_eq_bind, Option.bind_some, List.foldlM_cons, h3, Option.bind_eq_bind, Option.bind_some]
  exact foldlM_dealWithData (by simp) h4

/-- A login of 0x1000 bytes: its key is in the second slot. -/
def longLogin : Login := ⟨⟨packHead, 7, 4078, eUserLoginRq, List.replicate 4078 0, packTail⟩, 5⟩

theorem wellFormed_longLogin : longLogin.pack.WellFormed := ⟨rfl, rfl, List.length_replicate.symm ▸ by decide⟩

theorem length_longLogin : longLogin.pack.wire.length = 0x1000 :=
  (StruCytPacket.length_wire wellFormed_longLogin).trans (congrArg (· + 18) List.length_replicate)

theorem valid_longLogin : longLogin.Valid where
  wellFormed := wellFormed_longLogin
  length := ⟨by rw [length_longLogin]; decide, length_longLogin.le⟩
  msgType := rfl

/-- The long one, and then one whose key is in the first slot. -/
theorem forwarded_iff_longLogin :
    ∃ h done, (becomesKnown longLogin 30 ++ becomesKnown (loginOf 7) 30).foldlM step (start 1000) = some h ∧
      (∀ l ∈ done, l ∈ h.accepted) ∧
      List.Forall₂ (fun l w => WrittenTo h.gate.roomManager l.queuedAs w ∧
        (DirectlyWrites h.gate.roomManager l w ↔ l.KeyKept)) done h.gate.written :=
  forwarded_iff (by decide) (List.forall_mem_append.mpr
    ⟨becomesKnown_valid valid_longLogin 30, becomesKnown_valid (valid_loginOf 7) 30⟩)

theorem not_keyKept_longLogin : ¬ longLogin.KeyKept := by
  intro h
  have hfirst := h 0 (by decide) length_longLogin.ge
  rw [length_longLogin] at hfirst
  have hhead : longLogin.pack.wire[0]? = packHead[0]? := rfl
  exact absurd (hfirst.trans hhead) (by decide)

/-- It is sent with the first bytes of the frame as its key. -/
theorem not_direct_longLogin : ∃ h w, (becomesKnown longLogin 30).foldlM step (start 1000) = some h ∧
    h.gate.written = [w] ∧ ¬ DirectlyWrites h.gate.roomManager longLogin w := by
  obtain ⟨h, w, hrun, hwritten, hw⟩ := becomesKnown_written (show 2 ≤ 1000 by decide) valid_longLogin 30
  exact ⟨h, w, hrun, hwritten, mt (directlyWrites_forwarded valid_longLogin hw).mp not_keyKept_longLogin⟩

end LoginHistory

end Miku.GateServer
