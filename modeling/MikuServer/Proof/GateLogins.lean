import MikuServer.Framework.Loop
import MikuServer.Impl.GateUser
import MikuServer.Proof.Frames
import MikuServer.Proof.GateRooms
import MikuServer.Proof.Queue

/-!
# Logins that wait at the gate

A login that `AddOneUndealPack` takes is in the queue, in the hands of
`DealWithDataThread`, or written to its room's socket, once (`Kept`), as long as
every `AddBuffer` has room for what it adds, and the thread drops no request for
a room that is not known (`Allowed`): `logins_kept`.
-/

namespace Miku.GateServer

open CircleList

/-! ## `AddOneUndealPack` -/

namespace ClientProcessor

variable {self : ClientProcessor} {n : Nat} {ms : List (List Byte)} {data : List Byte}

/-- The buffer that `AddOneUndealPack` queues. -/
theorem tmpInBuff_eq (hd : data.length < 0x1ffc) (key : CInt) :
    ∃ rest, ((memcpy (List.replicate 0x2000 0) 0 data data.length).bind fun b => memcpy b data.length (leBytes key) 4) =
      some ((data ++ leBytes key) ++ rest) := by
  have hlen : (List.replicate 0x2000 (0 : Byte)).length = 0x2000 := List.length_replicate
  have h1 : memcpy (List.replicate 0x2000 0) 0 data data.length = some (splice (List.replicate 0x2000 0) 0 data) := by
    have h := memcpy_eq (n := data.length) (show 0 + data.length ≤ (List.replicate 0x2000 (0 : Byte)).length by omega)
      (le_refl data.length)
    rwa [List.take_length] at h
  have hroom : data.length + 4 ≤ (List.replicate 0x2000 (0 : Byte)).length := by omega
  have h2 := memcpy_after (n := 4) rfl rfl hroom (length_leBytes key).ge
  rw [h1, Option.bind_some, h2, splice_zero]
  exact ⟨_, rfl⟩

/-- With a queue that has room for the request and the key, or has not. -/
theorem addOneUndealPack_ok (hh : Holds self.dataList n ms) (hd : data.length < 0x1ffc) (roomId key : CInt) :
    ∃ list, self.addOneUndealPack data data.length roomId key =
        some (true, { self.markRoom roomId.toInt with dataList := list }) ∧
      if slotsUsed ms + slotsFor (data.length + 4) ≤ n then Holds list n (ms ++ [stored (data ++ leBytes key)])
      else list = self.dataList := by
  obtain ⟨rest, hbuff⟩ := tmpInBuff_eq hd key
  obtain ⟨b, hb, hb'⟩ := Option.bind_eq_some_iff.mp hbuff
  have hlen : (data ++ leBytes key).length = data.length + 4 := by rw [List.length_append, length_leBytes]
  have hlist : (self.markRoom roomId.toInt).dataList = self.dataList := rfl
  have hlt : (data.length : Int) < 0x2000 - 4 := by omega
  have hcast : (data.length : Int) + 4 = ((data.length + 4 : Nat) : Int) := by omega
  rw [addOneUndealPack, if_pos hlt, hb]
  simp only [Option.bind_eq_bind, Option.bind_some, hb', hlist, hcast]
  by_cases hr : slotsUsed ms + slotsFor (data.length + 4) ≤ n
  · have hfits : data.length + 4 ≤ (data ++ leBytes key ++ rest).length := by
      rw [List.length_append]
      omega
    obtain ⟨q, h1, h2⟩ := addBuffer_ok hh hfits hr
    rw [h1]
    rw [← hlen, List.take_left] at h2
    exact ⟨q, rfl, by rwa [if_pos hr]⟩
  · rw [addBuffer_full hh _ (Nat.lt_of_not_ge hr)]
    exact ⟨self.dataList, rfl, if_neg hr ▸ rfl⟩

end ClientProcessor

/-- A login request and the hash key of its user. -/
structure Login where
  pack : StruCytPacket
  userHashkey : CInt
  deriving DecidableEq

namespace Login

/-- As it is queued. -/
def bytes (l : Login) : List Byte := l.pack.wire ++ leBytes l.userHashkey

/-- The packet that is written for it. -/
def packet (l : Login) : GateRoomServerPack := .wrap l.userHashkey l.pack.wire l.pack.wire.length

/-- A frame of 19 to 0x1000 bytes with a login request. -/
structure Valid (l : Login) : Prop where
  wellFormed : l.pack.WellFormed
  length : 19 ≤ l.pack.wire.length ∧ l.pack.wire.length ≤ 0x1000
  msgType : l.pack.msgType = eUserLoginRq

theorem length_bytes (l : Login) : l.bytes.length = l.pack.wire.length + 4 := by
  rw [bytes, List.length_append, length_leBytes]

end Login

/-- The gate, and the logins for which `AddOneUndealPack` returned true. -/
structure LoginHistory where
  gate : GateLogins
  accepted : List Login

/-- A step of a thread. -/
inductive LoginCall
  | login (l : Login)
  | deleteRoom (roomId : Int)
  | addRoom (roomId serverFd : Int)
  | dealWithData

/-- The logins are frames as the gate takes them. -/
def LoginCall.Valid : LoginCall → Prop
  | .login l => l.Valid
  | _ => True

namespace LoginHistory

def start (n : Nat) : LoginHistory := ⟨.start n, []⟩

def step (h : LoginHistory) : LoginCall → Option LoginHistory
  | .login l => do
    let (ret, clProcessor) ←
      h.gate.clProcessor.addOneUndealPack l.pack.wire l.pack.wire.length l.pack.roomId l.userHashkey
    some ⟨{ h.gate with clProcessor := clProcessor }, if ret then h.accepted ++ [l] else h.accepted⟩
  | .deleteRoom roomId => (h.gate.step (.deleteRoom roomId)).map ({ h with gate := · })
  | .addRoom roomId serverFd => (h.gate.step (.addRoom roomId serverFd)).map ({ h with gate := · })
  | .dealWithData => h.gate.dealWithData.map ({ h with gate := · })

/-- The login that `DealWithDataThread` has taken out of the queue and neither put back nor written. -/
def InHand (t : DealThread) (hand : Option Login) : Prop :=
  if t.place = .get then hand = none
  else ∃ l, hand = some l ∧ t.tmpOutBuff.take t.tmpOutLen.toNat = l.bytes

/-- `l` is written to the socket of its room. -/
def WrittenTo (rooms : RoomManager) (l : Login) (w : Int × List Byte) : Prop :=
  ∃ room, rooms.room l.pack.roomId.toInt = some room ∧ w = (room.serverFd, l.packet.wire)

/-- The logins that were taken are in the queue, with the thread, or written, each once; those whose
room is not known are not written. -/
def Kept (h : LoginHistory) : Prop :=
  ∃ queued hand done, h.gate.clProcessor.dataList.messages = queued.map Login.bytes ∧
    InHand h.gate.thread hand ∧ h.accepted.Perm (queued ++ hand.toList ++ done) ∧
    List.Forall₂ (WrittenTo h.gate.roomManager) done h.gate.written ∧
    ∀ l ∈ h.accepted, h.gate.roomManager.room l.pack.roomId.toInt = none → l ∈ queued ++ hand.toList

/-- The queue has room for `len` bytes. -/
def HasRoom (list : CircleList) (len : Nat) : Prop := list.usingSize + slotsFor len ≤ list.maxStruSize

/-- `AddBuffer` has room for a login, and stores it as it is; and the thread has room for what it puts
back, and knows the room of what it sends. -/
def Allowed (h : LoginHistory) : LoginCall → Prop
  | .login l => HasRoom h.gate.clProcessor.dataList l.bytes.length ∧ Repeats l.bytes
  | .dealWithData =>
    match h.gate.thread.place with
    | .putBack => HasRoom h.gate.clProcessor.dataList h.gate.thread.tmpOutLen.toNat
    | .deal tmpRoomId _ => (h.gate.roomManager.room tmpRoomId.toInt).isSome
    | _ => True
  | _ => True

/-! ## The invariant -/

/-- A login as it is in the queue and with the thread. -/
structure Waits (l : Login) : Prop extends l.Valid where
  repeats : Repeats l.bytes

/-- What the thread has of `l`. -/
structure Has (t : DealThread) (l : Login) : Prop where
  buff : ∃ rest, t.tmpOutBuff = l.bytes ++ rest
  len : t.tmpOutLen = l.bytes.length
  waits : Waits l

/-- The thread's variables, and the login it has. -/
def Holding (t : DealThread) (hand : Option Login) : Prop :=
  match t.place with
  | .get => hand = none
  | .putBack => ∃ l, hand = some l ∧ Has t l
  | .check tmpRoomId tmpUserHashkey | .deal tmpRoomId tmpUserHashkey =>
    ∃ l, hand = some l ∧ Has t l ∧ tmpRoomId = l.pack.roomId ∧ tmpUserHashkey = l.userHashkey

/-- The logins in the queue, with the thread, and written. -/
structure Inv (n : Nat) (h : LoginHistory) (queued : List Login) (hand : Option Login) (done : List Login) : Prop where
  holds : Holds h.gate.clProcessor.dataList n (queued.map Login.bytes)
  waits {l : Login} : l ∈ queued → Waits l
  buff : h.gate.thread.tmpOutBuff.length = 0x2000
  holding : Holding h.gate.thread hand
  perm : h.accepted.Perm (queued ++ hand.toList ++ done)
  written : List.Forall₂ (WrittenTo h.gate.roomManager) done h.gate.written

variable {n : Nat} {h : LoginHistory} {queued done : List Login} {hand : Option Login} {l : Login}

theorem inv_start (hn : 0 < n) : Inv n (start n) [] none [] where
  holds := initBuffer_holds (CircleList.new 0) hn
  waits hl := absurd hl List.not_mem_nil
  buff := List.length_replicate
  holding := rfl
  perm := .nil
  written := .nil

theorem hasRoom_iff {list : CircleList} {ms : List (List Byte)} (hh : Holds list n ms) (len : Nat) :
    HasRoom list len ↔ slotsUsed ms + slotsFor len ≤ n := by
  rw [HasRoom, hh.used, hh.maxStruSize]
  omega

/-- The gate after `AddOneUndealPack` has taken `l`. -/
def added (h : LoginHistory) (l : Login) (list : CircleList) : LoginHistory :=
  ⟨{ h.gate with clProcessor := { h.gate.clProcessor.markRoom l.pack.roomId.toInt with dataList := list } },
    h.accepted ++ [l]⟩

theorem Inv.step_login (hi : Inv n h queued hand done) (hl : l.Valid) (ha : Allowed h (.login l)) :
    ∃ list, h.step (.login l) = some (h.added l list) ∧ Holds list n (queued.map Login.bytes ++ [l.bytes]) := by
  obtain ⟨hroom, hrep⟩ := ha
  have hlen := hl.length
  have hlt : l.pack.wire.length < 0x1ffc := by omega
  obtain ⟨list, h1, h2⟩ := ClientProcessor.addOneUndealPack_ok hi.holds hlt l.pack.roomId l.userHashkey
  rw [hasRoom_iff hi.holds, l.length_bytes] at hroom
  rw [if_pos hroom, ← Login.bytes, stored_eq_iff.mpr hrep] at h2
  refine ⟨list, ?_, h2⟩
  rw [step, h1]
  rfl

/-- A login that waits, and is the last in the queue. -/
theorem Inv.added (hi : Inv n h queued hand done) (hl : Waits l) {list : CircleList}
    (hh : Holds list n (queued.map Login.bytes ++ [l.bytes])) : Inv n (h.added l list) (queued ++ [l]) hand done := by
  refine ⟨?_, ?_, hi.buff, hi.holding, ?_, hi.written⟩
  · rw [List.map_append]
    exact hh
  · intro l' hl'
    rcases List.mem_append.mp hl' with hl' | hl'
    · exact hi.waits hl'
    · rw [List.mem_singleton.mp hl']
      exact hl
  · have hswap : (hand.toList ++ done ++ [l]).Perm ([l] ++ (hand.toList ++ done)) := List.perm_append_comm
    have hall := (hi.perm.append_right [l]).trans (by simpa only [List.append_assoc] using hswap.append_left queued)
    simpa only [LoginHistory.added, List.append_assoc] using hall

theorem Inv.login (hi : Inv n h queued hand done) (hl : l.Valid) (ha : Allowed h (.login l)) :
    ∃ h', h.step (.login l) = some h' ∧ Inv n h' (queued ++ [l]) hand done := by
  obtain ⟨list, h1, h2⟩ := hi.step_login hl ha
  exact ⟨h.added l list, h1, hi.added ⟨hl, ha.2⟩ h2⟩

/-- The room of a login that was written is known still. -/
theorem forall₂_addRoom {rooms : RoomManager} {written : List (Int × List Byte)} (roomId serverFd : Int)
    (hw : List.Forall₂ (WrittenTo rooms) done written) :
    List.Forall₂ (WrittenTo (rooms.addRoom roomId serverFd).2) done written :=
  hw.imp fun _ _ ⟨room, hr, he⟩ => ⟨room, rooms.addRoom_of_room roomId serverFd _ hr, he⟩

theorem Inv.addRoom (hi : Inv n h queued hand done) (roomId serverFd : Int) :
    ∃ h', h.step (.addRoom roomId serverFd) = some h' ∧ Inv n h' queued hand done :=
  ⟨_, rfl, { hi with written := forall₂_addRoom roomId serverFd hi.written }⟩

theorem Inv.deleteRoom (hi : Inv n h queued hand done) (roomId : Int) :
    ∃ h', h.step (.deleteRoom roomId) = some h' ∧ Inv n h' queued hand done :=
  ⟨_, rfl, { hi with holds := hi.holds }⟩

/-! ## The steps of `DealWithDataThread` -/

/-- What `GetBuffer` gets of a login, in `tmp_out_buff`. -/
theorem parse_login (hl : l.Valid) (rest : List Byte) :
    (StruCytPacket.fresh.parseFromArray (l.bytes ++ rest) (cint (l.bytes.length - 4))).within (l.bytes ++ rest).length =
        some (true, l.pack) ∧
      intAt (l.bytes ++ rest) (l.bytes.length - 4 : Int).toNat = l.userHashkey := by
  have hlen := hl.length
  have hb := l.length_bytes
  have hn : (cint (l.bytes.length - 4)).toInt = l.pack.wire.length := by
    rw [toInt_cint (by omega) (by omega)]
    omega
  refine ⟨?_, ?_⟩
  · have hw := StruCytPacket.within_wire .fresh hl.wellFormed (leBytes l.userHashkey ++ rest) hn.ge
    rwa [← List.append_assoc] at hw
  · have ht : (l.bytes.length - 4 : Int).toNat = l.pack.wire.length := by omega
    rw [ht, Login.bytes, List.append_assoc, intAt_append_right le_rfl, Nat.sub_self, intAt_leBytes]

/-- The gate after the thread has taken `l` out of the queue. -/
def taken (h : LoginHistory) (l : Login) (list : CircleList) : LoginHistory :=
  { h with gate := { h.gate with
    clProcessor := { h.gate.clProcessor with dataList := list }
    thread := ⟨l.bytes ++ h.gate.thread.tmpOutBuff.drop l.bytes.length, l.bytes.length,
      .check l.pack.roomId l.userHashkey⟩ } }

theorem Inv.get_cons (hi : Inv n h (l :: queued) hand done) (hp : h.gate.thread.place = .get) :
    ∃ q, h.step .dealWithData = some (h.taken l q) ∧ Holds q n (queued.map Login.bytes) := by
  have hbuff : (0x2000 : Int) ≤ h.gate.thread.tmpOutBuff.length := by rw [hi.buff]; rfl
  have hw := hi.waits List.mem_cons_self
  have hlen := hw.length
  have hb := l.length_bytes
  obtain ⟨q, hg, hq⟩ := getBuffer_ok hi.holds h.gate.thread.tmpOutLen
    (show (l.bytes.length : Int) < 0x2000 by omega) hbuff
  rw [splice_zero] at hg
  obtain ⟨hparse, hkey⟩ := parse_login hw.toValid (h.gate.thread.tmpOutBuff.drop l.bytes.length)
  have hfour : (4 : Int) ≤ l.bytes.length := by omega
  refine ⟨q, ?_, hq⟩
  rw [step, GateLogins.dealWithData, hp]
  simp only [GateLogins.get, hg, Option.bind_eq_bind, Option.bind_some, if_true, if_pos hfour, hparse, hkey,
    Option.map_some]
  rfl

theorem Inv.takes (hi : Inv n h (l :: queued) none done) (hp : h.gate.thread.place = .get) :
    ∃ q, h.step .dealWithData = some (h.taken l q) ∧ Inv n (h.taken l q) queued (some l) done := by
  obtain ⟨q, hstep, hq⟩ := hi.get_cons hp
  have hw := hi.waits List.mem_cons_self
  have hlen := hw.length
  have hb := l.length_bytes
  refine ⟨q, hstep, hq, ?_, ?_, ?_, ?_, hi.written⟩
  · exact fun hl => hi.waits (List.mem_cons_of_mem _ hl)
  · have := hi.buff
    simp only [taken, List.length_append, List.length_drop]
    omega
  · exact ⟨l, rfl, ⟨⟨_, rfl⟩, rfl, hw⟩, rfl, rfl⟩
  · have hmid : (l :: (queued ++ done)).Perm (queued ++ l :: done) := List.perm_middle.symm
    refine hi.perm.trans ?_
    simpa using hmid

theorem Inv.get (hi : Inv n h queued hand done) (hp : h.gate.thread.place = .get) :
    ∃ h' queued' hand', h.step .dealWithData = some h' ∧ Inv n h' queued' hand' done := by
  have hhand : hand = none := by
    have := hi.holding
    rwa [Holding, hp] at this
  subst hhand
  rcases queued with _ | ⟨l, queued⟩
  · have hg := getBuffer_nil hi.holds h.gate.thread.tmpOutBuff 0x2000 h.gate.thread.tmpOutLen
    refine ⟨{ h with gate := { h.gate with thread := { h.gate.thread with place := .get } } }, [], none, ?_, hi.holds,
      hi.waits, hi.buff, rfl, hi.perm, hi.written⟩
    rw [step, GateLogins.dealWithData, hp]
    simp [GateLogins.get, hg]
  · obtain ⟨q, hstep, hi'⟩ := hi.takes hp
    exact ⟨h.taken l q, queued, some l, hstep, hi'⟩

theorem Inv.check (hi : Inv n h queued hand done) {tmpRoomId tmpUserHashkey : CInt}
    (hp : h.gate.thread.place = .check tmpRoomId tmpUserHashkey) :
    ∃ h', h.step .dealWithData = some h' ∧ Inv n h' queued hand done := by
  have hhold := hi.holding
  rw [Holding, hp] at hhold
  obtain ⟨l, hl, hhas, hroom, hkey⟩ := hhold
  refine ⟨{ h with gate := h.gate.check tmpRoomId tmpUserHashkey }, ?_, hi.holds, hi.waits, hi.buff, ?_, hi.perm,
    hi.written⟩
  · rw [step, GateLogins.dealWithData, hp]
    rfl
  · have hthread : (h.gate.check tmpRoomId tmpUserHashkey).thread = { h.gate.thread with
        place := if (h.gate.clProcessor.isMarked tmpRoomId.toInt).1 then .putBack
          else .deal tmpRoomId tmpUserHashkey } := rfl
    show Holding (h.gate.check tmpRoomId tmpUserHashkey).thread hand
    rw [hthread]
    rcases (h.gate.clProcessor.isMarked tmpRoomId.toInt).1 with _ | _
    · exact ⟨l, hl, ⟨hhas.buff, hhas.len, hhas.waits⟩, hroom, hkey⟩
    · exact ⟨l, hl, ⟨hhas.buff, hhas.len, hhas.waits⟩⟩

theorem isMarked_deleteRoom (clProcessor : ClientProcessor) (roomId : Int) :
    ((clProcessor.deleteRoom roomId).isMarked roomId).1 = false := by
  simp [ClientProcessor.isMarked, ClientProcessor.deleteRoom, StdMap.find?_erase]

/-- The thread takes the first login out of the queue, and is to send it if its room is not marked. -/
theorem Inv.toDeal (hi : Inv n h (l :: queued) none done) (hp : h.gate.thread.place = .get)
    (hm : (h.gate.clProcessor.isMarked l.pack.roomId.toInt).1 = false) :
    ∃ h₁ h₂, h.step .dealWithData = some h₁ ∧ h₁.step .dealWithData = some h₂ ∧
      h₁.gate.thread.place = .check l.pack.roomId l.userHashkey ∧
      h₂.gate.thread.place = .deal l.pack.roomId l.userHashkey ∧ h₂.gate.roomManager = h.gate.roomManager ∧
      Inv n h₂ queued (some l) done := by
  obtain ⟨q, h1, hi₁⟩ := hi.takes hp
  obtain ⟨h₂, h2, hi₂⟩ := hi₁.check rfl
  have hgate : h₂.gate = (h.taken l q).gate.check l.pack.roomId l.userHashkey := by
    cases h2
    rfl
  refine ⟨_, h₂, h1, h2, rfl, ?_, ?_, hi₂⟩
  · rw [hgate]
    show (if (h.gate.clProcessor.isMarked l.pack.roomId.toInt).1 then _ else _) = _
    rw [hm, if_neg Bool.false_ne_true]
  · rw [hgate]
    rfl

theorem Inv.putBack (hi : Inv n h queued hand done) (hp : h.gate.thread.place = .putBack)
    (ha : Allowed h .dealWithData) :
    ∃ h' l, hand = some l ∧ h.step .dealWithData = some h' ∧ Inv n h' (queued ++ [l]) none done := by
  have hhold := hi.holding
  rw [Holding, hp] at hhold
  obtain ⟨l, rfl, ⟨rest, hrest⟩, hlen, hw⟩ := hhold
  have hroom : HasRoom h.gate.clProcessor.dataList h.gate.thread.tmpOutLen.toNat := by
    rwa [Allowed, hp] at ha
  rw [hlen, Int.toNat_natCast, hasRoom_iff hi.holds] at hroom
  have hfits : l.bytes.length ≤ h.gate.thread.tmpOutBuff.length := by
    rw [hrest, List.length_append]
    omega
  obtain ⟨q, h1, h2⟩ := addBuffer_ok hi.holds hfits hroom
  rw [hrest, List.take_left, stored_eq_iff.mpr hw.repeats] at h2
  refine ⟨{ h with gate := { h.gate with
    clProcessor := { h.gate.clProcessor with dataList := q }
    thread := { h.gate.thread with place := .get } } }, l, rfl, ?_, ?_, ?_, hi.buff, rfl, ?_, hi.written⟩
  · rw [step, GateLogins.dealWithData, hp]
    simp only [GateLogins.putBack, hlen, h1, Option.bind_eq_bind, Option.bind_some, Option.map_some]
  · rw [List.map_append]
    exact h2
  · intro l' hl'
    rcases List.mem_append.mp hl' with hl' | hl'
    · exact hi.waits hl'
    · rw [List.mem_singleton.mp hl']
      exact hw
  · simpa using hi.perm

/-- The packet that is made of a login in `tmp_out_buff`. -/
theorem wrap_login (hl : l.Valid) (rest : List Byte) :
    .wrap l.userHashkey (l.bytes ++ rest) (l.bytes.length - 4) = l.packet := by
  have hlen := hl.length
  have hk : (l.bytes.length - 4 : Int) = (l.pack.wire.length : Nat) := by
    rw [l.length_bytes]
    omega
  rw [hk, ← GateRoomServerPack.wrap_take (by omega), Login.bytes, List.append_assoc, List.take_left, Login.packet]

/-- What is written of it. -/
theorem serialize_packet (hl : l.Valid) :
    ∃ buff, l.packet.serializeToArray (List.replicate 0x2000 0) l.packet.byteSize = some (true, buff) ∧
      buff.take l.packet.byteSize.toInt.toNat = l.packet.wire := by
  have hlen := hl.length
  obtain ⟨hw, hlen'⟩ := GateRoomServerPack.wrap_wf (h := l.userHashkey) (show 0 < l.pack.wire.length by omega) le_rfl
    (by omega)
  have hwire : l.packet.wire.length = l.pack.wire.length + 18 := hlen'
  have hwf : l.packet.WellFormed := hw
  have hsize := GateRoomServerPack.toInt_byteSize hwf (by omega)
  refine ⟨_, GateRoomServerPack.serialize_ok hwf (by rw [List.length_replicate]; omega), ?_⟩
  rw [hsize, Int.toNat_natCast, List.take_left]

theorem Inv.deal (hi : Inv n h queued hand done) {tmpRoomId tmpUserHashkey : CInt}
    (hp : h.gate.thread.place = .deal tmpRoomId tmpUserHashkey) (ha : Allowed h .dealWithData) :
    ∃ h' l, hand = some l ∧ h.step .dealWithData = some h' ∧ Inv n h' queued none (done ++ [l]) := by
  have hhold := hi.holding
  rw [Holding, hp] at hhold
  obtain ⟨l, rfl, ⟨⟨rest, hrest⟩, hlen, hw⟩, rfl, rfl⟩ := hhold
  have hknown : (h.gate.roomManager.room l.pack.roomId.toInt).isSome := by
    rwa [Allowed, hp] at ha
  obtain ⟨room, hroom⟩ := Option.isSome_iff_exists.mp hknown
  obtain ⟨buff, h1, h2⟩ := serialize_packet hw.toValid
  have hsame (j : Int) : (h.gate.roomManager.getChatRoom l.pack.roomId.toInt).2.room j = h.gate.roomManager.room j :=
    RoomManager.getChatRoom_room ..
  refine ⟨{ h with gate := { h.gate with
    roomManager := (h.gate.roomManager.getChatRoom l.pack.roomId.toInt).2
    thread := { h.gate.thread with place := .get }
    written := h.gate.written ++ [(room.serverFd, l.packet.wire)] } }, l, rfl, ?_, hi.holds, hi.waits, hi.buff, rfl, ?_,
    ?_⟩
  · rw [step, GateLogins.dealWithData, hp]
    simp only [GateLogins.deal, RoomManager.getChatRoom_fst, hroom, hrest, hlen, wrap_login hw.toValid, h1,
      Option.bind_eq_bind, Option.bind_some, if_true, h2, Option.map_some]
  · have hswap : ([l] ++ done).Perm (done ++ [l]) := List.perm_append_comm
    simpa using hi.perm.trans (by simpa using hswap.append_left queued)
  · refine List.rel_append ?_ ?_
    · exact hi.written.imp fun _ _ ⟨room, hr, he⟩ => ⟨room, (hsame _).trans hr, he⟩
    · exact .cons ⟨room, (hsame _).trans hroom, rfl⟩ .nil

/-! ## Runs -/

theorem Inv.step (hi : Inv n h queued hand done) {x : LoginCall} (hv : x.Valid) (ha : Allowed h x) :
    ∃ h', h.step x = some h' ∧ ∃ queued hand done, Inv n h' queued hand done := by
  cases x with
  | login l =>
    obtain ⟨h', h1, h2⟩ := hi.login hv ha
    exact ⟨h', h1, _, _, _, h2⟩
  | deleteRoom roomId =>
    obtain ⟨h', h1, h2⟩ := hi.deleteRoom roomId
    exact ⟨h', h1, _, _, _, h2⟩
  | addRoom roomId serverFd =>
    obtain ⟨h', h1, h2⟩ := hi.addRoom roomId serverFd
    exact ⟨h', h1, _, _, _, h2⟩
  | dealWithData =>
    rcases hp : h.gate.thread.place with _ | ⟨tmpRoomId, key⟩ | _ | ⟨tmpRoomId, key⟩
    · obtain ⟨h', queued', hand', h1, h2⟩ := hi.get hp
      exact ⟨h', h1, _, _, _, h2⟩
    · obtain ⟨h', h1, h2⟩ := hi.check hp
      exact ⟨h', h1, _, _, _, h2⟩
    · obtain ⟨h', l, -, h1, h2⟩ := hi.putBack hp ha
      exact ⟨h', h1, _, _, _, h2⟩
    · obtain ⟨h', l, -, h1, h2⟩ := hi.deal hp ha
      exact ⟨h', h1, _, _, _, h2⟩

/-- The room of a login that was written is known. -/
theorem known_of_written {rooms : RoomManager} {written : List (Int × List Byte)}
    (hw : List.Forall₂ (WrittenTo rooms) done written) (hl : l ∈ done) : (rooms.room l.pack.roomId.toInt).isSome := by
  induction hw with
  | nil => cases hl
  | cons hfirst _ ih =>
    rcases List.mem_cons.mp hl with rfl | hl
    · obtain ⟨room, hr, -⟩ := hfirst
      exact Option.isSome_of_mem hr
    · exact ih hl

theorem Inv.kept (hi : Inv n h queued hand done) : Kept h := by
  refine ⟨queued, hand, done, hi.holds.messages_eq, ?_, hi.perm, hi.written, fun l hl hno => ?_⟩
  · have hhold := hi.holding
    have hfront {l : Login} (hl : Has h.gate.thread l) :
        h.gate.thread.tmpOutBuff.take h.gate.thread.tmpOutLen.toNat = l.bytes := by
      obtain ⟨rest, hrest⟩ := hl.buff
      rw [hrest, hl.len, Int.toNat_natCast, List.take_left]
    rw [Holding] at hhold
    rw [InHand]
    split at hhold <;> rename_i hp
    · rw [if_pos hp]
      exact hhold
    · obtain ⟨l, hl, hhas⟩ := hhold
      rw [hp, if_neg nofun]
      exact ⟨l, hl, hfront hhas⟩
    · obtain ⟨l, hl, hhas, -⟩ := hhold
      rw [hp, if_neg nofun]
      exact ⟨l, hl, hfront hhas⟩
    · obtain ⟨l, hl, hhas, -⟩ := hhold
      rw [hp, if_neg nofun]
      exact ⟨l, hl, hfront hhas⟩
  · rcases List.mem_append.mp (hi.perm.mem_iff.mp hl) with hl | hl
    · exact hl
    · have hknown := known_of_written hi.written hl
      rw [hno] at hknown
      cases hknown

/-- In a run whose steps are all allowed, no login is lost or sent twice. -/
theorem logins_kept (hn : 0 < n) {xs : List LoginCall} (hv : ∀ x ∈ xs, x.Valid)
    (ha : ∀ x ∈ runSteps step (start n) xs, Allowed x.1 x.2) : Always step Kept (start n) xs := by
  have ok (h : LoginHistory) (x : LoginCall) : (∃ queued hand done, Inv n h queued hand done) → x.Valid →
      Allowed h x → ∃ h', LoginHistory.step h x = some h' ∧ ∃ queued hand done, Inv n h' queued hand done :=
    fun ⟨_, _, _, hi⟩ hv ha => hi.step hv ha
  exact always_of_steps ok (fun _ ⟨_, _, _, hi⟩ => hi.kept) hv ⟨[], none, [], inv_start hn⟩ ha

/-- The login of a user with key 5 for `roomId`. -/
def loginOf (roomId : CInt) : Login := ⟨⟨packHead, roomId, 1, eUserLoginRq, [0], packTail⟩, 5⟩

theorem valid_loginOf (roomId : CInt) : (loginOf roomId).Valid where
  wellFormed := ⟨rfl, rfl, rfl⟩
  length := ⟨Nat.le_refl 19, by show 19 ≤ 4096; decide⟩
  msgType := rfl

theorem allowed_loginOf (hn : 0 < n) (roomId : CInt) : Allowed (start n) (.login (loginOf roomId)) := by
  have hlen : (loginOf roomId).bytes.length = 23 := by
    rw [Login.length_bytes]
    rfl
  refine ⟨?_, repeats_of_length_le (by rw [hlen]; decide)⟩
  rw [hasRoom_iff (inv_start hn).holds, hlen]
  exact hn

/-- The room of a login for room 7 becomes known, and `DealWithDataThread` sends it. -/
theorem kept_room : Always step Kept (start 1000)
    [.login (loginOf 7), .addRoom 7 30, .deleteRoom 7, .dealWithData, .dealWithData, .dealWithData] := by
  have hi := inv_start (show 0 < 1000 by decide)
  have ha := allowed_loginOf (show 0 < 1000 by decide) 7
  obtain ⟨h₁, h1, hi₁⟩ := hi.login (valid_loginOf 7) ha
  obtain ⟨h₂, h2, hi₂⟩ := hi₁.addRoom 7 30
  obtain ⟨h₃, h3, hi₃⟩ := hi₂.deleteRoom 7
  have hplace : h₃.gate.thread.place = .get := by
    obtain ⟨list, h1', -⟩ := hi.step_login (valid_loginOf 7) ha
    cases h1.symm.trans h1'
    cases h2
    cases h3
    rfl
  have hmark : (h₃.gate.clProcessor.isMarked 7).1 = false := by
    cases h3
    exact isMarked_deleteRoom ..
  have hknown : (h₃.gate.roomManager.room 7).isSome := by
    cases h2
    cases h3
    simp [RoomManager.addRoom_room]
  obtain ⟨h₄, h₅, h4, h5, hplace₄, hplace₅, hroom, -⟩ := hi₃.toDeal hplace hmark
  refine logins_kept (by decide) ?_ ?_
  · simp [LoginCall.Valid, valid_loginOf]
  · rw [runSteps_cons h1, runSteps_cons h2, runSteps_cons h3, runSteps_cons h4, runSteps_cons h5, runSteps_last]
    simp only [List.forall_mem_cons]
    refine ⟨ha, trivial, trivial, ?_, ?_, ?_, List.forall_mem_nil _⟩
    · rw [Allowed, hplace]
      trivial
    · rw [Allowed, hplace₄]
      trivial
    · rw [Allowed, hplace₅, hroom]
      exact hknown

/-- A login for room 0: the mark of this room says that it is not in `room_list_`. -/
theorem not_kept_room0 : ∃ h, h ∈ [LoginCall.login (loginOf 0), .dealWithData, .dealWithData, .dealWithData].foldlM step
    (start 1000) ∧ h.accepted = [loginOf 0] ∧ ¬ Kept h := by
  have hi := inv_start (show 0 < 1000 by decide)
  have ha := allowed_loginOf (show 0 < 1000 by decide) 0
  obtain ⟨list, h1, -⟩ := hi.step_login (valid_loginOf 0) ha
  obtain ⟨h₁, hs₁, hi₁⟩ := hi.login (valid_loginOf 0) ha
  cases h1.symm.trans hs₁
  obtain ⟨q, h2, hq⟩ := hi₁.get_cons rfl
  let h₂ := ((start 1000).added (loginOf 0) list).taken (loginOf 0) q
  have h3 : h₂.step .dealWithData = some { h₂ with gate := h₂.gate.check 0 5 } := rfl
  obtain ⟨h₄, h4, hacc, hlist, hplace, hwritten⟩ :
      ∃ h₄, step { h₂ with gate := h₂.gate.check 0 5 } .dealWithData = some h₄ ∧ h₄.accepted = [loginOf 0] ∧
        h₄.gate.clProcessor.dataList = q ∧ h₄.gate.thread.place = .get ∧ h₄.gate.written = [] :=
    ⟨_, rfl, rfl, rfl, rfl, rfl⟩
  refine ⟨h₄, ?_, hacc, ?_⟩
  · rw [List.foldlM_cons, h1, Option.bind_eq_bind, Option.bind_some, List.foldlM_cons, h2, Option.bind_eq_bind,
      Option.bind_some, List.foldlM_cons, h3, Option.bind_eq_bind, Option.bind_some, List.foldlM_cons, h4]
    rfl
  · rintro ⟨queued, hand, done, hm, hh, hp, hw, -⟩
    rw [hlist, hq.messages_eq, List.map_nil, eq_comm, List.map_eq_nil_iff] at hm
    rw [InHand, if_pos hplace] at hh
    rw [hwritten, List.forall₂_nil_right_iff] at hw
    rw [hacc, hm, hh, hw] at hp
    exact absurd hp.length_eq (by decide)

end LoginHistory

end Miku.GateServer
