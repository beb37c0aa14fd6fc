import MikuServer.Framework.CodedRuntime
import MikuServer.Impl.Servers
import MikuServer.Proof.MessageSend
import MikuServer.Proof.MessageSize
import MikuServer.Proof.PackCodec
import MikuServer.Proof.RoomAudience
import MikuServer.Proof.RoomClient
import MikuServer.Proof.RoomSends

/-!
# What comes of a message is due to a user and to the data base

A reply of the center server is made for a request of a user with what the data
base has (`reply_login`, `reply_gift`), and the room server reads it as it was made
(`dealWithData_reply`). What a user has sent goes on to the center server as it came
(`Inv.requests`), and each frame for the room server answers such a request
(`Inv.replied`).

The room server lets in whom a reply names, and tells users of a gift for which
there is one. So whoever is in a room has asked for it, and a request for that user
and room had the password (`online_verified`); for a gift that users are told of the
procedure of the data base was called (`gift_called`), and may have refused it. A
text was sent by a user as it is (`text_came`).
-/

namespace Miku

open Protobuf RoomServer
open WireFormat (Runtime)

/-! ## The replies -/

theorem int_bounds (m : Protobuf.Message) (n : Nat) : -2 ^ 31 ≤ m.int n ∧ m.int n < 2 ^ 31 := by
  unfold Protobuf.Message.int
  split
  · exact toInt_bounds _
  · decide

theorem length_str_of_fit {fields : List ScalarField} {cells : List (Option WireFormat.Value)}
    (h : CellsFit fields cells) {n : Nat} {s : List Byte} (hn : cells[n]? = some (some (.str s))) : s.length < 2 ^ 31 := by
  induction h generalizing n with
  | nil => cases hn
  | @cons f c fields cells hc _ ih =>
    cases n with
    | succ n => exact ih hn
    | zero =>
      cases hn
      have hfit : f.type.Fits (.str s) := hc _ rfl
      rcases htype : f.type with _ | _ | _ | _ <;> rw [htype] at hfit <;> first | exact hfit | exact hfit.elim

/-- A text that was parsed has the length of a text. -/
theorem length_str [Runtime] [Runtime.Documented] {t : MessageType} {p : StruCytPacket} {m : Protobuf.Message}
    (h : p.message t = some m) (n : Nat) :
    (m.str n).length < 2 ^ 31 := by
  have hfit : t.Fits 64 m :=
    MessageType.fits_of_merge (MessageType.parseFromArray_eq_some.mp h).1 (MessageType.fits_new t 64)
  have hcells : CellsFit t.fields m.cells := by
    cases t with
    | flat fields h => exact hfit.1
    | list fields item h => exact hfit.1
  unfold Protobuf.Message.str
  split
  · exact length_str_of_fit hcells ‹_›
  · decide

/-- A number that was set is what is read. -/
theorem int_setAll {vs : List FieldValue} (h : ∀ v ∈ vs, v.InRange) (items : List Protobuf.Message) (n : Nat)
    {v : Int} (hn : vs[n]? = some (.int v)) : (setAll vs items).int n = v := by
  obtain ⟨h1, h2⟩ := h _ (List.mem_of_getElem? hn)
  rw [Protobuf.Message.int, setAll, Protobuf.Message.cells, List.getElem?_map, hn]
  exact toInt_cint h1 h2

theorem str_setAll {vs : List FieldValue} (items : List Protobuf.Message) (n : Nat) {s : List Byte}
    (hn : vs[n]? = some (.str s)) : (setAll vs items).str n = s := by
  rw [Protobuf.Message.str, setAll, Protobuf.Message.cells, List.getElem?_map, hn]
  rfl

theorem enum_setAll (vs : List FieldValue) (items : List Protobuf.Message) (n : Nat) {v : EnumMsgID}
    (hn : vs[n]? = some (.enum v)) : EnumMsgID.ofValue ((setAll vs items).int n) = v := by
  rw [Protobuf.Message.int, setAll, Protobuf.Message.cells, List.getElem?_map, hn]
  cases v <;> rfl

/-- The values of a login reply are read from the message in which they are set. -/
theorem of_userLoginRS {rs : StruUserLoginRS} (h : (Pack.userLoginRS rs).InRange) :
    StruUserLoginRS.of (Pack.userLoginRS rs).message = rs := by
  have hint (n : Nat) (v : Int) (hn : rs.values[n]? = some (.int v)) : (Pack.userLoginRS rs).message.int n = v :=
    int_setAll h.values _ n hn
  have hid : EnumMsgID.ofValue ((Pack.userLoginRS rs).message.int 0) = rs.msgId := enum_setAll rs.values _ 0 rfl
  rw [StruUserLoginRS.of, hid, hint 1 _ rfl, hint 2 _ rfl, hint 3 _ rfl, hint 4 _ rfl, hint 5 _ rfl, hint 6 _ rfl,
    hint 7 _ rfl, hint 8 _ rfl, hint 9 _ rfl, hint 10 _ rfl, hint 11 _ rfl, hint 12 _ rfl, hint 13 _ rfl,
    hint 14 _ rfl]

theorem of_userGiveGiftRS {rs : StruUserGiveGiftRS} (h : (Pack.userGiveGiftRS rs).InRange) :
    StruUserGiveGiftRS.of (Pack.userGiveGiftRS rs).message = rs := by
  have hint (n : Nat) (v : Int) (hn : (Pack.userGiveGiftRS rs).values[n]? = some (.int v)) :
      (Pack.userGiveGiftRS rs).message.int n = v :=
    int_setAll h.values _ n hn
  have hid : EnumMsgID.ofValue ((Pack.userGiveGiftRS rs).message.int 0) = rs.msgId := enum_setAll _ _ 0 rfl
  have hcode : (Pack.userGiveGiftRS rs).message.str 4 = rs.giftCode := str_setAll _ 4 rfl
  rw [StruUserGiveGiftRS.of, hid, hint 1 _ rfl, hint 2 _ rfl, hint 3 _ rfl, hcode, hint 5 _ rfl, hint 6 _ rfl]

/-- A reply is read as it was made. -/
theorem message_sent [Runtime] [Runtime.Documented] {pack : Pack} (h : pack.InRange) {msgId : CInt} {frame : List Byte}
    (hs : sendDataToRS pack.type pack.message msgId = some (some frame)) :
    ∃ p, StruCytPacket.ofFrame frame = some (some p) ∧ p.msgType = msgId ∧ p.message pack.type = some pack.message := by
  obtain ⟨hfit, hinit, -⟩ := Pack.message_ok h
  obtain ⟨p, hp, hid, hm⟩ := read_sent hfit hinit hs
  refine ⟨p, ?_, hid, hm⟩
  rw [StruCytPacket.ofFrame, hp]
  rfl

namespace CenterServer

variable [Runtime] {db : Procedures} {p : StruCytPacket} {rs : StruUserLoginRS}

/-- The data base has the password that is in the login request of `p`. -/
structure PswMatches (db : Procedures) (p : StruCytPacket) (userId roomId : Int) : Prop where
  msgType : p.msgType = 6001
  request : ∃ m, p.message struUserLoginRQ = some m ∧ m.int 1 = userId ∧ m.int 2 = roomId ∧
    ∃ row psw, db.userLogin userId = some row ∧ row.getString 1 = some psw ∧ samePsw psw (m.str 3)

/-- The procedure was called for the gift of the request of `p`, and `rs` has the columns of its row, `@sender_red_d`
for the result, and `@result` for the amount. -/
structure GiftCalled (db : Procedures) (p : StruCytPacket) (rs : StruUserGiveGiftRS) (senderRedD result : CInt) :
    Prop where
  msgType : p.msgType = 6012
  request : ∃ m, p.message struUserGiveGiftRQ = some m ∧ m.int 1 = rs.userId ∧ m.int 2 = rs.roomId ∧
    m.str 3 = rs.giftCode ∧ m.int 4 = rs.dstUserId ∧
    ∃ getInt, db.giveGift rs.userId rs.dstUserId (m.int 5) rs.giftCode = some getInt ∧
      getInt 1 = some senderRedD ∧ getInt 2 = some result
  asResult : rs.result = senderRedD.toInt
  asSenderRedD : rs.senderRedD = result.toInt

/-- The request that a reply is for. -/
theorem reply_cases {pack : Pack} (h : reply db p = some pack) :
    (∃ m rs, p.msgType = 6001 ∧ p.message struUserLoginRQ = some m ∧
      clientLoginRQ db.userLogin (m.int 1) (m.int 2) (m.str 3) = some rs ∧ pack = .userLoginRS rs) ∨
    ∃ m rs, p.msgType = 6012 ∧ p.message struUserGiveGiftRQ = some m ∧ userGiveGiftRQ db.gift (.of m) = some rs ∧
      pack = .userGiveGiftRS rs := by
  rw [reply] at h
  split at h
  · obtain ⟨m, hm, h⟩ := Option.bind_eq_some_iff.mp h
    obtain ⟨rs, hrs, h⟩ := Option.bind_eq_some_iff.mp h
    cases h
    exact .inl ⟨m, rs, ‹_›, hm, hrs, rfl⟩
  · split at h
    · obtain ⟨m, hm, h⟩ := Option.bind_eq_some_iff.mp h
      obtain ⟨rs, hrs, h⟩ := Option.bind_eq_some_iff.mp h
      cases h
      exact .inr ⟨m, rs, ‹_›, hm, hrs, rfl⟩
    · cases h

theorem reply_login {m : Protobuf.Message} (hid : p.msgType = 6001) (hm : p.message struUserLoginRQ = some m)
    (hrs : clientLoginRQ db.userLogin (m.int 1) (m.int 2) (m.str 3) = some rs) :
    (Pack.userLoginRS rs).InRange ∧ (rs.result = 1 → PswMatches db p rs.userId rs.roomId) := by
  obtain ⟨row, hrow, hrs⟩ := Option.bind_eq_some_iff.mp hrs
  obtain ⟨psw, hpsw, hrs⟩ := Option.bind_eq_some_iff.mp hrs
  -- The attributes of the row.
  iterate 11 obtain ⟨_, -, hrs⟩ := Option.bind_eq_some_iff.mp hrs
  cases hrs
  refine ⟨⟨?_, List.forall_mem_nil _⟩, fun hres => ⟨hid, m, hm, rfl, rfl, row, psw, hrow, hpsw, ?_⟩⟩
  · have huser := int_bounds m 1
    have hroom := int_bounds m 2
    simp only [Pack.values, StruUserLoginRS.values, List.forall_mem_cons, FieldValue.InRange, toInt_bounds, huser, hroom,
      and_self, true_and]
    split <;> exact ⟨by decide, List.forall_mem_nil _⟩
  · by_contra hne
    rw [if_neg hne] at hres
    cases hres

theorem reply_gift [Runtime.Documented] {m : Protobuf.Message} {rs : StruUserGiveGiftRS} (hid : p.msgType = 6012)
    (hm : p.message struUserGiveGiftRQ = some m) (hrs : userGiveGiftRQ db.gift (.of m) = some rs) :
    (Pack.userGiveGiftRS rs).InRange ∧ ∃ senderRedD result, GiftCalled db p rs senderRedD result := by
  unfold userGiveGiftRQ userGiveGift StruUserGiveGiftRQ.of Procedures.gift at hrs
  dsimp only at hrs
  rcases hrow : db.giveGift (m.int 1) (m.int 4) (m.int 5) (m.str 3) with _ | getInt <;> rw [hrow] at hrs
  · cases hrs
  rcases h1 : getInt 1 with _ | senderRedD <;> simp only [Option.map_some, h1, Option.map_none] at hrs
  · cases hrs
  rcases h2 : getInt 2 with _ | result <;> simp only [Option.map_some, h2, Option.map_none] at hrs
  · cases hrs
  cases hrs
  refine ⟨⟨?_, List.forall_mem_nil _⟩, senderRedD, result, hid,
    ⟨m, hm, rfl, rfl, rfl, rfl, getInt, hrow, h1, h2⟩, rfl, rfl⟩
  have hcode := length_str hm 3
  have huser := int_bounds m 1
  have hroom := int_bounds m 2
  have hdst := int_bounds m 4
  simp only [Pack.values, List.forall_mem_cons, FieldValue.InRange, toInt_bounds, huser, hroom, hdst, hcode, and_self,
    true_and]
  exact List.forall_mem_nil _

/-- The reply that a frame of the center server is read as. -/
theorem dealWithData_reply [Runtime.Documented] {frame answer : List Byte} {q : StruCytPacket}
    (h : dealWithData db frame = some (some answer)) (hq : StruCytPacket.ofFrame answer = some (some q)) :
    ∃ p, StruCytPacket.ofFrame frame = some (some p) ∧
      ((∃ rs, CenterServerProcessor.execute q = some (.clientLoginRS rs) ∧
        (rs.result = 1 → PswMatches db p rs.userId rs.roomId)) ∨
      ∃ rs, CenterServerProcessor.execute q = some (.userGiveGiftRS rs) ∧
        ∃ senderRedD result, GiftCalled db p rs senderRedD result) := by
  obtain ⟨p, hp, h⟩ := Option.bind_eq_some_iff.mp h
  rcases hreply : p.bind (reply db) with _ | pack
  · rw [hreply] at h
    cases h
  rw [hreply] at h
  obtain ⟨p, rfl, hreply⟩ := Option.bind_eq_some_iff.mp hreply
  refine ⟨p, hp, ?_⟩
  obtain ⟨m, rs, hid, hm, hrs, rfl⟩ | ⟨m, rs, hid, hm, hrs, rfl⟩ := reply_cases hreply
  · obtain ⟨hrange, hpsw⟩ := reply_login hid hm hrs
    obtain ⟨q', hq', hid, hm⟩ := message_sent hrange h
    cases hq.symm.trans hq'
    have hid : q.msgType = 6002 := hid
    have hm : q.message struUserLoginRS = some (Pack.userLoginRS rs).message := hm
    refine .inl ⟨rs, ?_, hpsw⟩
    rw [CenterServerProcessor.execute, if_pos hid, hm, Option.map_some, of_userLoginRS hrange]
  · obtain ⟨hrange, hcalled⟩ := reply_gift hid hm hrs
    obtain ⟨q', hq', hid, hm⟩ := message_sent hrange h
    cases hq.symm.trans hq'
    have hid : q.msgType = 6013 := hid
    have hm : q.message struUserGiveGiftRS = some (Pack.userGiveGiftRS rs).message := hm
    refine .inr ⟨rs, ?_, hcalled⟩
    rw [CenterServerProcessor.execute, hid, if_neg (by decide), if_pos rfl, hm, Option.map_some, of_userGiveGiftRS hrange]

end CenterServer

/-! ## The requests -/

namespace RoomServer

/-- A request goes on with the data of its packet. -/
theorem GateServerProcessor.passesOn_getCommand {msgType : CInt} {pack : GateRoomServerPack} {msg : Protobuf.Message}
    {m : Server.Message} (h : getCommand msgType pack msg = some m) {x : Sent} (hx : m.PassesOn x) :
    x = .center pack.dataMsg pack.dataLen.toInt := by
  obtain ⟨tmpPackage, hm, rfl⟩ := hx
  have hpack : tmpPackage = pack := by
    unfold getCommand at h
    repeat' split at h
    all_goals cases h <;> obtain ⟨rq, hm⟩ | ⟨rq, hm⟩ := hm <;> cases hm <;> rfl
  rw [hpack]

theorem GateServerProcessor.getCommand_login {msgType : CInt} {pack tmpPackage : GateRoomServerPack}
    {msg : Protobuf.Message} {rq : StruUserLoginRQ}
    (h : getCommand msgType pack msg = some (.clientLoginRQ tmpPackage rq)) :
    msgType = 6001 ∧ tmpPackage = pack ∧ rq.userId = msg.int 1 ∧ rq.roomId = msg.int 2 := by
  unfold getCommand at h
  split at h
  case isTrue hid =>
    cases h
    exact ⟨hid, rfl, rfl, rfl⟩
  repeat' split at h
  all_goals cases h

theorem GateServerProcessor.getCommand_ne_reply {msgType : CInt} {pack : GateRoomServerPack} {msg : Protobuf.Message}
    {m : Server.Message} (hm : (∃ rs, m = .clientLoginRS rs) ∨ ∃ rs, m = .userGiveGiftRS rs) :
    getCommand msgType pack msg ≠ some m := by
  intro h
  unfold getCommand at h
  repeat' split at h
  all_goals cases h <;> obtain ⟨rs, hm⟩ | ⟨rs, hm⟩ := hm <;> cases hm

theorem GateServerProcessor.getCommand_text {msgType : CInt} {pack : GateRoomServerPack} {msg : Protobuf.Message}
    {rq : StruUserMsgRQ} (h : getCommand msgType pack msg = some (.userSendMsgRQ rq)) :
    msgType = 6009 ∧ rq = ⟨msg.int 1, msg.int 2, msg.str 3, msg.int 4 ≠ 0, msg.int 5⟩ := by
  unfold getCommand at h
  repeat' split at h
  all_goals cases h
  exact ⟨‹_›, rfl⟩

/-- A reply does not go on. -/
theorem CenterServerProcessor.not_passesOn [Runtime] {p : StruCytPacket} {m : Server.Message}
    (h : CenterServerProcessor.execute p = some m) (x : Sent) : ¬ m.PassesOn x := by
  rintro ⟨tmpPackage, hm, -⟩
  unfold CenterServerProcessor.execute at h
  repeat' split at h
  case isFalse => cases h
  all_goals
    obtain ⟨msg, -, rfl⟩ := Option.map_eq_some_iff.mp h
    obtain ⟨rq, hm⟩ | ⟨rq, hm⟩ := hm <;> cases hm

end RoomServer

/-! ## Runs -/

namespace Servers

variable {es es' : List Event} {e : Event} {s s' t : Servers}

section

variable [Runtime]

def run (es : List Event) : Option Servers := es.foldlM step .new

/-- What the room server does in an event. -/
def roomEvents : Event → List Server.Event
  | .connect hashKey userSock => [.connect hashKey userSock]
  | .disconnect hashKey => [.disconnect hashKey]
  | .request list => (((gets list).getD []).filterMap GateServerProcessor.execute).map .message
  | .verify _ _ => []
  | .reply frame =>
    ((((StruCytPacket.ofFrame frame).getD none).bind CenterServerProcessor.execute).toList).map .message

/-- A user's packet `pack` with the message `msg` has come over a gate. -/
def Came (es : List Event) (pack : GateRoomServerPack) (cyt : StruCytPacket) (msg : Protobuf.Message) : Prop :=
  ∃ list us, Event.request list ∈ es ∧ gets list = some us ∧ some (pack, cyt, msg) ∈ us

/-- The frame that goes on to the center server for a packet. -/
def frameOf (pack : GateRoomServerPack) : List Byte := (cStr pack.dataMsg).take pack.dataLen.toInt.toNat

/-- The frame is the answer of the center server to a frame of a user. -/
def Answered (es : List Event) (answer : List Byte) : Prop :=
  ∃ frame db, Event.verify frame db ∈ es ∧ (∃ pack cyt msg, Came es pack cyt msg ∧ frameOf pack = frame) ∧
    CenterServer.dealWithData db frame = some (some answer)

theorem Came.mono {pack : GateRoomServerPack} {cyt : StruCytPacket} {msg : Protobuf.Message} (h : Came es pack cyt msg)
    (hes : es ⊆ es') : Came es' pack cyt msg := by
  obtain ⟨list, us, hlist, hrest⟩ := h
  exact ⟨list, us, hes hlist, hrest⟩

theorem Answered.mono {answer : List Byte} (h : Answered es answer) (hes : es ⊆ es') : Answered es' answer := by
  obtain ⟨frame, db, hverify, ⟨pack, cyt, msg, hcame, hframe⟩, hrest⟩ := h
  exact ⟨frame, db, hes hverify, ⟨pack, cyt, msg, hcame.mono hes, hframe⟩, hrest⟩

/-- The messages of the room server are from the users, or from the center server. -/
theorem mem_roomEvents {m : Server.Message} (h : Server.Event.message m ∈ es.flatMap roomEvents) :
    (∃ pack cyt msg, Came es pack cyt msg ∧ GateServerProcessor.getCommand cyt.msgType pack msg = some m) ∨
      ∃ frame p, Event.reply frame ∈ es ∧ StruCytPacket.ofFrame frame = some (some p) ∧
        CenterServerProcessor.execute p = some m := by
  obtain ⟨e, he, hm⟩ := List.mem_flatMap.mp h
  cases e with
  | connect hashKey userSock => simp [roomEvents] at hm
  | disconnect hashKey => simp [roomEvents] at hm
  | verify frame db => simp [roomEvents] at hm
  | request list =>
    obtain ⟨m', hm', hm⟩ := List.mem_map.mp hm
    cases hm
    obtain ⟨u, hu, hm⟩ := List.mem_filterMap.mp hm'
    rcases hus : gets list with _ | us
    · rw [hus] at hu
      cases hu
    rw [hus] at hu
    obtain _ | ⟨pack, cyt, msg⟩ := u
    · cases hm
    · exact .inl ⟨pack, cyt, msg, ⟨list, us, he, hus, hu⟩, hm⟩
  | reply frame =>
    obtain ⟨m', hm', hm⟩ := List.mem_map.mp hm
    cases hm
    obtain ⟨p, hp, hm⟩ := Option.bind_eq_some_iff.mp (Option.mem_toList.mp hm')
    rcases hf : StruCytPacket.ofFrame frame with _ | q
    · rw [hf] at hp
      cases hp
    · rw [hf] at hp
      exact .inr ⟨frame, p, he, hf.trans (congrArg some hp), hm⟩

/-- The room server has done what the events were, and each frame for it answers one of a user. -/
structure Inv (es : List Event) (s : Servers) : Prop where
  room : Server.run .new (es.flatMap roomEvents) = some s.room
  replies {frame : List Byte} : frame ∈ s.replies → Answered es frame
  replied {frame : List Byte} : .reply frame ∈ es → Answered es frame

/-- A frame for the center server is one of a user. -/
theorem Inv.requests (h : Inv es s) {frame : List Byte} (hf : frame ∈ s.requests) :
    ∃ pack cyt msg, Came es pack cyt msg ∧ frameOf pack = frame := by
  obtain ⟨x, hx, hframe⟩ := List.mem_filterMap.mp hf
  have hc : x.isCenter = true := by
    cases x with
    | center data len => rfl
    | _ => cases hframe
  obtain ⟨m, hm, hpasses⟩ := Server.passedOn_run h.room hx hc
  rcases mem_roomEvents hm with ⟨pack, cyt, msg, hcame, hcommand⟩ | ⟨answer, p, -, -, hexecute⟩
  · rw [GateServerProcessor.passesOn_getCommand hcommand hpasses] at hframe
    exact ⟨pack, cyt, msg, hcame, Option.some.inj hframe⟩
  · exact absurd hpasses (CenterServerProcessor.not_passesOn hexecute x)

/-- What a step does. -/
theorem step_cases (h : step s e = some s') :
    (∃ room, (roomEvents e).foldlM Server.step s.room = some room ∧ s' = { s with room := room } ∧
      ∀ frame, e = .reply frame → frame ∈ s.replies) ∨
    ∃ frame db sent, e = .verify frame db ∧ frame ∈ s.requests ∧ CenterServer.dealWithData db frame = some sent ∧
      s' = { s with replies := s.replies ++ sent.toList } := by
  have hroom {evs : List Server.Event} (h : s.onRoom evs = some s') :
      ∃ room, evs.foldlM Server.step s.room = some room ∧ s' = { s with room := room } := by
    obtain ⟨room, hr, he⟩ := Option.bind_eq_some_iff.mp h
    cases he
    exact ⟨room, hr, rfl⟩
  cases e with
  | connect hashKey userSock =>
    obtain ⟨room, hr, he⟩ := hroom h
    exact .inl ⟨room, hr, he, fun _ h => by cases h⟩
  | disconnect hashKey =>
    obtain ⟨room, hr, he⟩ := hroom h
    exact .inl ⟨room, hr, he, fun _ h => by cases h⟩
  | request list =>
    obtain ⟨us, hus, h⟩ := Option.bind_eq_some_iff.mp h
    obtain ⟨room, hr, he⟩ := hroom h
    refine .inl ⟨room, ?_, he, fun _ h => by cases h⟩
    rw [roomEvents, hus]
    exact hr
  | verify frame db =>
    rw [step] at h
    split at h
    case isFalse => cases h
    obtain ⟨sent, hsent, he⟩ := Option.bind_eq_some_iff.mp h
    cases he
    exact .inr ⟨frame, db, sent, rfl, ‹_›, hsent, rfl⟩
  | reply frame =>
    rw [step] at h
    split at h
    case isFalse => cases h
    obtain ⟨p, hp, h⟩ := Option.bind_eq_some_iff.mp h
    obtain ⟨room, hr, he⟩ := hroom h
    refine .inl ⟨room, ?_, he, fun _ h => ?_⟩
    · rw [roomEvents, hp]
      exact hr
    · cases h
      assumption

theorem Inv.step (hi : Inv es s) (h : Servers.step s e = some s') : Inv (es ++ [e]) s' := by
  have hmono : es ⊆ es ++ [e] := List.subset_append_left es [e]
  have hself : e ∈ es ++ [e] := List.mem_append_right _ List.mem_cons_self
  obtain ⟨room, hr, rfl, hreply⟩ | ⟨frame, db, sent, rfl, hf, hsent, rfl⟩ := step_cases h
  · refine ⟨?_, fun hf => (hi.replies hf).mono hmono, fun {frame} hf => ?_⟩
    · rw [List.flatMap_append, List.flatMap_singleton, Server.run_append hi.room]
      exact hr
    · rcases List.mem_append.mp hf with hf | hf
      · exact (hi.replied hf).mono hmono
      · exact (hi.replies (hreply frame (List.mem_singleton.mp hf).symm)).mono hmono
  · refine ⟨?_, fun hx => ?_, fun hx => ?_⟩
    · rw [List.flatMap_append, List.flatMap_singleton]
      exact (congrArg _ (List.append_nil _)).trans hi.room
    · rcases List.mem_append.mp hx with hx | hx
      · exact (hi.replies hx).mono hmono
      · obtain ⟨pack, cyt, msg, hcame, hframe⟩ := hi.requests hf
        refine ⟨frame, db, hself, ⟨pack, cyt, msg, hcame.mono hmono, hframe⟩, ?_⟩
        rw [hsent, Option.mem_toList.mp hx]
    · rcases List.mem_append.mp hx with hx | hx
      · exact (hi.replied hx).mono hmono
      · cases List.mem_singleton.mp hx

theorem inv_run (h : run es = some s) : Inv es s := by
  have hnew : Inv [] new := ⟨rfl, @fun _ hf => absurd hf List.not_mem_nil, @fun _ hf => absurd hf List.not_mem_nil⟩
  exact history_inv hnew (fun _ _ _ _ _ hi hs => hi.step hs) h

/-- The user `u` has asked for the room `ρ`, with the key `h` on the gate `g`. -/
def Requested (es : List Event) (ρ u g h : Int) : Prop :=
  ∃ pack cyt msg, Came es pack cyt msg ∧ cyt.msgType = 6001 ∧ msg.int 1 = u ∧ msg.int 2 = ρ ∧
    pack.gsHashkey.toInt = g ∧ pack.userHashkey.toInt = h

/-- A packet of a user has gone on to the center server, and is there a login request of `u` for `ρ` with the
password that the data base has of `u`. -/
def Verified (es : List Event) (ρ u : Int) : Prop :=
  ∃ pack cyt msg db p, Came es pack cyt msg ∧ Event.verify (frameOf pack) db ∈ es ∧
    StruCytPacket.ofFrame (frameOf pack) = some (some p) ∧ CenterServer.PswMatches db p u ρ

/-- Whoever is in a room has asked for it over the connection that he is on, and the center server has found the
password of the data base in a request for him and that room. -/
theorem online_verified [Runtime.Documented] (h : run es = some s) {ρ u g k : Int} {room : ChatRoom}
    (hroom : room ∈ s.room.content ρ) (hu : OnlineAs room u g k) : Requested es ρ u g k ∧ Verified es ρ u := by
  have hi := inv_run h
  obtain ⟨⟨m, hm, hρ, tmpPackage, rq, rfl, huser, hg, hk⟩, m', hm', hρ', rs, rfl, hres, hlet⟩ :=
    (Server.known_run hi.room).online hroom hu
  constructor
  · rcases mem_roomEvents hm with ⟨pack, cyt, msg, hcame, hcommand⟩ | ⟨frame, p, -, -, hexecute⟩
    · obtain ⟨hid, rfl, hmsg, hmsg'⟩ := GateServerProcessor.getCommand_login hcommand
      exact ⟨_, cyt, msg, hcame, hid, hmsg.symm.trans huser, hmsg'.symm.trans hρ, hg, hk⟩
    · exact absurd ⟨tmpPackage, .inl ⟨rq, rfl⟩, rfl⟩ (CenterServerProcessor.not_passesOn hexecute _)
  · rcases mem_roomEvents hm' with ⟨pack, cyt, msg, -, hcommand⟩ | ⟨answer, q, hreply, hq, hexecute⟩
    · exact absurd hcommand (GateServerProcessor.getCommand_ne_reply (.inl ⟨rs, rfl⟩))
    · obtain ⟨frame, db, hverify, ⟨pack, cyt, msg, hcame, rfl⟩, hdeal⟩ := hi.replied hreply
      obtain ⟨p, hp, ⟨rs', hexecute', hpsw⟩ | ⟨rs', hexecute', -⟩⟩ := CenterServer.dealWithData_reply hdeal hq
      · cases hexecute.symm.trans hexecute'
        exact ⟨pack, cyt, msg, db, p, hcame, hverify, hp, hlet ▸ hρ' ▸ hpsw hres⟩
      · cases hexecute.symm.trans hexecute'

end

/-- The user 1 asks for the room 2, with the password "A". -/
def loginPacket : StruCytPacket :=
  messagePacket struUserLoginRQ (setAll [.enum .userLoginRQ, .int 1, .int 2, .str [65], .str [98]] []) 6001

/-- The list of the gate 0 with a packet of the user with the key 9. -/
def listOf (packet : StruCytPacket) : CircleList :=
  ((((CircleList.new 0).initBuffer 1).addBuffer (wrapped 9 packet).wire (wrapped 9 packet).wire.length).map
    Prod.snd).getD (.new 0)

/-- Everyone has the password "a", and a balance of 500, with which every gift is refused. -/
def oneRow : CenterServer.Procedures where
  userLogin _ := some ⟨fun _ => some [97], fun _ => some 5⟩
  giveGift _ _ _ _ := some fun column => some (if column = 1 then 500 else 0)

/-- The packet comes to the room server, goes on to the center server, and is answered. -/
def answered (packet : StruCytPacket) : List Event :=
  [.request (listOf packet), .verify packet.wire oneRow,
    .reply (((CenterServer.dealWithData oneRow packet.wire).getD none).getD [])]

def firstEntry : List Event := .connect 0 4 :: answered loginPacket

theorem online_verified_firstEntry : ∃ s room, run firstEntry = some s ∧ room ∈ s.room.content 2 ∧
    OnlineAs room 1 0 9 ∧ Requested firstEntry 2 1 0 9 ∧ Verified firstEntry 2 1 := by
  have hrun : ∃ s, s ∈ run firstEntry ∧ ∃ room, room ∈ s.room.content 2 ∧
      ∃ p, p ∈ room.userList.userInfoList.ptr 1 ∧ (room.records p).gsHashkeyUserOn = 0 ∧
        (room.records p).userHashKey = 9 := by
    decide +kernel
  obtain ⟨s, hs, room, hroom, p, hp, hkeys⟩ := hrun
  have hu : OnlineAs room 1 0 9 := ⟨p, hp, hkeys⟩
  exact ⟨s, room, hs, hroom, hu, online_verified hs hroom hu⟩

/-- For a gift that users are told of, a packet of a user has gone on to the center server, and is there the request
for that gift; the procedure was called for it, and the users are told the columns of its row, each under the name of
the other. -/
theorem gift_called [Runtime] [Runtime.Documented] (h : run es = some s) {x : Sent} (hx : x ∈ s.room.sent)
    {rs : StruUserGiveGiftRS} (hpack : x.pack = some (.userGiveGiftRS rs)) :
    ∃ pack cyt msg db p, Came es pack cyt msg ∧ Event.verify (frameOf pack) db ∈ es ∧
      StruCytPacket.ofFrame (frameOf pack) = some (some p) ∧
      ∃ senderRedD result, CenterServer.GiftCalled db p rs senderRedD result := by
  have hi := inv_run h
  obtain ⟨m, hm, hsends⟩ := Server.sent_run hi.room hx hpack
  obtain rfl := hsends.of_gift
  rcases mem_roomEvents hm with ⟨pack, cyt, msg, -, hcommand⟩ | ⟨answer, q, hreply, hq, hexecute⟩
  · exact absurd hcommand (GateServerProcessor.getCommand_ne_reply (.inr ⟨rs, rfl⟩))
  · obtain ⟨frame, db, hverify, ⟨pack, cyt, msg, hcame, rfl⟩, hdeal⟩ := hi.replied hreply
    obtain ⟨p, hp, ⟨rs', hexecute', -⟩ | ⟨rs', hexecute', hcalled⟩⟩ := CenterServer.dealWithData_reply hdeal hq
    · cases hexecute.symm.trans hexecute'
    · cases hexecute.symm.trans hexecute'
      exact ⟨pack, cyt, msg, db, p, hcame, hverify, hp, hcalled⟩

/-- The user 1 gives himself a gift. -/
def giftPacket : StruCytPacket :=
  messagePacket struUserGiveGiftRQ (setAll [.enum .userGiveGiftRQ, .int 1, .int 2, .str [82], .int 1, .int 3] []) 6012

def refusedGift : List Event := firstEntry ++ answered giftPacket

/-- The room is told of a gift that was refused. -/
theorem gift_called_refused : ∃ s gs x rs, run refusedGift = some s ∧ x ∈ s.room.sent ∧
    x = .gate gs (.userGiveGiftRS rs) .userGiveGiftRS 9 ∧ rs.result = 500 ∧ rs.senderRedD = 0 ∧
    ∃ pack cyt msg db p, Came refusedGift pack cyt msg ∧ Event.verify (frameOf pack) db ∈ refusedGift ∧
      StruCytPacket.ofFrame (frameOf pack) = some (some p) ∧
      ∃ senderRedD result, CenterServer.GiftCalled db p rs senderRedD result := by
  have hrun : ∃ s, s ∈ run refusedGift ∧
      .gate ⟨4, 0⟩ (.userGiveGiftRS ⟨.userGiveGiftRS, 1, 2, 500, [82], 1, 0⟩) .userGiveGiftRS 9 ∈ s.room.sent := by
    decide +kernel
  obtain ⟨s, hs, hx⟩ := hrun
  exact ⟨s, _, _, _, hs, hx, rfl, rfl, rfl, gift_called hs hx rfl⟩

/-- A text that users are sent has come in a packet of a user, with the same sender, room, text and addressee. -/
theorem text_came [Runtime] (h : run es = some s) {x : Sent} (hx : x ∈ s.room.sent) {text : StruUserMsgTextID}
    (hpack : x.pack = some (.userMsgTextID text)) :
    ∃ pack cyt msg, Came es pack cyt msg ∧ cyt.msgType = 6009 ∧
      text = ⟨.userMsgTextID, msg.int 1, msg.int 2, msg.str 3, msg.int 4 ≠ 0, msg.int 5⟩ := by
  have hi := inv_run h
  obtain ⟨m, hm, hsends⟩ := Server.sent_run hi.room hx hpack
  obtain ⟨rq, rfl, htext⟩ := hsends.of_text
  rcases mem_roomEvents hm with ⟨pack, cyt, msg, hcame, hcommand⟩ | ⟨answer, q, -, -, hexecute⟩
  · obtain ⟨hid, rfl⟩ := GateServerProcessor.getCommand_text hcommand
    exact ⟨pack, cyt, msg, hcame, hid, htext⟩
  · unfold CenterServerProcessor.execute at hexecute
    repeat' split at hexecute
    case isFalse => cases hexecute
    all_goals
      obtain ⟨msg, -, h⟩ := Option.map_eq_some_iff.mp hexecute
      cases h

/-- The user 1 says "hi". -/
def textPacket : StruCytPacket :=
  messagePacket struUserMsgRQ (setAll [.enum .userMsgRQ, .int 1, .int 2, .str [104, 105], .bool false, .int 0] []) 6009

def firstText : List Event := firstEntry ++ [.request (listOf textPacket)]

theorem text_came_firstText : ∃ s x text, run firstText = some s ∧ x ∈ s.room.sent ∧
    x.pack = some (.userMsgTextID text) ∧ ∃ pack cyt msg, Came firstText pack cyt msg ∧ cyt.msgType = 6009 ∧
      text = ⟨.userMsgTextID, msg.int 1, msg.int 2, msg.str 3, msg.int 4 ≠ 0, msg.int 5⟩ := by
  have hrun : ∃ s, s ∈ run firstText ∧ ∃ x, x ∈ s.room.sent ∧
      x.pack = some (.userMsgTextID ⟨.userMsgTextID, 1, 2, [104, 105], false, 0⟩) := by
    decide +kernel
  obtain ⟨s, hs, x, hx, hpack⟩ := hrun
  exact ⟨s, x, _, hs, hx, hpack, text_came hs hx hpack⟩

end Servers

end Miku
