import MikuServer.Proof.MessageSend
import MikuServer.Proof.PackCodec
import MikuServer.Proof.RoomServerProcessor

/-!
# Messages of a room server on their way to the users

Each message is sent by `SendDataToGS` as a packet in a packet
(`UserPack.sendDataToGS_eq`), and the gate writes the inner one to the socket of
the user that the outer one names. However the connection cuts the bytes, the
users get the messages in the order in which they were sent (`deliversInOrder`).
-/

namespace Miku

open Protobuf WireFormat Fields GateServer GateServer.RoomServerProcessor

section

variable [Runtime] [Runtime.Documented]

/-- A call of `SendDataToGS`, for a message that fits the arrays with both packets. -/
structure UserPack where
  pack : Pack
  msgId : CInt
  userHashkey : CInt
  inRange : pack.InRange
  size_le : pack.byteSize + 36 ≤ 0x2000

namespace UserPack

variable (u : UserPack)

/-- What the user gets. -/
def frame : StruCytPacket := messagePacket u.pack.type u.pack.message u.msgId

/-- What the gate gets. -/
def packet : GateRoomServerPack := .wrap u.userHashkey u.frame.wire u.frame.wire.length

/-- What the user gets, if there is one. -/
def toUser (reg : CInt → Option Int) : Delivery :=
  match reg u.userHashkey with
  | some sock => .write sock u.frame.wire
  | none => .notFound u.userHashkey

theorem message_fits : u.pack.type.Fits 64 u.pack.message ∧ u.pack.type.isInitialized u.pack.message = true ∧
    u.pack.type.byteSize u.pack.message + 36 ≤ 0x2000 := by
  obtain ⟨h1, h2, h3⟩ := Pack.message_ok u.inRange
  exact ⟨h1, h2, h3 ▸ u.size_le⟩

theorem frame_ok : u.frame.WellFormed ∧ u.frame.wire.length = u.pack.type.byteSize u.pack.message + 18 := by
  obtain ⟨h, -, hs⟩ := u.message_fits
  exact messagePacket_ok _ h (by omega)

theorem packet_ok : u.packet.WellFormed ∧ u.packet.wire.length = u.pack.type.byteSize u.pack.message + 36 ∧
    u.packet.dataMsg = u.frame.wire := by
  obtain ⟨-, -, hs⟩ := u.message_fits
  obtain ⟨-, hlen⟩ := u.frame_ok
  obtain ⟨h1, h2⟩ := GateRoomServerPack.wrap_wf (h := u.userHashkey) (show 0 < u.frame.wire.length by omega)
    (le_refl u.frame.wire.length) (by omega)
  refine ⟨h1, by rw [packet, h2]; omega, ?_⟩
  rw [packet, GateRoomServerPack.wrap_dataMsg (by omega), List.take_length]

/-- The packet is written over the message. -/
theorem sendDataToGS_eq :
    sendDataToGS u.pack.type u.pack.message u.msgId u.userHashkey = some (some u.packet.wire) := by
  obtain ⟨hfit, -, hs⟩ := u.message_fits
  obtain ⟨hw, hlen⟩ := u.frame_ok
  obtain ⟨hpw, hplen, -⟩ := u.packet_ok
  have hzero : (List.replicate 0x2000 (0 : Byte)).length = 0x2000 := List.length_replicate
  have hser := MessageType.length_serialize hfit (by omega)
  have hsize : u.frame.byteSize.toInt = u.frame.wire.length :=
    Fields.toInt_byteSize_of_wf hw (show (u.pack.type.serialize u.pack.message).length + 18 < 2 ^ 31 by omega)
  have hpack : packMessage u.pack.type u.pack.message u.msgId (List.replicate 0x2000 0)
      (fun _ => List.replicate 0x2000 0) = _ :=
    packMessage_eq hfit (by omega) (by omega) rfl (by omega)
  have hwrap (x : List Byte) : GateRoomServerPack.wrap u.userHashkey (u.frame.wire ++ x) u.frame.wire.length = u.packet := by
    rw [← GateRoomServerPack.wrap_take (by omega), List.take_left, packet]
  have hwrite := GateRoomServerPack.serialize_ok hpw (show u.packet.wire.length ≤
      (u.pack.type.serialize u.pack.message ++
        (List.replicate 0x2000 0).drop (u.pack.type.byteSize u.pack.message)).length by
    rw [List.length_append, List.length_drop, hzero, hser]
    omega)
  rw [frame] at hsize hwrap
  simp only [sendDataToGS, hpack, Option.bind_eq_bind, Option.bind_some, hsize, hwrap, hwrite, if_true,
    GateRoomServerPack.toInt_byteSize hpw (by omega), Int.toNat_natCast, List.take_left]

/-- The gate takes the packet apart. -/
theorem delivery_packet (reg : CInt → Option Int) : delivery reg u.packet = u.toUser reg := by
  obtain ⟨-, -, hmsg⟩ := u.packet_ok
  rw [delivery, hmsg]
  rfl

end UserPack

theorem frames_packets (sends : List UserPack) : Frames (sends.map UserPack.packet) := by
  unfold Frames
  rw [List.forall_mem_map]
  intro u _
  obtain ⟨h1, h2, -⟩ := u.packet_ok
  have := u.message_fits.2.2
  exact ⟨h1, by omega, by omega⟩

/-- The users get the messages in the order in which they were sent, all of them once there is
nothing left to read, and each can read its message. -/
structure DeliversInOrder (reg : CInt → Option Int) (sends : List UserPack) (t : State) : Prop where
  inOrder : t.1.delivered <+: sends.map fun u => u.toUser reg
  complete : t.2 = [] → t.1.circleList.usingSize = 0 → t.1.delivered = sends.map fun u => u.toUser reg
  reads : ∀ u ∈ sends, SendsFrame u.pack.type u.pack.message u.msgId (some (some u.frame.wire))

/-- `written` is what `SendDataToGS` writes, and the connection cuts it into `chunks`. Whatever the
order in which they are queued and the thread takes its turns, the users get their messages. -/
theorem deliversInOrder (reg : CInt → Option Int) {n : Nat} (hn : 0 < n) {mem : List Byte}
    (hm : mem.length = maxDealBuffLen) {sends : List UserPack} {written chunks : List (List Byte)}
    (hw : List.Forall₂ (fun u w => sendDataToGS u.pack.type u.pack.message u.msgId u.userHashkey = some (some w)) sends
      written)
    (hc : ∀ c ∈ chunks, 1 ≤ c.length ∧ c.length ≤ 0x2000) (hcut : chunks.flatten = written.flatten)
    (hR : ∀ c ∈ chunks, Repeats c) {t : State}
    (h : Relation.ReflTransGen (Step reg (sends.map UserPack.packet)) (init n mem, chunks) t) :
    DeliversInOrder reg sends t := by
  have hf := frames_packets sends
  have hwritten : written = (sends.map UserPack.packet).map GateRoomServerPack.wire := by
    clear hcut hf h
    induction hw with
    | nil => rfl
    | @cons u w sends written hu _ ih =>
      rw [u.sendDataToGS_eq] at hu
      cases hu
      rw [ih]
      rfl
  have hdeliver : (sends.map UserPack.packet).map (delivery reg) = sends.map fun u => u.toUser reg := by
    rw [List.map_map]
    exact List.map_congr_left fun u _ => u.delivery_packet reg
  have hstart : Reached reg ((sends.map UserPack.packet).map GateRoomServerPack.wire) n (init n mem, chunks) :=
    init_reached hn hm (fun c h => (hc c h).2) hR (by rw [hcut, hwritten])
  have hgood := (reaches_inv (P := Reached reg _ n) (fun _ _ hr hs => step_keep hf hr hs) hstart h).good hf
  refine ⟨hdeliver ▸ hgood.inOrder, fun h1 h2 => hdeliver ▸ hgood.complete h1 h2, fun u _ => ?_⟩
  obtain ⟨h1, h2, h3⟩ := u.message_fits
  exact sendsFrame_wire _ h1 h2 (by omega)

end

/-- The user 1 leaves the room 2, and the users with the keys 7 and 8 are told. -/
def exitPack (userHashkey : CInt) : UserPack where
  pack := .userExitRoomID ⟨.userExitRoomID, 1, 2⟩
  msgId := 6024
  userHashkey := userHashkey
  inRange := by
    refine ⟨?_, fun _ he => absurd he List.not_mem_nil⟩
    simp only [Pack.values, List.forall_mem_cons, FieldValue.InRange]
    simp
  size_le := by decide

/-- The second packet, cut in the middle, and the first one before it. -/
def twoExits : List (List Byte) :=
  [(exitPack 7).packet.wire ++ (exitPack 8).packet.wire.take 20, (exitPack 8).packet.wire.drop 20]

theorem deliversInOrder_twoExits :
    ∃ t, t.2 = [] ∧ DeliversInOrder (fun k => if k = 7 then some 5 else none) [exitPack 7, exitPack 8] t := by
  have hsize : ∀ c ∈ twoExits, 1 ≤ c.length ∧ c.length ≤ 0x1000 := by decide
  have hle : ∀ c ∈ twoExits, c.length ≤ 0x2000 := fun c hc => Nat.le_trans (hsize c hc).2 (by decide)
  obtain ⟨s, hs⟩ := recv_all (fun k => if k = 7 then some 5 else none) ([exitPack 7, exitPack 8].map UserPack.packet)
    (s := init 2 (List.replicate maxDealBuffLen 0)) (CircleList.initBuffer_holds (CircleList.new 0) (by decide)) hle
    (by decide)
  exact ⟨_, rfl, deliversInOrder _ (by decide) List.length_replicate
    (.cons (exitPack 7).sendDataToGS_eq (.cons (exitPack 8).sendDataToGS_eq .nil)) (fun c hc => ⟨(hsize c hc).1, hle c hc⟩)
    (by decide) (fun c hc => repeats_of_length_le (hsize c hc).2) hs⟩

end Miku
