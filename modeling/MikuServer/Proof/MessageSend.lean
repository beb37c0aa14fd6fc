import MikuServer.Impl.MessageSend
import MikuServer.Proof.Frames
import MikuServer.Proof.MessageCodec

/-!
# What the servers send is what is parsed

A message that fits the arrays with its packet is sent as one frame
(`packMessage_eq`), from which whoever reads it gets the message
(`message_of_packet`); otherwise a byte is written past an array
(`packMessage_none`).
-/

namespace Miku

open Protobuf WireFormat Fields

section

variable [Runtime]

/-- A message in a packet. -/
def messagePacket (t : MessageType) (m : Message) (msgId : CInt) : StruCytPacket :=
  ⟨packHead, 0, cint (t.byteSize m), msgId, t.serialize m, packTail⟩

/-- The bytes are one frame, and whoever reads it gets the message. -/
def SendsFrame (t : MessageType) (m : Message) (msgId : CInt) (sent : Option (Option (List Byte))) : Prop :=
  ∃ (frame : List Byte) (p : StruCytPacket), sent = some (some frame) ∧ frame.length = t.byteSize m + 18 ∧
    (∀ (rest : List Byte) (n : CInt), frame.length ≤ n.toInt →
      (StruCytPacket.fresh.parseFromArray (frame ++ rest) n).within (frame ++ rest).length = some (true, p)) ∧
    p.msgType = msgId ∧ t.parseFromArray (cStr p.msgData) p.msgLen = some m

/-- A byte is written behind the end of an array. -/
def WritesBehind (sent : Option (Option (List Byte))) : Prop := sent = none

variable {t : MessageType} {m : Message} {msgId : CInt}

/-- What is sent where there is an array of `size` bytes. -/
theorem sendsFrame_or {size : Nat} {sent : Option (Option (List Byte))}
    (hfit : t.byteSize m + 18 ≤ size → sent = some (some (messagePacket t m msgId).wire))
    (hbig : size < t.byteSize m + 18 → sent = none)
    (hwire : SendsFrame t m msgId (some (some (messagePacket t m msgId).wire))) :
    (SendsFrame t m msgId sent ↔ t.byteSize m + 18 ≤ size) ∧ (WritesBehind sent ↔ size < t.byteSize m + 18) := by
  rcases Nat.lt_or_ge size (t.byteSize m + 18) with hlt | hle
  · have hnone : ¬ SendsFrame t m msgId none := fun ⟨_, _, he, _⟩ => by cases he
    rw [hbig hlt]
    exact ⟨iff_of_false hnone (Nat.not_le_of_lt hlt), iff_of_true rfl hlt⟩
  · have hsome : ¬ WritesBehind (some (some (messagePacket t m msgId).wire)) := fun he => by cases he
    rw [hfit hle]
    exact ⟨iff_of_true hwire hle, iff_of_false hsome (Nat.not_lt_of_le hle)⟩

theorem setData_serialize (x : List Byte) : setData [] (t.serialize m ++ x) (t.serialize m).length = t.serialize m := by
  unfold setData
  split
  · rw [Int.toNat_natCast, List.take_left]
  · exact (List.length_eq_zero_iff.mp (by omega)).symm

variable [Runtime.Documented]

theorem messagePacket_ok (msgId : CInt) (h : t.Fits 64 m) (hs : t.byteSize m + 18 < 2 ^ 31) :
    (messagePacket t m msgId).WellFormed ∧ (messagePacket t m msgId).wire.length = t.byteSize m + 18 := by
  have hlen := MessageType.length_serialize h (by omega)
  have hw : (messagePacket t m msgId).WellFormed := by
    refine ⟨rfl, rfl, ?_⟩
    change (cint (t.byteSize m)).toInt = ((t.serialize m).length : Int)
    rw [toInt_cint (by omega) (by omega), hlen]
  exact ⟨hw, by rw [StruCytPacket.length_wire hw, ← hlen]; rfl⟩

/-- Who reads the packet gets the message. -/
theorem message_of_packet (h : t.Fits 64 m) (hi : t.isInitialized m = true) (hs : t.byteSize m + 18 < 2 ^ 31) :
    t.parseFromArray (cStr (messagePacket t m msgId).msgData) (messagePacket t m msgId).msgLen = some m := by
  have hlen := MessageType.length_serialize h (by omega)
  change t.parseFromArray (t.serialize m ++ [0]) (cint (t.byteSize m)) = _
  rw [MessageType.parseFromArray_eq_some, toInt_cint (by omega) (by omega), Int.toNat_natCast, ← hlen, List.take_left]
  exact ⟨MessageType.merge_serialize h (by omega), hi⟩

variable {msgDataBuff : List Byte} {sendBuff : List Byte → List Byte}

/-- The message is written first. -/
theorem packMessage_data (h : t.Fits 64 m) (hs : t.byteSize m + 18 < 2 ^ 31)
    (hd : t.byteSize m ≤ msgDataBuff.length) :
    packMessage t m msgId msgDataBuff sendBuff =
      ((messagePacket t m msgId).serializeToArray
          (sendBuff (t.serialize m ++ msgDataBuff.drop (t.byteSize m))) (messagePacket t m msgId).byteSize).map
        fun r => if r.1 then some ⟨t.serialize m ++ msgDataBuff.drop (t.byteSize m), r.2,
          (messagePacket t m msgId).byteSize⟩ else none := by
  have hlen := MessageType.length_serialize h (by omega)
  have hsize : (cint (t.byteSize m)).toInt = t.byteSize m := toInt_cint (by omega) (by omega)
  have hser : t.serializeToArray m msgDataBuff (cint (t.byteSize m)) =
      some (true, t.serialize m ++ msgDataBuff.drop (t.byteSize m)) := by
    rw [MessageType.serializeToArray, Runtime.Documented.serializeToArray_eq, if_neg (by omega), memcpy_front rfl (by omega) (Nat.le_refl _), List.take_length,
      hlen, Option.map_some]
  have hset : setData [] (t.serialize m ++ msgDataBuff.drop (t.byteSize m)) (t.byteSize m) = t.serialize m := by
    have := setData_serialize (t := t) (m := m) (msgDataBuff.drop (t.byteSize m))
    rwa [hlen] at this
  simp only [packMessage, hser, Option.bind_eq_bind, Option.bind_some, if_true, hsize, hset]
  exact (Option.map_eq_bind ..).symm

theorem packMessage_eq (h : t.Fits 64 m) (hs : t.byteSize m + 18 < 2 ^ 31) (hd : t.byteSize m ≤ msgDataBuff.length)
    {buff : List Byte} (hb : sendBuff (t.serialize m ++ msgDataBuff.drop (t.byteSize m)) = buff)
    (hl : t.byteSize m + 18 ≤ buff.length) :
    packMessage t m msgId msgDataBuff sendBuff =
      some (some ⟨t.serialize m ++ msgDataBuff.drop (t.byteSize m),
        (messagePacket t m msgId).wire ++ buff.drop (t.byteSize m + 18), (messagePacket t m msgId).byteSize⟩) := by
  obtain ⟨hw, hlen⟩ := messagePacket_ok msgId h hs
  have hser : (messagePacket t m msgId).serializeToArray buff (messagePacket t m msgId).byteSize =
      some (true, (messagePacket t m msgId).wire ++ buff.drop (messagePacket t m msgId).wire.length) :=
    Fields.serializeToArray_eq hw.head hw.tail (show (messagePacket t m msgId).wire.length ≤ _ by omega) le_rfl
  rw [packMessage_data h hs hd, hb, hser, hlen]
  rfl

/-- The packet is larger than its array. -/
theorem packMessage_none (h : t.Fits 64 m) (hs : t.byteSize m + 18 < 2 ^ 31)
    (hl : (sendBuff (t.serialize m ++ msgDataBuff.drop (t.byteSize m))).length < t.byteSize m + 18) :
    packMessage t m msgId msgDataBuff sendBuff = none := by
  have hlen := MessageType.length_serialize h (by omega)
  have hsize : (cint (t.byteSize m)).toInt = t.byteSize m := toInt_cint (by omega) (by omega)
  rcases Nat.lt_or_ge msgDataBuff.length (t.byteSize m) with hd | hd
  · have hser : t.serializeToArray m msgDataBuff (cint (t.byteSize m)) = none := by
      rw [MessageType.serializeToArray, Runtime.Documented.serializeToArray_eq, if_neg (by omega)]
      have hm := @memcpy_eq_none msgDataBuff (t.serialize m) 0 (t.serialize m).length (by omega)
      exact congrArg (Option.map fun data => (true, data)) hm
    simp only [packMessage, hser, Option.bind_eq_bind, Option.bind_none]
  · have hser : (messagePacket t m msgId).serializeToArray (sendBuff (t.serialize m ++ msgDataBuff.drop (t.byteSize m)))
        (messagePacket t m msgId).byteSize = none := by
      refine Fields.serializeToArray_none ?_ le_rfl
      change _ < (t.serialize m).length + 18
      rw [hlen]
      exact hl
    rw [packMessage_data h hs hd, hser]
    rfl

/-- What is sent of the packet. -/
theorem sent_messagePacket (h : t.Fits 64 m) (hs : t.byteSize m + 18 < 2 ^ 31) (data x : List Byte) :
    Packed.sent ⟨data, (messagePacket t m msgId).wire ++ x, (messagePacket t m msgId).byteSize⟩ =
      (messagePacket t m msgId).wire := by
  obtain ⟨hw, hlen⟩ := messagePacket_ok msgId h hs
  have hsize : (messagePacket t m msgId).byteSize.toInt = (messagePacket t m msgId).wire.length :=
    Fields.toInt_byteSize_of_wf hw (show (t.serialize m).length + 18 < 2 ^ 31 by
      rw [MessageType.length_serialize h (by omega)]; exact hs)
  rw [Packed.sent, hsize, Int.toNat_natCast, List.take_left]

theorem sendDataToRS_eq (h : t.Fits 64 m) (hs : t.byteSize m + 18 ≤ 0x2000) (msgId : CInt) :
    sendDataToRS t m msgId = some (some (messagePacket t m msgId).wire) := by
  have hzero : (List.replicate 0x2000 (0 : Byte)).length = 0x2000 := List.length_replicate
  rw [sendDataToRS, packMessage_eq h (by omega) (by rw [hzero]; omega) rfl (by rw [hzero]; omega), Option.map_some,
    Option.map_some, sent_messagePacket h (by omega)]

theorem sendDataToRS_none (h : t.Fits 64 m) (hs : t.byteSize m + 18 < 2 ^ 31) (hbig : 0x2000 < t.byteSize m + 18)
    (msgId : CInt) : sendDataToRS t m msgId = none := by
  rw [sendDataToRS, packMessage_none h hs (by rw [List.length_replicate]; omega)]
  rfl

theorem length_data (h : t.Fits 64 m) (hs : t.byteSize m + 18 < 2 ^ 31) (k : Nat) :
    (t.serialize m ++ (List.replicate k (0 : Byte)).drop (t.byteSize m)).length = max k (t.byteSize m) := by
  rw [List.length_append, List.length_drop, List.length_replicate, MessageType.length_serialize h (by omega)]
  omega

theorem sendPackage_eq (h : t.Fits 64 m) (hs : t.byteSize m + 18 ≤ 0x1000) (msgId : CInt) :
    sendPackage t m msgId = some (some (messagePacket t m msgId).wire) := by
  have hzero : (List.replicate 0x1000 (0 : Byte)).length = 0x1000 := List.length_replicate
  rw [sendPackage, packMessage_eq h (by omega) (by rw [hzero]; omega) rfl (by rw [length_data h (by omega)]; omega),
    Option.map_some, Option.map_some, sent_messagePacket h (by omega)]

theorem sendPackage_none (h : t.Fits 64 m) (hs : t.byteSize m + 18 < 2 ^ 31) (hbig : 0x1000 < t.byteSize m + 18)
    (msgId : CInt) : sendPackage t m msgId = none := by
  rw [sendPackage, packMessage_none h hs (by rw [length_data h hs]; omega)]
  rfl

theorem sendsFrame_wire (msgId : CInt) (h : t.Fits 64 m) (hi : t.isInitialized m = true)
    (hs : t.byteSize m + 18 < 2 ^ 31) :
    SendsFrame t m msgId (some (some (messagePacket t m msgId).wire)) := by
  obtain ⟨hw, hlen⟩ := messagePacket_ok msgId h hs
  exact ⟨_, messagePacket t m msgId, rfl, hlen, fun rest n hn => StruCytPacket.within_wire .fresh hw rest hn, rfl,
    message_of_packet h hi hs⟩

/-- A message is sent as a frame from which it is read exactly if it fits the array with the packet:
that of the requests to the director server, or that of the center server's replies. A byte of a longer one is
written behind the end of an array. -/
theorem sendsFrame_iff (h : t.Fits 64 m) (hi : t.isInitialized m = true) (hs : t.byteSize m + 18 < 2 ^ 31)
    (msgId : CInt) :
    ((SendsFrame t m msgId (sendPackage t m msgId) ↔ t.byteSize m + 18 ≤ 0x1000) ∧
      (WritesBehind (sendPackage t m msgId) ↔ 0x1000 < t.byteSize m + 18)) ∧
    (SendsFrame t m msgId (sendDataToRS t m msgId) ↔ t.byteSize m + 18 ≤ 0x2000) ∧
      (WritesBehind (sendDataToRS t m msgId) ↔ 0x2000 < t.byteSize m + 18) :=
  ⟨sendsFrame_or (sendPackage_eq h · msgId) (sendPackage_none h hs · msgId) (sendsFrame_wire msgId h hi hs),
    sendsFrame_or (sendDataToRS_eq h · msgId) (sendDataToRS_none h hs · msgId) (sendsFrame_wire msgId h hi hs)⟩

/-- What was sent to the director server is such a frame. -/
theorem sendsFrame_of_sendPackage (h : t.Fits 64 m) (hi : t.isInitialized m = true) (hs : t.byteSize m + 18 < 2 ^ 31)
    {sent : Option (List Byte)} (he : sendPackage t m msgId = some sent) :
    ∃ frame, sent = some frame ∧ SendsFrame t m msgId (some (some frame)) := by
  have hfit : t.byteSize m + 18 ≤ 0x1000 := by
    by_contra hbig
    rw [sendPackage_none h hs (by omega)] at he
    cases he
  cases (sendPackage_eq h hfit msgId).symm.trans he
  exact ⟨_, rfl, sendsFrame_wire msgId h hi hs⟩

/-- What was sent to the room server fits the array. -/
theorem byteSize_of_sent (h : t.Fits 64 m) {frame : List Byte} (hs : sendDataToRS t m msgId = some (some frame)) :
    t.byteSize m + 18 ≤ 0x2000 := by
  by_contra hbig
  by_cases hmax : t.byteSize m + 18 < 2 ^ 31
  · rw [sendDataToRS_none h hmax (by omega)] at hs
    cases hs
  -- The message alone does not fit, or `ByteSize` is not a number of bytes.
  rw [sendDataToRS, packMessage, MessageType.serializeToArray, Runtime.Documented.serializeToArray_eq] at hs
  split at hs <;> rename_i hle
  · cases hs
  · have hsize := (toInt_bounds (cint (t.byteSize m))).2
    have hlen := MessageType.length_serialize h (by omega)
    have hnone : memcpy (List.replicate 0x2000 0) (0 : Nat) (t.serialize m) (t.serialize m).length = none :=
      memcpy_eq_none (by rw [List.length_replicate]; omega)
    rw [Nat.cast_zero] at hnone
    rw [hnone] at hs
    cases hs

/-- What was sent to the room server is read there as it was. -/
theorem read_sent (h : t.Fits 64 m) (hi : t.isInitialized m = true) {frame : List Byte}
    (hs : sendDataToRS t m msgId = some (some frame)) :
    ∃ p, (StruCytPacket.fresh.parseFromArray frame (cint frame.length)).within frame.length = some (true, p) ∧
      p.msgType = msgId ∧ t.parseFromArray (cStr p.msgData) p.msgLen = some m := by
  have hfit := byteSize_of_sent h hs
  cases (sendDataToRS_eq h hfit msgId).symm.trans hs
  obtain ⟨frame, p, he, hlen, hread, hid, hmsg⟩ := sendsFrame_wire msgId h hi (by omega)
  cases he
  have hp := hread [] (cint (messagePacket t m msgId).wire.length) (by rw [toInt_cint (by omega) (by omega)])
  rw [List.append_nil] at hp
  exact ⟨p, hp, hid, hmsg⟩

end

/-- A request to leave the microphone. -/
theorem sendsFrame_iff_offMic :
    ((SendsFrame struUserOffMicRQ (MessageType.offMic []) 6017
        (sendPackage struUserOffMicRQ (MessageType.offMic []) 6017) ↔
      struUserOffMicRQ.byteSize (MessageType.offMic []) + 18 ≤ 0x1000) ∧
      (WritesBehind (sendPackage struUserOffMicRQ (MessageType.offMic []) 6017) ↔
        0x1000 < struUserOffMicRQ.byteSize (MessageType.offMic []) + 18)) ∧
    (SendsFrame struUserOffMicRQ (MessageType.offMic []) 6017
        (sendDataToRS struUserOffMicRQ (MessageType.offMic []) 6017) ↔
      struUserOffMicRQ.byteSize (MessageType.offMic []) + 18 ≤ 0x2000) ∧
      (WritesBehind (sendDataToRS struUserOffMicRQ (MessageType.offMic []) 6017) ↔
        0x2000 < struUserOffMicRQ.byteSize (MessageType.offMic []) + 18) :=
  sendsFrame_iff MessageType.offMic_fits.1 rfl (by decide) 6017

end Miku
