import MikuServer.Framework.FieldLoop
import MikuServer.Impl.Packet

/-!
# The generated classes of the messages (`packet/package_define.pb.cc`, `packet/ds_server.pb.cpp`)

`protoc` makes the same functions for each message, from the list of its fields:
they are numbered from 1 on in the order of the list, and only the last one may
be `repeated`. `MessageType` is such a list, and the functions are those of any
of the classes. An object (`Message`) has a cell for each field with a has-bit.

`mergePartialFromCodedStream` has the jumps of the generated code: after a
field, `ExpectTag` looks for the tag of the next one, and goes on with that
field's value without the `switch`.

What the generated code calls of protocol buffers is a parameter (`Runtime`).
-/

namespace Miku.Protobuf

open WireFormat

/-- The type of a field. `isValid` is `EnumMsgID_IsValid` or the like. -/
inductive FieldType
  | int32
  | bool
  | enum (isValid : Int → Bool)
  | string

/-- A field that is not `repeated`. -/
structure ScalarField where
  isRequired : Bool
  type : FieldType

def ScalarField.required (type : FieldType) : ScalarField := ⟨true, type⟩

def ScalarField.optional (type : FieldType) : ScalarField := ⟨false, type⟩

/-- The fields of a class, the last of which may be a `repeated` message. -/
inductive MessageType
  | flat (fields : List ScalarField) (length_fields : fields.length < 16 := by decide)
  | list (fields : List ScalarField) (item : MessageType) (length_fields : fields.length < 15 := by decide)

/-- An object of a class. -/
inductive Message
  | mk (cells : List (Option Value)) (items : List Message) (unknownFields : List UnknownField)

namespace FieldType

/-- The type that is named where a value is read or written. -/
def declared : FieldType → DeclaredType
  | .int32 => .int32
  | .bool => .bool
  | .enum _ => .enum
  | .string => .string

def wireType : FieldType → Nat
  | .int32 => 0
  | .bool => 0
  | .enum _ => 0
  | .string => 2

/-- A value, or a number that the enumeration does not have. -/
def check : FieldType → Value → Value ⊕ CInt
  | .enum isValid, .num v => if isValid v.toInt then .inl (.num v) else .inr v
  | _, v => .inl v

end FieldType

namespace Message

def cells : Message → List (Option Value)
  | .mk cells _ _ => cells

def items : Message → List Message
  | .mk _ items _ => items

def unknownFields : Message → List UnknownField
  | .mk _ _ unknownFields => unknownFields

/-- `set_msg_id` and the like: the value and the has-bit of the field at a place. -/
def setCell (self : Message) (n : Nat) (v : Value) : Message :=
  .mk (self.cells.set n (some v)) self.items self.unknownFields

/-- `add_mic_list` and the like. -/
def addItem (self item : Message) : Message := .mk self.cells (self.items ++ [item]) self.unknownFields

def addUnknown (self : Message) (u : UnknownField) : Message := .mk self.cells self.items (self.unknownFields ++ [u])

/-- A number that the enumeration of the field at the place `n` does not have is kept as an
unknown field. -/
def store (self : Message) (n : Nat) : Value ⊕ CInt → Message
  | .inl v => self.setCell n v
  | .inr v => self.addUnknown (.varint (n + 1) (v.signExtend 64).toNat)

end Message

namespace MessageType

def fields : MessageType → List ScalarField
  | .flat fields _ => fields
  | .list fields _ _ => fields

/-- A cleared object. -/
def new (t : MessageType) : Message := .mk (List.replicate t.fields.length none) [] []

/-- `IsInitialized`. -/
def isInitialized : MessageType → Message → Bool
  | .flat fields _, m => hasRequired fields m
  | .list fields item _, m => hasRequired fields m && m.items.all item.isInitialized
where
  /-- The has-bits of the required fields. -/
  hasRequired (fields : List ScalarField) (m : Message) : Bool :=
    (fields.zip m.cells).all fun f => !f.1.isRequired || f.2.isSome

end MessageType

section Runtime

variable [Runtime]

/-! ## `MergePartialFromCodedStream` -/

/-- `ExpectTag` of the tag of the field at the place `n`, and that place. -/
def expectField {σ : Type} (R : MessageReader σ) (n : Nat) (input : List Byte) : Option (Nat × List Byte) :=
  R.fields[n]?.bind fun f => (Runtime.expectTag (makeTag (n + 1) f.wireType) input).map fun rest => (n, rest)

/-- The jumps after the value of the field at the place `n`. -/
def expectNext {σ : Type} (R : MessageReader σ) (n : Nat) (input : List Byte) : Option (Nat × List Byte) :=
  let again := R.fields[n]?.bind fun f => if f.repeated then expectField R n input else none
  again.or (expectField R (n + 1) input)

/-- From the label of the field at a place (`parse_user_id` and the like), or from the loop's
beginning. -/
def mergeFrom {σ : Type} (R : MessageReader σ) : Nat → Option Nat → σ → List Byte → Option (σ × Bool)
  | 0, _, _, _ => none
  | fuel + 1, some n, s, input =>
    (R.readAt n s input).bind fun r =>
      match expectNext R n r.2 with
      | some (next, rest) => mergeFrom R fuel (some next) r.1 rest
      | none =>
        -- `if (input->ExpectAtEnd()) return true;` is after the last field only.
        if n + 1 = R.fields.length ∧ Runtime.expectAtEnd r.2 = true then some (r.1, true)
        else mergeFrom R fuel none r.1 r.2
  | fuel + 1, none, s, input =>
    match Runtime.readTag input with
    | none => some (s, Runtime.consumedEntireMessage input)
    | some (tag, rest) =>
      match R.declared tag with
      | some n => mergeFrom R fuel (some n) s rest
      | none =>
        if tag % 8 = 4 then some (s, false) else (R.unknown s tag rest).bind fun r => mergeFrom R fuel none r.1 r.2

/-- `MergePartialFromCodedStream`, and `ConsumedEntireMessage` after it. -/
def mergePartialFromCodedStream {σ : Type} (R : MessageReader σ) (s : σ) (input : List Byte) : Option (σ × Bool) :=
  mergeFrom R (2 * input.length + 1) none s input

/-- The `case` of a field that is not `repeated`. -/
def scalarReader (n : Nat) (type : FieldType) : FieldReader Message where
  wireType := type.wireType
  repeated := false
  read s input := (Runtime.readValue type.declared input).map fun r => (s.store n (type.check r.1), r.2)
  wireType_lt := by cases type <;> simp [FieldType.wireType]
  read_le h := by
    obtain ⟨r, hr, he⟩ := Option.map_eq_some_iff.mp h
    cases he
    exact Runtime.readValue_le hr

/-- The `case` of a `repeated` message. -/
def itemReader (depth : Nat) (parse : Nat → List Byte → Option (Message × Bool)) : FieldReader Message where
  wireType := 2
  repeated := true
  read s input := (Runtime.readMessage depth parse input).map fun r => (s.addItem r.1, r.2)
  wireType_lt := by decide
  read_le h := by
    obtain ⟨r, hr, he⟩ := Option.map_eq_some_iff.mp h
    cases he
    exact Runtime.readMessage_le hr

/-- `handle_uninterpreted`. -/
def readUnknown (depth : Nat) (s : Message) (tag : Nat) (input : List Byte) : Option (Message × List Byte) :=
  (Runtime.skipField depth tag input).map fun r => (s.addUnknown r.1, r.2)

theorem readUnknown_le {depth tag : Nat} {s s' : Message} {input rest : List Byte}
    (h : readUnknown depth s tag input = some (s', rest)) : rest.length ≤ input.length := by
  obtain ⟨r, hr, he⟩ := Option.map_eq_some_iff.mp h
  cases he
  exact Runtime.skipField_le hr

/-! ## A class -/

/-- `Int32Size` and the others; a `bool` has one byte. -/
def FieldType.size (type : FieldType) (v : Value) : Nat :=
  match type with
  | .bool => 1
  | type => Runtime.valueSize type.declared v

namespace MessageType

/-- The `case`s of a class. `merge` is what is called for a message in the message. -/
def readerWith (merge : MessageReader Message → Message → List Byte → Option (Message × Bool)) :
    MessageType → Nat → MessageReader Message
  | .flat fields h, depth =>
    { fields := fields.mapIdx fun n f => scalarReader n f.type
      unknown := readUnknown depth
      length_fields := by rw [List.length_mapIdx]; exact h
      unknown_le := readUnknown_le }
  | .list fields item h, depth =>
    { fields := (fields.mapIdx fun n f => scalarReader n f.type) ++
        [itemReader depth fun depth input => merge (item.readerWith merge depth) item.new input]
      unknown := readUnknown depth
      length_fields := by rw [List.length_append, List.length_mapIdx]; exact Nat.succ_lt_succ h
      unknown_le := readUnknown_le }

/-- `WriteInt32ToArray` and the others. -/
def writeField (number : Nat) (type : FieldType) (v : Value) : List Byte :=
  Runtime.writeTag (makeTag number type.wireType) ++ Runtime.writeValue type.declared v

/-- The fields that have a value, from the number `number` on. -/
def writeCells : Nat → List ScalarField → List (Option Value) → List Byte
  | number, f :: fields, c :: cells =>
    (match c with
      | some v => writeField number f.type v
      | none => []) ++ writeCells (number + 1) fields cells
  | _, _, _ => []

def cellsSize : List ScalarField → List (Option Value) → Nat
  | f :: fields, c :: cells => (match c with
      | some v => 1 + f.type.size v
      | none => 0) + cellsSize fields cells
  | _, _ => 0

/-- `ByteSize()`. -/
def byteSize : MessageType → Message → Nat
  | .flat fields _, m => cellsSize fields m.cells + Runtime.unknownFieldsSize m.unknownFields
  | .list fields item _, m =>
    cellsSize fields m.cells + (1 * m.items.length + (m.items.map fun e => Runtime.messageSize (item.byteSize e)).sum) +
      Runtime.unknownFieldsSize m.unknownFields

/-- `SerializeWithCachedSizesToArray`. -/
def serialize : MessageType → Message → List Byte
  | .flat fields _, m => writeCells 1 fields m.cells ++ Runtime.writeUnknownFields m.unknownFields
  | .list fields item _, m =>
    writeCells 1 fields m.cells ++
      (m.items.flatMap fun e => Runtime.writeTag (makeTag (fields.length + 1) 2) ++
        Runtime.writeMessage (item.byteSize e) (item.serialize e)) ++
      Runtime.writeUnknownFields m.unknownFields

/-- `ParseFromArray(data, size)`, with the object it fills if it returns true. -/
def parseFromArray (t : MessageType) (data : List Byte) (size : CInt) : Option Message :=
  Runtime.parseFromArray
    (fun depth input => mergePartialFromCodedStream (t.readerWith mergePartialFromCodedStream depth) t.new input)
    t.isInitialized data size

/-- `SerializeToArray(data, size)`: the value returned, and the array after it. -/
def serializeToArray (t : MessageType) (m : Message) (data : List Byte) (size : CInt) : Option (Bool × List Byte) :=
  Runtime.serializeToArray (t.byteSize m) (t.serialize m) data size

end MessageType

end Runtime

/-! ## `packet/package_define.proto` -/

def enumMsgIDIsValid (value : Int) : Bool := 6000 ≤ value ∧ value ≤ 6024

/-- msg_id, user_id, room_id, user_psw, user_account_name. -/
def struUserLoginRQ : MessageType :=
  .flat [.required (.enum enumMsgIDIsValid), .required .int32, .required .int32, .required .string,
    .required .string]

/-- msg_id, user_id, room_id, result, user_red_d, user_blue_d, user_level, buyer_riches,
buyer_grow_up, buyer_honour, buyer_estimate, seller_income, seller_exp, seller_pop,
seller_estimate. -/
def struUserLoginRS : MessageType :=
  .flat [.required (.enum enumMsgIDIsValid), .required .int32, .required .int32, .required .int32,
    .required .int32, .required .int32, .required .int32, .required .int32, .required .int32,
    .required .int32, .required .int32, .required .int32, .required .int32, .required .int32,
    .required .int32]

/-- msg_id, user_id, user_account_name, mic_channel_str. -/
def struMicInfo : MessageType :=
  .flat [.required (.enum enumMsgIDIsValid), .required .int32, .required .string, .required .string]

/-- msg_id, user_id, room_id, mic_list. -/
def struRoomMicInfoID : MessageType :=
  .list [.required (.enum enumMsgIDIsValid), .required .int32, .required .int32] struMicInfo

/-- msg_id, user_id, user_account_name, user_role_uid, user_level, buyer_riches, buyer_grow_up,
buyer_honour, buyer_estimate, seller_income, seller_exp, seller_pop, seller_estimate. -/
def struUserInfo : MessageType :=
  .flat [.required (.enum enumMsgIDIsValid), .required .int32, .required .string, .required .string,
    .required .int32, .required .int32, .required .int32, .required .int32, .required .int32,
    .required .int32, .required .int32, .required .int32, .required .int32]

/-- msg_id, user_id, room_id, user_info_list. -/
def struUserInfoListID : MessageType :=
  .list [.required (.enum enumMsgIDIsValid), .required .int32, .required .int32] struUserInfo

/-- msg_id, user_id, room_id, msg_text, is_private, dst_user_id. -/
def struUserMsgRQ : MessageType :=
  .flat [.required (.enum enumMsgIDIsValid), .required .int32, .required .int32, .required .string,
    .required .bool, .required .int32]

/-- msg_id, user_id, room_id, result. -/
def struUserMsgRS : MessageType :=
  .flat [.required (.enum enumMsgIDIsValid), .required .int32, .required .int32, .required .int32]

/-- msg_id, user_id, room_id, msg_text, is_private, dst_user_id. -/
def struUserMsgTextID : MessageType :=
  .flat [.required (.enum enumMsgIDIsValid), .required .int32, .required .int32, .required .string,
    .required .bool, .required .int32]

/-- msg_id, user_id, room_id, gift_code, dst_user_id, count_gift. -/
def struUserGiveGiftRQ : MessageType :=
  .flat [.required (.enum enumMsgIDIsValid), .required .int32, .required .int32, .required .string,
    .required .int32, .required .int32]

/-- msg_id, user_id, room_id, result, gift_code, dst_user_id, sender_red_d. -/
def struUserGiveGiftRS : MessageType :=
  .flat [.required (.enum enumMsgIDIsValid), .required .int32, .required .int32, .required .int32,
    .required .string, .required .int32, .required .int32]

/-- msg_id, user_id, room_id. -/
def struUserApplyMicRQ : MessageType :=
  .flat [.required (.enum enumMsgIDIsValid), .required .int32, .required .int32]

/-- msg_id, user_id, room_id, result, mic_channel_str. -/
def struUserApplyMicRS : MessageType :=
  .flat [.required (.enum enumMsgIDIsValid), .required .int32, .required .int32, .required .int32,
    .required .string]

/-- msg_id, user_id, room_id. -/
def struUserOffMicRQ : MessageType :=
  .flat [.required (.enum enumMsgIDIsValid), .required .int32, .required .int32]

/-- msg_id, user_id, room_id, result. -/
def struUserOffMicRS : MessageType :=
  .flat [.required (.enum enumMsgIDIsValid), .required .int32, .required .int32, .required .int32]

/-- msg_id, user_id, room_id, dst_user_id, mic_type. -/
def struPutUserOnMicRQ : MessageType :=
  .flat [.required (.enum enumMsgIDIsValid), .required .int32, .required .int32, .required .int32,
    .required .int32]

/-- msg_id, user_id, room_id, dst_user_id, mic_type, mic_channel_str. -/
def struCancleUserMicRQ : MessageType :=
  .flat [.required (.enum enumMsgIDIsValid), .required .int32, .required .int32, .required .int32,
    .required .int32, .required .string]

/-- msg_id, user_id, room_id. -/
def struUserExitRoomID : MessageType :=
  .flat [.required (.enum enumMsgIDIsValid), .required .int32, .required .int32]

/-! ## `packet/ds_server.pb.h` -/

def serverTypeIsValid (value : Int) : Bool := 0 ≤ value ∧ value ≤ 4

def connectTypeIsValid (value : Int) : Bool := value = 0 ∨ value = 1

/-- server_id, server_ip, server_port, server_type, connect_type, server_detect_port. -/
def struDsServerConnectRq : MessageType :=
  .flat [.required .int32, .required .string, .required .int32, .required (.enum serverTypeIsValid),
    .required (.enum connectTypeIsValid), .optional .int32]

/-- server_id, result. -/
def struDsServerConnectRs : MessageType := .flat [.required .int32, .required .int32]

/-- server_id, room_id. -/
def struDsGSGetRoomInfoRq : MessageType := .flat [.required .int32, .required .int32]

/-- server_id. -/
def struDsRSGetCsInfoRq : MessageType := .flat [.required .int32]

/-- server_id, cs_server_id, server_ip, server_port. -/
def sStruDsRSGetCsInfoRs : MessageType :=
  .flat [.required .int32, .required .int32, .required .string, .required .int32]

end Miku.Protobuf
