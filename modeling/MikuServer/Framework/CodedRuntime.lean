import MikuServer.Framework.UnknownFields

/-!
# A runtime of protocol buffers

The readers and writers of `CodedStream.lean` and `UnknownFields.lean` make a
`Runtime`, and it is as documented.
-/

namespace Miku.WireFormat

/-- `CodedInputStream::ExpectTag`. It does not find a tag that has more than one byte. -/
def expectTag (expected : Nat) : List Byte → Option (List Byte)
  | [] => none
  | b :: rest => if expected < 128 ∧ b.toNat = expected then some rest else none

/-- `WireFormatLite::ReadPrimitive` and `ReadString`. -/
def readValue : DeclaredType → List Byte → Option (Value × List Byte)
  | .int32, input => (readInt32 input).map fun r => (.num r.1, r.2)
  | .bool, input => (readVarint32 input).map fun r => (.num (if r.1 = 0 then 0 else 1), r.2)
  | .enum, input => (readInt32 input).map fun r => (.num r.1, r.2)
  | .string, input => (readBytes input).map fun r => (.str r.1, r.2)

/-- A `bool` and an enumeration are written as numbers. -/
def Value.write : Value → List Byte
  | .num v => writeInt32 v
  | .str s => writeBytes s

/-- `WireFormatLite::ReadMessageNoVirtual`. The limit that it pushes is not beyond the one that is there. -/
def readMessage {α : Type} (depth : Nat) (parse : Nat → List Byte → Option (α × Bool)) (input : List Byte) :
    Option (α × List Byte) :=
  (readVarint32 input).bind fun r =>
    if depth = 0 then none
    else (parse (depth - 1) (r.2.take r.1)).bind fun p => if p.2 then some (p.1, r.2.drop r.1) else none

/-- `MessageLite::ParseFromArray`. -/
def parseFromArray {α : Type} (parse : Nat → List Byte → Option (α × Bool)) (isInitialized : α → Bool)
    (data : List Byte) (size : CInt) : Option α :=
  match parse 64 (data.take size.toInt.toNat) with
  | some (a, true) => if isInitialized a then some a else none
  | _ => none

/-- `MessageLite::SerializeToArray`. -/
def serializeToArray (byteSize : Nat) (bytes data : List Byte) (size : CInt) : Option (Bool × List Byte) :=
  if size.toInt < byteSize then some (false, data)
  else (memcpy data 0 bytes bytes.length).map fun data => (true, data)

/-! ## Values -/

theorem readVarint32_writeInt32 (v : CInt) (rest : List Byte) :
    readVarint32 (writeInt32 v ++ rest) = some (v.toNat, rest) := by
  rw [writeInt32, readVarint32_write_mod (toNat_signExtend_lt v), toNat_signExtend_mod]

theorem readValue_write {type : DeclaredType} {v : Value} (h : type.Fits v) (rest : List Byte) :
    readValue type (v.write ++ rest) = some (v, rest) := by
  cases type with
  | int32 =>
    cases v with
    | num v => simp only [readValue, Value.write, readInt32_write, Option.map_some]
    | str s => exact h.elim
  | bool =>
    cases v with
    | num v =>
      rw [readValue, Value.write, readVarint32_writeInt32, Option.map_some]
      rcases h with rfl | rfl <;> rfl
    | str s => exact h.elim
  | enum =>
    cases v with
    | num v => simp only [readValue, Value.write, readInt32_write, Option.map_some]
    | str s => exact h.elim
  | string =>
    cases v with
    | num v => exact h.elim
    | str s => simp only [readValue, Value.write, readBytes_write h, Option.map_some]

theorem readValue_take {type : DeclaredType} {v : Value} (h : type.Fits v) {k : Nat} (hk : k < v.write.length) :
    readValue type (v.write.take k) = none := by
  cases type with
  | int32 =>
    cases v with
    | num v => rw [readValue, Value.write, readInt32_take_none hk, Option.map_none]
    | str s => exact h.elim
  | bool =>
    cases v with
    | num v =>
      rw [readValue, Value.write, writeInt32, readVarint32_take_none (toNat_signExtend_lt v) hk, Option.map_none]
    | str s => exact h.elim
  | enum =>
    cases v with
    | num v => rw [readValue, Value.write, readInt32_take_none hk, Option.map_none]
    | str s => exact h.elim
  | string =>
    cases v with
    | num v => exact h.elim
    | str s => rw [readValue, Value.write, readBytes_take_none h hk, Option.map_none]

theorem length_writeValue {type : DeclaredType} {v : Value} (h : type.Fits v) : v.write.length = type.size v := by
  cases type <;> cases v <;> try exact h.elim
  case int32.num v => exact length_writeInt32 v
  case bool.num v => rcases h with rfl | rfl <;> rfl
  case enum.num v => exact length_writeInt32 v
  case string.str s => exact length_writeBytes (Nat.lt_trans h (by decide))

/-- What is left of the input, and the value. -/
theorem readValue_spec {type : DeclaredType} {v : Value} {input rest : List Byte}
    (h : readValue type input = some (v, rest)) : rest.length ≤ input.length ∧ type.Fits v := by
  cases type with
  | int32 =>
    obtain ⟨r, hr, he⟩ := Option.map_eq_some_iff.mp h
    cases he
    exact ⟨Nat.le_of_lt (readInt32_lt hr), trivial⟩
  | bool =>
    obtain ⟨r, hr, he⟩ := Option.map_eq_some_iff.mp h
    cases he
    refine ⟨Nat.le_of_lt (readVarint32_lt hr), ?_⟩
    split_ifs
    · exact .inl rfl
    · exact .inr rfl
  | enum =>
    obtain ⟨r, hr, he⟩ := Option.map_eq_some_iff.mp h
    cases he
    exact ⟨Nat.le_of_lt (readInt32_lt hr), trivial⟩
  | string =>
    obtain ⟨r, hr, he⟩ := Option.map_eq_some_iff.mp h
    cases he
    exact ⟨Nat.le_of_lt (readBytes_spec hr).1, (readBytes_spec hr).2⟩

/-! ## Messages in messages -/

theorem readMessage_spec {α : Type} {depth : Nat} {parse : Nat → List Byte → Option (α × Bool)} {a : α}
    {input rest : List Byte} (h : readMessage depth parse input = some (a, rest)) :
    rest.length ≤ input.length ∧ depth ≠ 0 ∧ ∃ bytes, parse (depth - 1) bytes = some (a, true) := by
  obtain ⟨r, hr, h⟩ := Option.bind_eq_some_iff.mp h
  split_ifs at h with hd
  obtain ⟨p, hp, h⟩ := Option.bind_eq_some_iff.mp h
  split_ifs at h with hend
  cases h
  have hlt := readVarint32_lt hr
  refine ⟨?_, hd, r.2.take r.1, by rw [hp, ← hend]⟩
  rw [List.length_drop]
  omega

theorem readMessage_write {α : Type} {depth : Nat} {parse : Nat → List Byte → Option (α × Bool)} {a : α}
    {bytes : List Byte} (rest : List Byte) (hd : depth ≠ 0) (hb : bytes.length < 2 ^ 31)
    (h : parse (depth - 1) bytes = some (a, true)) :
    readMessage depth parse (writeBytes bytes ++ rest) = some (a, rest) := by
  rw [readMessage, writeBytes, List.append_assoc, readVarint32_write (by omega)]
  simp only [Option.bind_some, if_neg hd, List.take_left, List.drop_left, h, if_true]

theorem readTag_of_expectTag {tag : Nat} {input rest : List Byte} (h0 : tag ≠ 0) (h : expectTag tag input = some rest) :
    readTag input = some (tag, rest) := by
  cases input with
  | nil => cases h
  | cons b input =>
    rw [expectTag] at h
    split_ifs at h with hb
    cases h
    have hread := readTag_write h0 (Nat.lt_trans hb.1 (by decide)) rest
    rwa [writeVarint_of_lt hb.1, ← hb.2, BitVec.ofNat_toNat, BitVec.setWidth_eq, List.singleton_append, hb.2] at hread

theorem parseFromArray_eq_some {α : Type} {parse : Nat → List Byte → Option (α × Bool)} {isInitialized : α → Bool}
    {data : List Byte} {size : CInt} {a : α} : parseFromArray parse isInitialized data size = some a ↔
      parse 64 (data.take size.toInt.toNat) = some (a, true) ∧ isInitialized a = true := by
  rw [parseFromArray]
  rcases parse 64 (data.take size.toInt.toNat) with _ | ⟨b, atEnd⟩
  · simp
  · cases atEnd with
    | false => simp
    | true =>
      dsimp only
      split_ifs with hi
      · constructor
        · intro h
          cases h
          exact ⟨rfl, hi⟩
        · intro h
          cases h.1
          rfl
      · constructor
        · intro h
          cases h
        · intro h
          cases h.1
          exact absurd h.2 hi

/-! ## The runtime -/

instance codedRuntime : Runtime where
  readTag := readTag
  consumedEntireMessage := List.isEmpty
  expectTag := expectTag
  expectAtEnd := List.isEmpty
  readValue := readValue
  readMessage := readMessage
  skipField := skipField
  writeTag := writeVarint
  writeValue _ := Value.write
  writeMessage cachedSize bytes := writeVarint cachedSize ++ bytes
  writeUnknownFields := UnknownField.writeAll
  valueSize := DeclaredType.size
  messageSize := stringSize
  unknownFieldsSize us := (UnknownField.writeAll us).length
  parseFromArray := parseFromArray
  serializeToArray := serializeToArray
  readTag_lt h := (readTag_spec h).2.2
  readValue_le h := (readValue_spec h).1
  readMessage_le h := (readMessage_spec h).1
  skipField_le h := skipField_le h

instance : Runtime.Documented where
  readTag_write rest h h' := readTag_write h h' rest
  readTag_bound h := ⟨(readTag_spec h).1, (readTag_spec h).2.1⟩
  length_writeTag h := by
    change (writeVarint _).length = 1
    rw [writeVarint_of_lt h, List.length_singleton]
  readTag_nil := rfl
  consumedEntireMessage_nil := rfl
  readTag_of_expectTag := readTag_of_expectTag
  eq_nil_of_expectAtEnd := List.isEmpty_iff.mp
  readValue_write rest h := readValue_write h rest
  readValue_take h hk := readValue_take h hk
  fits_of_readValue h := (readValue_spec h).2
  length_writeValue := length_writeValue
  valueSize_eq _ _ := rfl
  readMessage_write := readMessage_write
  parsed_of_readMessage h := (readMessage_spec h).2
  length_writeMessage := length_writeBytes
  messageSize_eq _ := rfl
  writeUnknownFields_nil := by
    change UnknownField.writeAll [] = []
    rw [UnknownField.writeAll]
  exists_writeUnknownField {depth u} h := by
    refine ⟨UnknownField.body u, fun us => ?_, skipField_write h⟩
    change UnknownField.writeAll (u :: us) = writeVarint u.tag ++ UnknownField.body u ++ UnknownField.writeAll us
    rw [UnknownField.writeAll]
  fits_of_skipField := skipField_fits
  writeUnknownFields_enum number v us := by
    change UnknownField.writeAll _ = writeVarint (makeTag number 0) ++ writeInt32 v ++ UnknownField.writeAll us
    rw [UnknownField.writeAll, UnknownField.body]
    rfl
  unknownFieldsSize_eq _ := rfl
  parseFromArray_eq_some := parseFromArray_eq_some
  serializeToArray_eq _ _ _ _ := rfl

end Miku.WireFormat
