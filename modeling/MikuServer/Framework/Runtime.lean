import MikuServer.Framework.Mem
import MikuServer.Framework.WireFormat

/-!
# The runtime of protocol buffers

The code that `protoc` makes for a message is built on a runtime that it is not
part of: readers and writers of tags and values, a set of the fields that a
message has no declaration for, and `ParseFromArray` and `SerializeToArray`,
which call the message's own functions. `Runtime` has these functions, as a
parameter, and `Runtime.Documented` is what is documented of them and used:
what is written is read again, with what follows left, in as many bytes as its
size says; `ExpectTag` and `ExpectAtEnd` see what `ReadTag` would see; fields
without a declaration are kept; a message in an array has to end with it.

A stream is the bytes that are left of it. A function that reads returns those
it leaves, and has no value where it returns false.
-/

namespace Miku.WireFormat

/-- `WireFormatLite::MakeTag`. -/
def makeTag (number wireType : Nat) : Nat := number * 8 + wireType

theorem makeTag_div {number wireType : Nat} (h : wireType < 8) : makeTag number wireType / 8 = number := by
  unfold makeTag
  omega

theorem makeTag_mod {number wireType : Nat} (h : wireType < 8) : makeTag number wireType % 8 = wireType := by
  unfold makeTag
  omega

/-! ## Values -/

/-- `WireFormatLite::FieldType`, of a field that is not a message. -/
inductive DeclaredType
  | int32
  | bool
  | enum
  | string

/-- The value of a field: a `bool` is 0 or 1. -/
inductive Value
  | num (v : CInt)
  | str (s : List Byte)
  deriving DecidableEq

namespace DeclaredType

/-- The value is one of the type. -/
def Fits : DeclaredType → Value → Prop
  | .int32, .num _ => True
  | .bool, .num v => v = 0 ∨ v = 1
  | .enum, .num _ => True
  | .string, .str s => s.length < 2 ^ 31
  | _, _ => False

/-- The bytes of a value, without its tag. -/
def size : DeclaredType → Value → Nat
  | .bool, _ => 1
  | _, .num v => int32Size v.toInt
  | _, .str s => stringSize s.length

end DeclaredType

/-! ## Fields without a declaration -/

/-- A field of an `UnknownFieldSet`. -/
inductive UnknownField
  | varint (number value : Nat)
  | fixed64 (number : Nat) (value : List Byte)
  | lengthDelimited (number : Nat) (data : List Byte)
  | group (number : Nat) (fields : List UnknownField)
  | fixed32 (number : Nat) (value : List Byte)

namespace UnknownField

def number : UnknownField → Nat
  | .varint number _ => number
  | .fixed64 number _ => number
  | .lengthDelimited number _ => number
  | .group number _ => number
  | .fixed32 number _ => number

def wireType : UnknownField → Nat
  | .varint _ _ => 0
  | .fixed64 _ _ => 1
  | .lengthDelimited _ _ => 2
  | .group _ _ => 3
  | .fixed32 _ _ => 5

def tag (u : UnknownField) : Nat := makeTag u.number u.wireType

mutual

/-- What can be read, in groups at most `depth` deep. -/
def Fits : Nat → UnknownField → Prop
  | _, .varint number value => number ≠ 0 ∧ number < 2 ^ 29 ∧ value < 2 ^ 64
  | _, .fixed64 number value => number < 2 ^ 29 ∧ value.length = 8
  | _, .lengthDelimited number data => number < 2 ^ 29 ∧ data.length < 2 ^ 31
  | depth, .group number fields => number < 2 ^ 29 ∧ depth ≠ 0 ∧ FitsAll (depth - 1) fields
  | _, .fixed32 number value => number < 2 ^ 29 ∧ value.length = 4

def FitsAll : Nat → List UnknownField → Prop
  | _, [] => True
  | depth, u :: us => Fits depth u ∧ FitsAll depth us

end

end UnknownField

open UnknownField

theorem wireType_lt (u : UnknownField) : u.wireType < 8 := by cases u <;> simp [wireType]

theorem wireType_ne_endGroup (u : UnknownField) : u.wireType ≠ 4 := by cases u <;> simp [wireType]

theorem tag_mod (u : UnknownField) : u.tag % 8 = u.wireType := makeTag_mod (wireType_lt u)

theorem tag_div (u : UnknownField) : u.tag / 8 = u.number := makeTag_div (wireType_lt u)

theorem tag_of_fits {depth : Nat} {u : UnknownField} (h : Fits depth u) : u.tag ≠ 0 ∧ u.tag < 2 ^ 32 := by
  cases u <;> simp only [Fits] at h <;> simp only [tag, number, wireType, makeTag] <;> omega

/-! ## The functions -/

/-- What the generated code calls. No function leaves more of a stream than there was. -/
class Runtime where
  /-- `CodedInputStream::ReadTag`. It has no value where it returns 0. -/
  readTag : List Byte → Option (Nat × List Byte)
  /-- `CodedInputStream::ConsumedEntireMessage`, after `ReadTag` has returned 0. -/
  consumedEntireMessage : List Byte → Bool
  /-- `CodedInputStream::ExpectTag`. -/
  expectTag (expected : Nat) : List Byte → Option (List Byte)
  /-- `CodedInputStream::ExpectAtEnd`. -/
  expectAtEnd : List Byte → Bool
  /-- `WireFormatLite::ReadPrimitive` of a type, or `ReadString`. -/
  readValue (type : DeclaredType) : List Byte → Option (Value × List Byte)
  /-- `WireFormatLite::ReadMessageNoVirtual`, where messages may be `depth` deep. `parse` is the message's
  `MergePartialFromCodedStream`, and `ConsumedEntireMessage` after it. -/
  readMessage {α : Type} (depth : Nat) (parse : Nat → List Byte → Option (α × Bool)) :
    List Byte → Option (α × List Byte)
  /-- `WireFormat::SkipField`, with the field that is kept. -/
  skipField (depth tag : Nat) : List Byte → Option (UnknownField × List Byte)
  /-- `WireFormatLite::WriteTagToArray`. -/
  writeTag (tag : Nat) : List Byte
  /-- `WireFormatLite::WriteInt32NoTagToArray` and the others. -/
  writeValue (type : DeclaredType) : Value → List Byte
  /-- `WireFormatLite::WriteMessageNoVirtualToArray` after the tag, of a message with this cached size. -/
  writeMessage (cachedSize : Nat) (bytes : List Byte) : List Byte
  /-- `WireFormat::SerializeUnknownFieldsToArray`. -/
  writeUnknownFields : List UnknownField → List Byte
  /-- `WireFormatLite::Int32Size`, `EnumSize` and `StringSize`. -/
  valueSize (type : DeclaredType) : Value → Nat
  /-- `WireFormatLite::MessageSizeNoVirtual`, of a message whose `ByteSize` is `byteSize`. -/
  messageSize (byteSize : Nat) : Nat
  /-- `WireFormat::ComputeUnknownFieldsSize`. -/
  unknownFieldsSize : List UnknownField → Nat
  /-- `MessageLite::ParseFromArray`, with the object that it fills if it returns true. -/
  parseFromArray {α : Type} (parse : Nat → List Byte → Option (α × Bool)) (isInitialized : α → Bool)
    (data : List Byte) (size : CInt) : Option α
  /-- `MessageLite::SerializeToArray` of a message that writes `bytes`: the value returned, and the array after it. -/
  serializeToArray (byteSize : Nat) (bytes data : List Byte) (size : CInt) : Option (Bool × List Byte)
  readTag_lt {tag : Nat} {input rest : List Byte} : readTag input = some (tag, rest) → rest.length < input.length
  readValue_le {type : DeclaredType} {v : Value} {input rest : List Byte} :
    readValue type input = some (v, rest) → rest.length ≤ input.length
  readMessage_le {α : Type} {depth : Nat} {parse : Nat → List Byte → Option (α × Bool)} {a : α}
    {input rest : List Byte} : readMessage depth parse input = some (a, rest) → rest.length ≤ input.length
  skipField_le {depth tag : Nat} {u : UnknownField} {input rest : List Byte} :
    skipField depth tag input = some (u, rest) → rest.length ≤ input.length

/-! ## What is documented of them -/

/-- The wire format, and what the functions do with it. -/
class Runtime.Documented [Runtime] : Prop where
  /-- A tag is a varint: of one byte up to the field number 15, and never 0. -/
  readTag_write {tag : Nat} (rest : List Byte) : tag ≠ 0 → tag < 2 ^ 32 →
    readTag (writeTag tag ++ rest) = some (tag, rest)
  readTag_bound {tag : Nat} {input rest : List Byte} : readTag input = some (tag, rest) → tag ≠ 0 ∧ tag < 2 ^ 32
  length_writeTag {tag : Nat} : tag < 128 → (writeTag tag).length = 1
  /-- A message may end at the end of its bytes. -/
  readTag_nil : readTag [] = none
  consumedEntireMessage_nil : consumedEntireMessage [] = true
  /-- `ExpectTag` returns true only if `ReadTag` would return the tag. -/
  readTag_of_expectTag {tag : Nat} {input rest : List Byte} : tag ≠ 0 → expectTag tag input = some rest →
    readTag input = some (tag, rest)
  /-- `ExpectAtEnd` returns true only if nothing is left. -/
  eq_nil_of_expectAtEnd {input : List Byte} : expectAtEnd input = true → input = []
  readValue_write {type : DeclaredType} {v : Value} (rest : List Byte) : type.Fits v →
    readValue type (writeValue type v ++ rest) = some (v, rest)
  /-- It returns false where the bytes end inside of a value. -/
  readValue_take {type : DeclaredType} {v : Value} {k : Nat} : type.Fits v → k < (writeValue type v).length →
    readValue type ((writeValue type v).take k) = none
  fits_of_readValue {type : DeclaredType} {v : Value} {input rest : List Byte} :
    readValue type input = some (v, rest) → type.Fits v
  length_writeValue {type : DeclaredType} {v : Value} : type.Fits v → (writeValue type v).length = type.size v
  valueSize_eq (type : DeclaredType) (v : Value) : valueSize type v = type.size v
  /-- A message in a message has its length before it. -/
  readMessage_write {α : Type} {depth : Nat} {parse : Nat → List Byte → Option (α × Bool)} {a : α} {bytes : List Byte}
    (rest : List Byte) : depth ≠ 0 → bytes.length < 2 ^ 31 → parse (depth - 1) bytes = some (a, true) →
    readMessage depth parse (writeMessage bytes.length bytes ++ rest) = some (a, rest)
  parsed_of_readMessage {α : Type} {depth : Nat} {parse : Nat → List Byte → Option (α × Bool)} {a : α}
    {input rest : List Byte} : readMessage depth parse input = some (a, rest) →
    depth ≠ 0 ∧ ∃ bytes, parse (depth - 1) bytes = some (a, true)
  length_writeMessage {bytes : List Byte} : bytes.length < 2 ^ 32 →
    (writeMessage bytes.length bytes).length = stringSize bytes.length
  messageSize_eq (byteSize : Nat) : messageSize byteSize = stringSize byteSize
  /-- A field that was kept is written with its tag, and then it is kept again. -/
  writeUnknownFields_nil : writeUnknownFields [] = []
  exists_writeUnknownField {depth : Nat} {u : UnknownField} : u.Fits depth → ∃ bytes,
    (∀ us, writeUnknownFields (u :: us) = writeTag u.tag ++ bytes ++ writeUnknownFields us) ∧
      ∀ rest, skipField depth u.tag (bytes ++ rest) = some (u, rest)
  fits_of_skipField {depth tag : Nat} {u : UnknownField} {input rest : List Byte} : tag ≠ 0 → tag < 2 ^ 32 →
    skipField depth tag input = some (u, rest) → u.Fits depth ∧ u.tag = tag
  /-- The number of an enumeration is a varint, extended to 64 bits. -/
  writeUnknownFields_enum (number : Nat) (v : CInt) (us : List UnknownField) :
    writeUnknownFields (.varint number (v.signExtend 64).toNat :: us) =
      writeTag (makeTag number 0) ++ writeValue .enum (.num v) ++ writeUnknownFields us
  unknownFieldsSize_eq (us : List UnknownField) : unknownFieldsSize us = (writeUnknownFields us).length
  /-- A message may be 64 deep, has to end with the array, and to have its required fields. -/
  parseFromArray_eq_some {α : Type} {parse : Nat → List Byte → Option (α × Bool)} {isInitialized : α → Bool}
    {data : List Byte} {size : CInt} {a : α} : parseFromArray parse isInitialized data size = some a ↔
      parse 64 (data.take size.toInt.toNat) = some (a, true) ∧ isInitialized a = true
  /-- It returns false if the array is too small, and else writes the message to its beginning. -/
  serializeToArray_eq (byteSize : Nat) (bytes data : List Byte) (size : CInt) :
    serializeToArray byteSize bytes data size =
      if size.toInt < byteSize then some (false, data)
      else (memcpy data 0 bytes bytes.length).map fun data => (true, data)

theorem Runtime.readTag_spec [Runtime] [Documented] {tag : Nat} {input rest : List Byte}
    (h : readTag input = some (tag, rest)) : tag ≠ 0 ∧ tag < 2 ^ 32 ∧ rest.length < input.length :=
  ⟨(Documented.readTag_bound h).1, (Documented.readTag_bound h).2, readTag_lt h⟩

end Miku.WireFormat
