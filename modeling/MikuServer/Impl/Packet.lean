import MikuServer.Framework.Mem

/-!
# The packets (`packet/cyt_packet.pb.cpp`, `packet/gs_rs_packet.pb.cpp`)

`StruCytPacket` and `GateRoomServerPack` have the same layout: 3 bytes, three
`int`s, the payload and 3 bytes. They differ in the names of the fields and in
the `int` that holds the payload's length: the second (`msg_len_`, at offset 7)
or the third (`data_len_`, at offset 11). `Fields` is that layout, and its
functions are the two classes' functions for either length field.

`parseFromArray` reads the array from its start (`data` is never `NULL`), and
reports what it reads: the array it is given may be shorter than what it asks
for. `serializeToArray` writes through `memcpy` and has no value where that
leaves the array.
-/

namespace Miku

/-- The fields of a packet in the order of the wire. -/
structure Fields where
  head : List Byte
  w₀ : CInt
  w₁ : CInt
  w₂ : CInt
  body : List Byte
  tail : List Byte
  deriving DecidableEq

/-- The `int` that holds the payload's length. -/
inductive LenField
  | second
  | third
  deriving DecidableEq

/-- Its offset on the wire. -/
def LenField.off : LenField → Nat
  | .second => 7
  | .third => 11

def LenField.get (lf : LenField) (f : Fields) : CInt :=
  match lf with
  | .second => f.w₁
  | .third => f.w₂

/-- What a `ParseFromArray` returns, leaves in its object, and reads. -/
structure Parsed (α : Type) where
  ret : Bool
  pack : α
  reads : List Access

def Parsed.map {α β : Type} (f : α → β) (p : Parsed α) : Parsed β := ⟨p.ret, f p.pack, p.reads⟩

namespace Fields

/-- `ByteSize()`, in `int` arithmetic. -/
def byteSize (lf : LenField) (self : Fields) : CInt := 3 + 4 + 4 + 4 + lf.get self + 3

/-- `ParseFromArray(data, data_len)`. -/
def parseFromArray (lf : LenField) (self : Fields) (data : List Byte) (dataLen : CInt) : Parsed Fields :=
  if dataLen.toInt < 18 then
    ⟨false, self, []⟩
  else
    let self := { self with
      head := slice data 0 3
      w₀ := intAt data 3
      w₁ := intAt data (3 + 4)
      w₂ := intAt data (3 + 4 + 4) }
    let reads : List Access := [⟨0, 3⟩, ⟨3, 4⟩, ⟨3 + 4, 4⟩, ⟨3 + 4 + 4, 4⟩]
    let len := lf.get self
    if len.toInt < 0 ∨ dataLen.toInt < (byteSize lf self).toInt then
      ⟨false, self, reads⟩
    else
      let n := len.toInt.toNat
      ⟨true, { self with
        body := slice data (3 + 4 + 4 + 4) n
        tail := slice data (3 + 4 + 4 + 4 + n) 3 },
        reads ++ [⟨3 + 4 + 4 + 4, n⟩, ⟨3 + 4 + 4 + 4 + n, 3⟩]⟩

/-- `SerializeToArray(data, data_len)`: the value returned and the array after it. -/
def serializeToArray (lf : LenField) (self : Fields) (data : List Byte) (dataLen : CInt) :
    Option (Bool × List Byte) :=
  if dataLen.toInt < (byteSize lf self).toInt then
    some (false, data)
  else do
    let data ← memcpy data 0 (cStr self.head) 3
    let data ← memcpy data 3 (leBytes self.w₀) 4
    let data ← memcpy data (3 + 4) (leBytes self.w₁) 4
    let data ← memcpy data (3 + 4 + 4) (leBytes self.w₂) 4
    let data ← memcpy data (3 + 4 + 4 + 4) (cStr self.body) self.body.length
    let data ← memcpy data (3 + 4 + 4 + 4 + self.body.length) (cStr self.tail) 3
    some (true, data)

end Fields

/-- `set_msg_data`, `set_data_msg`: an empty payload leaves the old one. -/
def setData (old data : List Byte) (dataLen : Int) : List Byte :=
  if 0 < dataLen then data.take dataLen.toNat else old

/-- `class StruCytPacket`. -/
structure StruCytPacket where
  strHead : List Byte
  roomId : CInt
  msgLen : CInt
  msgType : CInt
  msgData : List Byte
  strTail : List Byte
  deriving DecidableEq

namespace StruCytPacket

def fields (p : StruCytPacket) : Fields := ⟨p.strHead, p.roomId, p.msgLen, p.msgType, p.msgData, p.strTail⟩

def ofFields (f : Fields) : StruCytPacket := ⟨f.head, f.w₀, f.w₁, f.w₂, f.body, f.tail⟩

def byteSize (self : StruCytPacket) : CInt := self.fields.byteSize .second

def parseFromArray (self : StruCytPacket) (data : List Byte) (dataLen : CInt) : Parsed StruCytPacket :=
  (self.fields.parseFromArray .second data dataLen).map ofFields

def serializeToArray (self : StruCytPacket) (data : List Byte) (dataLen : CInt) : Option (Bool × List Byte) :=
  self.fields.serializeToArray .second data dataLen

end StruCytPacket

/-- `class GateRoomServerPack`. -/
structure GateRoomServerPack where
  strHead : List Byte
  userHashkey : CInt
  gsHashkey : CInt
  dataLen : CInt
  dataMsg : List Byte
  strTail : List Byte
  deriving DecidableEq

namespace GateRoomServerPack

def fields (p : GateRoomServerPack) : Fields :=
  ⟨p.strHead, p.userHashkey, p.gsHashkey, p.dataLen, p.dataMsg, p.strTail⟩

def ofFields (f : Fields) : GateRoomServerPack := ⟨f.head, f.w₀, f.w₁, f.w₂, f.body, f.tail⟩

def byteSize (self : GateRoomServerPack) : CInt := self.fields.byteSize .third

def parseFromArray (self : GateRoomServerPack) (data : List Byte) (dataLen : CInt) :
    Parsed GateRoomServerPack :=
  (self.fields.parseFromArray .third data dataLen).map ofFields

def serializeToArray (self : GateRoomServerPack) (data : List Byte) (dataLen : CInt) :
    Option (Bool × List Byte) :=
  self.fields.serializeToArray .third data dataLen

end GateRoomServerPack

/-- The packets a function declares without an initialiser. Their integers are
whatever was there; `ParseFromArray` sets them before it succeeds. -/
def StruCytPacket.fresh : StruCytPacket := ⟨[], 0, 0, 0, [], []⟩

def GateRoomServerPack.fresh : GateRoomServerPack := ⟨[], 0, 0, 0, [], []⟩

/-- `"123"` and `"456"`, the head and tail every packet the servers build has. -/
def packHead : List Byte := [0x31, 0x32, 0x33]
def packTail : List Byte := [0x34, 0x35, 0x36]

end Miku
