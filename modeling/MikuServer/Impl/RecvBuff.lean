import MikuServer.Impl.Packet

/-!
# The receive buffers

`UserInfoEx` of the gate and `ClientInfoEx` of the room and center servers begin
`DealWithData` with the same lines: read up to 0x1000 bytes, put them after the
`valid_buff_len_` bytes of `recved_buff_` that are there, or at its start if
there is no room for them.
-/

namespace Miku

/-- `MaxRecvBuffLen`. -/
def maxRecvBuffLen : Nat := 0x4000

/-- `tmp_read_buff` after a `bufferevent_read` of `data`. -/
def readBuff (data : List Byte) : Option (List Byte) := memcpy (List.replicate 0x1000 0) 0 data data.length

/-- `recved_buff_` and `valid_buff_len_`. -/
structure RecvBuff where
  recvedBuff : List Byte
  validBuffLen : Int
  deriving DecidableEq

/-- A new one: `recved_buff_` holds whatever was in its memory. -/
def RecvBuff.new (mem : List Byte) : RecvBuff := ⟨mem, 0⟩

/-- The lines after the read. -/
def RecvBuff.recv (self : RecvBuff) (tmpReadBuff : List Byte) (tmpLen : Int) : Option RecvBuff :=
  if self.validBuffLen + tmpLen < maxRecvBuffLen then do
    let buff ← memcpy self.recvedBuff self.validBuffLen tmpReadBuff tmpLen
    some ⟨buff, self.validBuffLen + tmpLen⟩
  else do
    let buff ← memcpy self.recvedBuff 0 tmpReadBuff tmpLen
    some ⟨buff, tmpLen⟩

/-- `memmove(buff, buff + len, n)`. -/
def moveDown (buff : List Byte) (len n : Int) : Option (List Byte) :=
  if 0 ≤ len then memcpy buff 0 (buff.drop len.toNat) n else none

/-- What `ParseFromArray` returns and leaves, if it stays inside a block of `n` bytes. -/
def Parsed.within {α : Type} (p : Parsed α) (n : Nat) : Option (Bool × α) :=
  if inBounds n p.reads then some (p.ret, p.pack) else none

/-- The packet that the gate puts around `len` bytes of `data`. -/
def GateRoomServerPack.wrap (hashKey : CInt) (data : List Byte) (len : Int) : GateRoomServerPack where
  strHead := packHead
  userHashkey := hashKey
  gsHashkey := 0
  dataLen := cint len
  dataMsg := setData [] data len
  strTail := packTail

end Miku
