import MikuServer.Framework.Mem

/-!
# The byte buffer (`common/circle_buff.cpp`)

`buff_header_` and `buff_tail_` are offsets into `buff_`, and `buff_len_` is its
length. A `memcpy` that leaves an array has no value. Every function holds
`buff_lock_`, so one call is one step.
-/

namespace Miku.Common

/-- `class CircleBuff`. -/
structure CircleBuff where
  buff : List Byte
  header : Nat
  tail : Nat
  remainLen : Int
  deriving DecidableEq

namespace CircleBuff

def buffLen (self : CircleBuff) : Int := self.buff.length

/-- `CircleBuff(buff_len)`; `buff` is what `new char[buff_len]` gives. -/
def new (buff : List Byte) : CircleBuff := ⟨buff, 0, 0, buff.length⟩

def addBuff (self : CircleBuff) (buff : List Byte) (buffLen : Int) : Option (Bool × CircleBuff) :=
  if buffLen > self.buffLen then some (false, self)
  else if self.remainLen < buffLen then some (false, self)
  else if self.tail ≥ self.header then
    let tailEndLen := self.buffLen - self.tail
    if tailEndLen ≥ buffLen then do
      let b ← memcpy self.buff self.tail buff buffLen
      let tail := self.tail + buffLen.toNat
      some (true, { self with
        buff := b
        remainLen := self.remainLen - buffLen
        tail := if tail = self.buff.length then 0 else tail })
    else do
      let b ← memcpy self.buff self.tail buff tailEndLen
      let b ← memcpy b 0 (buff.drop tailEndLen.toNat) (buffLen - tailEndLen)
      some (true, { self with
        buff := b
        tail := (buffLen - tailEndLen).toNat
        remainLen := self.remainLen - buffLen })
  else do
    let b ← memcpy self.buff self.tail buff buffLen
    some (true, { self with
      buff := b
      tail := self.tail + buffLen.toNat
      remainLen := self.remainLen - buffLen })

/-- What `GetBuff` returns: its value, `buff_out`, `len_out`, and the object. -/
structure Got where
  ret : Bool
  buffOut : List Byte
  lenOut : Int
  circle : CircleBuff
  deriving DecidableEq

/-- The members after all data has been copied out. -/
def resetBuff (self : CircleBuff) : CircleBuff := { self with remainLen := self.buffLen, header := 0, tail := 0 }

/-- `GetBuff`, for a `buff_out` that is not `NULL`. -/
def getBuff (self : CircleBuff) (buffOut : List Byte) (lenIn : Int) : Option Got :=
  let stored := self.buffLen - self.remainLen
  let headerEndLen := self.buffLen - self.header
  if stored > lenIn then
    if self.tail ≥ self.header then do
      let out ← memcpy buffOut 0 (self.buff.drop self.header) lenIn
      some ⟨true, out, lenIn, { self with header := self.header + lenIn.toNat, remainLen := self.remainLen + lenIn }⟩
    else if headerEndLen ≥ lenIn then do
      let out ← memcpy buffOut 0 (self.buff.drop self.header) lenIn
      some ⟨true, out, lenIn, { self with header := self.header + lenIn.toNat, remainLen := self.remainLen + lenIn }⟩
    else do
      let out ← memcpy buffOut 0 (self.buff.drop self.header) headerEndLen
      let out ← memcpy out headerEndLen self.buff (lenIn - headerEndLen)
      some ⟨true, out, lenIn, { self with
        header := (lenIn - headerEndLen).toNat
        remainLen := self.remainLen + lenIn }⟩
  else if self.tail ≥ self.header then do
    let out ← memcpy buffOut 0 (self.buff.drop self.header) (self.tail - self.header)
    some ⟨true, out, stored, self.resetBuff⟩
  else do
    let out ← memcpy buffOut 0 (self.buff.drop self.header) headerEndLen
    -- The second part goes to the start of `buff_out`, over the first.
    let out ← memcpy out 0 self.buff self.tail
    some ⟨true, out, stored, self.resetBuff⟩

end CircleBuff

end Miku.Common
