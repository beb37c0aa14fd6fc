import MikuServer.Framework.Mem

/-!
# The ring of messages (`zzm_common/circle_buff.cpp`)

An array of `BuffStruc`s used as a ring, of which one slot stays free; a message
that finds no other slot takes that of the oldest. Every function holds `m_lock`
from its first use of a member, so one call is one step.
-/

namespace Miku.ZzmCommon

/-- `MaxBuffLen`. -/
def maxBuffLen : Nat := 0x2000

/-- `struct BuffStruc`. -/
structure BuffStruc where
  mszBuff : List Byte
  miLen : Int
  deriving DecidableEq

/-- `BuffStruc()`. -/
def BuffStruc.new : BuffStruc := ⟨List.replicate (maxBuffLen + 1) 0, 0⟩

/-- `class CCircleBuff`. -/
structure CCircleBuff where
  mszTCPData : Option (List BuffStruc)
  miBuffQueueSize : Int
  miCountBuff : Int
  miHeadPos : Int
  miTailPos : Int
  miLastTailPos : Int
  deriving DecidableEq

/-- `mszTCPData[i]`. -/
def buffAt (slots : List BuffStruc) (i : Int) : Option BuffStruc := if 0 ≤ i then slots[i.toNat]? else none

namespace CCircleBuff

def init (dataBuffLen : Int) : CCircleBuff where
  mszTCPData := some (List.replicate dataBuffLen.toNat .new)
  miBuffQueueSize := dataBuffLen
  miCountBuff := 0
  miHeadPos := 0
  miTailPos := 0
  miLastTailPos := 0

def clear (self : CCircleBuff) : CCircleBuff :=
  { self with miHeadPos := self.miTailPos, miLastTailPos := self.miTailPos, miCountBuff := 0 }

/-- `(pos + 1) % miBuffQueueSize`. -/
def next (self : CCircleBuff) (pos : Int) : Int := (pos + 1) % self.miBuffQueueSize

/-- `mszTCPData[pos]` is given a message. -/
def store (slots : List BuffStruc) (pos : Int) (buffer : List Byte) (length : Int) : Option (List BuffStruc) := do
  let u ← buffAt slots pos
  let b ← memcpy u.mszBuff 0 buffer length
  some (slots.set pos.toNat ⟨b, length⟩)

/-- `PushTCPData`, for an `apBuffer` that is not `NULL`. -/
def pushTCPData (self : CCircleBuff) (buffer : List Byte) (length : Int) : Option CCircleBuff :=
  if length ≤ 0 then some self
  else
    match self.mszTCPData with
    | none => some self
    | some slots =>
      if self.miCountBuff = 0 ∧ self.miHeadPos = self.miTailPos then do
        let slots ← store slots self.miHeadPos buffer length
        some { self with
          mszTCPData := some slots
          miLastTailPos := self.miTailPos
          miTailPos := self.next self.miTailPos
          miCountBuff := self.miCountBuff + 1 }
      else do
        let slots ← store slots self.miTailPos buffer length
        let tailPos := self.next self.miTailPos
        -- A head that the tail has reached goes on to the next message.
        let (headPos, countBuff) :=
          if self.miHeadPos = tailPos then (self.next self.miHeadPos, self.miCountBuff - 1)
          else (self.miHeadPos, self.miCountBuff)
        some { self with
          mszTCPData := some slots
          miLastTailPos := self.miTailPos
          miTailPos := tailPos
          miHeadPos := headPos
          miCountBuff := countBuff + 1 }

/-- What `ReadTCPData` returns: its value, `aoSocketDataInfo`, and the ring. -/
structure Read where
  ret : Bool
  info : BuffStruc
  buff : CCircleBuff
  deriving DecidableEq

def readTCPData (self : CCircleBuff) (info : BuffStruc) : Option Read :=
  match self.mszTCPData with
  | none => some ⟨false, info, self⟩
  | some slots =>
    if self.miCountBuff ≤ 0 then some ⟨false, info, { self with miCountBuff := 0 }⟩
    else do
      let u ← buffAt slots self.miHeadPos
      let b ← memcpy info.mszBuff 0 u.mszBuff maxBuffLen
      some ⟨true, ⟨b, u.miLen⟩, { self with
        miHeadPos := self.next self.miHeadPos
        miCountBuff := self.miCountBuff - 1 }⟩

end CCircleBuff

end Miku.ZzmCommon
