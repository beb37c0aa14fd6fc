import MikuServer.Framework.Mem
import MikuServer.Framework.Loop

/-!
# The queue between threads (`common/circle_list.cpp`)

An array of `UnitStruct`s of 0x1000 bytes each, used as a ring. A message longer
than one slot takes several, chained by `has_child`. Every function holds
`list_lock_` from its first line to its last, so one call is one step.

`GetBuffer`'s two loops run over at most as many slots as there are
(`doWhile`'s fuel): going on past that, they would go round for ever.
-/

namespace Miku

/-- `MaxSizePerBuff`. -/
def maxSizePerBuff : Nat := 0x1000

/-- `struct UnitStruct`. -/
structure UnitStruct where
  buff : List Byte
  len : Int
  hasChild : Bool
  deriving DecidableEq

/-- `UnitStruct()`. -/
def UnitStruct.init : UnitStruct := ⟨List.replicate maxSizePerBuff 0, 0, false⟩

/-- `class CircleList`. -/
structure CircleList where
  maxStruSize : Int
  usingSize : Int
  dataPtr : Option (List UnitStruct)
  startPosIndex : Int
  endPosIndex : Int
  deriving DecidableEq

/-- `data_ptr_[i]`. -/
def unitAt (slots : List UnitStruct) (i : Int) : Option UnitStruct :=
  if 0 ≤ i then slots[i.toNat]? else none

namespace CircleList

/-- `CircleList(stru_size)`. -/
def new (struSize : Int) : CircleList where
  maxStruSize := struSize
  usingSize := 0
  dataPtr := if 0 < struSize then some (List.replicate struSize.toNat .init) else none
  startPosIndex := 0
  endPosIndex := 0

def initBuffer (_ : CircleList) (maxStruSize : Int) : CircleList where
  maxStruSize := maxStruSize
  usingSize := 0
  dataPtr := some (List.replicate maxStruSize.toNat .init)
  startPosIndex := 0
  endPosIndex := 0

/-- One slot filled at `end_pos_index_`, as each branch of `AddBuffer` does it. -/
def fillSlot (self : CircleList) (slots : List UnitStruct) (buff : List Byte) (len : Int) (hasChild : Bool) :
    Option CircleList := do
  let u ← unitAt slots self.endPosIndex
  let b ← memcpy u.buff 0 buff len
  let e := self.endPosIndex + 1
  some { self with
    dataPtr := some (slots.set self.endPosIndex.toNat ⟨b, len, hasChild⟩)
    endPosIndex := if e ≥ self.maxStruSize then 0 else e
    usingSize := self.usingSize + 1 }

/-- The loop over the parts of a long message, with `k` of them left. The part
is always copied from the start of `buff`. -/
def fillParts (buff : List Byte) (lastLittlePackLen : Int) : Nat → CircleList → Option CircleList
  | 0, self => some self
  | k + 1, self => do
    let slots ← self.dataPtr
    let self ←
      if k ≠ 0 then self.fillSlot slots buff maxSizePerBuff true
      else if lastLittlePackLen = 0 then self.fillSlot slots buff maxSizePerBuff false
      else self.fillSlot slots buff lastLittlePackLen false
    fillParts buff lastLittlePackLen k self

/-- `AddBuffer(buff, len)`. The branch for long messages ends in the function's
last `return false`. -/
def addBuffer (self : CircleList) (buff : List Byte) (len : Int) : Option (Bool × CircleList) :=
  match self.dataPtr with
  | none => some (false, self)
  | some slots =>
    if len > maxSizePerBuff then
      let last := len % maxSizePerBuff
      let count := if 0 ≠ last then len / maxSizePerBuff + 1 else len / maxSizePerBuff
      if self.maxStruSize - self.usingSize < count then some (false, self)
      else do
        let self ← fillParts buff last count.toNat self
        some (false, self)
    else if self.startPosIndex ≠ self.endPosIndex ∨ self.usingSize = 0 then do
      let self ← self.fillSlot slots buff len false
      some (true, self)
    else some (false, self)

/-- The variables of `GetBuffer`'s loops, and the slots they have looked at. -/
structure Scan where
  outLen : Int
  index : Int
  startPosIndex : Int
  seen : List Int
  deriving DecidableEq

/-- `tmp_start_pos_index + tmp_index`. -/
def Scan.pos (s : Scan) : Int := s.startPosIndex + s.index

def Scan.first (startPosIndex : Int) : Scan := ⟨0, -1, startPosIndex, []⟩

/-- `tmp_index ++`, with the wrap-around. -/
def Scan.advance (maxStruSize : Int) (s : Scan) : Scan :=
  let i := s.index + 1
  let start := if s.startPosIndex + i = maxStruSize then 0 - i else s.startPosIndex
  ⟨s.outLen, i, start, s.seen ++ [start + i]⟩

/-- A turn of the loop that adds up the lengths. -/
def measureTurn (maxStruSize : Int) (slots : List UnitStruct) (s : Scan) : Option (Scan × Bool) := do
  let s := s.advance maxStruSize
  let u ← unitAt slots s.pos
  if u.len ≤ 0 then some (s, false)
  else some ({ s with outLen := s.outLen + u.len }, u.hasChild)

/-- A turn of the loop that copies: its variables, `data_ptr_` and `out_buff`. -/
def copyTurn (maxStruSize : Int) (t : Scan × List UnitStruct × List Byte) :
    Option ((Scan × List UnitStruct × List Byte) × Bool) := do
  let (s, slots, out) := t
  let s := s.advance maxStruSize
  let u ← unitAt slots s.pos
  if u.len ≤ 0 then some ((s, slots, out), false)
  else do
    let out ← memcpy out s.outLen u.buff u.len
    let slots := slots.set s.pos.toNat ⟨List.replicate maxSizePerBuff 0, 0, u.hasChild⟩
    some (({ s with outLen := s.outLen + u.len }, slots, out), u.hasChild)

/-- What `GetBuffer` returns: its value, `out_buff`, `out_len`, and the list. -/
structure Got where
  ret : Bool
  outBuff : List Byte
  outLen : Int
  list : CircleList
  deriving DecidableEq

/-- `GetBuffer(out_buff, max_buff_len, out_len)`. -/
def getBuffer (self : CircleList) (outBuff : List Byte) (maxBuffLen outLen : Int) : Option Got :=
  match self.dataPtr with
  | none => some ⟨false, outBuff, outLen, self⟩
  | some slots =>
    if self.startPosIndex = self.endPosIndex ∧ self.usingSize = 0 then
      some ⟨false, outBuff, outLen, self⟩
    else do
      let s ← doWhile (measureTurn self.maxStruSize slots) slots.length (.first self.startPosIndex)
      if s.outLen ≥ maxBuffLen then some ⟨false, outBuff, outLen, self⟩
      else
        let packCount := s.index + 1
        let (t, slots, outBuff) ←
          doWhile (copyTurn self.maxStruSize) slots.length (.first self.startPosIndex, slots, outBuff)
        let start := t.startPosIndex + t.index + 1
        some ⟨true, outBuff, s.outLen, { self with
          dataPtr := some slots
          startPosIndex := if start = self.maxStruSize then 0 else start
          usingSize := self.usingSize - packCount }⟩

def releaseBuffer (self : CircleList) : CircleList :=
  { self with usingSize := 0, startPosIndex := 0, endPosIndex := 0 }

end CircleList

end Miku
