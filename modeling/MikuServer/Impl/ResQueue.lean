import Mathlib.Data.Finset.Card
import Mathlib.Data.Finset.Insert
import Mathlib.Data.Finset.Lattice.Basic

/-!
# The pool of objects (`zzm_common/resqueue.h`)

An object is named by its address. `Get` and `Put` hold `m_lock` from their first
use of a member to the last, so one call is one step. The sizes are
`unsigned int`, and the clock's readings are `DWORD`, which has 64 bits.
-/

namespace Miku.ZzmCommon

/-- A `T *` that is not `NULL`. -/
abbrev Res := Nat

/-- What `new T()` gives while the objects `live` exist, and `none` where it throws. An object
that exists is not given again; one that was deleted may be. -/
structure NewRes where
  get : Finset Res → Option Res
  fresh : ∀ {live p}, get live = some p → p ∉ live

/-- `class CResQueue`. A key of `m_ResMap` is its own value, so the map is the set of its keys. -/
structure CResQueue where
  resMap : Finset Res
  resList : List Res
  iMinSize : UInt32
  iIncrease : UInt32
  iMaxSize : UInt32
  dwMaxTime : UInt64

namespace CResQueue

def new : CResQueue := ⟨∅, [], 0, 0, 0, 0⟩

/-- The loop of `Increase`. -/
def increaseLoop (newRes : NewRes) (resMap : Finset Res) : Nat → List Res → Bool × List Res
  | 0, resList => (true, resList)
  | i + 1, resList =>
    match newRes.get (resList.toFinset ∪ resMap) with
    | some pRes => increaseLoop newRes resMap i (resList ++ [pRes])
    | none => (false, resList)

def increase (self : CResQueue) (newRes : NewRes) (now : UInt64) (iNum : UInt32) : Bool × CResQueue :=
  let (ret, resList) := increaseLoop newRes self.resMap iNum.toNat self.resList
  (ret, { self with dwMaxTime := now, resList := resList })

/-- What `Descend` returns, the objects that it deletes, and the pool. -/
def descend (self : CResQueue) (iNum : UInt32) : Bool × List Res × CResQueue :=
  if self.resList.length < iNum.toNat then (false, [], self)
  else (false, self.resList.take iNum.toNat, { self with resList := self.resList.drop iNum.toNat })

def init (self : CResQueue) (newRes : NewRes) (now : UInt64) (iMinSize iIncrease iMaxSize : UInt32) :
    Bool × CResQueue :=
  if iMinSize < 1 then (false, self)
  else
    match increase { self with resList := [], resMap := ∅ } newRes now iMinSize with
    | (false, self) => (false, self)
    | (true, self) => (true, { self with iMinSize := iMinSize, iIncrease := iIncrease, iMaxSize := iMaxSize })

/-- The object at the front goes into use, if it is not the last. -/
def takeFront (self : CResQueue) : Option Res × CResQueue :=
  match self.resList with
  | pReturn :: rest =>
    if self.resList.length > 1 then
      (some pReturn, { self with resList := rest, resMap := insert pReturn self.resMap })
    else (none, self)
  | [] => (none, self)

/-- The growth in `Get`. -/
def grow (self : CResQueue) (newRes : NewRes) (now : UInt64) : CResQueue :=
  let iCount := UInt32.ofNat (self.resList.length + self.resMap.card)
  if iCount < self.iMaxSize then
    let iNum := if self.iIncrease > self.iMaxSize - iCount then self.iMaxSize - iCount else self.iIncrease
    (self.increase newRes now iNum).2
  else self

def get (self : CResQueue) (newRes : NewRes) (now : UInt64) : Option Res × CResQueue :=
  if self.resList.length > 1 then self.takeFront else (self.grow newRes now).takeFront

/-- An object in use becomes free. -/
def giveBack (self : CResQueue) (pData : Res) : CResQueue :=
  if pData ∈ self.resMap then
    { self with resList := self.resList ++ [pData], resMap := self.resMap.erase pData }
  else self

/-- The second half of `Put`: the objects that are deleted, and the pool. -/
def shrink (self : CResQueue) (dwCurrent : UInt64) : List Res × CResQueue :=
  if self.iIncrease > 0 then
    let iCount := UInt32.ofNat self.resList.length
    if iCount ≥ self.iIncrease * 2 ∧ iCount ≥ self.iMinSize + self.iIncrease then
      if dwCurrent - self.dwMaxTime > 60000 then
        let (_, deleted, self) := self.descend self.iIncrease
        (deleted, { self with dwMaxTime := dwCurrent })
      else ([], self)
    else ([], { self with dwMaxTime := dwCurrent })
  else ([], self)

/-- `Put`, with the objects that it deletes; `none` is `NULL`. -/
def put (self : CResQueue) (pData : Option Res) (dwCurrent : UInt64) : List Res × CResQueue :=
  match pData with
  | none => ([], self)
  | some pData => (self.giveBack pData).shrink dwCurrent

/-- A call, with what `new` and the clock give. -/
inductive Call
  | get (newRes : NewRes) (now : UInt64)
  | put (pData : Option Res) (now : UInt64)

def step (self : CResQueue) : Call → CResQueue
  | .get newRes now => (self.get newRes now).2
  | .put pData now => (self.put pData now).2

end CResQueue

end Miku.ZzmCommon
