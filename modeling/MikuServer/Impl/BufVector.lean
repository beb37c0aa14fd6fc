import MikuServer.Framework.Loop
import MikuServer.Framework.Mem

/-!
# The send buffer (`zzm_common/buf_vector.cpp`)

A vector of units of `BUF_UNIT_LENGTH` bytes, each with the places up to which it
has been written and read. Every function of `CBufVect` holds `m_lock` to its
end, so one call is one step. The data that is added is not `NULL`.
-/

namespace Miku.ZzmCommon

/-- `BUF_UNIT_LENGTH`. -/
def bufUnitLength : Nat := 10240

/-- `class CBufUnit`. -/
structure CBufUnit where
  szData : List Byte
  len : Int
  readLen : Int
  deriving DecidableEq

namespace CBufUnit

def new : CBufUnit := ⟨List.replicate bufUnitLength 0, 0, 0⟩

/-- What `AddBuf` returns, and the data that is left: `pData` and `iLen`. -/
structure Added where
  ret : Bool
  unit : CBufUnit
  data : List Byte
  len : Int

def addBuf (self : CBufUnit) (data : List Byte) (len : Int) : Option Added :=
  if len < 1 then some ⟨false, self, data, len⟩
  else
    let leftLen := bufUnitLength - self.len
    if leftLen < 1 then some ⟨true, self, data, len⟩
    else do
      let copyLen := if leftLen > len then len else leftLen
      let d ← memcpy self.szData self.len data copyLen
      let unit := { self with szData := d, len := self.len + copyLen }
      some ⟨decide (unit.len = (bufUnitLength : Int)), unit, data.drop copyLen.toNat, len - copyLen⟩

/-- The bytes from `m_szData + m_iReadLen` on. -/
def getBuf (self : CBufUnit) : List Byte := self.szData.drop self.readLen.toNat

def getBufLen (self : CBufUnit) : Int := self.len - self.readLen

def delbuf (self : CBufUnit) (len : Int) : CBufUnit :=
  if len < self.len - self.readLen then { self with readLen := self.readLen + len }
  else { self with readLen := self.len }

end CBufUnit

/-- `class CBufVect`: the units of `m_vect`. -/
structure CBufVect where
  vect : List CBufUnit
  deriving DecidableEq

namespace CBufVect

def new : CBufVect := ⟨[]⟩

/-- A turn of the loop of `AddBuf`, whose `pUnit` is the last unit. -/
def addTurn (s : CBufVect × List Byte × Int) : Option ((CBufVect × List Byte × Int) × Bool) :=
  let (self, data, len) := s
  if len > 0 then do
    let unit ← self.vect.getLast?
    let r ← unit.addBuf data len
    let vect := self.vect.dropLast ++ [r.unit]
    some ((⟨if r.ret then vect ++ [.new] else vect⟩, r.data, r.len), true)
  else some (s, false)

def addBuf (self : CBufVect) (fuel : Nat) (data : List Byte) (len : Int) : Option CBufVect := do
  let vect := if self.vect.length < 1 then self.vect ++ [.new] else self.vect
  let s ← doWhile addTurn fuel (⟨vect⟩, data, len)
  some s.1

/-- What `GetBuf` returns, `none` being `NULL`, and `iBufLen`. -/
def getBuf (self : CBufVect) : Option (List Byte) × Int :=
  match self.vect with
  | [] => (none, 0)
  | unit :: _ => (some unit.getBuf, unit.getBufLen)

def delBuf (self : CBufVect) (len : Int) : CBufVect :=
  match self.vect with
  | [] => self
  | unit :: rest =>
    let unit := unit.delbuf len
    if unit.getBufLen < 1 then ⟨rest⟩ else ⟨unit :: rest⟩

def releaseBuf (_ : CBufVect) : CBufVect := ⟨[]⟩

end CBufVect

end Miku.ZzmCommon
