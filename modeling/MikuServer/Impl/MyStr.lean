import MikuServer.Framework.CString

/-!
# Fields of a string (`zzm_common/mystr.cpp`)

A pointer is the block of memory behind it, and a pointer into a string its offset.
None of the arguments is `NULL`.
-/

namespace Miku.ZzmCommon.MyStr

/-- `enum RETURN_CODE`. -/
inductive ReturnCode
  | success
  | failed
  deriving DecidableEq

/-- The offset of the result in `psrc`, if it is not `NULL`. -/
def memStr (psrc psub : List Byte) (iSum iLen : Int) : Option (Option Nat) :=
  (List.range (iSum - iLen + 1).toNat).findM? fun i => memEq (psrc.drop i) psub iLen

def myStrStr (psrc psub : List Byte) : Option (Option Nat) := do
  let iSum ← strlen psrc
  let iLen ← strlen psub
  memStr psrc psub (cint iSum).toInt (cint iLen).toInt

def getField (psrc pdst : List Byte) (iLen : Int) (pstart pend : List Byte) : Option (ReturnCode × List Byte) := do
  match ← myStrStr psrc pstart with
  | none => some (.failed, pdst)
  | some pS =>
    let pS := pS + (← strlen pstart)
    match ← myStrStr (psrc.drop pS) pend with
    | some pE =>
      -- `pE - pS`.
      let iCount := (cint pE).toInt
      if iCount > iLen then some (.failed, pdst)
      else do
        let pdst ← strncpy pdst (psrc.drop pS) iCount
        some (.success, pdst)
    | none => some (.failed, pdst)

def getFieldLeft (psrc pdst : List Byte) (iLen : Int) (psub : List Byte) : Option (ReturnCode × List Byte) := do
  match ← myStrStr psrc psub with
  | none => some (.failed, pdst)
  | some pS =>
    let iCount := (cint pS).toInt
    if iCount > iLen then some (.failed, pdst)
    else do
      let pdst ← strncpy pdst psrc iCount
      some (.success, pdst)

def getFieldRight (psrc pdst : List Byte) (iLen : Int) (psub : List Byte) : Option (ReturnCode × List Byte) := do
  match ← myStrStr psrc psub with
  | none => some (.failed, pdst)
  | some pS =>
    let iCount := (cint ((← strlen psrc) - pS - (← strlen psub))).toInt
    if iCount > iLen then some (.failed, pdst)
    else do
      let pdst ← strcpy pdst (psrc.drop (pS + (← strlen psub)))
      some (.success, pdst)

end Miku.ZzmCommon.MyStr
