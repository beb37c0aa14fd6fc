import Mathlib.Logic.Function.Basic
import MikuServer.Framework.Mem

/-!
# The dispatchers (`zzm_common/dispatchers.cpp`, `zzm_common/dispatcher.cpp`)

A client and a value are pointers, named by their numbers; `dispatchID` is the
`m_iDispatchID` of every client. `LoadObject` and `UnLoadObject` hold `m_lock`, so
one call is one step. An access to a dispatcher that is not there has no value.
-/

namespace Miku.ZzmCommon

/-- A `CDispatchClient *` that is not `NULL`. -/
abbrev ClientPtr := Nat

/-- A `char *`. -/
abbrev ValuePtr := Nat

/-- `struct StuDispatchItem`. -/
structure DispatchItem where
  client : ClientPtr
  value : ValuePtr
  deriving DecidableEq

/-- `class CDispatcher`. -/
structure Dispatcher where
  dispatcherID : Nat
  outputvect : List DispatchItem
  deriving DecidableEq

namespace Dispatcher

def new (dispatcherID : Nat) : Dispatcher := ⟨dispatcherID, []⟩

/-- `size()`, an `unsigned int`. -/
def size (self : Dispatcher) : Nat := self.outputvect.length % 2 ^ 32

def loadSession (self : Dispatcher) (client : ClientPtr) (value : ValuePtr) : Dispatcher :=
  { self with outputvect := self.outputvect ++ [⟨client, value⟩] }

/-- `UnloadSession`, which erases the first item of the client and the value, and returns `true`. -/
def unloadSession (self : Dispatcher) (client : ClientPtr) (value : ValuePtr) : Bool × Dispatcher :=
  (true, { self with outputvect := self.outputvect.erase ⟨client, value⟩ })

end Dispatcher

/-- `class CDispatchers`. -/
structure Dispatchers where
  dispatchers : List Dispatcher
  dispatchID : ClientPtr → Int

namespace Dispatchers

def new : Dispatchers := ⟨[], fun _ => -1⟩

/-- `Initialize`, whose `int i` does not count past `INT_MAX`. -/
def init (self : Dispatchers) (uiCount : Nat) : Option Dispatchers :=
  let uiDispatcherCount := if 0 = uiCount then 1 else uiCount
  if uiDispatcherCount ≤ intMax then
    some { self with dispatchers := self.dispatchers ++ (List.range uiDispatcherCount).map .new }
  else none

/-- `m_Dispatchers[i].size()`. -/
def sizeAt (self : Dispatchers) (i : Nat) : Nat := (self.dispatchers[i]?.map Dispatcher.size).getD 0

/-- `uiLoadDispatcherID`, the first of the dispatchers that have the fewest items. -/
def loadDispatcherID (self : Dispatchers) : Nat :=
  (List.range' 1 (self.dispatchers.length - 1)).foldl (fun id i => if self.sizeAt id > self.sizeAt i then i else id) 0

def loadObject (self : Dispatchers) (client : Option ClientPtr) (value : ValuePtr) : Option (Bool × Dispatchers) :=
  match client with
  | none => some (false, self)
  | some client => do
    let id := self.loadDispatcherID
    let dispatcher ← self.dispatchers[id]?
    some (true, {
      dispatchers := self.dispatchers.set id (dispatcher.loadSession client value)
      dispatchID := Function.update self.dispatchID client dispatcher.dispatcherID })

def unLoadObject (self : Dispatchers) (client : Option ClientPtr) (value : ValuePtr) : Option (Bool × Dispatchers) :=
  match client with
  | none => some (false, self)
  | some client =>
    let id := self.dispatchID client
    if self.dispatchers.length ≤ id ∨ id < 0 then some (false, self)
    else do
      let dispatcher ← self.dispatchers[id.toNat]?
      let (ret, dispatcher) := dispatcher.unloadSession client value
      some (ret, { self with dispatchers := self.dispatchers.set id.toNat dispatcher })

end Dispatchers

end Miku.ZzmCommon
