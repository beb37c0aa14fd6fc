import Mathlib.Logic.Function.Basic
import MikuServer.Impl.Dispatchers

/-!
# The threads of the dispatchers (`CheckOutput` of `zzm_common/dispatcher.cpp`)

Each dispatcher has a thread, which holds `m_lockoutput` while it calls
`CheckBusiness` of every item. `LoadObject` and `UnLoadObject` hold `m_lock`, so that
nobody else changes a vector meanwhile, and wait for the `m_lockoutput` of the
dispatcher whose vector they change. A `CheckBusiness` calls neither of them.
-/

namespace Miku.ZzmCommon

/-- Where `CheckOutput` is: before `Lock`; at the `for`, with `iter` at an item or at the end; in
the `CheckBusiness` of an item. -/
inductive CheckPlace
  | unlocked
  | items (iter : Nat)
  | business (iter : Nat) (item : DispatchItem)
  deriving DecidableEq

/-- The dispatchers, their threads, and the calls of `CheckBusiness` that each thread has begun. -/
structure DispatchThreads where
  dispatchers : Dispatchers
  place : Nat → CheckPlace
  called : Nat → List DispatchItem

inductive DispatchEvent
  | lock (i : Nat)
  | checkBusiness (i : Nat)
  /-- `CheckBusiness` returns. -/
  | checked (i : Nat)
  | unlock (i : Nat)
  | loadObject (client : Option ClientPtr) (value : ValuePtr)
  | unLoadObject (client : Option ClientPtr) (value : ValuePtr)
  deriving DecidableEq

namespace DispatchThreads

/-- `Active` has made the threads. -/
def start (dispatchers : Dispatchers) : DispatchThreads := ⟨dispatchers, fun _ => .unlocked, fun _ => []⟩

/-- The vector of a dispatcher. -/
def items (self : DispatchThreads) (i : Nat) : List DispatchItem :=
  (self.dispatchers.dispatchers[i]?.map Dispatcher.outputvect).getD []

def setPlace (self : DispatchThreads) (i : Nat) (place : CheckPlace) : DispatchThreads :=
  { self with place := Function.update self.place i place }

/-- The dispatcher whose `m_lockoutput` a call waits for. -/
def waitsFor (self : DispatchThreads) (client : ClientPtr) : Option Nat :=
  let id := self.dispatchers.dispatchID client
  if self.dispatchers.dispatchers.length ≤ id ∨ id < 0 then none else some id.toNat

def step (self : DispatchThreads) : DispatchEvent → Option DispatchThreads
  | .lock i =>
    if i < self.dispatchers.dispatchers.length ∧ self.place i = .unlocked then some (self.setPlace i (.items 0)) else none
  | .checkBusiness i =>
    match self.place i with
    | .items iter => (self.items i)[iter]?.map fun item =>
        { self.setPlace i (.business iter item) with
          called := Function.update self.called i (self.called i ++ [item]) }
    | _ => none
  | .checked i =>
    match self.place i with
    | .business iter _ => some (self.setPlace i (.items (iter + 1)))
    | _ => none
  | .unlock i =>
    if self.place i = .items (self.items i).length then some (self.setPlace i .unlocked) else none
  | .loadObject client value =>
    if client = none ∨ self.place self.dispatchers.loadDispatcherID = .unlocked then do
      let (_, dispatchers) ← self.dispatchers.loadObject client value
      some { self with dispatchers := dispatchers }
    else none
  | .unLoadObject client value =>
    if ∀ i ∈ client.bind self.waitsFor, self.place i = .unlocked then do
      let (_, dispatchers) ← self.dispatchers.unLoadObject client value
      some { self with dispatchers := dispatchers }
    else none

end DispatchThreads

end Miku.ZzmCommon
