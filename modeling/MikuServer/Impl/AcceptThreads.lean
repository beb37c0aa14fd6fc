import Mathlib.Logic.Function.Basic
import MikuServer.Framework.Mem
import MikuServer.Impl.SocketEvent

/-!
# Accepting, and closing (`zzm_common/socket_event.cpp`)

The dispatching thread runs `do_accept`, each worker `Do` and there `pipe_read_cb`,
and one thread `CheckTimeOut`. A step is what a thread does under a lock, or a read
or write of a pipe. Which context `m_pRes` gives is a parameter of `do_accept`, as
are what the clock, `pipe` and `send` give. The workers may call `ReleaseContext`,
and the owner of a context `UpdateState` and `CloseConn`, at any time.

`Start` makes the dispatching thread before `m_pThreadInfo` and the workers.
-/

namespace Miku.ZzmCommon

/-- A `CSocketContext *`. -/
abbrev ContextPtr := Nat

/-- The members that `CheckTimeOut` looks at. -/
structure ContextState where
  sock : Int
  bState : Bool
  dStateTime : BitVec 64
  deriving DecidableEq

/-- Where the dispatching thread is: not in `do_accept`; after `m_list`; before the write. -/
inductive AcceptPlace
  | idle
  | listed (pContext : ContextPtr)
  | handed
  deriving DecidableEq

/-- Where a worker is: before `pipe`; in the loop; after it has read a byte, before the lock; and at the
end of `Do`, after `pipe` has failed. -/
inductive DoPlace
  | starting
  | waiting
  | reading
  | returned
  deriving DecidableEq

/-- Whether `notify_send_fd` is the end of a pipe. -/
def DoPlace.HasPipe (place : DoPlace) : Prop := place = .waiting ∨ place = .reading

instance : DecidablePred DoPlace.HasPipe := fun _ => inferInstanceAs (Decidable (_ ∨ _))

/-- `struct StuThraedInfo`: its list, the bytes in its pipe, its worker, and the contexts whose
`m_read_event` the worker has added. -/
structure ThreadInfo where
  list : List ContextPtr
  pipe : Nat
  worker : DoPlace
  added : List ContextPtr
  deriving DecidableEq

/-- `m_iThreadCount`. -/
def threadCount : Nat := 4

/-- What a pipe holds before a write to it blocks. -/
def pipeSize : Nat := 65536

/-- `class CSocketEvent`, its threads, and what was given back to `m_pRes`. `started` is whether `Start` has
made `m_pThreadInfo` and the workers, and `checking` the context that `CheckTimeOut` has taken. -/
structure AcceptThreads where
  started : Bool
  list : List ContextPtr
  iIndex : Nat
  context : ContextPtr → ContextState
  threadInfo : Nat → ThreadInfo
  accepting : AcceptPlace
  checking : Option ContextPtr
  released : List ContextPtr

inductive AcceptEvent
  /-- `Start` sets `m_iThreadCount` and `m_pThreadInfo`, and makes the workers. -/
  | makeWorkers
  /-- A worker calls `pipe`. -/
  | makePipe (k : Nat) (fails : Bool)
  /-- `do_accept` up to the push of `m_list`, at the time `now`. -/
  | accept (fd : Int) (pContext : Option ContextPtr) (now : BitVec 64)
  /-- The next step of `do_accept`. -/
  | accepting
  /-- `pipe_read_cb` of a worker reads a byte. -/
  | readPipe (k : Nat)
  /-- It adds the events of its list. -/
  | addEvents (k : Nat)
  /-- `CheckTimeOut` takes the front of `m_list`. -/
  | take
  /-- It looks at what it has taken; `sendFails` is whether `send` gives an error that counts. -/
  | check (now : BitVec 64) (sendFails : Bool)
  /-- `ReleaseContext` of a worker. -/
  | release (pContext : ContextPtr)
  | updateState (pContext : ContextPtr) (bState bUpdateTime : Bool) (now : BitVec 64)
  | closeConn (pContext : ContextPtr)

namespace AcceptThreads

def start : AcceptThreads :=
  ⟨false, [], 0, fun _ => ⟨invalidSocket, false, 0⟩, fun _ => ⟨[], 0, .starting, []⟩, .idle, none, []⟩

def setInfo (self : AcceptThreads) (k : Nat) (info : ThreadInfo) : AcceptThreads :=
  { self with threadInfo := Function.update self.threadInfo k info }

def setContext (self : AcceptThreads) (p : ContextPtr) (context : ContextState) : AcceptThreads :=
  { self with context := Function.update self.context p context }

/-- `ReleaseContext`. -/
def releaseContext (self : AcceptThreads) (p : ContextPtr) : AcceptThreads :=
  { self with list := self.list.erase p, released := self.released ++ [p] }

/-- `bDel` of a context. -/
def bDel (context : ContextState) (iTimeout : Int) (now : BitVec 64) (sendFails : Bool) : Bool :=
  if context.sock = invalidSocket then true
  else if context.bState = false ∧ BitVec.ofInt 64 iTimeout < now - context.dStateTime then true
  else sendFails

def accept (self : AcceptThreads) (fd : Int) (pContext : Option ContextPtr) (now : BitVec 64) : Option AcceptThreads :=
  if self.accepting ≠ .idle then none
  else match pContext with
    | none => some self
    | some p => some { self.setContext p ⟨fd, false, now⟩ with list := self.list ++ [p], accepting := .listed p }

/-- There is no step while `m_iThreadCount` and `m_pThreadInfo` are not set: it would use them as they are. What
is written before the worker has a pipe wakes nobody. -/
def acceptStep (self : AcceptThreads) : Option AcceptThreads :=
  match self.accepting with
  | .idle => none
  | .listed p => if self.started = false then none else
    let i := (self.iIndex + 1) % threadCount
    let info := self.threadInfo i
    some { self.setInfo i { info with list := info.list ++ [p] } with iIndex := i, accepting := .handed }
  | .handed =>
    let info := self.threadInfo self.iIndex
    if ¬ info.worker.HasPipe then some { self with accepting := .idle }
    else if info.pipe < pipeSize then
      some { self.setInfo self.iIndex { info with pipe := info.pipe + 1 } with accepting := .idle }
    else none

def makeWorkers (self : AcceptThreads) : Option AcceptThreads :=
  if self.started then none else some { self with started := true }

def makePipe (self : AcceptThreads) (k : Nat) (fails : Bool) : Option AcceptThreads :=
  let info := self.threadInfo k
  if self.started ∧ k < threadCount ∧ info.worker = .starting then
    some (self.setInfo k { info with worker := if fails then .returned else .waiting })
  else none

def readPipe (self : AcceptThreads) (k : Nat) : Option AcceptThreads :=
  let info := self.threadInfo k
  if info.worker = .waiting ∧ 0 < info.pipe then
    some (self.setInfo k { info with pipe := info.pipe - 1, worker := .reading })
  else none

def addEvents (self : AcceptThreads) (k : Nat) : Option AcceptThreads :=
  let info := self.threadInfo k
  if info.worker = .reading then some (self.setInfo k ⟨[], info.pipe, .waiting, info.added ++ info.list⟩) else none

def take (self : AcceptThreads) : Option AcceptThreads :=
  match self.checking, self.list with
  | none, p :: list => some { self with list := list ++ [p], checking := some p }
  | _, _ => none

def check (self : AcceptThreads) (iTimeout : Int) (now : BitVec 64) (sendFails : Bool) : Option AcceptThreads :=
  self.checking.map fun p =>
    let self := { self with checking := none }
    if bDel (self.context p) iTimeout now sendFails then self.releaseContext p else self

def updateState (self : AcceptThreads) (p : ContextPtr) (bState bUpdateTime : Bool) (now : BitVec 64) : AcceptThreads :=
  let context := self.context p
  if context.bState = bState then self
  else self.setContext p
    { context with bState := bState, dStateTime := if bUpdateTime then now else context.dStateTime }

def step (iTimeout : Int) (self : AcceptThreads) : AcceptEvent → Option AcceptThreads
  | .accept fd pContext now => self.accept fd pContext now
  | .makeWorkers => self.makeWorkers
  | .makePipe k fails => self.makePipe k fails
  | .accepting => self.acceptStep
  | .readPipe k => self.readPipe k
  | .addEvents k => self.addEvents k
  | .take => self.take
  | .check now sendFails => self.check iTimeout now sendFails
  | .release p => some (self.releaseContext p)
  | .updateState p bState bUpdateTime now => some (self.updateState p bState bUpdateTime now)
  | .closeConn p => some (self.setContext p { self.context p with sock := invalidSocket })

end AcceptThreads

end Miku.ZzmCommon
