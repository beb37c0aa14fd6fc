import MikuServer.Impl.BufVector

/-!
# Sending (`zzm_common/socket_event.cpp`, `zzm_common/socket_event.h`)

The threads that are in `CSocketEvent::SendTcpData` for one context, and the
worker that runs `do_write` for it. A step is a call of the `CBufVect`, or what
a thread does to the members under the context's lock, or takes the lock or
releases it. libevent's part is whether the write event is added; it may call
`do_write` at any time. The context is not closed, so `send` gives no other error
than `EAGAIN`.
-/

namespace Miku.ZzmCommon

/-- `INVALID_SOCKET`. -/
def invalidSocket : Int := -1

/-- The members of `class CSocketContext` that sending uses; `writeAdded` says whether
`m_write_event` is added. -/
structure CSocketContext where
  sock : Int
  bUse : Bool
  sendvectbuf : CBufVect
  bSending : Bool
  writeAdded : Bool
  deriving DecidableEq

namespace CSocketContext

/-- What `Clear` leaves, with a socket and an owner. -/
def opened (sock : Int) : CSocketContext := ⟨sock, true, .new, false, false⟩

def eventAdd (self : CSocketContext) : CSocketContext := { self with writeAdded := true }

def eventDel (self : CSocketContext) : CSocketContext := { self with writeAdded := false }

end CSocketContext

/-- Where a thread is in `SendTcpData`: not in it; after `AddBuf`; after `Lock`; after `event_add`; and
before `UnLock`. -/
inductive SenderPlace
  | idle
  | added
  | locked
  | eventAdded
  | unlock
  deriving DecidableEq

/-- Where the worker is: not in `do_write`; before a turn of its loop; after `GetBuf`; after `event_del`;
and before `UnLock`. -/
inductive WorkerPlace
  | idle
  | turn (iCount : Nat)
  | got (iCount : Nat) (iSize : Int)
  | eventDeleted
  | unlock
  deriving DecidableEq

/-- The context, whether its `m_lock` is held, and the threads. -/
structure SendThreads (ι : Type) where
  context : CSocketContext
  locked : Bool
  sender : ι → SenderPlace
  worker : WorkerPlace

inductive SendEvent (ι : Type)
  | sendTcpData (i : ι) (bRunning : Bool) (apSendBuff : List Byte) (aiSendLen : Int)
  | sender (i : ι)
  | doWrite
  | worker (iSend : Int)

namespace SendThreads

variable {ι : Type}

def start (sock : Int) : SendThreads ι := ⟨.opened sock, false, fun _ => .idle, .idle⟩

/-- The next step of `do_write`; `iSend` is what `send` gives. -/
def workerStep (self : SendThreads ι) (iSend : Int) : Option (SendThreads ι) :=
  match self.worker with
  | .idle => none
  | .turn 0 => some { self with worker := .unlock }
  | .turn (iCount + 1) => some { self with worker := .got iCount self.context.sendvectbuf.getBuf.2 }
  | .got iCount iSize =>
    if iSize < 1 then some { self with context := self.context.eventDel, worker := .eventDeleted }
    else if iSend > iSize ∨ iSend < -1 then none
    else if iSend > 0 then
      some { self with
        context := { self.context with sendvectbuf := self.context.sendvectbuf.delBuf iSend }
        worker := .turn iCount }
    else some { self with worker := .unlock }
  | .eventDeleted => some { self with context := { self.context with bSending := false }, worker := .unlock }
  | .unlock => some { self with locked := false, worker := .idle }

variable [DecidableEq ι]

def goTo (self : SendThreads ι) (i : ι) (place : SenderPlace) : SendThreads ι :=
  { self with sender := Function.update self.sender i place }

/-- `SendTcpData` up to the lock; `apSendBuff` is `aiSendLen` bytes. -/
def sendTcpData (self : SendThreads ι) (i : ι) (bRunning : Bool) (apSendBuff : List Byte) (aiSendLen : Int) :
    Option (SendThreads ι) :=
  if self.sender i ≠ .idle then none
  else if aiSendLen < 0 ∨ bRunning = false then some self
  else if aiSendLen ≠ apSendBuff.length then none
  else do
    let sendvectbuf ← self.context.sendvectbuf.addBuf (apSendBuff.length + 1) apSendBuff aiSendLen
    some { self.goTo i .added with context := { self.context with sendvectbuf := sendvectbuf } }

/-- The next step of `SendTcpData`. -/
def senderStep (self : SendThreads ι) (i : ι) : Option (SendThreads ι) :=
  match self.sender i with
  | .idle => none
  | .added => if self.locked then none else some { self.goTo i .locked with locked := true }
  | .locked =>
    if self.context.bSending = false ∧ invalidSocket ≠ self.context.sock ∧ self.context.bUse = true then
      some { self.goTo i .eventAdded with context := self.context.eventAdd }
    else some (self.goTo i .unlock)
  | .eventAdded => some { self.goTo i .unlock with context := { self.context with bSending := true } }
  | .unlock => some { self.goTo i .idle with locked := false }

def step (self : SendThreads ι) : SendEvent ι → Option (SendThreads ι)
  | .sendTcpData i bRunning apSendBuff aiSendLen => self.sendTcpData i bRunning apSendBuff aiSendLen
  | .sender i => self.senderStep i
  | .doWrite =>
    if self.worker = .idle ∧ self.locked = false then some { self with locked := true, worker := .turn 5 } else none
  | .worker iSend => self.workerStep iSend

end SendThreads

end Miku.ZzmCommon
