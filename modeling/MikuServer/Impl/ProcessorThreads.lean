import Mathlib.Data.List.Range

/-!
# The threads of a processor

`StartProcessor` creates the threads that run `DealWithDataThread`, and
`StopProcessor` waits for them. The two functions are the same in four classes
(`room_server/cs_processor.cpp`, `room_server/ds_processor.cpp`,
`center_server/rs_processor.cpp`, `gate_server/rs_processor.cpp`), but for
`SendConnectDsRQ`, which a `DirectorServerProcessor` calls after its loop.
-/

namespace Miku

/-- A thread, named by the turn of the loop that created it. -/
abbrev Thread := Nat

/-- What the two functions call. -/
inductive ThreadCall
  | pthreadCreate (i : Nat) (ret : Int)
  | sendConnectDsRQ
  | pthreadJoin (threadId : Option Thread)
  | releaseAllCommand
  deriving DecidableEq

/-- The members of a processor that the two functions use, and the calls so far. A handle that
nothing has been written to is `none`. -/
structure ProcessorThreads where
  isStarted : Bool
  threadCount : Int
  threadIdPtr : List (Option Thread)
  calls : List ThreadCall
  deriving DecidableEq

namespace ProcessorThreads

def new : ProcessorThreads := ⟨false, 0, [], []⟩

/-- `pthread_create(&thread_id_ptr_[i], …)`, which returned `ret`. If it fails it leaves no handle. -/
def pthreadCreate (self : ProcessorThreads) (i : Nat) (ret : Int) : ProcessorThreads :=
  { self with
    threadIdPtr := if ret = 0 then self.threadIdPtr.set i (some i) else self.threadIdPtr
    calls := self.calls ++ [.pthreadCreate i ret] }

/-- The loop of `StartProcessor` from its turn `i` on, with so many left. `tmp_ret` is a `bool`. -/
def createLoop (create : Nat → Int) : Nat → Nat → ProcessorThreads → ProcessorThreads
  | 0, _, self => self
  | left + 1, i, self =>
    let tmpRet := decide (create i ≠ 0)
    let self := self.pthreadCreate i (create i)
    if !tmpRet then self else createLoop create left (i + 1) self

/-- `StartProcessor(thread_count)`, with the results of `pthread_create` and what is called after the loop. -/
def startThreads (after : List ThreadCall) (create : Nat → Int) (self : ProcessorThreads) (threadCount : Int) :
    Bool × ProcessorThreads :=
  if threadCount ≤ 0 then (false, self)
  else
    let self := { self with
      threadCount := threadCount
      isStarted := true
      threadIdPtr := List.replicate threadCount.toNat none }
    let self := createLoop create threadCount.toNat 0 self
    (true, { self with calls := self.calls ++ after })

/-- `StopProcessor()`. -/
def stopThreads (self : ProcessorThreads) : ProcessorThreads :=
  { self with
    isStarted := false
    calls := self.calls ++
      (List.range self.threadCount.toNat).map (fun i => .pthreadJoin (self.threadIdPtr.getD i none)) ++
      [.releaseAllCommand] }

end ProcessorThreads

open ProcessorThreads

/-- `CenterServerProcessor::StartProcessor`. -/
def RoomServer.CenterServerProcessor.startProcessor := startThreads []

/-- `DirectorServerProcessor::StartProcessor`. -/
def RoomServer.DirectorServerProcessor.startProcessor := startThreads [.sendConnectDsRQ]

/-- `RoomServerProcessor::StartProcessor` of the center server. -/
def CenterServer.RoomServerProcessor.startProcessor := startThreads []

/-- `RoomServerProcessor::StartProcessor` of the gate. -/
def GateServer.RoomServerProcessor.startProcessor := startThreads []

end Miku
