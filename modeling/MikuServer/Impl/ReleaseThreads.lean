import Mathlib.Logic.Function.Basic

/-!
# The end of a gate's connection (`room_server/client_info_list.cpp`, `room_server/gs_processor.cpp`)

The event thread runs `ClientInfoList::ReleaseUserInfo`, which joins the
`DealWithDataThread` of the connection; that thread runs the commands of the
packets in its queue. A command is the calls it makes that use a mutex, in any
order: most lock and unlock one, and `GetFirstUser` keeps that of the room's
users until the `GetNextUser` that reaches the end.

A step locks or unlocks one mutex. A thread at a mutex that has an owner, and
the event thread at a join before the end of the thread that it joins, have no
step.
-/

namespace Miku.RoomServer

/-- `list_lock_` of the `ClientInfoList`, `list_mutex_` of the `RoomManager`, `list_lock_` of a room's
`UserInfoList`, `channel_list_lock_` of a room, and the `list_lock_`s of the queues. -/
inductive Mutex
  | clientList
  | roomManager
  | userList (roomId : Int)
  | channelList (roomId : Int)
  | circleList
  | sendList
  deriving DecidableEq

inductive Action
  | lock (m : Mutex)
  | unlock (m : Mutex)
  deriving DecidableEq

/-- A call that uses a mutex. -/
inductive Call
  | getBuffer
  | getUserByHashkey
  | roomManager
  | userInfoList (roomId : Int)
  | getFirstUser (roomId : Int) (empty : Bool)
  | getNextUser (roomId : Int) (atEnd : Bool)
  | channelList (roomId : Int)
  | sendData
  deriving DecidableEq

def Call.actions : Call → List Action
  | .getBuffer => [.lock .circleList, .unlock .circleList]
  | .getUserByHashkey => [.lock .clientList, .unlock .clientList]
  | .roomManager => [.lock .roomManager, .unlock .roomManager]
  | .userInfoList roomId => [.lock (.userList roomId), .unlock (.userList roomId)]
  | .getFirstUser roomId empty =>
    if empty then [.lock (.userList roomId), .unlock (.userList roomId)] else [.lock (.userList roomId)]
  | .getNextUser roomId atEnd => if atEnd then [.unlock (.userList roomId)] else []
  | .channelList roomId => [.lock (.channelList roomId), .unlock (.channelList roomId)]
  | .sendData => [.lock .sendList, .unlock .sendList]

/-- `SendDataToRoomAllUser`, in a room with `users` users whose gates are all there. -/
def sendDataToRoomAllUser (roomId : Int) : (users : Nat) → List Call
  | 0 => [.roomManager, .getFirstUser roomId true]
  | users + 1 => .roomManager :: .getFirstUser roomId false :: (List.range (users + 1)).flatMap fun i =>
      [.getUserByHashkey, .sendData, .getNextUser roomId (i = users)]

inductive ReleaseThread
  | event
  | worker
  deriving DecidableEq

/-- Where the event thread is in `ReleaseUserInfo`: not in it; before the mutex; before `is_started_`
is set; at the join; before `Clear` and `Put`; and before it gives the mutex back. -/
inductive ReleasePlace
  | idle
  | lock
  | stop
  | join
  | put
  | unlock
  deriving DecidableEq

/-- The mutexes, `is_started_`, and the threads: what is left of the turn of `DealWithDataThread`, and
`none` after its end. -/
structure ReleaseThreads where
  owner : Mutex → Option ReleaseThread
  isStarted : Bool
  event : ReleasePlace
  worker : Option (List Action)

/-- `ErrorRead` comes for the gate; the event thread's next step; a turn of `DealWithDataThread` with the
calls of the command, if there is one; and the next step of the turn. -/
inductive ReleaseEvent
  | errorRead
  | event
  | turn (calls : List Call)
  | worker

namespace ReleaseThreads

/-- A connection whose processor is started. -/
def start : ReleaseThreads := ⟨fun _ => none, true, .idle, some []⟩

def lock (self : ReleaseThreads) (t : ReleaseThread) (m : Mutex) : Option ReleaseThreads :=
  match self.owner m with
  | none => some { self with owner := Function.update self.owner m (some t) }
  | some _ => none

/-- `pthread_mutex_unlock`, which is not defined for a mutex that the thread does not have. -/
def unlock (self : ReleaseThreads) (t : ReleaseThread) (m : Mutex) : Option ReleaseThreads :=
  if self.owner m = some t then some { self with owner := Function.update self.owner m none } else none

/-- `ClientInfoList::ReleaseUserInfo`. -/
def releaseUserInfo (self : ReleaseThreads) : Option ReleaseThreads :=
  match self.event with
  | .idle => none
  | .lock => (self.lock .event .clientList).map ({ · with event := .stop })
  | .stop => some { self with isStarted := false, event := .join }
  | .join => if self.worker = none then some { self with event := .put } else none
  | .put => some { self with event := .unlock }
  | .unlock => (self.unlock .event .clientList).map ({ · with event := .idle })

/-- `DealWithDataThread`, which looks at `is_started_` before each turn. -/
def dealWithData (self : ReleaseThreads) (calls : List Call) : ReleaseThreads :=
  { self with worker := if self.isStarted then some ((Call.getBuffer :: calls).flatMap Call.actions) else none }

def step (self : ReleaseThreads) : ReleaseEvent → Option ReleaseThreads
  | .errorRead => if self.event = .idle then some { self with event := .lock } else none
  | .event => self.releaseUserInfo
  | .turn calls => if self.worker = some [] then some (self.dealWithData calls) else none
  | .worker =>
    match self.worker with
    | some (.lock m :: actions) => (self.lock .worker m).map ({ · with worker := some actions })
    | some (.unlock m :: actions) => (self.unlock .worker m).map ({ · with worker := some actions })
    | _ => none

end ReleaseThreads

end Miku.RoomServer
