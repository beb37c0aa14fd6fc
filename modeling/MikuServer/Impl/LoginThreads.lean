import MikuServer.Framework.Threads
import MikuServer.Impl.RoomCommands

/-!
# Threads with login requests (`room_server/cl_command/client_login_rq.cpp`)

`ClientLoginRQ::Execute`, one locked function at a time: each gate has a thread,
and the threads have their turns in any order. What a thread does to a room that
no other thread has yet, or to a record it took itself, is in the turn of the
function before or after it.
-/

namespace Miku.RoomServer

/-- Where a thread is in `ClientLoginRQ::Execute`: before `GetRoom`; after it returned
`NULL`; with a new room; with a room of the manager, or that `AddRoom` was called with; with
a new record besides; and at the end. -/
inductive LoginPlace
  | start
  | missing
  | made (tmpRoom : RoomPtr)
  | inRoom (tmpRoom : RoomPtr)
  | took (tmpRoom : RoomPtr) (tmpUser : Ptr)
  | finished (tmpRoom : RoomPtr)
  deriving DecidableEq

/-- A thread with its request. -/
structure LoginThread where
  tmpPackage : GateRoomServerPack
  rq : StruUserLoginRQ
  place : LoginPlace

namespace LoginThread

open ChatRoom

/-- The turn of a thread, with where it is then. -/
def next (t : LoginThread) : Option (Act Server LoginPlace) :=
  match t.place with
  | .start => some do
    match ← Server.getRoom t.rq.roomId with
    | some tmpRoom => pure (.inRoom tmpRoom)
    | none => pure .missing
  | .missing => some do
    let tmpRoom ← Server.createRoom t.rq.roomId
    pure (.made tmpRoom)
  | .made tmpRoom => some do
    let _ ← Server.addRoom t.rq.roomId (some tmpRoom)
    pure (.inRoom tmpRoom)
  | .inRoom tmpRoom => some do
    match ← Server.onRoom tmpRoom newUserInfo with
    | none => pure (.finished tmpRoom)
    | some tmpUser => pure (.took tmpRoom tmpUser)
  | .took tmpRoom tmpUser => some do
    Server.onRoom tmpRoom (Server.storeLogin t.tmpPackage t.rq tmpUser)
    let _ ← Server.onRoom tmpRoom (addPreUser t.rq.userId (some tmpUser))
    Server.sendToCenter t.tmpPackage
    pure (.finished tmpRoom)
  | .finished _ => none

def turn (t : LoginThread) (_ : Unit) : Option (Act Server LoginThread) :=
  t.next.map fun x => do
    let place ← x
    pure { t with place := place }

end LoginThread

/-- The server, and the threads that have login requests. -/
abbrev LoginThreads (ι : Type) := Threads ι Server LoginThread

namespace LoginThreads

variable {ι : Type}

/-- Threads whose requests have come, and that have done nothing. -/
def start (s : Server) (request : ι → GateRoomServerPack × StruUserLoginRQ) : LoginThreads ι :=
  ⟨s, fun i => ⟨(request i).1, (request i).2, .start⟩⟩

variable [DecidableEq ι]

def step (s : LoginThreads ι) (i : ι) : Option (LoginThreads ι) := Threads.step LoginThread.turn s (i, ())

def run (s : LoginThreads ι) (is : List ι) : Option (LoginThreads ι) := is.foldlM step s

end LoginThreads

end Miku.RoomServer
