import MikuServer.Impl.LoginThreads

/-!
# Login requests and the center server's replies (`room_server/cs_command/client_login_rs.cpp`)

The center server replies to the login requests that were forwarded to it in
their order, and the thread of its connection handles one reply after the other.
`ReplyThread` is that thread in `ClientLoginRS::Execute`, one locked function at
a time, between the turns of the threads that have login requests
(`LoginThread`). What it does to a record it took itself is in the turn of the
function after it. A loop over the users of a room holds their mutex to its end,
so it is one turn, with `GetRoom` before it: no room is ever removed.

`clientLoginRS` (`Impl/RoomCommands.lean`) is the same function without other
turns in between (`reply_steps`).
-/

namespace Miku.RoomServer

/-- Where the thread is in `ClientLoginRS::Execute`: before `GetRoom`; after it, or
`GetPreUserInfo`, returned `NULL`; with the room; with the pending record of a user whose
login was accepted; with a new record besides; with `tmp_current_user`; with `tmp_gs`, before
the two loops; in `RemovePreUser`, before each of its functions; before the microphone holders;
and at the end. -/
inductive ReplyPlace
  | start
  | missed
  | inRoom (tmpRoom : RoomPtr)
  | found (tmpRoom : RoomPtr) (tmpUser : Ptr)
  | took (tmpRoom : RoomPtr) (tmpUser tmpCurrentUser : Ptr)
  | known (tmpRoom : RoomPtr) (tmpUser : Ptr) (tmpCurrentUser : Option Ptr)
  | announce (tmpRoom : RoomPtr) (tmpGs : Option BaseUserInfo) (tmpCurrentUser : Ptr)
  | list (tmpRoom : RoomPtr) (tmpGs : Option BaseUserInfo) (tmpCurrentUser : Ptr)
  | remove (tmpRoom : RoomPtr) (tmpGs : Option BaseUserInfo) (tmpCurrentUser : Option Ptr)
  | erase (tmpRoom : RoomPtr) (tmpGs : Option BaseUserInfo) (tmpCurrentUser : Option Ptr) (tmpUser : Ptr)
  | push (tmpRoom : RoomPtr) (tmpGs : Option BaseUserInfo) (tmpCurrentUser : Option Ptr) (tmpUser : Ptr)
  | mics (tmpRoom : RoomPtr) (tmpGs : Option BaseUserInfo) (tmpCurrentUser : Option Ptr)
  | finished
  deriving DecidableEq

/-- The thread with a reply, and the request that the reply is to. -/
structure ReplyThread where
  tmpPackage : GateRoomServerPack
  rq : StruUserLoginRQ
  rs : StruUserLoginRS
  place : ReplyPlace

namespace ReplyThread

open ChatRoom

/-- The turn of the thread, with where it is then. -/
def next (t : ReplyThread) : Option (Act Server ReplyPlace) :=
  match t.place with
  | .start => some do
    match ← Server.getRoom t.rs.roomId with
    | none => pure .missed
    | some tmpRoom => pure (.inRoom tmpRoom)
  | .inRoom tmpRoom => some do
    match ← Server.onRoom tmpRoom (getPreUserInfo t.rs.userId) with
    | none => pure .missed
    | some tmpUser => pure (if t.rs.result = 1 then .found tmpRoom tmpUser else .known tmpRoom tmpUser none)
  | .found tmpRoom tmpUser => some do
    match ← Server.onRoom tmpRoom newUserInfo with
    | none => pure (.known tmpRoom tmpUser none)
    | some tmpCurrentUser => pure (.took tmpRoom tmpUser tmpCurrentUser)
  | .took tmpRoom tmpUser tmpCurrentUser => some do
    Server.onRoom tmpRoom (.modify fun room =>
      room.store tmpCurrentUser (Server.loginInfo t.rs (room.records tmpUser)))
    let _ ← Server.onRoom tmpRoom (addUser t.rs.userId (some tmpCurrentUser))
    pure (.known tmpRoom tmpUser (some tmpCurrentUser))
  | .known tmpRoom tmpUser tmpCurrentUser => some do
    let tmpGs ← Server.replyLogin tmpRoom t.rs tmpUser
    match tmpCurrentUser with
    | none => pure (.remove tmpRoom tmpGs none)
    | some tmpCurrentUser => pure (.announce tmpRoom tmpGs tmpCurrentUser)
  | .announce tmpRoom tmpGs tmpCurrentUser => some do
    let online ← Server.record tmpRoom tmpCurrentUser
    let _ ← Server.sendDataToRoomAllUser (.userInfo (Server.userInfoOf online)) .userInfo t.rs.roomId
    pure (.list tmpRoom tmpGs tmpCurrentUser)
  | .list tmpRoom tmpGs tmpCurrentUser => some do
    Server.sendUserList tmpRoom t.rs tmpGs tmpCurrentUser
    pure (.remove tmpRoom tmpGs (some tmpCurrentUser))
  | .remove tmpRoom tmpGs tmpCurrentUser => some do
    match ← Server.onRoom tmpRoom (onPreUserList (UserInfoList.getUserInfo t.rs.userId)) with
    | none => pure (.mics tmpRoom tmpGs tmpCurrentUser)
    | some tmpUser => pure (.erase tmpRoom tmpGs tmpCurrentUser tmpUser)
  | .erase tmpRoom tmpGs tmpCurrentUser tmpUser => some do
    Server.onRoom tmpRoom (onPreUserList (UserInfoList.removeUser t.rs.userId))
    pure (.push tmpRoom tmpGs tmpCurrentUser tmpUser)
  | .push tmpRoom tmpGs tmpCurrentUser tmpUser => some do
    let _ ← Server.onRoom tmpRoom (onPreUserList (UserInfoList.pushUserInUnusedList tmpUser))
    pure (.mics tmpRoom tmpGs tmpCurrentUser)
  | .mics tmpRoom tmpGs tmpCurrentUser => some do
    Server.sendMicList tmpRoom tmpGs tmpCurrentUser
    pure .finished
  | .missed | .finished => none

end ReplyThread

/-- The server with the threads that have login requests; the forwarded requests that are
without a reply; and the thread of the center server's connection, while it has a reply. -/
structure LoginExchange (ι : Type) where
  threads : LoginThreads ι
  waiting : List (GateRoomServerPack × StruUserLoginRQ)
  replying : Option ReplyThread

/-- A gate comes or goes, a turn of a thread with a request, the reply to the first request that
waits, or a turn of the thread that has the reply. -/
inductive ExchangeEvent (ι : Type)
  | connect (hashKey userSock : Int)
  | disconnect (hashKey : Int)
  | request (i : ι)
  | reply (rs : StruUserLoginRS)
  | center

namespace LoginExchange

variable {ι : Type}

/-- Threads whose requests have come, and that have done nothing. -/
def start (request : ι → GateRoomServerPack × StruUserLoginRQ) : LoginExchange ι :=
  ⟨LoginThreads.start .new request, [], none⟩

def server (s : LoginExchange ι) : Server := s.threads.shared

def withServer (s : LoginExchange ι) (server : Server) : LoginExchange ι :=
  { s with threads := { s.threads with shared := server } }

/-- The reply to `rq`, with the other members as in `rs`. -/
def replyTo (rq : StruUserLoginRQ) (rs : StruUserLoginRS) : StruUserLoginRS :=
  { rs with userId := rq.userId, roomId := rq.roomId }

/-- The request that a turn of the thread forwards: `SendData` is in its last one. -/
def forwards (t : LoginThread) : List (GateRoomServerPack × StruUserLoginRQ) :=
  match t.place with
  | .took .. => [(t.tmpPackage, t.rq)]
  | _ => []

variable [DecidableEq ι]

/-- There is no step where a turn blocks or faults, or where the event is a reply while nothing
waits or another reply is being handled. -/
def step (s : LoginExchange ι) : ExchangeEvent ι → Option (LoginExchange ι)
  | .connect hashKey userSock => (s.server.step (.connect hashKey userSock)).map s.withServer
  | .disconnect hashKey => (s.server.step (.disconnect hashKey)).map s.withServer
  | .request i => (s.threads.step i).map fun threads =>
    { s with threads := threads, waiting := s.waiting ++ forwards (s.threads.thread i) }
  | .reply rs =>
    match s.replying, s.waiting with
    | none, (tmpPackage, rq) :: rest =>
      some { s with waiting := rest, replying := some ⟨tmpPackage, rq, replyTo rq rs, .start⟩ }
    | _, _ => none
  | .center =>
    match s.replying with
    | none => none
    | some t =>
      match t.next with
      | none => some { s with replying := none }
      | some x =>
        match x s.server with
        | .done place server => some { s.withServer server with replying := some { t with place := place } }
        | .blocked _ => none
        | .fault => none

def run (s : LoginExchange ι) (es : List (ExchangeEvent ι)) : Option (LoginExchange ι) := es.foldlM step s

end LoginExchange

end Miku.RoomServer
