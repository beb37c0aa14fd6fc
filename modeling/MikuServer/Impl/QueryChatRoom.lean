import Mathlib.Logic.Function.Basic
import MikuServer.Impl.ClientProcessor

/-!
# Rooms the gate asks for (`gate_server/ds_command/query_chat_room_rs.cpp`, `gate_server/user_info_list.cpp`)

`QueryChatRoomRS::Execute` handles a reply of the director server: it finds or
starts the connection to the room server, makes the room known, and takes it out
of `room_list_` of the `ClientProcessor`. What `StartConnect` and
`StartRSProcessor` return is given with the reply.

`QueryThreads` has the users' threads besides, which ask for a room that is not
known and then set the login aside.
-/

namespace Miku.GateServer

/-- What `Execute` uses of `StruDsGSGetRoomInfoRs` but for the address of the room server. -/
structure StruDsGSGetRoomInfoRs where
  roomId : Int
  rsServerId : Int
  deriving DecidableEq

/-- A `RoomServerConnector *`: which one it is, and what its `GetSocket()` returns. -/
structure RoomServerConnector where
  number : Nat
  socket : Int
  deriving DecidableEq

/-- A connection that is tried: the socket, if `StartConnect` succeeds, and the value of
`StartRSProcessor`. -/
structure Connect where
  startConnect : Option Int
  startRSProcessor : Bool
  deriving DecidableEq

/-- `class GateServer`, with the connectors that were started successfully, each with the
`rs_server_id` it was started for, and with the `rs_server_id` of the reply that added a room. -/
structure Gate where
  roomManager : RoomManager
  rsConnList : StdMap RoomServerConnector
  clProcessor : ClientProcessor
  started : List (Int × RoomServerConnector)
  addedBy : Int → Int

namespace Gate

def start (maxListSize : Nat) : Gate := ⟨.new, .empty, .init maxListSize, [], fun _ => 0⟩

/-- `new RoomServerConnector`, which is deleted again if it cannot be started. -/
def startConnector (self : Gate) (rs : StruDsGSGetRoomInfoRs) (o : Connect) : Option RoomServerConnector × Gate :=
  match o.startConnect with
  | none => (none, self)
  | some socket =>
    if o.startRSProcessor then
      let conn := ⟨self.started.length, socket⟩
      (some conn, { self with started := self.started ++ [(rs.rsServerId, conn)] })
    else (none, self)

/-- `Execute` up to the connector (`tmp_rs_conn`); `none` where it returns before. -/
def findConnector (self : Gate) (rs : StruDsGSGetRoomInfoRs) (o : Connect) : Option RoomServerConnector × Gate :=
  let (tmpRoom, roomManager) := self.roomManager.getChatRoom rs.roomId
  let self := { self with roomManager := roomManager }
  match tmpRoom with
  | some _ => (none, self)
  | none =>
    match self.rsConnList.find? rs.rsServerId with
    | none => self.startConnector rs o
    | some tmpRsConn => (some tmpRsConn, self)

/-- `AddRoom` of the room of the reply. -/
def addRoom (self : Gate) (rs : StruDsGSGetRoomInfoRs) (tmpRsConn : RoomServerConnector) : Gate :=
  { self with
    roomManager := (self.roomManager.addRoom rs.roomId tmpRsConn.socket).2
    addedBy := Function.update self.addedBy rs.roomId rs.rsServerId }

/-- `DeleteRoom` of the room of the reply. -/
def deleteRoom (self : Gate) (rs : StruDsGSGetRoomInfoRs) : Gate :=
  { self with clProcessor := self.clProcessor.deleteRoom rs.roomId }

/-- `QueryChatRoomRS::Execute`. -/
def execute (self : Gate) (rs : StruDsGSGetRoomInfoRs) (o : Connect) : Gate :=
  match self.findConnector rs o with
  | (none, self) => self
  | (some tmpRsConn, self) => (self.addRoom rs tmpRsConn).deleteRoom rs

end Gate

/-! ## Threads -/

/-- A login request, as `AddOneUndealPack` gets it. -/
structure LoginPack where
  data : List Byte
  roomId : CInt
  userHashkey : CInt

/-- Where a user's thread is in the branch for a room that is not known: not in it; before
`SendQueryRoom`; and before `AddOneUndealPack`. -/
inductive UserPlace
  | idle
  | unknown (login : LoginPack)
  | asked (login : LoginPack)

/-- Where the thread of the director server is in `Execute`: not in it; before `AddRoom`; and
before `DeleteRoom`. -/
inductive DirectorPlace
  | idle
  | found (rs : StruDsGSGetRoomInfoRs) (tmpRsConn : RoomServerConnector)
  | added (rs : StruDsGSGetRoomInfoRs)

/-- The gate, the rooms that were asked for and not answered yet, and the threads. -/
structure QueryThreads (ι : Type) where
  gate : Gate
  queries : List Int
  user : ι → UserPlace
  director : DirectorPlace

/-- A login request that comes to a user's thread, a reply to the director's, or the next step
of one of them. -/
inductive QueryEvent (ι : Type)
  | login (i : ι) (login : LoginPack)
  | user (i : ι)
  | reply (rs : StruDsGSGetRoomInfoRs) (o : Connect)
  | director

namespace QueryThreads

variable {ι : Type}

def start (maxListSize : Nat) : QueryThreads ι := ⟨.start maxListSize, [], fun _ => .idle, .idle⟩

variable [DecidableEq ι]

def setUser (self : QueryThreads ι) (i : ι) (place : UserPlace) : QueryThreads ι :=
  { self with user := Function.update self.user i place }

/-- `GetChatRoom` of a user's thread. A frame for a room that is known is sent at once. -/
def getChatRoom (self : QueryThreads ι) (i : ι) (login : LoginPack) : QueryThreads ι :=
  let (tmpChatRoom, roomManager) := self.gate.roomManager.getChatRoom login.roomId.toInt
  let self := { self with gate := { self.gate with roomManager := roomManager } }
  match tmpChatRoom with
  | none => self.setUser i (.unknown login)
  | some _ => self

def step (self : QueryThreads ι) : QueryEvent ι → Option (QueryThreads ι)
  | .login i login =>
    match self.user i with
    | .idle => some (self.getChatRoom i login)
    | _ => none
  | .user i =>
    match self.user i with
    | .idle => none
    | .unknown login => some { self.setUser i (.asked login) with queries := self.queries ++ [login.roomId.toInt] }
    | .asked login => do
      let (_, clProcessor) ← self.gate.clProcessor.addOneUndealPack login.data login.data.length login.roomId
        login.userHashkey
      some { self.setUser i .idle with gate := { self.gate with clProcessor := clProcessor } }
  | .reply rs o =>
    match self.director with
    | .idle =>
      if rs.roomId ∈ self.queries then
        let (tmpRsConn, gate) := self.gate.findConnector rs o
        some { self with
          gate := gate
          queries := self.queries.erase rs.roomId
          director := match tmpRsConn with
            | none => .idle
            | some conn => .found rs conn }
      else none
    | _ => none
  | .director =>
    match self.director with
    | .idle => none
    | .found rs tmpRsConn => some { self with gate := self.gate.addRoom rs tmpRsConn, director := .added rs }
    | .added rs => some { self with gate := self.gate.deleteRoom rs, director := .idle }

end QueryThreads

end Miku.GateServer
