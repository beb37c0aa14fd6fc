import MikuServer.Impl.CommandChain
import MikuServer.Impl.MessageSend
import MikuServer.Impl.ServerProcessor

/-!
# How a room server comes to its center server (`room_server/ds_command/`)

The room server asks the director server for the address of a center server
(`SendConnectDsRQ` of `ds_processor.cpp`, `connect_director_server_rs.cpp`), and
connects to what it is told (`get_cs_addr_rs.cpp`, `cs_connector.cpp`,
`common/connector.cpp`).

`DirectorServerProcessor` has one thread. It stays in the loop of `ConnectServer`
until a `connect` succeeds, and takes no turn until then. Whether `socket`,
`connect` and `pthread_create` succeed is up to the run.
-/

namespace Miku.RoomServer

open Common Protobuf
open WireFormat (Runtime)

/-- `class CenterServerConnector`, without its sockets and their threads. -/
structure CenterServerConnector where
  serverIp : List Byte
  serverPort : BitVec 16
  isStarted : Bool
  /-- `StartConnect` is in the loop of `ConnectServer`. -/
  connecting : Bool
  cmdChain : CommandChain

namespace CenterServerConnector

def new : CenterServerConnector := ⟨[], 0, false, false, .new⟩

/-- `InitConnectionInfo(server_ip.c_str(), server_port)`; the port becomes a `short`. -/
def initConnectionInfo (self : CenterServerConnector) (serverIp : List Byte) (serverPort : Int) :
    CenterServerConnector :=
  { self with serverIp := serverIp.takeWhile (· ≠ 0), serverPort := BitVec.ofInt 16 serverPort }

/-- `StartConnect` up to the loop of `ConnectServer`. -/
def startConnect (self : CenterServerConnector) (socket : Bool) : CenterServerConnector :=
  if self.serverPort.toInt ≤ 0 then { self with isStarted := false }
  else if socket then { self with isStarted := true, connecting := true }
  else { self with isStarted := false }

/-- The end of `StartConnect`, where it makes its threads. -/
def startThreads (self : CenterServerConnector) (threads : Bool) : CenterServerConnector :=
  if threads then { self with connecting := false } else { self with isStarted := false, connecting := false }

/-- `CenterServerProcessor::InitProcessor`; `command` and the one after it are what `new` gives. -/
def initProcessor (self : CenterServerConnector) (command : CommandPtr) : Bool × CenterServerConnector :=
  let (ret, chain) := self.cmdChain.registerCommand 6002 (some command)
  if ret then
    let (ret, chain) := chain.registerCommand 6013 (some (command + 1))
    (ret, { self with cmdChain := chain })
  else (false, { self with cmdChain := chain })

def disconnect (self : CenterServerConnector) : CenterServerConnector := { self with isStarted := false }

/-- `StartCSProcessor(1000, 1, …)`, whose `StartProcessor(1)` returns true, and the `Disconnect` where it returns
false. -/
def startCSProcessor (self : CenterServerConnector) (command : CommandPtr) : CenterServerConnector :=
  let (ret, self) := self.initProcessor command
  if ret then self else self.disconnect

end CenterServerConnector

/-- The room server's connectors. -/
structure Connectors where
  serverId : CInt
  dsProcessor : ServerProcessor
  /-- What `SendData` of the director's connector was called with. -/
  sent : List (List Byte)
  csConnector : CenterServerConnector
  /-- What the calls of `StartConnect` have returned. -/
  returned : List Bool

variable [Runtime]

namespace Connectors

/-- `StartDSProcessor(100, 1, …)` has made the thread. -/
def new (serverId : CInt) : Connectors := ⟨serverId, .init 100, [], .new, []⟩

/-- `SERVER_TYPE_RS`. -/
def serverTypeRS : CInt := 2

/-- `SendConnectDsRQ`, at the end of `StartProcessor`. -/
def sendConnectDsRQ (self : Connectors) (serverIp : List Byte) (serverPort : CInt) : Option Connectors := do
  let sent ← Miku.sendConnectDsRQ self.serverId serverIp serverPort serverTypeRS
  some { self with sent := self.sent ++ sent.toList }

/-- `DEF_DS_RS_GET_CS_RQ`, with `set_server_id`. -/
def dsRSGetCsRq : CInt := 10011

def getCsInfoRq (serverId : CInt) : Message := .mk [some (.num serverId)] [] []

/-- `ConnectDirectorServerRS::Execute`. -/
def connectDirectorServerRS (self : Connectors) (buff : List Byte) (len : CInt) : Option Connectors :=
  match struDsServerConnectRs.parseFromArray buff len with
  | none => some self
  | some connRs =>
    if connRs.int 1 = 1 then do
      let sent ← sendPackage struDsRSGetCsInfoRq (getCsInfoRq self.serverId) dsRSGetCsRq
      some { self with sent := self.sent ++ sent.toList }
    else some self

/-- `GetCenterServerAddrRS::Execute` up to the loop of `ConnectServer`. -/
def getCenterServerAddrRS (self : Connectors) (buff : List Byte) (len : CInt) (socket : Bool) : Connectors :=
  match sStruDsRSGetCsInfoRs.parseFromArray buff len with
  | none => self
  | some getCsRs =>
    if getCsRs.str 2 = [] ∨ getCsRs.int 3 = 0 then self
    else
      let csConnector := (self.csConnector.initConnectionInfo (getCsRs.str 2) (getCsRs.int 3)).startConnect socket
      { self with
        csConnector := csConnector
        returned := if csConnector.connecting then self.returned else self.returned ++ [false] }

/-- A `connect` of `ConnectServer`, and what `GetCenterServerAddrRS::Execute` does then. -/
def connect (self : Connectors) (ok threads : Bool) : Connectors :=
  if ok then
    let csConnector := self.csConnector.startThreads threads
    { self with
      -- The commands of a call have numbers that those of an earlier call do not have.
      csConnector := if threads then csConnector.startCSProcessor (2 * self.returned.length) else csConnector
      returned := self.returned ++ [threads] }
  else self

/-- The command of a message type. `QueryChatRoomRS` only takes the message apart. -/
def execute (self : Connectors) (e : Executed) (socket : Bool) : Option Connectors :=
  if e.msgType = 1002 then self.connectDirectorServerRS e.buff e.len
  else if e.msgType = 10012 then some (self.getCenterServerAddrRS e.buff e.len socket)
  else some self

inductive Event
  /-- `StartProcessor` goes on to `SendConnectDsRQ`. -/
  | sendConnectDsRQ (serverIp : List Byte) (serverPort : CInt)
  /-- A chunk comes from the director server. -/
  | recv (chunk : List Byte)
  /-- A turn of the thread, in which `socket` makes a socket or not. -/
  | turn (socket : Bool)
  /-- `connect`, and `pthread_create` after it. -/
  | connect (ok threads : Bool)

def step (self : Connectors) : Event → Option Connectors
  | .sendConnectDsRQ serverIp serverPort => self.sendConnectDsRQ serverIp serverPort
  | .recv chunk => do
    let dsProcessor ← self.dsProcessor.recvData chunk
    some { self with dsProcessor := dsProcessor }
  | .turn socket =>
    if self.csConnector.connecting then none
    else do
      let (dsProcessor, _) ← DirectorServerProcessor.dealWithData self.dsProcessor
      let executed := dsProcessor.executed.drop self.dsProcessor.executed.length
      executed.foldlM (fun self e => self.execute e socket) { self with dsProcessor := dsProcessor }
  | .connect ok threads => if self.csConnector.connecting then some (self.connect ok threads) else none

end Connectors

end Miku.RoomServer
