import MikuServer.Impl.CircleList

/-!
# A connection to another server (`common/connector.cpp`)

`SendData` queues a message, and `SendDataThread` gets one message after the other
and calls `write` for it. The thread that finds `client_fd_` to be -1 makes the
next socket. `client_fd_` is the place of a socket among all that were made.

A step of a thread goes to its next look at a member that another thread
changes. Any `write` may fail, or take fewer bytes than it is given.
-/

namespace Miku.Common

/-- A socket of `ConnectServer`, and the bytes that were written to it. -/
structure Socket where
  connected : Bool
  closed : Bool
  stream : List Byte
  deriving DecidableEq

/-- Where `SendDataThread` is; it is `none` before `StartConnect` has made it. -/
inductive SendPlace
  | none
  | loop
  | clientFd
  | getBuffer
  | write (outBuff : List Byte) (outLen : Int)
  | close
  | closed
  | ended
  deriving DecidableEq

/-- Where `StartConnect` is, and then `ReconnectThread`. -/
inductive ConnectPlace
  | none
  | connect (reconnect : Bool)
  | loop
  | clientFd
  | socket
  | ended
  deriving DecidableEq

/-- Where `Disconnect` is. -/
inductive DisconnectPlace
  | none
  | close
  | closed
  deriving DecidableEq

/-- `class Connector`, with its threads. -/
structure Connector where
  clientFd : Option Nat
  isStarted : Bool
  sendList : CircleList
  sockets : List Socket
  sending : SendPlace
  connecting : ConnectPlace
  disconnecting : DisconnectPlace
  deriving DecidableEq

namespace Connector

def new : Connector := ⟨none, false, .new 0, [], .none, .none, .none⟩

def initConnectionInfo (self : Connector) : Connector := { self with sendList := self.sendList.initBuffer 1000 }

/-- `SendData(buff, len)`. -/
def sendData (self : Connector) (buff : List Byte) (len : Int) : Option (Bool × Connector) := do
  let (ret, list) ← self.sendList.addBuffer buff len
  some (ret, { self with sendList := list })

/-- The socket of `client_fd_`, as long as it is not closed. -/
def socket (self : Connector) : Option Socket :=
  self.clientFd.bind fun i => self.sockets[i]?.filter fun c => !c.closed

/-- The socket of `client_fd_` is changed. -/
def onSocket (self : Connector) (f : Socket → Socket) : Connector :=
  { self with sockets := (self.clientFd.map fun i => self.sockets.modify i f).getD self.sockets }

/-- `close(client_fd_)`. -/
def close (self : Connector) : Connector := self.onSocket fun c => { c with closed := true }

/-- `client_fd_ = socket(AF_INET, SOCK_STREAM, 0)`. -/
def makeSocket (self : Connector) : Connector :=
  { self with sockets := self.sockets ++ [⟨false, false, []⟩], clientFd := some self.sockets.length }

/-- `StartConnect`, up to its `connect`. -/
def startConnect (self : Connector) : Option Connector :=
  if self.connecting = .none then some { self.makeSocket with isStarted := true, connecting := .connect false }
  else none

/-- A `connect`, and the `fcntl` behind it; then `StartConnect` makes the threads. -/
def connect (self : Connector) (ok : Bool) : Option Connector :=
  match self.connecting with
  | .connect reconnect =>
    if ok then
      if self.socket.isSome then
        some { self.onSocket fun c => { c with connected := true } with
          connecting := .loop
          sending := if reconnect then self.sending else .loop }
      else none
    else some self
  | _ => none

/-- The next step of `ReconnectThread`. -/
def reconnectStep (self : Connector) : Option Connector :=
  match self.connecting with
  | .loop => some { self with connecting := if self.isStarted then .clientFd else .ended }
  | .clientFd => some { self with connecting := if self.clientFd ≠ none then .loop else .socket }
  | .socket => some { self.makeSocket with connecting := .connect true }
  | _ => none

/-- The next step of `SendDataThread`, but for a `write`. -/
def sendStep (self : Connector) : Option Connector :=
  match self.sending with
  | .loop => some { self with sending := if self.isStarted then .clientFd else .ended }
  | .clientFd => some { self with sending := if self.clientFd = none then .loop else .getBuffer }
  | .getBuffer => do
    let g ← self.sendList.getBuffer (List.replicate 0x2000 0) 0x2000 0
    some { self with
      sendList := g.list
      sending := if g.ret then .write g.outBuff g.outLen else .loop }
  | .close => some { self.close with sending := .closed }
  | .closed => some { self with clientFd := none, sending := .loop }
  | _ => none

/-- A `write` of `SendDataThread`, which fails or writes the first `ret` bytes. -/
def write (self : Connector) (ret : Option Nat) : Option Connector :=
  match self.sending with
  | .write outBuff outLen =>
    match ret with
    | none => some { self with sending := .close }
    | some ret =>
      if self.socket.any Socket.connected ∧ ret ≤ outLen.toNat then
        some { self.onSocket fun c => { c with stream := c.stream ++ outBuff.take ret } with sending := .loop }
      else none
  | _ => none

/-- The next step of `Disconnect`. -/
def disconnectStep (self : Connector) : Connector :=
  match self.disconnecting with
  | .none => { self with isStarted := false, disconnecting := .close }
  | .close => { self.close with disconnecting := .closed }
  | .closed => { self with clientFd := none, disconnecting := .none }

end Connector

end Miku.Common
