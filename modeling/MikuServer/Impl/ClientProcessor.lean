import MikuServer.Impl.CircleList
import MikuServer.Impl.GateRooms
import MikuServer.Impl.RecvBuff

/-!
# Logins that wait for their room (`gate_server/cl_processor.cpp`)

A login request for a room that the gate does not know is put into the queue of
the `ClientProcessor`, with the hash key of its user after it, and the room's id
into `room_list_`. The one `DealWithDataThread` takes a request out of the
queue, looks whether its room is in `room_list_`, and puts it back or sends it
to the room server.

Each function that holds `list_lock_` or the mutex of another object is one
step; what the thread does between two of them touches nothing but its own
variables.
-/

namespace Miku.GateServer

/-- `class ClientProcessor`, with the list of its base class. -/
structure ClientProcessor where
  dataList : CircleList
  roomList : StdMap Int

namespace ClientProcessor

/-- `InitProcessor`. -/
def init (maxListSize : Nat) : ClientProcessor := ⟨(CircleList.new 0).initBuffer maxListSize, .empty⟩

/-- The lines on `room_list_`, where the mark of a room is its id. -/
def markRoom (self : ClientProcessor) (roomId : Int) : ClientProcessor :=
  let roomList := self.roomList.subscript roomId 0
  { self with roomList := if (self.roomList.find? roomId).getD 0 = 0 then roomList.assign roomId roomId else roomList }

/-- `AddOneUndealPack`. What `AddBuffer` returns is not looked at. -/
def addOneUndealPack (self : ClientProcessor) (buff : List Byte) (len : Int) (roomId userHashkey : CInt) :
    Option (Bool × ClientProcessor) := do
  let self := self.markRoom roomId.toInt
  if len < 0x2000 - 4 then do
    let tmpInBuff ← memcpy (List.replicate 0x2000 0) 0 buff len
    let tmpInBuff ← memcpy tmpInBuff len (leBytes userHashkey) 4
    let (_, list) ← self.dataList.addBuffer tmpInBuff (len + 4)
    some (true, { self with dataList := list })
  else some (true, self)

def deleteRoom (self : ClientProcessor) (roomId : Int) : ClientProcessor :=
  { self with roomList := self.roomList.erase roomId }

/-- `room_list_[room_id]`, as a condition. -/
def isMarked (self : ClientProcessor) (roomId : Int) : Bool × ClientProcessor :=
  (decide ((self.roomList.find? roomId).getD 0 ≠ 0), { self with roomList := self.roomList.subscript roomId 0 })

end ClientProcessor

/-- Where `DealWithDataThread` is: before `GetBuffer`; before it looks into `room_list_`; before
`AddBuffer`; and before `GetChatRoom`. -/
inductive DealPlace
  | get
  | check (tmpRoomId tmpUserHashkey : CInt)
  | putBack
  | deal (tmpRoomId tmpUserHashkey : CInt)
  deriving DecidableEq

/-- The variables of `DealWithDataThread`. -/
structure DealThread where
  tmpOutBuff : List Byte
  tmpOutLen : Int
  place : DealPlace

/-- The gate as far as logins that wait are concerned, and what `DealWithDataThread` has written. -/
structure GateLogins where
  clProcessor : ClientProcessor
  roomManager : RoomManager
  thread : DealThread
  written : List (Int × List Byte)

namespace GateLogins

def start (maxListSize : Nat) : GateLogins :=
  ⟨.init maxListSize, .new, ⟨List.replicate 0x2000 0, 0, .get⟩, []⟩

/-- `GetBuffer`, and the packet and the key that it gets. -/
def get (self : GateLogins) : Option GateLogins := do
  let g ← self.clProcessor.dataList.getBuffer self.thread.tmpOutBuff 0x2000 self.thread.tmpOutLen
  let self := { self with clProcessor := { self.clProcessor with dataList := g.list } }
  if g.ret then
    if 4 ≤ g.outLen then do
      let tmpUserHashkey := intAt g.outBuff (g.outLen - 4).toNat
      let (tmpReturn, tmpCytPack) ←
        (StruCytPacket.fresh.parseFromArray g.outBuff (cint (g.outLen - 4))).within g.outBuff.length
      let place := if tmpReturn then .check tmpCytPack.roomId tmpUserHashkey else .get
      some { self with thread := ⟨g.outBuff, g.outLen, place⟩ }
    else none
  else some { self with thread := ⟨g.outBuff, g.outLen, .get⟩ }

/-- The look into `room_list_`. -/
def check (self : GateLogins) (tmpRoomId tmpUserHashkey : CInt) : GateLogins :=
  let (marked, clProcessor) := self.clProcessor.isMarked tmpRoomId.toInt
  { self with
    clProcessor := clProcessor
    thread := { self.thread with place := if marked then .putBack else .deal tmpRoomId tmpUserHashkey } }

/-- `AddBuffer`, whose value is not looked at. -/
def putBack (self : GateLogins) : Option GateLogins := do
  let (_, list) ← self.clProcessor.dataList.addBuffer self.thread.tmpOutBuff self.thread.tmpOutLen
  some { self with
    clProcessor := { self.clProcessor with dataList := list }
    thread := { self.thread with place := .get } }

/-- `GetChatRoom`, and what is written to the room server. -/
def deal (self : GateLogins) (tmpRoomId tmpUserHashkey : CInt) : Option GateLogins := do
  let (tmpRoom, roomManager) := self.roomManager.getChatRoom tmpRoomId.toInt
  let self := { self with roomManager := roomManager, thread := { self.thread with place := .get } }
  match tmpRoom with
  | none => some self
  | some tmpRoom => do
    let tmpPackage := GateRoomServerPack.wrap tmpUserHashkey self.thread.tmpOutBuff (self.thread.tmpOutLen - 4)
    let (tmpReturn, tmpSendBuff) ← tmpPackage.serializeToArray (List.replicate 0x2000 0) tmpPackage.byteSize
    if tmpReturn then
      some { self with written :=
        self.written ++ [(tmpRoom.serverFd, tmpSendBuff.take tmpPackage.byteSize.toInt.toNat)] }
    else some self

/-- The next step of `DealWithDataThread`. -/
def dealWithData (self : GateLogins) : Option GateLogins :=
  match self.thread.place with
  | .get => self.get
  | .check tmpRoomId tmpUserHashkey => some (self.check tmpRoomId tmpUserHashkey)
  | .putBack => self.putBack
  | .deal tmpRoomId tmpUserHashkey => self.deal tmpRoomId tmpUserHashkey

/-- A step of one of the threads. -/
inductive Event
  | addOneUndealPack (buff : List Byte) (len : Int) (roomId userHashkey : CInt)
  | deleteRoom (roomId : Int)
  | addRoom (roomId serverFd : Int)
  | dealWithData

def step (self : GateLogins) : Event → Option GateLogins
  | .addOneUndealPack buff len roomId userHashkey => do
    let (_, clProcessor) ← self.clProcessor.addOneUndealPack buff len roomId userHashkey
    some { self with clProcessor := clProcessor }
  | .deleteRoom roomId => some { self with clProcessor := self.clProcessor.deleteRoom roomId }
  | .addRoom roomId serverFd => some { self with roomManager := (self.roomManager.addRoom roomId serverFd).2 }
  | .dealWithData => self.dealWithData

end GateLogins

end Miku.GateServer
