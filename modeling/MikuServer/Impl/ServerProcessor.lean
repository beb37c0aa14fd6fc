import MikuServer.Impl.CircleList
import MikuServer.Impl.RecvBuff

/-!
# The replies to the room server (`room_server/cs_processor.cpp`, `room_server/ds_processor.cpp`)

`Connector::RecvDataThread` reads chunks of up to 0x2000 bytes from the center
or the director server, and `DealWithData` of its connector (`cs_connector.cpp`,
`ds_connector.cpp`) queues them. A turn of the processor's thread takes one chunk
from the list, reads one `StruCytPacket` from the chunk's start, and hands the
packet's data to the command of its type. The two processors differ in the
commands they register.
-/

namespace Miku.RoomServer

/-- A call of a command's `Execute`. -/
structure Executed where
  msgType : CInt
  buff : List Byte
  len : CInt
  deriving DecidableEq

/-- The list of a processor, and what its thread has executed. -/
structure ServerProcessor where
  circleList : CircleList
  executed : List Executed
  deriving DecidableEq

namespace ServerProcessor

/-- `InitProcessor(max_list_size, …)`. -/
def init (maxListSize : Nat) : ServerProcessor := ⟨(CircleList.new 0).initBuffer maxListSize, []⟩

/-- `RecvDataThread` reads `chunk` into its zeroed `tmp_read_buff`, and `DealWithData`
queues it. What `AddBuffer` returns is not looked at. -/
def recvData (self : ServerProcessor) (chunk : List Byte) : Option ServerProcessor := do
  let tmpReadBuff ← memcpy (List.replicate 0x2000 0) 0 chunk chunk.length
  let (_, list) ← self.circleList.addBuffer tmpReadBuff chunk.length
  some { self with circleList := list }

/-- A turn of `DealWithDataThread`, and whether it got a chunk. `getCommand` says
which message types have a command. -/
def dealWithData (getCommand : CInt → Bool) (self : ServerProcessor) : Option (ServerProcessor × Bool) := do
  let g ← self.circleList.getBuffer (List.replicate 0x2000 0) 0x2000 0
  let self := { self with circleList := g.list }
  if g.ret then do
    let (tmpReturn, pack) ← (StruCytPacket.fresh.parseFromArray g.outBuff (cint g.outLen)).within g.outBuff.length
    if tmpReturn then
      if getCommand pack.msgType then
        some ({ self with executed := self.executed ++ [⟨pack.msgType, cStr pack.msgData, pack.msgLen⟩] }, true)
      else some (self, true)
    else some (self, true)
  else some (self, false)

end ServerProcessor

/-- `E_USER_LOGIN_RS` and `E_USER_GIVE_GIFT_RS`, the commands of `CenterServerProcessor::InitProcessor`. -/
def CenterServerProcessor.getCommand (msgType : CInt) : Bool := msgType = 6002 ∨ msgType = 6013

/-- `CenterServerProcessor::DealWithDataThread`. -/
def CenterServerProcessor.dealWithData (self : ServerProcessor) : Option (ServerProcessor × Bool) :=
  self.dealWithData CenterServerProcessor.getCommand

/-- `DEF_DS_SERVER_CONNECT_RS`, `DEF_DS_GS_GET_ROOMINFO_RS` and `DEF_DS_RS_GET_CS_RS`, the
commands of `DirectorServerProcessor::InitProcessor`. -/
def DirectorServerProcessor.getCommand (msgType : CInt) : Bool :=
  msgType = 1002 ∨ msgType = 1006 ∨ msgType = 10012

/-- `DirectorServerProcessor::DealWithDataThread`. -/
def DirectorServerProcessor.dealWithData (self : ServerProcessor) : Option (ServerProcessor × Bool) :=
  self.dealWithData DirectorServerProcessor.getCommand

end Miku.RoomServer
