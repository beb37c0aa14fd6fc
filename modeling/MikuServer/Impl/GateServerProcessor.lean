import MikuServer.Impl.CircleList
import MikuServer.Impl.RecvBuff

/-!
# What the room server sends to a gate (`room_server/gs_processor.h`, `room_server/gs_processor.cpp`)

Every gate connection has a `GateServerProcessor` with two lists: `data_list_` of
its base class, for what the gate sends, and `send_list_`, for what is sent to
it. `SendData` packs a message twice, in a `StruCytPacket` and in a
`GateRoomServerPack`, and queues it; `SendDataThread` writes what is queued to
the gate's socket.
-/

namespace Miku.RoomServer

/-- `class GateServerProcessor`, with the list of its base class. -/
structure GateServerProcessor where
  dataList : CircleList
  sendList : CircleList
  isStarted : Bool
  deriving DecidableEq

namespace GateServerProcessor

/-- `GateServerProcessor()`: both lists are made by `CircleList()`. -/
def new : GateServerProcessor := ⟨.new 0, .new 0, false⟩

/-- `InitProcessor`: `BaseProcessor::InitProcessor`, and the commands. -/
def initProcessor (self : GateServerProcessor) (maxListSize : Int) : GateServerProcessor :=
  { self with dataList := self.dataList.initBuffer maxListSize }

def startProcessor (self : GateServerProcessor) (threadCount : Int) : Bool × GateServerProcessor :=
  if threadCount ≤ 0 then (false, self)
  else (true, { self with isStarted := true })

/-- What `ClientInfoList::AddUserInfo` does with the processor of a new connection. -/
def addUserInfo (self : GateServerProcessor) : GateServerProcessor :=
  ((self.initProcessor 1000).startProcessor 1).2

/-- `SendData(pack, msg_id, user_hashkey)`, for a message that `SerializeToArray`
writes as the bytes `pack`. -/
def sendData (self : GateServerProcessor) (pack : List Byte) (msgId userHashkey : CInt) :
    Option (Bool × GateServerProcessor) := do
  let tmpMsgDataBuff ← memcpy (List.replicate 0x2000 0) 0 pack pack.length
  let tmpPackCytPack : StruCytPacket :=
    ⟨packHead, 0, cint pack.length, msgId, setData [] tmpMsgDataBuff pack.length, packTail⟩
  let tmpSendLen := tmpPackCytPack.byteSize
  let (tmpReturn, tmpSendBuff) ← tmpPackCytPack.serializeToArray (List.replicate 0x2000 0) tmpSendLen
  if tmpReturn then do
    let tmpGrPack := GateRoomServerPack.wrap userHashkey tmpSendBuff tmpSendLen.toInt
    let tmpPackLen := tmpGrPack.byteSize
    let (tmpReturn, tmpMsgDataBuff) ← tmpGrPack.serializeToArray tmpMsgDataBuff tmpPackLen
    if tmpReturn then do
      let (ret, list) ← self.sendList.addBuffer tmpMsgDataBuff tmpPackLen.toInt
      some (ret, { self with sendList := list })
    else some (false, self)
  else some (false, self)

/-- A turn of `SendDataThread`: the processor, `tmp_out_buff`, and what is written. -/
def sendDataThread (self : GateServerProcessor) (tmpOutBuff : List Byte) :
    Option (GateServerProcessor × List Byte × Option (List Byte)) := do
  let g ← self.sendList.getBuffer tmpOutBuff 0x2000 0
  let self := { self with sendList := g.list }
  if g.ret then some (self, g.outBuff, some (g.outBuff.take g.outLen.toNat))
  else some (self, g.outBuff, none)

end GateServerProcessor

end Miku.RoomServer
