import MikuServer.Framework.Loop
import MikuServer.Impl.CircleList
import MikuServer.Impl.RecvBuff

/-!
# The gate's way back (`gate_server/rs_processor.cpp`, `gate_server/rs_connector.cpp`)

`Connector::RecvDataThread` reads chunks of up to 0x2000 bytes from the room
server, and `RoomServerConnector::DealWithData` queues them. The one thread of
`RoomServerProcessor` puts them together in `deal_buff_`, and writes each
packet's data to the user it is for. The two threads share the list only, which
is locked in each of its functions: a step is a chunk queued or a turn of the
other thread.
-/

namespace Miku.GateServer

/-- `MaxDealBuffLen`. -/
def maxDealBuffLen : Nat := 0x4000

/-- What `DealWithDataThread` did with a packet's data. -/
inductive Delivery
  | write (sock : Int) (data : List Byte)
  | notFound (userHashkey : CInt)
  deriving DecidableEq

/-- `class RoomServerProcessor`, and what it has delivered. -/
structure RoomServerProcessor where
  circleList : CircleList
  dealBuff : List Byte
  validBuffLen : Int
  delivered : List Delivery
  deriving DecidableEq

namespace RoomServerProcessor

/-- `InitProcessor(max_list_size, …)`: `deal_buff_` holds whatever was in its memory. -/
def init (maxListSize : Nat) (mem : List Byte) : RoomServerProcessor :=
  ⟨(CircleList.new 0).initBuffer maxListSize, mem, 0, []⟩

/-- `RecvDataThread` reads `chunk` into its zeroed `tmp_read_buff`, and queues it. -/
def recvData (self : RoomServerProcessor) (chunk : List Byte) : Option RoomServerProcessor := do
  let tmpReadBuff ← memcpy (List.replicate 0x2000 0) 0 chunk chunk.length
  let (_, list) ← self.circleList.addBuffer tmpReadBuff chunk.length
  some { self with circleList := list }

/-- A turn of the inner loop. `users` is `GetUserByHashkey(user_hashkey)`, the user's socket. -/
def turn (users : CInt → Option Int) (v : RoomServerProcessor × GateRoomServerPack) :
    Option ((RoomServerProcessor × GateRoomServerPack) × Bool) :=
  let (self, tmpRgPack) := v
  if self.validBuffLen ≤ 18 then some ((self, tmpRgPack), false)
  else do
    let buff := self.dealBuff
    let (tmpReturn, pack) ← (tmpRgPack.parseFromArray buff (cint self.validBuffLen)).within buff.length
    if tmpReturn then do
      let len := pack.byteSize.toInt
      let valid := self.validBuffLen - len
      let buff ← moveDown buff len valid
      let d :=
        match users pack.userHashkey with
        | some sock => Delivery.write sock ((cStr pack.dataMsg).take pack.dataLen.toInt.toNat)
        | none => .notFound pack.userHashkey
      some (({ self with dealBuff := buff, validBuffLen := valid, delivered := self.delivered ++ [d] }, pack), true)
    else some ((self, pack), false)

/-- A turn of `DealWithDataThread`, and whether it got a chunk. -/
def dealWithData (users : CInt → Option Int) (self : RoomServerProcessor) :
    Option (RoomServerProcessor × Bool) := do
  let v := self.validBuffLen
  if 0 ≤ v then do
    let g ← self.circleList.getBuffer (self.dealBuff.drop v.toNat) (maxDealBuffLen - v) 0
    let self := { self with circleList := g.list, dealBuff := self.dealBuff.take v.toNat ++ g.outBuff }
    if g.ret then do
      let self := { self with validBuffLen := self.validBuffLen + g.outLen }
      let (self, _) ← doWhile (turn users) (self.validBuffLen.toNat + 1) (self, .fresh)
      some (self, true)
    else some (self, false)
  else none

end RoomServerProcessor

end Miku.GateServer
