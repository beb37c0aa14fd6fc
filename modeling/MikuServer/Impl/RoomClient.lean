import MikuServer.Framework.Loop
import MikuServer.Impl.CircleList
import MikuServer.Impl.RecvBuff

/-!
# The room server's gates (`room_server/client_info_list.cpp`, `room_server/gs_processor.cpp`)

`ClientInfoEx::DealWithData` takes the packets of a gate's stream, writes the
gate's hash key into each and queues it. `GateServerProcessor`'s thread gets them
from the queue and hands each to the command of its message type, which takes it
apart with `UnpackAndAnalysePackFromGSRS` (`packet/packet_analysis.h`).
-/

namespace Miku.RoomServer

/-- `class ClientInfoEx`, with the list of its `gs_processor_`. -/
structure ClientInfoEx where
  hashKey : CInt
  recv : RecvBuff
  circleList : CircleList
  deriving DecidableEq

namespace ClientInfoEx

/-- The variables of `DealWithData`'s loop. -/
structure Vars where
  recv : RecvBuff
  tmpReadBuff : List Byte
  circleList : CircleList
  deriving DecidableEq

/-- What is done with a packet, once it is taken. -/
def enqueue (hashKey : CInt) (v : Vars) (tmpPackage : GateRoomServerPack) : Option Vars := do
  let tmpPackage := { tmpPackage with gsHashkey := hashKey }
  let len := tmpPackage.byteSize
  let (tmpPackRst, buff) ← tmpPackage.serializeToArray v.tmpReadBuff len
  if tmpPackRst then do
    let (_, list) ← v.circleList.addBuffer buff len.toInt
    some { v with tmpReadBuff := buff, circleList := list }
  else some { v with tmpReadBuff := buff }

/-- A turn of the loop. -/
def turn (hashKey : CInt) (v : Vars) : Option (Vars × Bool) :=
  if v.recv.validBuffLen ≤ 18 then some (v, false)
  else do
    let buff := v.recv.recvedBuff
    let (tmpResult, pack) ←
      (GateRoomServerPack.fresh.parseFromArray buff (cint v.recv.validBuffLen)).within buff.length
    if tmpResult then do
      let len := pack.byteSize.toInt
      let valid := v.recv.validBuffLen - len
      let buff ← moveDown buff len valid
      let v ← enqueue hashKey { v with recv := ⟨buff, valid⟩ } pack
      some (v, true)
    else some (v, false)

/-- `DealWithData` with a read of `data`. -/
def dealWithData (self : ClientInfoEx) (data : List Byte) : Option ClientInfoEx := do
  let tmpReadBuff ← readBuff data
  let recv ← self.recv.recv tmpReadBuff data.length
  let v ← doWhile (turn self.hashKey) (recv.validBuffLen.toNat + 1) ⟨recv, tmpReadBuff, self.circleList⟩
  some { self with recv := v.recv, circleList := v.circleList }

end ClientInfoEx

/-- `UnpackAndAnalysePackFromGSRS`, with the packets it fills if it returns true.
`parse` is `ParseFromArray` of the message type. -/
def unpackAndAnalysePackFromGSRS {T : Type} (parse : List Byte → CInt → Option T) (buffIn : List Byte)
    (lenIn : CInt) : Option (Option (GateRoomServerPack × StruCytPacket × T)) := do
  let (ok, gPack) ← (GateRoomServerPack.fresh.parseFromArray buffIn lenIn).within buffIn.length
  if ok then do
    let msg := cStr gPack.dataMsg
    let (ok, sPack) ← (StruCytPacket.fresh.parseFromArray msg gPack.dataLen).within msg.length
    if ok then
      some ((parse (cStr sPack.msgData) sPack.msgLen).map fun pack => (gPack, sPack, pack))
    else some none
  else some none

namespace GateServerProcessor

/-- A turn of `DealWithDataThread`: the list, what the commands made of the packets
they were given, and whether there was a packet. `getCommand` is the command of a
message type, by the `ParseFromArray` of the message it is for. -/
def turn {T : Type} (getCommand : CInt → Option (List Byte → CInt → Option T))
    (s : CircleList × List (Option (GateRoomServerPack × StruCytPacket × T))) :
    Option ((CircleList × List (Option (GateRoomServerPack × StruCytPacket × T))) × Bool) := do
  let g ← s.1.getBuffer (List.replicate 0x2000 0) 0x2000 0
  if g.ret then do
    let (ok, grPack) ← (GateRoomServerPack.fresh.parseFromArray g.outBuff (cint g.outLen)).within g.outBuff.length
    if ok then do
      let msg := cStr grPack.dataMsg
      let (ok, cytPack) ← (StruCytPacket.fresh.parseFromArray msg grPack.dataLen).within msg.length
      if ok then
        match getCommand cytPack.msgType with
        | none => some ((g.list, s.2), true)
        | some parse => do
          let u ← unpackAndAnalysePackFromGSRS parse g.outBuff (cint g.outLen)
          some ((g.list, s.2 ++ [u]), true)
      else some ((g.list, s.2), true)
    else some ((g.list, s.2), true)
  else some ((g.list, s.2), false)

/-- `DealWithDataThread` until it finds the list empty. -/
def dealWithDataThread {T : Type} (getCommand : CInt → Option (List Byte → CInt → Option T))
    (circleList : CircleList) : Option (CircleList × List (Option (GateRoomServerPack × StruCytPacket × T))) :=
  doWhile (turn getCommand) (circleList.usingSize.toNat + 1) (circleList, [])

end GateServerProcessor

end Miku.RoomServer
