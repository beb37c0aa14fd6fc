import MikuServer.Framework.Loop
import MikuServer.Impl.CircleList
import MikuServer.Impl.RecvBuff

/-!
# The center server's room servers (`center_server/client_info_list.cpp`)

`ClientInfoEx::DealWithData` takes the frames of a room server's stream. For
each it queues as many bytes as the frame has, from `tmp_read_buff`.
-/

namespace Miku.CenterServer

/-- `class ClientInfoEx`, with the list of its `rs_processor_`. -/
structure ClientInfoEx where
  recv : RecvBuff
  circleList : CircleList
  deriving DecidableEq

namespace ClientInfoEx

/-- The variables of `DealWithData`'s loop. -/
structure Vars where
  recv : RecvBuff
  tmpPackage : StruCytPacket
  circleList : CircleList
  deriving DecidableEq

/-- A turn of the loop. -/
def turn (tmpReadBuff : List Byte) (v : Vars) : Option (Vars × Bool) :=
  if v.recv.validBuffLen ≤ 18 then some (v, false)
  else do
    let buff := v.recv.recvedBuff
    let (tmpResult, pack) ← (v.tmpPackage.parseFromArray buff (cint v.recv.validBuffLen)).within buff.length
    if tmpResult then do
      let len := pack.byteSize.toInt
      let valid := v.recv.validBuffLen - len
      let (_, list) ← v.circleList.addBuffer tmpReadBuff len
      let buff ← moveDown buff len valid
      some (⟨⟨buff, valid⟩, pack, list⟩, true)
    else some ({ v with tmpPackage := pack }, false)

/-- `DealWithData` with a read of `data`. -/
def dealWithData (self : ClientInfoEx) (data : List Byte) : Option ClientInfoEx := do
  let tmpReadBuff ← readBuff data
  let recv ← self.recv.recv tmpReadBuff data.length
  let v ← doWhile (turn tmpReadBuff) (recv.validBuffLen.toNat + 1) ⟨recv, .fresh, self.circleList⟩
  some ⟨v.recv, v.circleList⟩

end ClientInfoEx

end Miku.CenterServer
