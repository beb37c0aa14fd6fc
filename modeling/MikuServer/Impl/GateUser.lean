import MikuServer.Framework.Loop
import MikuServer.Impl.RecvBuff

/-!
# The gate's users (`gate_server/user_info_list.cpp`)

`UserInfoEx::DealWithData` takes the frames of a client's stream and sends each
to the room server of its room. What it does to other objects goes to a log:
bytes written to a socket, rooms asked for, and packets set aside.
-/

namespace Miku.GateServer

/-- `E_USER_LOGIN_RQ`. -/
def eUserLoginRq : CInt := 6001

inductive Event
  | write (sock : Int) (data : List Byte)
  | sendQueryRoom (roomId : CInt)
  | addOneUndealPack (data : List Byte) (roomId userHashkey : CInt)
  deriving DecidableEq

/-- `class UserInfoEx`. -/
structure UserInfoEx where
  hashKey : CInt
  recv : RecvBuff
  deriving DecidableEq

namespace UserInfoEx

/-- The variables of `DealWithData`'s loop. -/
structure Vars where
  recv : RecvBuff
  tmpCytPack : StruCytPacket
  tmpPackData : List Byte
  tmpSendBuff : List Byte
  log : List Event
  deriving DecidableEq

/-- What is done with a frame, once it is taken: `GetChatRoom(room_id)` is the room's socket. -/
def send (rooms : CInt → Option Int) (hashKey : CInt) (v : Vars) (tmpCurrentPackLen : Int) : Option Vars :=
  match rooms v.tmpCytPack.roomId with
  | none =>
    if v.tmpCytPack.msgType = eUserLoginRq then
      some { v with log := v.log ++ [.sendQueryRoom v.tmpCytPack.roomId,
        .addOneUndealPack (v.tmpPackData.take tmpCurrentPackLen.toNat) v.tmpCytPack.roomId hashKey] }
    else some v
  | some sock => do
    let tmpPackage := GateRoomServerPack.wrap hashKey v.tmpPackData tmpCurrentPackLen
    let (tmpReturn, buff) ← tmpPackage.serializeToArray v.tmpSendBuff tmpPackage.byteSize
    if tmpReturn then
      some { v with tmpSendBuff := buff, log := v.log ++ [.write sock (buff.take tmpPackage.byteSize.toInt.toNat)] }
    else some { v with tmpSendBuff := buff }

/-- A turn of the loop. -/
def turn (rooms : CInt → Option Int) (hashKey : CInt) (v : Vars) : Option (Vars × Bool) :=
  if v.recv.validBuffLen ≤ 18 then some (v, false)
  else do
    let buff := v.recv.recvedBuff
    let (tmpResult, pack) ← (v.tmpCytPack.parseFromArray buff (cint v.recv.validBuffLen)).within buff.length
    if tmpResult then do
      let len := pack.byteSize.toInt
      let data ← memcpy v.tmpPackData 0 buff len
      let buff ← moveDown buff len (0x1000 - len)
      let v ← send rooms hashKey ⟨⟨buff, v.recv.validBuffLen - len⟩, pack, data, v.tmpSendBuff, v.log⟩ len
      some (v, true)
    else some ({ v with tmpCytPack := pack }, false)

/-- The loop's variables as it begins. -/
def Vars.start (recv : RecvBuff) (log : List Event) : Vars :=
  ⟨recv, .fresh, List.replicate 0x1000 0, List.replicate 0x2000 0, log⟩

/-- `DealWithData` with a read of `data`. The loop ends when the buffer has no frame
left: it takes no more turns than there are bytes in it. -/
def dealWithData (rooms : CInt → Option Int) (self : UserInfoEx) (log : List Event) (data : List Byte) :
    Option (UserInfoEx × List Event) := do
  let tmpReadBuff ← readBuff data
  let recv ← self.recv.recv tmpReadBuff data.length
  let v ← doWhile (turn rooms self.hashKey) (recv.validBuffLen.toNat + 1) (.start recv log)
  some ({ self with recv := v.recv }, v.log)

end UserInfoEx

end Miku.GateServer
