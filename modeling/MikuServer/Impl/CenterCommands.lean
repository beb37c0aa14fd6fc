import MikuServer.Impl.RoomPackets

/-!
# The requests at the center server (`center_server/rs_command/`, `center_server/mmiku_database.cpp`)

The stored procedures are parameters: what the queries after them give.
-/

namespace Miku.CenterServer

/-- A row of a query's result, by the number of the column; `none` if `getInt` throws. -/
abbrev Row := Nat → Option Int

/-- `call give_gift(sender_id, recver_id, count_gift, gift_code, ..)` and the query after it:
the row that it gives, or `none` if there is no connection, no row, or an exception. -/
abbrev GiveGift := Int → Int → Int → List Byte → Option Row

/-- `MikuDatabase::UserGiveGift`: its value, and then the values of `result` and `sender_red_d`. -/
def userGiveGift (call : GiveGift) (senderId recverId countGift : Int) (giftCode : List Byte)
    (result senderRedD : Int) : Int × Int × Int :=
  match call senderId recverId countGift giftCode with
  | none => (0, result, senderRedD)
  | some getInt =>
    match getInt 1 with
    | none => (0, result, senderRedD)
    | some senderRedD =>
      match getInt 2 with
      | none => (0, result, senderRedD)
      | some result => (1, result, senderRedD)

/-- `UserGiveGiftRQ::Execute`: the message it sends. -/
def userGiveGiftRQ (call : GiveGift) (rq : StruUserGiveGiftRQ) : Option StruUserGiveGiftRS :=
  -- `tmp_sender_red_d` is passed for `result`, and `tmp_result` for `sender_red_d`.
  let (tmpDbRet, tmpSenderRedD, tmpResult) := userGiveGift call rq.userId rq.dstUserId rq.countGift rq.giftCode 0 0
  if 0 < tmpDbRet then
    some {
      msgId := .userGiveGiftRS
      userId := rq.userId
      roomId := rq.roomId
      result := tmpResult
      giftCode := rq.giftCode
      dstUserId := rq.dstUserId
      senderRedD := tmpSenderRedD }
  else none

/-! ## A login request -/

/-- The row that `user_login` gives; a column is `none` if `getString` or `getInt` throws. -/
structure LoginRow where
  getString : Nat → Option (List Byte)
  getInt : Nat → Option CInt

/-- `call user_login(user_id, ..)` and the query after it: the row that it gives, or `none` if
there is no connection, no row, or an exception. -/
abbrev UserLogin := Int → Option LoginRow

/-- `::tolower`. -/
def tolower (c : Byte) : Byte := if 65 ≤ c.toNat ∧ c.toNat ≤ 90 then c + 32 else c

/-- `tmp_user_psw == tmp_user_psw_arg`, after `transform`. -/
def samePsw (tmpUserPsw tmpUserPswArg : List Byte) : Bool := tmpUserPsw.map tolower = tmpUserPswArg.map tolower

/-- `ClientLoginRQ::Execute`: the message it sends. `MikuDatabase::UserLogin` is a part of it: its
value is 0 where there is no message. -/
def clientLoginRQ (call : UserLogin) (userId roomId : Int) (userPsw : List Byte) : Option StruUserLoginRS := do
  let row ← call userId
  let tmpUserPsw ← row.getString 1
  let userRedD ← row.getInt 2
  let userBlueD ← row.getInt 3
  let userLevel ← row.getInt 4
  let buyerRiches ← row.getInt 5
  let buyerGrowUp ← row.getInt 6
  let buyerHonour ← row.getInt 7
  let buyerEstimate ← row.getInt 8
  let sellerIncome ← row.getInt 9
  let sellerExp ← row.getInt 10
  let sellerPop ← row.getInt 11
  let sellerEstimate ← row.getInt 12
  some {
    msgId := .userLoginRS
    userId := userId
    roomId := roomId
    result := if samePsw tmpUserPsw userPsw then 1 else 0
    userRedD := userRedD.toInt
    userBlueD := userBlueD.toInt
    userLevel := userLevel.toInt
    buyerRiches := buyerRiches.toInt
    buyerGrowUp := buyerGrowUp.toInt
    buyerHonour := buyerHonour.toInt
    buyerEstimate := buyerEstimate.toInt
    sellerIncome := sellerIncome.toInt
    sellerExp := sellerExp.toInt
    sellerPop := sellerPop.toInt
    sellerEstimate := sellerEstimate.toInt }

end Miku.CenterServer
