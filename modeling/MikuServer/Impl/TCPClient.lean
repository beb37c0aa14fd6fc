import MikuServer.Impl.CCircleBuff

/-!
# Sending a buffer (`zzm_common/tcp_client.cpp`)

The inner loop of `SendDataFun`, which sends one `BuffStruc` of `moSendTcpList`. One
turn is one call of `send`, whose result is the environment's choice; it has no value
where the bytes that are passed are not in `mszBuff`.
-/

namespace Miku.ZzmCommon.TCPClient

inductive SendResult
  /-- The socket has room for so many bytes, and takes no more than are passed. -/
  | accepted (room : Nat)
  /-- `-1`, with the error `SOCKET_NOERROR`. -/
  | wouldBlock
  /-- `-1`, with any other error. -/
  | fatal
  deriving DecidableEq

/-- The locals of the loop, and the bytes that the socket took. `pstart` is an offset into `mszBuff`. -/
structure SendState where
  pstart : Int
  leftLen : Int
  /-- `m_sock` was closed, and the loop left. -/
  closed : Bool
  accepted : List Byte
  deriving DecidableEq

namespace SendState

def start (sendBuf : BuffStruc) : SendState := ⟨0, sendBuf.miLen, false, []⟩

/-- `send` is called once more. -/
def Going (s : SendState) : Prop := s.closed = false ∧ s.leftLen > 0

instance : DecidablePred Going := fun s => inferInstanceAs (Decidable (s.closed = false ∧ s.leftLen > 0))

/-- The bytes that are passed to `send`. -/
def passed (sendBuf : BuffStruc) (s : SendState) : Option (List Byte) :=
  if 0 ≤ s.pstart ∧ s.pstart + s.leftLen ≤ sendBuf.mszBuff.length then
    some (slice sendBuf.mszBuff s.pstart.toNat s.leftLen.toNat)
  else none

/-- `left_len -= send_len; pstart += send_len;`. -/
def advance (s : SendState) (sendLen : Int) : SendState :=
  { s with leftLen := s.leftLen - sendLen, pstart := s.pstart + sendLen }

def turn (sendBuf : BuffStruc) (s : SendState) (result : SendResult) : Option SendState := do
  let bytes ← s.passed sendBuf
  match result with
  | .accepted room =>
    let taken := bytes.take room
    some { s.advance taken.length with accepted := s.accepted ++ taken }
  | .wouldBlock => some (s.advance (-1))
  | .fatal => some { s with closed := true }

/-- A turn, or nothing where the loop has ended. -/
def step (sendBuf : BuffStruc) (s : SendState) (result : SendResult) : Option SendState :=
  if s.Going then s.turn sendBuf result else some s

end SendState

end Miku.ZzmCommon.TCPClient
