import MikuServer.Impl.RoomCommands

/-!
# The dispatch of a gate's messages (`room_server/gs_processor.cpp`)

`DealWithDataThread` calls `Execute` of the command that a message is for with
its own argument as `caller_ptr`. The commands that reply to the gate itself
take `caller_ptr` for a `ClientInfoEx *`.
-/

namespace Miku.RoomServer

/-- What a `void *` points to, for the gate `gs`. -/
inductive Object
  | clientInfoEx (gs : BaseUserInfo)
  /-- Its `gs_processor_`. -/
  | gateServerProcessor (gs : BaseUserInfo)

/-- `reinterpret_cast<ClientInfoEx *>(ptr)->GetGSProcessor()`, by the gate whose processor
it is. In an object of another class there is none where `gs_processor_` would be. -/
def Object.getGSProcessor : Object → Option BaseUserInfo
  | .clientInfoEx gs => some gs
  | .gateServerProcessor _ => none

/-- Messages that a command has sent, with the processor that `callerPtr` gives it. -/
def issued (callerPtr : Object) : List Sent → Option (List Sent)
  | [] => some []
  | .caller pack msgId userHashkey :: ms =>
    match callerPtr.getGSProcessor with
    | none => none
    | some gs => (issued callerPtr ms).map (.gate gs pack msgId userHashkey :: ·)
  | m :: ms => (issued callerPtr ms).map (m :: ·)

namespace Server

/-- The server `t` that a command leaves after `s`, with what it has sent as issued. -/
def issue (callerPtr : Object) (s t : Server) : Option Server :=
  (issued callerPtr (t.sent.drop s.sent.length)).map fun ms => { t with sent := s.sent ++ ms }

/-- `tmp_cmd->Execute(buff, len, caller_ptr)`, for the command that `m` is for. -/
def execute (callerPtr : Object) (m : Message) : Act Server Unit := fun s =>
  match handle m s with
  | .done _ t =>
    match issue callerPtr s t with
    | some t => .done () t
    | none => .fault
  | .blocked t =>
    match issue callerPtr s t with
    | some t => .blocked t
    | none => .fault
  | .fault => .fault

/-- A message in `DealWithDataThread(arg)`, where `StartProcessor` has passed the processor of
the gate `gs` (`this`) for `arg`. -/
def dealWithData (gs : BaseUserInfo) (m : Message) : Act Server Unit := execute (.gateServerProcessor gs) m

end Server

end Miku.RoomServer
