import MikuServer.Framework.Loop
import MikuServer.Framework.Text
import MikuServer.Impl.ServerListenner

/-!
# The configuration (`GetConfig` of the three servers)

The function is the same in `gate_server.cpp`, `room_server.cpp` and
`center_server.cpp`, but for the names that it compares the first word of a line to
(`ConfigKeys`). The text is that of the file; one that cannot be opened is as if
empty. An `int` that nothing was read into has no value.
-/

namespace Miku.Common

/-- The members that are strings. -/
inductive StrMember
  | serverIp
  | dsIp
  | dbAddr
  | dbUser
  | dbPsw
  | dbName
  deriving DecidableEq

/-- The members that are numbers. -/
inductive IntMember
  | serverPort
  | countWorker
  | countUserPerWorker
  | readTimeout
  | writeTimeout
  | dsPort
  | serverId
  | maxConnSize
  deriving DecidableEq

/-- The members that `GetConfig` sets. -/
@[ext] structure Config where
  str : StrMember → List Char
  int : IntMember → Int

namespace Config

def setStr (self : Config) (m : StrMember) (value : List Char) : Config :=
  { self with str := Function.update self.str m value }

def setInt (self : Config) (m : IntMember) (value : Int) : Config :=
  { self with int := Function.update self.int m value }

end Config

/-- No white space, and no `#`. -/
def IsName (name : List Char) : Prop := name ≠ [] ∧ ∀ c ∈ name, isSpace c = false ∧ c ≠ '#'

instance : DecidablePred IsName := fun name =>
  -- One character of the name after the other, not all that there are.
  have : Decidable (∀ c ∈ name, isSpace c = false ∧ c ≠ '#') := List.decidableBAll _ name
  inferInstanceAs (Decidable (name ≠ [] ∧ ∀ c ∈ name, isSpace c = false ∧ c ≠ '#'))

/-- The names of the members, of which those of strings are compared first. -/
structure ConfigKeys where
  str : List (List Char × StrMember)
  int : List (List Char × IntMember)
  str_name : ∀ e ∈ str, IsName e.1
  int_name : ∀ e ∈ int, IsName e.1
  disjoint : ∀ e ∈ int, str.lookup e.1 = none

namespace ConfigKeys

/-- What a line does to the members. -/
def readLine (keys : ConfigKeys) (self : Config) (line : List Char) : Option Config :=
  -- `find_first_not_of(" #")`.
  if line.all (· ∈ [' ', '#']) then some self
  else
    let (name, rest) := (readWord line).getD ([], [])
    match keys.str.lookup name with
    | some m =>
      match readWord rest with
      | some (value, _) => some (self.setStr m value)
      | none => some self
    | none =>
      match keys.int.lookup name with
      | some m => (readInt rest).map (self.setInt m)
      | none => some self

/-- One turn of the loop over the lines. -/
def turn (keys : ConfigKeys) (s : List Char × Config) : Option ((List Char × Config) × Bool) :=
  match getline s.1 with
  | none => some (s, false)
  | some (line, rest, eof) =>
    if eof then some ((rest, s.2), false)
    else (keys.readLine s.2 line).map fun self => ((rest, self), true)

def getConfig (keys : ConfigKeys) (self : Config) (text : List Char) : Option (Bool × Config) := do
  let (_, self) ← doWhile keys.turn (text.length + 1) (text, self)
  some (decide (self.int .serverPort ≠ 0), self)

end ConfigKeys

/-- The names that the gate and the room server know. -/
def serverKeys : ConfigKeys where
  str := [("ip".toList, .serverIp), ("ds_ip".toList, .dsIp)]
  int := [("port".toList, .serverPort), ("count_worker".toList, .countWorker),
    ("user_per_worker".toList, .countUserPerWorker), ("read_timeout".toList, .readTimeout),
    ("write_timeout".toList, .writeTimeout), ("ds_port".toList, .dsPort), ("server_id".toList, .serverId)]
  str_name := by decide
  int_name := by decide
  disjoint := by decide

/-- The names that the center server knows. -/
def centerKeys : ConfigKeys where
  str := [("ip".toList, .serverIp), ("ds_ip".toList, .dsIp), ("db_addr".toList, .dbAddr), ("db_user".toList, .dbUser),
    ("db_psw".toList, .dbPsw), ("db_name".toList, .dbName)]
  int := serverKeys.int ++ [("db_max_conn".toList, .maxConnSize)]
  str_name := by decide
  int_name := by decide
  disjoint := by decide

def Server.configKeys : Server → ConfigKeys
  | gate | room => serverKeys
  | center => centerKeys

end Miku.Common

namespace Miku.GateServer

def getConfig : Common.Config → List Char → Option (Bool × Common.Config) := Common.serverKeys.getConfig

end Miku.GateServer

namespace Miku.RoomServer

def getConfig : Common.Config → List Char → Option (Bool × Common.Config) := Common.serverKeys.getConfig

end Miku.RoomServer

namespace Miku.CenterServer

def getConfig : Common.Config → List Char → Option (Bool × Common.Config) := Common.centerKeys.getConfig

end Miku.CenterServer

namespace Miku.Common

/-- `GetConfig` of a server. -/
def Server.getConfig : Server → Config → List Char → Option (Bool × Config)
  | gate => GateServer.getConfig
  | room => RoomServer.getConfig
  | center => CenterServer.getConfig

end Miku.Common
