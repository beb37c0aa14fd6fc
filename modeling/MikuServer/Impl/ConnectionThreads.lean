import MikuServer.Impl.ServerListenner

/-!
# The threads that share the connections (`common/server_listenner.cpp`, `gate_server/rs_processor.cpp`)

`AcceptAction` and `ErrorRead` in their steps: the thread that accepts, the
workers that read from the users, and at the gate the threads of the
`RoomServerProcessor`s, which look a user up and then write to its `user_sock`.
The `list_lock_` of the `UserInfoList` makes each of its functions one step.

The kernel's part is the table of the descriptors: `accept` returns one that is
not open, `close` makes it one, and `write` goes to what it is open on.
-/

namespace Miku.Common

/-- What a descriptor is open on: the connection that was accepted when `base_hash_key_` became
`hashKey`, or something else. -/
inductive File
  | connection (hashKey : Int)
  | other
  deriving DecidableEq

/-- Where the accepting thread is in `AcceptAction`: not in it; before `GetUserInfo`; before it sets
the members of the object; before `bufferevent_enable`; before `AddUserInfo`; and before it writes to the
worker's pipe. -/
inductive AcceptPlace
  | idle
  | accepted (tmpClientSock uip uport : Int)
  | got (tmpUser : UserPtr) (tmpClientSock uip uport : Int)
  | set (tmpUser : UserPtr)
  | enabled (tmpUser : UserPtr)
  | registered (tmpUser : UserPtr)
  deriving DecidableEq

/-- The threads and what they share. `leaving` are the objects whose sockets `ReleaseUserInfo` has
closed and that it has not given back, `reader` what a thread of a `RoomServerProcessor` has looked up:
a packet's `user_hashkey` and the object; and `written` is where the data went, with the key. -/
structure Connections (ι : Type) where
  server : ServerListenner
  files : Int → Option File
  accepting : AcceptPlace
  leaving : List UserPtr
  reader : ι → Option (Int × UserPtr)
  written : List (Int × File)

inductive ConnectionEvent (ι : Type)
  | accept (tmpClientSock uip uport : Int)
  | acceptAction
  | dealWithReadData (tmpUser : UserPtr)
  | errorRead (tmpUser : UserPtr)
  | releaseUserInfo (tmpUser : UserPtr)
  | readAction (tmpUserHashKey : Int)
  | lookUp (i : ι) (userHashkey : Int)
  | write (i : ι)

namespace Connections

variable {ι : Type}

/-- A server with `n` objects; `files` are the descriptors that are open before the first accept. -/
def start (of : Server) (countWorker : Int) (n : Nat) (files : Int → Bool) : Connections ι :=
  ⟨.start of countWorker n, fun s => if files s then some .other else none, .idle, [], fun _ => none, []⟩

/-- `accept` and `base_hash_key_++`; the descriptor 0 is left open. -/
def accept (self : Connections ι) (tmpClientSock uip uport : Int) : Option (Connections ι) :=
  if 0 ≤ tmpClientSock ∧ (self.files tmpClientSock).isSome then none
  else if 0 < tmpClientSock then do
    let server ← self.server.nextHashKey
    some { self with
      server := server
      files := Function.update self.files tmpClientSock (some (.connection server.baseHashKey))
      accepting := .accepted tmpClientSock uip uport }
  else if tmpClientSock = 0 then
    some { self with files := Function.update self.files tmpClientSock (some .other) }
  else some self

/-- The next step of `AcceptAction`. -/
def acceptAction (self : Connections ι) : Option (Connections ι) :=
  match self.accepting with
  | .idle => none
  | .accepted tmpClientSock uip uport =>
    match self.server.getUserInfo with
    | (none, server) => some { self with server := server, accepting := .idle }
    | (some tmpUser, server) => some { self with server := server, accepting := .got tmpUser tmpClientSock uip uport }
  | .got tmpUser tmpClientSock uip uport => do
    let tmpIndex ← self.server.tmpIndex
    some { self with server := self.server.setInfo tmpUser tmpIndex tmpClientSock uip uport, accepting := .set tmpUser }
  | .set tmpUser => some { self with server := self.server.enable tmpUser, accepting := .enabled tmpUser }
  | .enabled tmpUser => some { self with server := self.server.register tmpUser, accepting := .registered tmpUser }
  | .registered _ => some { self with accepting := .idle }

/-- `ErrorRead` up to `close`. -/
def errorRead (self : Connections ι) (tmpUser : UserPtr) : Connections ι :=
  let u := self.server.users tmpUser
  let self := { self with server := self.server.leave tmpUser }
  if u.serverPtr then
    { self with files := Function.update self.files u.userSock none, leaving := tmpUser :: self.leaving }
  else self

/-- `UserInfoList::ReleaseUserInfo`. -/
def releaseUserInfo (self : Connections ι) (tmpUser : UserPtr) : Connections ι :=
  { self with server := self.server.giveBack tmpUser, leaving := self.leaving.erase tmpUser }

variable [DecidableEq ι]

/-- `GetUserByHashkey` for a packet. -/
def lookUp (self : Connections ι) (i : ι) (userHashkey : Int) : Connections ι :=
  let (tmpUser, server) := self.server.getUserByHashkey userHashkey
  { self with server := server, reader := Function.update self.reader i (tmpUser.map (userHashkey, ·)) }

/-- `write(tmp_user->user_sock, …)`. -/
def write (self : Connections ι) (i : ι) (userHashkey : Int) (tmpUser : UserPtr) : Connections ι :=
  { self with
    reader := Function.update self.reader i none
    written := self.written ++ ((self.files (self.server.users tmpUser).userSock).map (userHashkey, ·)).toList }

/-- A worker has data or the end of a connection for an object whose reading is enabled. -/
def step (self : Connections ι) : ConnectionEvent ι → Option (Connections ι)
  | .accept tmpClientSock uip uport =>
    if self.accepting = .idle then self.accept tmpClientSock uip uport else none
  | .acceptAction => self.acceptAction
  | .dealWithReadData tmpUser => if (self.server.users tmpUser).reading then some self else none
  | .errorRead tmpUser => if (self.server.users tmpUser).reading then some (self.errorRead tmpUser) else none
  | .releaseUserInfo tmpUser => if tmpUser ∈ self.leaving then some (self.releaseUserInfo tmpUser) else none
  | .readAction tmpUserHashKey => some { self with server := (self.server.getUserByHashkey tmpUserHashKey).2 }
  | .lookUp i userHashkey => if (self.reader i).isNone then some (self.lookUp i userHashkey) else none
  | .write i =>
    match self.reader i with
    | none => none
    | some (userHashkey, tmpUser) => some (self.write i userHashkey tmpUser)

end Connections

end Miku.Common
