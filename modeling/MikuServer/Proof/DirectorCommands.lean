import MikuServer.Framework.CodedRuntime
import MikuServer.Framework.Loop
import MikuServer.Impl.DirectorCommands
import MikuServer.Proof.MessageSend

/-!
# The room server's connection to its center server holds for one address

The first address that leads to a connection registers the center's commands; they
are never released, so that `InitProcessor` refuses any later one (`Inv.connect`).
The connection is there exactly as long as nothing was tried after the first time
that it came about (`isStarted_iff_first`).
-/

namespace Miku.RoomServer

open Common Protobuf
open WireFormat (Runtime)

/-- The address in a reply of the director server, where the command connects to it. -/
def Executed.address [Runtime] (e : Executed) : Option (List Byte × BitVec 16) :=
  if e.msgType = 10012 then
    (sStruDsRSGetCsInfoRs.parseFromArray e.buff e.len).bind fun rs =>
      if rs.str 2 = [] ∨ rs.int 3 = 0 then none
      else some ((rs.str 2).takeWhile (· ≠ 0), BitVec.ofInt 16 (rs.int 3))
  else none

/-- The director server has let the room server in. -/
def Executed.accepts [Runtime] (e : Executed) : Bool :=
  e.msgType = 1002 ∧ (struDsServerConnectRs.parseFromArray e.buff e.len).any fun rs => rs.int 1 = 1

/-- A turn executes at most one command. -/
theorem ServerProcessor.dealWithData_executed {g : CInt → Bool} {s : ServerProcessor} {r : ServerProcessor × Bool}
    (h : s.dealWithData g = some r) : ∃ es, es.length ≤ 1 ∧ r.1.executed = s.executed ++ es := by
  rw [dealWithData] at h
  obtain ⟨got, -, h⟩ := Option.bind_eq_some_iff.mp h
  split at h
  · obtain ⟨⟨ret, pack⟩, -, h⟩ := Option.bind_eq_some_iff.mp h
    dsimp only at h
    split at h
    · split at h <;> cases h
      · exact ⟨[_], le_rfl, rfl⟩
      · exact ⟨[], Nat.zero_le _, (List.append_nil _).symm⟩
    · cases h
      exact ⟨[], Nat.zero_le _, (List.append_nil _).symm⟩
  · cases h
    exact ⟨[], Nat.zero_le _, (List.append_nil _).symm⟩

theorem ServerProcessor.recvData_executed {s p : ServerProcessor} {chunk : List Byte} (h : s.recvData chunk = some p) :
    p.executed = s.executed := by
  obtain ⟨buff, -, h⟩ := Option.bind_eq_some_iff.mp h
  obtain ⟨r, -, h⟩ := Option.bind_eq_some_iff.mp h
  cases h
  rfl

/-! ## The commands of the center server -/

theorem registerCommand_none {chain : CommandChain} {i : Int} (h : chain.commandChain.ptr i = none)
    (command : CommandPtr) : chain.registerCommand i (some command) =
      (true, { chain with commandChain := chain.commandChain.assign i (some command) }) := by
  simp only [CommandChain.registerCommand, h, StdMap.assign_subscript]

theorem registerCommand_some {chain : CommandChain} {i : Int} (h : chain.commandChain.ptr i ≠ none)
    (command : CommandPtr) : chain.registerCommand i (some command) = (false, chain) := by
  obtain ⟨p, hp⟩ := Option.ne_none_iff_exists'.mp h
  simp only [CommandChain.registerCommand, hp, StdMap.subscript_of_ptr hp]

namespace CenterServerConnector

/-- The commands of the center server, of which there are both or none. -/
def Registered (c : CenterServerConnector) (b : Prop) : Prop :=
  (c.cmdChain.commandChain.ptr 6002 ≠ none ↔ b) ∧ (c.cmdChain.commandChain.ptr 6013 ≠ none ↔ b)

variable {c : CenterServerConnector}

/-- The first call keeps the connection. -/
theorem startCSProcessor_first (h : c.Registered False) (command : CommandPtr) :
    ∃ chain, c.startCSProcessor command = { c with cmdChain := chain } ∧
      Registered { c with cmdChain := chain } True := by
  obtain ⟨h1, h2⟩ := h
  rw [iff_false, not_not] at h1 h2
  have h2' : ({ c.cmdChain with commandChain := c.cmdChain.commandChain.assign 6002 (some command) } :
      CommandChain).commandChain.ptr 6013 = none := by
    rw [StdMap.ptr_assign, if_neg (by decide), h2]
  refine ⟨{ c.cmdChain with
    commandChain := (c.cmdChain.commandChain.assign 6002 (some command)).assign 6013 (some (command + 1)) }, ?_, ?_, ?_⟩
  · simp only [startCSProcessor, initProcessor, registerCommand_none h1, registerCommand_none h2', if_true]
  · simp only [StdMap.ptr_assign, iff_true]
    rw [if_neg (by decide), if_true]
    exact Option.some_ne_none _
  · simp only [StdMap.ptr_assign, iff_true, if_true]
    exact Option.some_ne_none _

/-- Every later one ends it. -/
theorem startCSProcessor_again (h : c.Registered True) (command : CommandPtr) :
    c.startCSProcessor command = { c with isStarted := false } := by
  have h1 : c.cmdChain.commandChain.ptr 6002 ≠ none := h.1.mpr trivial
  simp only [startCSProcessor, initProcessor, registerCommand_some h1, Bool.false_eq_true, if_false, disconnect]

/-- The connection is kept if the commands were not there before. -/
theorem startCSProcessor_cases {b : Prop} (h : c.Registered b) (command : CommandPtr) :
    ∃ started chain, c.startCSProcessor command = { c with isStarted := started, cmdChain := chain } ∧
      (started = true ↔ c.isStarted = true ∧ ¬b) ∧
      Registered { c with isStarted := started, cmdChain := chain } True := by
  by_cases hb : b
  · rw [eq_true hb] at h ⊢
    exact ⟨false, c.cmdChain, startCSProcessor_again h command, by simp, h⟩
  · rw [eq_false hb] at h ⊢
    obtain ⟨chain, h1, h2⟩ := startCSProcessor_first h command
    exact ⟨c.isStarted, chain, h1, by simp, h2⟩

end CenterServerConnector

/-! ## Runs -/

namespace Connectors

section

variable [Runtime]

/-- The addresses that the director server has given. -/
def addresses (s : Connectors) : List (List Byte × BitVec 16) := s.dsProcessor.executed.filterMap Executed.address

structure Inv (s : Connectors) : Prop where
  address : (s.csConnector.serverIp, s.csConnector.serverPort) = s.addresses.getLast?.getD ([], 0)
  tried : s.addresses.length = s.returned.length + if s.csConnector.connecting then 1 else 0
  port (i : Nat) (a : List Byte × BitVec 16) : s.addresses[i]? = some a → a.2.toInt ≤ 0 → s.returned[i]? = some false
  registered : s.csConnector.Registered (true ∈ s.returned)
  connecting : s.csConnector.connecting = true → s.csConnector.isStarted = true
  started : s.csConnector.connecting = false →
    (s.csConnector.isStarted = true ↔ ∃ n, s.returned = List.replicate n false ++ [true])

variable {s s' : Connectors}

/-- What the command makes of a reply: nothing, an attempt that fails, or one that goes on to `connect`. -/
theorem getCenterServerAddrRS_cases (hc : s.csConnector.connecting = false) {e : Executed} (hid : e.msgType = 10012)
    (socket : Bool) :
    (e.address = none ∧ s.getCenterServerAddrRS e.buff e.len socket = s) ∨
    ∃ a, e.address = some a ∧
      (s.getCenterServerAddrRS e.buff e.len socket = { s with
          csConnector := { s.csConnector with serverIp := a.1, serverPort := a.2, isStarted := false }
          returned := s.returned ++ [false] } ∨
        0 < a.2.toInt ∧ s.getCenterServerAddrRS e.buff e.len socket = { s with
          csConnector :=
            { s.csConnector with serverIp := a.1, serverPort := a.2, isStarted := true, connecting := true } }) := by
  rw [Executed.address, if_pos hid, getCenterServerAddrRS]
  rcases sStruDsRSGetCsInfoRs.parseFromArray e.buff e.len with _ | rs
  · exact .inl ⟨rfl, rfl⟩
  rw [Option.bind_some]
  dsimp only
  split
  · exact .inl ⟨rfl, rfl⟩
  refine .inr ⟨_, rfl, ?_⟩
  unfold CenterServerConnector.startConnect
  split <;> rename_i hport
  · refine .inl ?_
    simp only [CenterServerConnector.initConnectionInfo, hc, Bool.false_eq_true, if_false]
  · cases socket with
    | false =>
      refine .inl ?_
      simp only [CenterServerConnector.initConnectionInfo, hc, Bool.false_eq_true, if_false]
    | true => exact .inr ⟨not_le.mp hport, rfl⟩

theorem new_inv (serverId : CInt) : Inv (new serverId) where
  address := rfl
  tried := rfl
  port i a h := by cases h
  registered := by
    simp only [CenterServerConnector.Registered, new, CenterServerConnector.new, CommandChain.new, StdMap.ptr_empty,
      List.not_mem_nil, ne_eq, not_true, and_self]
  connecting h := by cases h
  started _ := by
    refine ⟨fun h => (by cases h), fun ⟨n, h⟩ => ?_⟩
    exact absurd h.symm (List.append_ne_nil_of_right_ne_nil _ (List.cons_ne_nil _ _))

theorem Inv.congr (hi : Inv s) (ha : s'.addresses = s.addresses) (hc : s'.csConnector = s.csConnector)
    (hr : s'.returned = s.returned) : Inv s' := by
  obtain ⟨h1, h2, h3, h4, h5, h6⟩ := hi
  rw [← hc, ← hr, ← ha] at *
  exact ⟨h1, h2, h3, h4, h5, h6⟩

omit [Runtime] in
/-- The first attempt that succeeds is the last one. -/
theorem eq_replicate_append {l : List Bool} {b : Bool} :
    (∃ n, l ++ [b] = List.replicate n false ++ [true]) ↔ true ∉ l ∧ b = true := by
  constructor
  · rintro ⟨n, h⟩
    obtain ⟨rfl, hb⟩ := List.append_inj' h rfl
    exact ⟨by simp, List.singleton_inj.mp hb⟩
  · rintro ⟨hl, rfl⟩
    refine ⟨l.length, congrArg (· ++ [true]) (List.eq_replicate_iff.mpr ⟨rfl, fun b hb => ?_⟩)⟩
    cases b with
    | false => rfl
    | true => exact absurd hb hl

/-- What the result `b` of the last attempt means. -/
theorem Inv.port_append (hi : Inv s) {b : Bool} {as : List (List Byte × BitVec 16)} {i : Nat}
    {a : List Byte × BitVec 16} (hlen : as.length = s.returned.length + 1) (has : as.take s.returned.length <+: s.addresses)
    (hb : ∀ a, as.getLast? = some a → a.2.toInt ≤ 0 → b = false) (ha : as[i]? = some a) (hp : a.2.toInt ≤ 0) :
    (s.returned ++ [b])[i]? = some false := by
  have hlt := (List.getElem?_eq_some_iff.mp ha).1
  rcases Nat.lt_or_ge i s.returned.length with h | h
  · obtain ⟨rest, hrest⟩ := has
    have hmin : i < (as.take s.returned.length).length := by
      rw [List.length_take]
      omega
    rw [List.getElem?_append_left h]
    refine hi.port i a ?_ hp
    rw [← hrest, List.getElem?_append_left hmin, List.getElem?_take_of_lt h, ha]
  · obtain rfl : i = s.returned.length := by omega
    have hlast : as.getLast? = some a := by
      rw [List.getLast?_eq_getElem?, hlen]
      exact ha
    rw [List.getElem?_append_right le_rfl, Nat.sub_self, hb a hlast hp]
    rfl

/-- An attempt that returns false. -/
theorem Inv.fail (hi : Inv s) (hlen : s'.addresses.length = s.returned.length + 1)
    (has : s'.addresses.take s.returned.length <+: s.addresses)
    (haddress : (s'.csConnector.serverIp, s'.csConnector.serverPort) = s'.addresses.getLast?.getD ([], 0))
    (hchain : s'.csConnector.cmdChain = s.csConnector.cmdChain) (hstarted : s'.csConnector.isStarted = false)
    (hconnecting : s'.csConnector.connecting = false) (hr : s'.returned = s.returned ++ [false]) : Inv s' where
  address := haddress
  tried := by rw [hlen, hr, hconnecting, List.length_append]; rfl
  port i a ha hp := by
    rw [hr]
    exact hi.port_append hlen has (fun _ _ _ => rfl) ha hp
  registered := by
    have hmem : true ∈ s.returned ++ [false] ↔ true ∈ s.returned := by simp
    rw [CenterServerConnector.Registered, hr, hmem, hchain]
    exact hi.registered
  connecting h := by rw [hconnecting] at h; cases h
  started _ := by
    rw [hr, eq_replicate_append, hstarted]
    simp only [Bool.false_eq_true, and_false]

/-- The command for an address. -/
theorem Inv.getCenterServerAddrRS (hi : Inv s) (hc : s.csConnector.connecting = false) {e : Executed}
    (hid : e.msgType = 10012) {p : ServerProcessor} (hp : p.executed = s.dsProcessor.executed ++ [e]) (socket : Bool) :
    Inv (Connectors.getCenterServerAddrRS { s with dsProcessor := p } e.buff e.len socket) := by
  have haddresses : p.executed.filterMap Executed.address = s.addresses ++ e.address.toList := by
    rw [hp, List.filterMap_append, List.filterMap_cons, List.filterMap_nil]
    cases e.address <;> rfl
  have htried := hi.tried
  rw [hc, if_neg Bool.false_ne_true, Nat.add_zero] at htried
  rcases getCenterServerAddrRS_cases (s := { s with dsProcessor := p }) hc hid socket with
    ⟨ha, h⟩ | ⟨a, ha, h⟩
  · rw [ha, Option.toList_none, List.append_nil] at haddresses
    rw [h]
    exact hi.congr haddresses rfl rfl
  rw [ha, Option.toList_some] at haddresses
  have hlen : (p.executed.filterMap Executed.address).length = s.returned.length + 1 := by
    rw [haddresses, List.length_append, htried]
    rfl
  have hlast : a = (p.executed.filterMap Executed.address).getLast?.getD ([], 0) := by
    rw [haddresses, List.getLast?_append]
    rfl
  have htake : (p.executed.filterMap Executed.address).take s.returned.length <+: s.addresses := by
    rw [haddresses, ← htried, List.take_left]
  rcases h with h | ⟨hport, h⟩
  · rw [h]
    exact hi.fail hlen htake hlast rfl rfl hc rfl
  · rw [h]
    refine ⟨hlast, hlen, fun i x hx hle => ?_, hi.registered, fun _ => rfl, fun h => by cases h⟩
    change (p.executed.filterMap Executed.address)[i]? = some x at hx
    rw [haddresses, List.getElem?_append] at hx
    split at hx
    · exact hi.port i x hx hle
    · obtain rfl := List.mem_singleton.mp (List.mem_of_getElem? hx)
      omega

/-- A `connect` that succeeds, with the threads. -/
theorem Inv.connected (hi : Inv s) (hc : s.csConnector.connecting = true) : Inv (s.connect true true) := by
  have htried := hi.tried
  rw [hc, if_pos rfl] at htried
  -- An address whose port is not positive is not connected to.
  have hport (a : List Byte × BitVec 16) (ha : s.addresses.getLast? = some a) (hp : a.2.toInt ≤ 0) : true = false := by
    rw [List.getLast?_eq_getElem?, htried] at ha
    have hnone := hi.port _ a ha hp
    rw [Nat.add_sub_cancel, List.getElem?_eq_none le_rfl] at hnone
    cases hnone
  obtain ⟨started, chain, h, hstarted, hreg⟩ := CenterServerConnector.startCSProcessor_cases
    (c := s.csConnector.startThreads true) hi.registered (2 * s.returned.length)
  have hconnect : s.connect true true = { s with
      csConnector := { s.csConnector.startThreads true with isStarted := started, cmdChain := chain }
      returned := s.returned ++ [true] } := by
    simp only [Connectors.connect, if_true, h]
  have hmem : true ∈ s.returned ++ [true] := List.mem_append_right _ List.mem_cons_self
  rw [hconnect]
  exact {
    address := hi.address
    tried := htried.trans (by rw [List.length_append]; rfl)
    port := fun i a ha hp => hi.port_append htried (List.take_prefix _ _) hport ha hp
    registered := by
      rw [eq_true hmem]
      exact hreg
    connecting := fun h => (by cases h)
    started := fun _ => by
      have hbefore : (s.csConnector.startThreads true).isStarted = true := hi.connecting hc
      rw [eq_replicate_append, hstarted, hbefore]
      simp only [true_and, and_true] }

/-- A `connect`. -/
theorem Inv.connect (hi : Inv s) (hc : s.csConnector.connecting = true) (ok threads : Bool) :
    Inv (s.connect ok threads) := by
  have htried := hi.tried
  rw [hc, if_pos rfl] at htried
  have htake : s.addresses.take s.returned.length <+: s.addresses := List.take_prefix _ _
  cases ok with
  | false => exact hi
  | true =>
    cases threads with
    | false => exact hi.fail htried htake hi.address rfl rfl rfl rfl
    | true => exact hi.connected hc

/-- What a turn can do: no command, or one. -/
theorem step_turn {socket : Bool} (h : s.step (.turn socket) = some s') : s.csConnector.connecting = false ∧
    ∃ p : ServerProcessor, (p.executed = s.dsProcessor.executed ∧ s' = { s with dsProcessor := p }) ∨
      ∃ e, p.executed = s.dsProcessor.executed ++ [e] ∧ execute { s with dsProcessor := p } e socket = some s' := by
  rw [step] at h
  split at h <;> rename_i hc
  · cases h
  refine ⟨Bool.eq_false_of_not_eq_true hc, ?_⟩
  obtain ⟨⟨p, b⟩, hp, h⟩ := Option.bind_eq_some_iff.mp h
  obtain ⟨es, hlen, he⟩ := ServerProcessor.dealWithData_executed hp
  dsimp only at h he
  rw [he, List.drop_left] at h
  match es with
  | [] =>
    cases h
    exact ⟨p, .inl ⟨he.trans (List.append_nil _), rfl⟩⟩
  | [e] =>
    rw [List.foldlM_cons] at h
    obtain ⟨t, ht, h⟩ := Option.bind_eq_some_iff.mp h
    cases h
    exact ⟨p, .inr ⟨e, he, ht⟩⟩
  | _ :: _ :: _ => simp at hlen

/-- The other commands leave the connector alone. -/
theorem execute_frame {e : Executed} (hid : e.msgType ≠ 10012) {socket : Bool} (h : s.execute e socket = some s') :
    s'.dsProcessor = s.dsProcessor ∧ s'.csConnector = s.csConnector ∧ s'.returned = s.returned := by
  rw [execute, if_neg hid] at h
  split at h
  · rw [connectDirectorServerRS] at h
    split at h
    · cases h
      exact ⟨rfl, rfl, rfl⟩
    · split at h
      · obtain ⟨sent, -, h⟩ := Option.bind_eq_some_iff.mp h
        cases h
        exact ⟨rfl, rfl, rfl⟩
      · cases h
        exact ⟨rfl, rfl, rfl⟩
  · cases h
    exact ⟨rfl, rfl, rfl⟩

theorem Inv.step (hi : Inv s) {o : Event} (h : s.step o = some s') : Inv s' := by
  cases o with
  | sendConnectDsRQ serverIp serverPort =>
    obtain ⟨sent, -, h⟩ := Option.bind_eq_some_iff.mp h
    cases h
    exact hi.congr rfl rfl rfl
  | recv chunk =>
    obtain ⟨p, hp, h⟩ := Option.bind_eq_some_iff.mp h
    cases h
    exact hi.congr (congrArg (List.filterMap Executed.address) (ServerProcessor.recvData_executed hp)) rfl rfl
  | turn socket =>
    obtain ⟨hc, p, ⟨hp, rfl⟩ | ⟨e, hp, h⟩⟩ := step_turn h
    · exact hi.congr (congrArg (List.filterMap Executed.address) hp) rfl rfl
    by_cases hid : e.msgType = 10012
    · rw [execute, if_neg (by rw [hid]; decide), if_pos hid] at h
      cases h
      exact hi.getCenterServerAddrRS hc hid hp socket
    · obtain ⟨h1, h2, h3⟩ := execute_frame hid h
      refine hi.congr ?_ h2 h3
      rw [addresses, h1, hp, List.filterMap_append, List.filterMap_cons, Executed.address, if_neg hid,
        List.filterMap_nil, List.append_nil]
      rfl
  | connect ok threads =>
    rw [Connectors.step] at h
    split at h <;> cases h
    exact hi.connect ‹_› ok threads

/-- In every run: the connector has the last address that the director server has given; each address is tried once,
in their order, and the one whose port is not positive as a `short` returns false; and where `StartConnect` has
returned, the connector is started exactly if the last attempt was the first to return true. -/
theorem isStarted_iff_first {serverId : CInt} {es : List Event} (h : es.foldlM step (new serverId) = some s) :
    (s.csConnector.serverIp, s.csConnector.serverPort) = s.addresses.getLast?.getD ([], 0) ∧
    s.addresses.length = s.returned.length + (if s.csConnector.connecting then 1 else 0) ∧
    (∀ (i : Nat) (a : List Byte × BitVec 16), s.addresses[i]? = some a → a.2.toInt ≤ 0 → s.returned[i]? = some false) ∧
    (s.csConnector.connecting = false →
      (s.csConnector.isStarted = true ↔ ∃ n, s.returned = List.replicate n false ++ [true])) := by
  have hi : Inv s := foldlM_inv (fun _ _ _ hi h => hi.step h) (new_inv serverId) h
  exact ⟨hi.address, hi.tried, hi.port, hi.started⟩

end

/-- The director server lets the room server 7 in. -/
def connectReply : StruCytPacket :=
  messagePacket struDsServerConnectRs (.mk [some (.num 7), some (.num 1)] [] []) 1002

/-- The center server 3 is at the address "1". -/
def addressReply : StruCytPacket :=
  messagePacket sStruDsRSGetCsInfoRs (.mk [some (.num 7), some (.num 3), some (.str [49]), some (.num 5560)] [] []) 10012

/-- The address comes twice. -/
def addressTwice : List Event :=
  [.sendConnectDsRQ [49] 5000, .recv connectReply.wire, .turn true, .recv addressReply.wire, .turn true,
    .connect false true, .connect true true, .recv addressReply.wire, .turn true, .connect true true]

/-- The second address ends the connection. -/
theorem isStarted_iff_first_twice : ∃ s, addressTwice.foldlM step (new 7) = some s ∧
    s.csConnector.connecting = false ∧ s.csConnector.isStarted = false ∧ s.returned = [true, true] ∧
    (s.csConnector.serverIp, s.csConnector.serverPort) = s.addresses.getLast?.getD ([], 0) ∧
    s.addresses.length = s.returned.length + (if s.csConnector.connecting then 1 else 0) ∧
    (∀ (i : Nat) (a : List Byte × BitVec 16), s.addresses[i]? = some a → a.2.toInt ≤ 0 → s.returned[i]? = some false) ∧
    (s.csConnector.connecting = false →
      (s.csConnector.isStarted = true ↔ ∃ n, s.returned = List.replicate n false ++ [true])) := by
  have hrun : ∃ s, s ∈ addressTwice.foldlM step (new 7) ∧ s.csConnector.connecting = false ∧
      s.csConnector.isStarted = false ∧ s.returned = [true, true] := by
    decide +kernel
  obtain ⟨s, hs, hconnecting, hstarted, hreturned⟩ := hrun
  exact ⟨s, hs, hconnecting, hstarted, hreturned, isStarted_iff_first hs⟩

/-! ## What the director server is sent -/

section

variable [Runtime] {s s' : Connectors}

/-- The message of `SendConnectDsRQ`. -/
def connectRq (serverId : CInt) (serverIp : List Byte) (serverPort : CInt) : Message :=
  .mk [some (.num serverId), some (.str serverIp), some (.num serverPort), some (.num serverTypeRS), some (.num 0),
    some (.num 0)] [] []

theorem connectRq_ok [Runtime.Documented] (serverId : CInt) {serverIp : List Byte} (hip : serverIp.length < 2 ^ 30)
    (serverPort : CInt) :
    struDsServerConnectRq.Fits 64 (connectRq serverId serverIp serverPort) ∧
      struDsServerConnectRq.isInitialized (connectRq serverId serverIp serverPort) = true ∧
      struDsServerConnectRq.byteSize (connectRq serverId serverIp serverPort) + 18 < 2 ^ 31 := by
  refine ⟨⟨?_, rfl, fun _ hu => absurd hu List.not_mem_nil⟩, rfl, ?_⟩
  · refine .cons ?_ (.cons ?_ (.cons ?_ (.cons ?_ (.cons ?_ (.cons ?_ .nil))))) <;> rintro v ⟨⟩
    all_goals first | trivial | rfl | skip
    change serverIp.length < 2 ^ 31
    omega
  · change 1 + Runtime.valueSize .int32 (.num serverId) + (1 + Runtime.valueSize .string (.str serverIp) +
      (1 + Runtime.valueSize .int32 (.num serverPort) + (1 + Runtime.valueSize .enum (.num serverTypeRS) +
        (1 + Runtime.valueSize .enum (.num 0) + (1 + Runtime.valueSize .int32 (.num 0)))))) +
      Runtime.unknownFieldsSize [] + 18 < 2 ^ 31
    rw [MessageType.unknownFieldsSize_nil]
    simp only [Runtime.Documented.valueSize_eq, WireFormat.DeclaredType.size]
    have := WireFormat.int32Size_le serverTypeRS.toInt
    have := WireFormat.int32Size_le (0 : CInt).toInt
    have := WireFormat.int32Size_le serverId.toInt
    have := WireFormat.int32Size_le serverPort.toInt
    have := WireFormat.varintSize32_le serverIp.length
    unfold WireFormat.stringSize
    omega

theorem getCsInfoRq_ok [Runtime.Documented] (serverId : CInt) : struDsRSGetCsInfoRq.Fits 64 (getCsInfoRq serverId) ∧
    struDsRSGetCsInfoRq.isInitialized (getCsInfoRq serverId) = true ∧
    struDsRSGetCsInfoRq.byteSize (getCsInfoRq serverId) + 18 ≤ 0x1000 := by
  refine ⟨⟨.cons ?_ .nil, rfl, fun _ hu => absurd hu List.not_mem_nil⟩, rfl, ?_⟩
  · rintro v ⟨⟩
    trivial
  · change 1 + Runtime.valueSize .int32 (.num serverId) + Runtime.unknownFieldsSize [] + 18 ≤ 0x1000
    rw [Runtime.Documented.valueSize_eq, MessageType.unknownFieldsSize_nil]
    change 1 + WireFormat.int32Size serverId.toInt + 0 + 18 ≤ 0x1000
    have := WireFormat.int32Size_le serverId.toInt
    omega

/-- The frame that asks for the address of a center server. -/
def getCsFrame (serverId : CInt) : List Byte :=
  (messagePacket struDsRSGetCsInfoRq (getCsInfoRq serverId) dsRSGetCsRq).wire

theorem sendsFrame_getCsFrame [Runtime.Documented] (serverId : CInt) :
    SendsFrame struDsRSGetCsInfoRq (getCsInfoRq serverId) dsRSGetCsRq (some (some (getCsFrame serverId))) := by
  obtain ⟨h, hi, hs⟩ := getCsInfoRq_ok serverId
  exact sendsFrame_wire dsRSGetCsRq h hi (by omega)

/-- A command asks for the address if the director server has let the room server in. -/
theorem execute_sent [Runtime.Documented] {e : Executed} {socket : Bool} (h : s.execute e socket = some s') :
    s'.serverId = s.serverId ∧ s'.dsProcessor = s.dsProcessor ∧
      s'.sent = s.sent ++ List.replicate (if e.accepts then 1 else 0) (getCsFrame s.serverId) := by
  by_cases hid : e.msgType = 1002
  · have haccepts : e.accepts = (struDsServerConnectRs.parseFromArray e.buff e.len).any fun rs => rs.int 1 = 1 := by
      simp only [Executed.accepts, hid, true_and, Bool.decide_eq_true]
    rw [execute, if_pos hid, connectDirectorServerRS] at h
    rw [haccepts]
    generalize struDsServerConnectRs.parseFromArray e.buff e.len = r at h ⊢
    cases r with
    | none =>
      cases h
      exact ⟨rfl, rfl, (List.append_nil _).symm⟩
    | some rs =>
      obtain ⟨hf, -, hs⟩ := getCsInfoRq_ok s.serverId
      simp only [Option.any_some]
      dsimp only at h
      split at h <;> rename_i hresult
      · rw [sendPackage_eq hf hs] at h
        cases h
        rw [if_pos (decide_eq_true hresult)]
        exact ⟨rfl, rfl, rfl⟩
      · cases h
        rw [if_neg fun h => hresult (of_decide_eq_true h)]
        exact ⟨rfl, rfl, (List.append_nil _).symm⟩
  · have haccepts : e.accepts = false := by simp only [Executed.accepts, hid, false_and, decide_false]
    rw [haccepts, if_neg Bool.false_ne_true, List.replicate_zero, List.append_nil]
    rw [execute, if_neg hid] at h
    split at h
    · cases h
      unfold Connectors.getCenterServerAddrRS
      split
      · exact ⟨rfl, rfl, rfl⟩
      · split <;> exact ⟨rfl, rfl, rfl⟩
    · cases h
      exact ⟨rfl, rfl, rfl⟩

omit [Runtime] in
theorem connect_frame (s : Connectors) (ok threads : Bool) : (s.connect ok threads).serverId = s.serverId ∧
    (s.connect ok threads).dsProcessor = s.dsProcessor ∧ (s.connect ok threads).sent = s.sent := by
  unfold Connectors.connect
  split <;> exact ⟨rfl, rfl, rfl⟩

/-- The message of an event. -/
def Event.connectRq (serverId : CInt) : Event → Option Message
  | .sendConnectDsRQ serverIp serverPort => some (Connectors.connectRq serverId serverIp serverPort)
  | _ => none

/-- What the director server has been sent: its own requests, and one for each command that was let in. -/
structure Asked (serverId : CInt) (es : List Event) (s : Connectors) : Prop where
  id : s.serverId = serverId
  sent : ∃ frames, List.Forall₂ (fun m frame => SendsFrame struDsServerConnectRq m dsServerConnectRq (some (some frame)))
      (es.filterMap (Event.connectRq serverId)) frames ∧
    s.sent.Perm (frames ++ List.replicate (s.dsProcessor.executed.countP Executed.accepts) (getCsFrame serverId))

theorem Asked.step [Runtime.Documented] {serverId : CInt} {es : List Event} (hi : Asked serverId es s) {o : Event}
    (hip : ∀ serverIp serverPort, o = .sendConnectDsRQ serverIp serverPort → serverIp.length < 2 ^ 30)
    (h : s.step o = some s') : Asked serverId (es ++ [o]) s' := by
  obtain ⟨hid, frames, hframes, hsent⟩ := hi
  have hother (ho : Event.connectRq serverId o = none) :
      (es ++ [o]).filterMap (Event.connectRq serverId) = es.filterMap (Event.connectRq serverId) := by
    rw [List.filterMap_append, List.filterMap_cons, ho, List.filterMap_nil, List.append_nil]
  cases o with
  | sendConnectDsRQ serverIp serverPort =>
    obtain ⟨sent, hsend, h⟩ := Option.bind_eq_some_iff.mp h
    cases h
    obtain ⟨hf, hi, hs⟩ := connectRq_ok s.serverId (hip _ _ rfl) serverPort
    obtain ⟨frame, rfl, hframe⟩ := sendsFrame_of_sendPackage hf hi hs hsend
    refine ⟨hid, frames ++ [frame], ?_, ?_⟩
    · rw [List.filterMap_append]
      exact List.rel_append hframes (.cons (hid ▸ hframe) .nil)
    · have h := hsent.append_right [frame]
      rw [List.append_assoc] at h
      rw [List.append_assoc]
      exact h.trans (List.perm_append_comm.append_left frames)
  | recv chunk =>
    obtain ⟨p, hp, h⟩ := Option.bind_eq_some_iff.mp h
    cases h
    refine ⟨hid, frames, (hother rfl).symm ▸ hframes, ?_⟩
    rw [ServerProcessor.recvData_executed hp]
    exact hsent
  | turn socket =>
    obtain ⟨-, p, ⟨hp, rfl⟩ | ⟨e, hp, h⟩⟩ := step_turn h
    · refine ⟨hid, frames, (hother rfl).symm ▸ hframes, ?_⟩
      rw [hp]
      exact hsent
    · obtain ⟨h1, h2, h3⟩ := execute_sent h
      refine ⟨h1.trans hid, frames, (hother rfl).symm ▸ hframes, ?_⟩
      rw [h3, h2, hp, List.countP_append, List.countP_singleton, List.replicate_add, ← List.append_assoc, hid]
      exact hsent.append_right _
  | connect ok threads =>
    rw [Connectors.step] at h
    split at h <;> cases h
    obtain ⟨h1, h2, h3⟩ := connect_frame s ok threads
    refine ⟨h1.trans hid, frames, (hother rfl).symm ▸ hframes, ?_⟩
    rw [h2, h3]
    exact hsent

/-- In every run the director server is sent, as frames that it can read, the requests of `SendConnectDsRQ`, and for
each of its replies that lets the room server in one request for a center server, with the room server's id. -/
theorem director_sent_perm [Runtime.Documented] {serverId : CInt} {es : List Event}
    (hip : ∀ serverIp serverPort, .sendConnectDsRQ serverIp serverPort ∈ es → serverIp.length < 2 ^ 30)
    (h : es.foldlM step (new serverId) = some s) :
    ∃ frames frame, List.Forall₂
        (fun m frame => SendsFrame struDsServerConnectRq m dsServerConnectRq (some (some frame)))
        (es.filterMap (Event.connectRq serverId)) frames ∧
      SendsFrame struDsRSGetCsInfoRq (getCsInfoRq serverId) dsRSGetCsRq (some (some frame)) ∧
      s.sent.Perm (frames ++ List.replicate (s.dsProcessor.executed.countP Executed.accepts) frame) := by
  have hasked : (∀ serverIp serverPort, .sendConnectDsRQ serverIp serverPort ∈ es → serverIp.length < 2 ^ 30) →
      Asked serverId es s := by
    refine history_inv (P := fun es s => (∀ serverIp serverPort, .sendConnectDsRQ serverIp serverPort ∈ es →
      serverIp.length < 2 ^ 30) → Asked serverId es s) (fun _ => ⟨rfl, [], .nil, .refl _⟩) ?_ h
    intro es s o s' _ hi hs hip
    refine (hi fun ip port ho => hip ip port (List.mem_append_left _ ho)).step ?_ hs
    rintro ip port rfl
    exact hip ip port (List.mem_append_right _ List.mem_cons_self)
  obtain ⟨-, frames, hframes, hsent⟩ := hasked hip
  exact ⟨frames, getCsFrame serverId, hframes, sendsFrame_getCsFrame serverId, hsent⟩

end

theorem director_sent_perm_twice : ∃ s, addressTwice.foldlM step (new 7) = some s ∧
    s.dsProcessor.executed.countP Executed.accepts = 1 ∧
    ∃ frames frame, List.Forall₂
        (fun m frame => SendsFrame struDsServerConnectRq m dsServerConnectRq (some (some frame)))
        (addressTwice.filterMap (Event.connectRq 7)) frames ∧
      SendsFrame struDsRSGetCsInfoRq (getCsInfoRq 7) dsRSGetCsRq (some (some frame)) ∧
      s.sent.Perm (frames ++ List.replicate (s.dsProcessor.executed.countP Executed.accepts) frame) := by
  have hrun : ∃ s, s ∈ addressTwice.foldlM step (new 7) ∧ s.dsProcessor.executed.countP Executed.accepts = 1 := by
    decide +kernel
  obtain ⟨s, hs, hcount⟩ := hrun
  refine ⟨s, hs, hcount, director_sent_perm (fun serverIp serverPort ho => ?_) hs⟩
  simp only [addressTwice, List.mem_cons, Event.sendConnectDsRQ.injEq, reduceCtorEq, List.not_mem_nil, or_false] at ho
  rw [ho.1]
  decide

end Connectors

end Miku.RoomServer
