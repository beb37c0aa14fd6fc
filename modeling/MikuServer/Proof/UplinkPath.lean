import MikuServer.Framework.CodedRuntime
import MikuServer.Impl.UplinkPath
import MikuServer.Proof.GateFraming
import MikuServer.Proof.MessageCodec
import MikuServer.Proof.RoomClient

/-!
# Messages of many users on their way to a room server

Whatever the order of the reads and of the turns, the commands get the messages
of each user for rooms of the server, in their order, each as it was sent and with
the user's hash key (`always_inOrder`). `Inv.gateRead`, `Inv.roomRead` and
`Inv.turn` are the three kinds of step.
-/

namespace Miku.UplinkPath

open Protobuf WireFormat Fields GateServer.UserInfoEx
open RoomServer (wrapped delivered)
open RoomServer.GateServerProcessor (cmdChain)

theorem pending_append {size : List Byte → Option Nat} {hs : List (List Byte)} {r : List Byte} (h : Pending size hs r)
    (hs' : List (List Byte)) : Pending size (hs ++ hs') r := by
  rcases h with h | ⟨f, fs, rfl, hp, hsize⟩
  · exact .inl h
  · exact .inr ⟨f, fs ++ hs', rfl, hp, hsize⟩

theorem mul_length_le_flatten {l : List (List Byte)} {n : Nat} (h : ∀ f ∈ l, n ≤ f.length) :
    n * l.length ≤ l.flatten.length := by
  induction l with
  | nil => exact Nat.zero_le _
  | cons f l ih =>
    rw [List.forall_mem_cons] at h
    rw [List.length_cons, List.flatten_cons, List.length_append, Nat.mul_succ]
    have := ih h.2
    omega

/-- With no bytes to come there is no frame to come. -/
theorem eq_nil_of_pending {lf : LenField} {k : Nat} {hs : List (List Byte)} {r : List Byte}
    (hG : ∀ f ∈ hs, IsFrame lf k f ∧ 18 < f.length) (hb : r = hs.flatten) (hp : Pending (frameSize lf) hs r) :
    hs = [] := by
  have hfeed := feed_ok (framing lf k) (fun f hf => (hG f hf).1)
    (show r ++ [].flatten = hs.flatten by rw [List.flatten_nil, List.append_nil, hb]) hp
  rcases hfeed with ⟨-, h, -⟩ | ⟨gs, f, rfl, hsize, -, -⟩
  · exact h.symm
  · obtain ⟨hf, h18⟩ := hG f (by simp)
    rw [hf.frameSize_eq_none_iff] at hsize
    omega

section

variable [Runtime] [Runtime.Documented]

/-- A message that a user sends, in a frame of at most `maxFrame` bytes. -/
structure UserMessage (maxFrame : Nat) where
  roomId : CInt
  msgType : CInt
  type : MessageType
  message : Message
  registered : cmdChain msgType = some type
  fits : type.Fits 64 message
  isInitialized : type.isInitialized message = true
  size_pos : 0 < type.byteSize message
  size_le : type.byteSize message + 18 ≤ maxFrame

namespace UserMessage

variable {maxFrame : Nat}

def frame (m : UserMessage maxFrame) : StruCytPacket :=
  ⟨packHead, m.roomId, cint (m.type.byteSize m.message), m.msgType, m.type.serialize m.message, packTail⟩

/-- The message is for a room of the server with the socket `serverFd`. -/
def isFor (rooms : CInt → Option Int) (serverFd : Int) (m : UserMessage maxFrame) : Bool :=
  rooms m.roomId = some serverFd

variable (hM : maxFrame ≤ 0xfee) (m : UserMessage maxFrame)

include hM

theorem length_serialize : (m.type.serialize m.message).length = m.type.byteSize m.message := by
  have := m.size_le
  exact MessageType.length_serialize m.fits (by omega)

theorem frame_ok : m.frame.WellFormed ∧ m.frame.wire.length = m.type.byteSize m.message + 18 := by
  have hle := m.size_le
  have hlen := length_serialize hM m
  have hw : m.frame.WellFormed := by
    refine ⟨rfl, rfl, ?_⟩
    change (cint (m.type.byteSize m.message)).toInt = ((m.type.serialize m.message).length : Int)
    rw [toInt_cint (by omega) (by omega), hlen]
  exact ⟨hw, by rw [StruCytPacket.length_wire hw, ← hlen]; rfl⟩

/-- The command gets the message that was sent. -/
theorem parse_frame : m.type.parseFromArray (cStr m.frame.msgData) m.frame.msgLen = some m.message := by
  have hle := m.size_le
  have hlen := length_serialize hM m
  change m.type.parseFromArray (m.type.serialize m.message ++ [0]) (cint (m.type.byteSize m.message)) = _
  rw [MessageType.parseFromArray_eq_some, toInt_cint (by omega) (by omega), Int.toNat_natCast, ← hlen, List.take_left]
  exact ⟨MessageType.merge_serialize m.fits (by omega), m.isInitialized⟩

theorem isFrame : IsFrame .second maxFrame m.frame.wire := by
  obtain ⟨hw, hlen⟩ := frame_ok hM m
  exact StruCytPacket.isFrame_iff.mpr ⟨_, hw, rfl, hlen ▸ m.size_le⟩

omit hM [Runtime.Documented] in
theorem intAt_frame : intAt m.frame.wire 3 = m.roomId := by
  obtain ⟨h, -⟩ := intAt_wire (f := m.frame.fields) rfl []
  rw [List.append_nil] at h
  exact h

end UserMessage

variable {κ : Type} {maxFrame : Nat}

/-- The message of the user `p.1`, as it is written to the room server. -/
def written (key : κ → CInt) (p : κ × UserMessage maxFrame) : List Byte := (wrapped (key p.1) p.2.frame).wire

/-- As it is put into the list. -/
def stored (key : κ → CInt) (g : CInt) (p : κ × UserMessage maxFrame) : List Byte :=
  (delivered (key p.1) g p.2.frame).wire

/-- As the command gets it. -/
def unpacked (key : κ → CInt) (g : CInt) (p : κ × UserMessage maxFrame) : Unpacked :=
  some (delivered (key p.1) g p.2.frame, p.2.frame, p.2.message)

section

variable (hM : maxFrame ≤ 0xfee) (key : κ → CInt) (p : κ × UserMessage maxFrame)

include hM

theorem written_ok : IsFrame .third 0x1012 (written key p) ∧ 36 < (written key p).length ∧
    (written key p).length ≤ 0x1000 := by
  obtain ⟨hc, hlen⟩ := p.2.frame_ok hM
  have hle := p.2.size_le
  have hpos := p.2.size_pos
  obtain ⟨hw, hl⟩ := RoomServer.wrapped_wf (h := key p.1) hc (by omega)
  rw [written]
  exact ⟨GateRoomServerPack.isFrame_iff.mpr ⟨_, hw, rfl, by omega⟩, by omega, by omega⟩

theorem stored_eq (g : CInt) : stored key g p = RoomServer.ClientInfoEx.stamped g (written key p) := by
  obtain ⟨hc, hlen⟩ := p.2.frame_ok hM
  have hle := p.2.size_le
  exact (RoomServer.delivered_ok hc (by omega)).2.1

end

/-! ## The state -/

/-- The commands have executed the messages `done`, in the list are `queued`, and the bytes of
`onWay` are on their way to the room server, in its buffer (`q`) first. Of the user `k` the messages
`todo k` are still to come, in the gate's buffer (`r k`) first. -/
structure Inv [DecidableEq κ] (key : κ → CInt) (rooms : CInt → Option Int) (serverFd : Int) (g : CInt) (n : Nat)
    (msgs : κ → List (UserMessage maxFrame)) (s : UplinkPath κ) (todo : κ → List (UserMessage maxFrame))
    (r : κ → List Byte) (done queued onWay : List (κ × UserMessage maxFrame)) (q : List Byte) : Prop where
  user (k : κ) : View (key k) (s.users k, []) (r k) []
  known (k : κ) : ∀ m ∈ todo k, (rooms m.roomId).isSome
  userPending (k : κ) : Pending (frameSize .second) ((todo k).map fun m => m.frame.wire) (r k)
  userBytes (k : κ) : r k ++ s.toGate k = ((todo k).map fun m => m.frame.wire).flatten
  senders (k : κ) : ofSender k (done ++ queued ++ onWay) ++ (todo k).filter (UserMessage.isFor rooms serverFd) =
    (msgs k).filter (UserMessage.isFor rooms serverFd)
  room : RoomServer.ClientInfoEx.ClientView g n s.room q (queued.map (stored key g))
  roomPending : Pending (frameSize .third) (onWay.map (written key)) q
  roomBytes : q ++ s.toRoom = (onWay.map (written key)).flatten
  executed : s.executed = done.map (unpacked key g)

variable {key : κ → CInt} {rooms : CInt → Option Int} {serverFd : Int} {g : CInt} {n : Nat}
  {msgs todo : κ → List (UserMessage maxFrame)} {s : UplinkPath κ} {r : κ → List Byte}
  {done queued onWay : List (κ × UserMessage maxFrame)} {q : List Byte}

/-- The socket of a room that is known. -/
def sockOf (rooms : CInt → Option Int) (roomId : CInt) : Int := (rooms roomId).getD 0

omit [Runtime.Documented] in
/-- Of what is written for a user's frames, the room server gets those for its rooms. -/
theorem flatMap_bytesTo (k : κ) (ms : List (UserMessage maxFrame)) (hk : ∀ m ∈ ms, (rooms m.roomId).isSome)
    (hw : ∀ m ∈ ms, 0 < m.frame.wire.length) :
    ((ms.map fun m => m.frame.wire).map (GateServer.UserInfoEx.written (sockOf rooms) (key k))).flatMap
        (GateServer.Event.bytesTo serverFd) =
      (((ms.filter (UserMessage.isFor rooms serverFd)).map fun m => (k, m)).map (written key)).flatten := by
  induction ms with
  | nil => rfl
  | cons m ms ih =>
    rw [List.forall_mem_cons] at hk hw
    obtain ⟨sock, hsock⟩ := Option.isSome_iff_exists.mp hk.1
    rw [List.map_cons, List.map_cons, List.flatMap_cons, ih hk.2 hw.2, List.filter_cons]
    have hwritten : GateServer.UserInfoEx.written (sockOf rooms) (key k) m.frame.wire =
        .write sock (written key (k, m)) := by
      rw [GateServer.UserInfoEx.written, UserMessage.intAt_frame, sockOf, hsock, ← wrap_eq hw.1]
      rfl
    rw [hwritten, GateServer.Event.bytesTo, UserMessage.isFor, hsock]
    by_cases hfd : sock = serverFd
    · rw [if_pos hfd, if_pos (by rw [hfd, decide_eq_true rfl])]
      rfl
    · rw [if_neg hfd, if_neg (by simpa using hfd)]
      rfl

variable [DecidableEq κ]

/-- What a read of the gate makes of the bytes of the user `k`: the messages `ms` are written, and `rest` is still to
come. -/
theorem Inv.gateCall (h : Inv key rooms serverFd g n msgs s todo r done queued onWay q) (hM : maxFrame ≤ 0xfee)
    (hM' : 18 < maxFrame) (k : κ) {count : Nat} (hc : count + maxFrame ≤ 0x1000) :
    ∃ user log ms rest r', (s.users k).dealWithData rooms [] ((s.toGate k).take count) = some (user, log) ∧
      todo k = ms ++ rest ∧ View (key k) (user, []) r' [] ∧
      log.flatMap (GateServer.Event.bytesTo serverFd) =
        (((ms.filter (UserMessage.isFor rooms serverFd)).map fun m => (k, m)).map (written key)).flatten ∧
      Pending (frameSize .second) (rest.map fun m => m.frame.wire) r' ∧
      r' ++ (s.toGate k).drop count = (rest.map fun m => m.frame.wire).flatten := by
  obtain ⟨x, hx⟩ : ∃ x, (s.toGate k).take count = x := ⟨_, rfl⟩
  have hxl : x.length ≤ count := hx ▸ List.length_take_le _ _
  obtain ⟨fs, hfs⟩ : ∃ fs, (todo k).map (fun m => m.frame.wire) = fs := ⟨_, rfl⟩
  have hG : ∀ f ∈ fs, IsFrame .second maxFrame f := by
    rw [← hfs, List.forall_mem_map]
    exact fun m _ => m.isFrame hM
  have hbytes := h.userBytes k
  rw [hfs, ← List.take_append_drop count (s.toGate k), hx, ← List.append_assoc] at hbytes
  have hpre : r k ++ x <+: fs.flatten := hbytes ▸ List.prefix_append _ _
  have hr : (r k).length < maxFrame := residue_lt hM' (hfs ▸ h.userPending k) hG
  have hknown : Known (sockOf rooms) fs rooms := by
    unfold Known
    rw [← hfs, List.forall_mem_map]
    intro m hm
    obtain ⟨sock, hsock⟩ := Option.isSome_iff_exists.mp (h.known k m hm)
    rw [m.intAt_frame, sockOf, hsock, Option.getD_some]
  have hshift : ∀ v ∈ callTurns (s.users k, []) (rooms, x), ShiftOk v.recv := by
    intro v hv
    have hle := callTurns_le (h.user k).recv (show (rooms, x).2.length ≤ 0x1000 by change x.length ≤ _; omega) v hv
    have hval := (h.user k).window.valid
    refine shiftOk_of_le (hle.trans ?_)
    change (s.users k).recv.validBuffLen + (x.length : Int) ≤ _
    change (s.users k).recv.validBuffLen = _ at hval
    omega
  have hlisted : ∀ f ∈ fs, Listed .second 0x1000 fs f := by
    intro f hf
    obtain ⟨p, h1, h2, h3⟩ := hG f hf
    exact ⟨⟨p, h1, h2, by omega⟩, hf⟩
  have hcall := call_ok (h.user k) (show x.length ≤ 0x1000 by omega) hknown hshift hlisted (hfs ▸ h.userPending k) hpre
  obtain ⟨hs', d1, d2, d3, -⟩ := drain_ok (framing .second maxFrame) hG hpre (Nat.lt_succ_self (r k ++ x).length)
  obtain ⟨d, hd⟩ : ∃ d, drain (frameSize .second) ((r k ++ x).length + 1) (r k ++ x) = d := ⟨_, rfl⟩
  rw [hd, foldlM_log, List.nil_append] at hcall
  rw [hd] at d1 d2 d3
  obtain ⟨⟨user, log⟩, hdeal, hview⟩ := hcall.of_some
  obtain rfl : log = _ := hview.log
  rw [d1, List.map_eq_append_iff] at hfs
  obtain ⟨ms, rest, htodo, hms, hrest⟩ := hfs
  rw [d1] at hbytes
  have hlater := rest_eq d2 hbytes
  have hnew := @flatMap_bytesTo _ κ maxFrame key rooms serverFd k ms
    (fun m hm => h.known k m (htodo ▸ List.mem_append_left _ hm))
    (fun m _ => by rw [(m.frame_ok hM).2]; omega)
  rw [hms] at hnew
  refine ⟨user, _, ms, rest, d.2, hx ▸ hdeal, htodo, ⟨hview.key, hview.recv, hview.window, rfl⟩, hnew, ?_, ?_⟩
  · rw [hrest]
    exact d3
  · rw [hrest]
    exact hlater

/-- A read of the gate. -/
theorem Inv.gateRead (h : Inv key rooms serverFd g n msgs s todo r done queued onWay q) (hM : maxFrame ≤ 0xfee)
    (hM' : 18 < maxFrame) (k : κ) {count : Nat} (hc : count + maxFrame ≤ 0x1000) :
    ∃ s' todo' r' onWay', s.step rooms serverFd (.gateRead k count) = some s' ∧
      Inv key rooms serverFd g n msgs s' todo' r' done queued onWay' q := by
  obtain ⟨user, log, ms, rest, rk, hdeal, htodo, hview, hnew, hpending, hlater⟩ := h.gateCall hM hM' k hc
  obtain ⟨new, hn⟩ : ∃ new, ((ms.filter (UserMessage.isFor rooms serverFd)).map fun m => (k, m)) = new := ⟨_, rfl⟩
  rw [hn] at hnew
  refine ⟨{ s with users := Function.update s.users k user
                   toGate := Function.update s.toGate k ((s.toGate k).drop count)
                   toRoom := s.toRoom ++ (new.map (written key)).flatten },
    Function.update todo k rest, Function.update r k rk, onWay ++ new, ?_, ?_⟩
  · rw [step, ← hnew, hdeal]
    rfl
  · have hother {k' : κ} (hk : k' ≠ k) : ofSender k' new = [] := hn ▸ ofSender_of_ne (Ne.symm hk) _
    constructor
    · intro k'
      by_cases hk : k' = k
      · subst hk
        simp only [Function.update_self]
        exact hview
      · simp only [Function.update_of_ne hk]
        exact h.user k'
    · intro k'
      by_cases hk : k' = k
      · subst hk
        rw [Function.update_self]
        exact fun m hm => h.known k' m (htodo ▸ List.mem_append_right _ hm)
      · rw [Function.update_of_ne hk]
        exact h.known k'
    · intro k'
      by_cases hk : k' = k
      · subst hk
        rw [Function.update_self, Function.update_self]
        exact hpending
      · rw [Function.update_of_ne hk, Function.update_of_ne hk]
        exact h.userPending k'
    · intro k'
      by_cases hk : k' = k
      · subst hk
        simp only [Function.update_self]
        exact hlater
      · simp only [Function.update_of_ne hk]
        exact h.userBytes k'
    · intro k'
      have hold := h.senders k'
      rw [← List.append_assoc, ofSender_append, List.append_assoc]
      by_cases hk : k' = k
      · subst hk
        rw [htodo, List.filter_append, ← List.append_assoc] at hold
        rw [Function.update_self, ← hn, ofSender_self, ← List.append_assoc]
        exact hold
      · rw [Function.update_of_ne hk, hother hk, List.nil_append]
        exact hold
    · exact h.room
    · rw [List.map_append]
      exact pending_append h.roomPending _
    · rw [List.map_append, List.flatten_append, ← h.roomBytes, List.append_assoc]
    · exact h.executed

/-- The list has room for the packets of a read. -/
def HasRoom (n : Nat) (s : UplinkPath κ) : Prop := s.room.circleList.usingSize + 228 ≤ n

omit [Runtime.Documented] in
/-- Every message in the list has one slot. -/
theorem Inv.usingSize (h : Inv key rooms serverFd g n msgs s todo r done queued onWay q) :
    s.room.circleList.usingSize = queued.length := by
  have hshort : ∀ m ∈ queued.map (stored key g), m.length ≤ maxSizePerBuff := h.room.2.short
  rw [h.room.2.holds.used, CircleList.slotsUsed_short hshort, List.length_map]

/-- A read of the room server. -/
theorem Inv.roomRead (h : Inv key rooms serverFd g n msgs s todo r done queued onWay q) (hM : maxFrame ≤ 0xfee)
    {count : Nat} (hc : count ≤ 0x1000) (hroom : HasRoom n s) :
    ∃ s' queued' onWay' q', s.step rooms serverFd (.roomRead count) = some s' ∧
      Inv key rooms serverFd g n msgs s' todo r done queued' onWay' q' := by
  obtain ⟨x, hx⟩ : ∃ x, s.toRoom.take count = x := ⟨_, rfl⟩
  have hxl : x.length ≤ count := hx ▸ List.length_take_le _ _
  have hG : ∀ f ∈ onWay.map (written key), IsFrame .third 0x1012 f :=
    List.forall_mem_map.mpr fun p _ => (written_ok hM key p).1
  have hbytes := h.roomBytes
  rw [← List.take_append_drop count s.toRoom, hx, ← List.append_assoc] at hbytes
  have hpre : q ++ x <+: (onWay.map (written key)).flatten := hbytes ▸ List.prefix_append _ _
  have hq := residue_lt (by decide) h.roomPending hG
  have hcall := RoomServer.ClientInfoEx.call_ok h.room (show x.length ≤ 0x1000 by omega) hG h.roomPending hpre
  obtain ⟨hs', d1, d2, d3, -⟩ := drain_ok (framing .third 0x1012) hG hpre (Nat.lt_succ_self (q ++ x).length)
  obtain ⟨d, hd⟩ : ∃ d, drain (frameSize .third) ((q ++ x).length + 1) (q ++ x) = d := ⟨_, rfl⟩
  rw [hd] at hcall d1 d2 d3
  rw [d1] at hbytes
  have hlater := rest_eq d2 hbytes
  obtain ⟨took, rest, honWay, htook, hrest⟩ := List.map_eq_append_iff.mp d1
  have hsize : ∀ f ∈ d.1, 36 ≤ f.length ∧ f.length ≤ 0x1000 := by
    rw [← htook, List.forall_mem_map]
    intro p _
    have := (written_ok hM key p).2
    omega
  have hcap : (queued.map (stored key g)).length + d.1.length ≤ n := by
    have hmul := mul_length_le_flatten fun f hf => (hsize f hf).1
    have hused := h.usingSize
    have hlen := congrArg List.length d2
    rw [List.length_append, List.length_append] at hlen
    rw [List.length_map]
    unfold HasRoom at hroom
    omega
  rw [RoomServer.ClientInfoEx.foldlM_emit hcap, if_pos fun f hf => (hsize f hf).2] at hcall
  obtain ⟨room, hdeal, hview⟩ := hcall.of_some
  have hstamped : d.1.map (RoomServer.ClientInfoEx.stamped g) = took.map (stored key g) := by
    rw [← htook, List.map_map]
    exact List.map_congr_left fun p _ => (stored_eq hM key p g).symm
  rw [hstamped, ← List.map_append] at hview
  refine ⟨{ s with toRoom := s.toRoom.drop count, room := room }, queued ++ took, rest, d.2, ?_, ?_⟩
  · rw [step, hx, hdeal]
    rfl
  · refine ⟨h.user, h.known, h.userPending, h.userBytes, fun k => ?_, hview, hrest ▸ d3, hrest ▸ hlater, h.executed⟩
    rw [← List.append_assoc, List.append_assoc _ took rest, ← honWay]
    exact h.senders k

/-- A turn of the thread. -/
theorem Inv.turn (h : Inv key rooms serverFd g n msgs s todo r done queued onWay q) (hM : maxFrame ≤ 0xfee) :
    ∃ s' done' queued', s.step rooms serverFd .turn = some s' ∧
      Inv key rooms serverFd g n msgs s' todo r done' queued' onWay q := by
  obtain ⟨parse, hparse⟩ : ∃ parse : CInt → Option (List Byte → CInt → Option Message),
      (fun msgType => (cmdChain msgType).map MessageType.parseFromArray) = parse := ⟨_, rfl⟩
  cases queued with
  | nil =>
    refine ⟨s, done, [], ?_, h⟩
    have hget := CircleList.getBuffer_nil h.room.2.holds
    rw [step, hparse]
    simp only [RoomServer.GateServerProcessor.turn, hget, Option.bind_eq_bind, Option.bind_some]
    rfl
  | cons p queued =>
    obtain ⟨hc, hlen⟩ := p.2.frame_ok hM
    have hle := p.2.size_le
    obtain ⟨hw, -, hl⟩ := RoomServer.delivered_ok (h := key p.1) (g := g) hc (by omega)
    have hmsg : (delivered (key p.1) g p.2.frame).dataMsg = p.2.frame.wire :=
      RoomServer.wrapped_dataMsg (h := key p.1) hc
    obtain ⟨list, hturn, hholds⟩ := @RoomServer.GateServerProcessor.turn_ok _ parse _ _ _ _ _ h.room.2.holds hw hc hmsg
      (by omega) s.executed
    have hhandled : RoomServer.GateServerProcessor.handled parse (delivered (key p.1) g p.2.frame) p.2.frame =
        [unpacked key g p] := by
      have hcmd : parse p.2.frame.msgType = some p.2.type.parseFromArray := by
        rw [← hparse]
        change (cmdChain p.2.msgType).map MessageType.parseFromArray = _
        rw [p.2.registered, Option.map_some]
      rw [RoomServer.GateServerProcessor.handled, hcmd]
      dsimp only
      rw [p.2.parse_frame hM, Option.map_some]
      rfl
    rw [hhandled] at hturn
    refine ⟨{ s with room := { s.room with circleList := list }, executed := s.executed ++ [unpacked key g p] },
      done ++ [p], queued, ?_, ?_⟩
    · rw [step, hparse, hturn]
      rfl
    · refine ⟨h.user, h.known, h.userPending, h.userBytes, fun k => ?_, ⟨h.room.1, h.room.2.window, hholds, ?_⟩,
        h.roomPending, h.roomBytes, ?_⟩
      · rw [List.append_assoc done [p] queued]
        exact h.senders k
      · exact fun m hm => h.room.2.short m (List.mem_cons_of_mem _ hm)
      · rw [List.map_append, ← h.executed, List.map_singleton]

/-! ## Runs -/

/-- A step under which nothing is lost: the gate does not read more than it has room for beside a
frame, and the room server has room in its list. -/
def Allowed (maxFrame n : Nat) (s : UplinkPath κ) : Step κ → Prop
  | .gateRead _ count => count + maxFrame ≤ 0x1000
  | .roomRead count => count ≤ 0x1000 ∧ HasRoom n s
  | .turn => True

/-- The users have sent the messages `msgs`, and nothing is read. -/
def start (key : κ → CInt) (msgs : κ → List (UserMessage maxFrame)) (userMem : κ → List Byte) (g : CInt) (n : Nat)
    (mem : List Byte) : UplinkPath κ where
  users k := ⟨key k, .new (userMem k)⟩
  toGate k := ((msgs k).map fun m => m.frame.wire).flatten
  toRoom := []
  room := .start g n mem
  executed := []

/-- The commands have got the first messages of each user for rooms of the server, in their order,
and all of them if none is on its way. -/
def InOrder (key : κ → CInt) (rooms : CInt → Option Int) (serverFd : Int) (g : CInt)
    (msgs : κ → List (UserMessage maxFrame)) (s : UplinkPath κ) : Prop :=
  ∃ l : List (κ × UserMessage maxFrame), s.executed = l.map (unpacked key g) ∧
    (∀ k, ofSender k l <+: (msgs k).filter (UserMessage.isFor rooms serverFd)) ∧
    ((∀ k, s.toGate k = []) → s.toRoom = [] → s.room.circleList.usingSize = 0 →
      ∀ k, ofSender k l = (msgs k).filter (UserMessage.isFor rooms serverFd))

omit [Runtime.Documented] in
theorem start_inv (hn : 0 < n) {userMem : κ → List Byte} {mem : List Byte}
    (hu : ∀ k, (userMem k).length = maxRecvBuffLen) (hm : mem.length = maxRecvBuffLen)
    (hk : ∀ k, ∀ m ∈ msgs k, (rooms m.roomId).isSome) :
    Inv key rooms serverFd g n msgs (start key msgs userMem g n mem) msgs (fun _ => []) [] [] [] [] where
  user k := start_view (key k) (hu k)
  known := hk
  userPending _ := .inl rfl
  userBytes _ := rfl
  senders _ := rfl
  room := RoomServer.ClientInfoEx.start_view g hm hn
  roomPending := .inl rfl
  roomBytes := rfl
  executed := rfl

theorem Inv.inOrder (h : Inv key rooms serverFd g n msgs s todo r done queued onWay q) (hM : maxFrame ≤ 0xfee) :
    InOrder key rooms serverFd g msgs s := by
  refine ⟨done, h.executed, fun k => ?_, fun hgate hroom hused k => ?_⟩
  · rw [← h.senders k, ofSender_append, ofSender_append, List.append_assoc, List.append_assoc]
    exact List.prefix_append _ _
  · have htodo : todo k = [] := by
      have hb := h.userBytes k
      rw [hgate k, List.append_nil] at hb
      refine List.map_eq_nil_iff.mp (eq_nil_of_pending (k := maxFrame) (List.forall_mem_map.mpr fun m _ => ?_) hb
        (h.userPending k))
      have hlen := (m.frame_ok hM).2
      have := m.size_pos
      exact ⟨m.isFrame hM, by omega⟩
    have honWay : onWay = [] := by
      have hb := h.roomBytes
      rw [hroom, List.append_nil] at hb
      refine List.map_eq_nil_iff.mp (eq_nil_of_pending (k := 0x1012) (List.forall_mem_map.mpr fun p _ => ?_) hb
        h.roomPending)
      have := (written_ok hM key p).2
      exact ⟨(written_ok hM key p).1, by omega⟩
    have hqueued : queued = [] := by
      have := h.usingSize
      exact List.eq_nil_of_length_eq_zero (by omega)
    have hall := h.senders k
    rw [htodo, honWay, hqueued, List.append_nil, List.append_nil, List.filter_nil, List.append_nil] at hall
    exact hall

/-- Whatever the order of the reads and of the turns, no step fails, and no message is lost, doubled,
changed, or taken before one that its user sent before it. -/
theorem always_inOrder (key : κ → CInt) (rooms : CInt → Option Int) (serverFd : Int) (g : CInt) {n : Nat} (hn : 0 < n)
    (hM : maxFrame ≤ 0xfee) (hM' : 18 < maxFrame) {msgs : κ → List (UserMessage maxFrame)}
    (hk : ∀ k, ∀ m ∈ msgs k, (rooms m.roomId).isSome) {userMem : κ → List Byte} {mem : List Byte}
    (hu : ∀ k, (userMem k).length = maxRecvBuffLen) (hm : mem.length = maxRecvBuffLen) {ops : List (Step κ)}
    (ho : ∀ x ∈ runSteps (step rooms serverFd) (start key msgs userMem g n mem) ops, Allowed maxFrame n x.1 x.2) :
    Always (step rooms serverFd) (InOrder key rooms serverFd g msgs) (start key msgs userMem g n mem) ops := by
  refine always_of_steps (Q := fun _ => True)
    (P := fun s => ∃ todo r done queued onWay q, Inv key rooms serverFd g n msgs s todo r done queued onWay q)
    (fun s o hs _ hC => ?_) (fun s ⟨_, _, _, _, _, _, h⟩ => h.inOrder hM) (fun _ _ => trivial)
    ⟨_, _, _, _, _, _, start_inv hn hu hm hk⟩ ho
  obtain ⟨todo, r, done, queued, onWay, q, h⟩ := hs
  cases o with
  | gateRead k count =>
    obtain ⟨s', todo', r', onWay', h1, h2⟩ := h.gateRead hM hM' k hC
    exact ⟨s', h1, _, _, _, _, _, _, h2⟩
  | roomRead count =>
    obtain ⟨s', queued', onWay', q', h1, h2⟩ := h.roomRead hM hC.1 hC.2
    exact ⟨s', h1, _, _, _, _, _, _, h2⟩
  | turn =>
    obtain ⟨s', done', queued', h1, h2⟩ := h.turn hM
    exact ⟨s', h1, _, _, _, _, _, _, h2⟩

omit [Runtime.Documented] in
/-- A run whose first step is a read of the gate, which leaves the room server as it is. -/
theorem allowed_gateRead {k : κ} {count : Nat} {os : List (Step κ)} (h : HasRoom n s) (hc : count + maxFrame ≤ 0x1000)
    (hos : ∀ s', HasRoom n s' → ∀ x ∈ runSteps (step rooms serverFd) s' os, Allowed maxFrame n x.1 x.2) :
    ∀ x ∈ runSteps (step rooms serverFd) s (.gateRead k count :: os), Allowed maxFrame n x.1 x.2 := by
  rcases hstep : step rooms serverFd s (.gateRead k count) with _ | s'
  · have hone : runSteps (step rooms serverFd) s (.gateRead k count :: os) = [(s, .gateRead k count)] := by
      simp [runSteps, runTurns, hstep]
    rw [hone, List.forall_mem_singleton]
    exact hc
  · rw [runSteps_cons hstep, List.forall_mem_cons]
    refine ⟨hc, hos s' ?_⟩
    obtain ⟨_, -, he⟩ := Option.bind_eq_some_iff.mp hstep
    cases he
    exact h

end

/-- A request to leave the microphone. -/
def offMic : UserMessage 0x100 where
  roomId := 3
  msgType := 6017
  type := struUserOffMicRQ
  message := MessageType.offMic []
  registered := rfl
  fits := MessageType.offMic_fits.1
  isInitialized := rfl
  size_pos := by decide
  size_le := by decide

/-- Two users send one each. -/
theorem always_inOrder_two :
    Always (step (fun _ => some 5) 5)
      (InOrder (fun k : Bool => if k then 7 else 8) (fun _ => some 5) 5 9 fun _ => [offMic])
      (start (fun k : Bool => if k then 7 else 8) (fun _ => [offMic]) (fun _ => List.replicate maxRecvBuffLen 0) 9 1000
        (List.replicate maxRecvBuffLen 0))
      [.gateRead true 20, .gateRead false 0xf00, .gateRead true 0xf00, .roomRead 0x1000] := by
  refine always_inOrder _ _ 5 9 (by decide) (by decide) (by decide) (fun _ _ _ => rfl) (fun _ => List.length_replicate)
    List.length_replicate ?_
  refine allowed_gateRead (show (0 : Int) + 228 ≤ ((1000 : Nat) : Int) by decide) (by decide) fun s₁ h₁ =>
    allowed_gateRead h₁ (by decide) fun s₂ h₂ =>
    allowed_gateRead h₂ (by decide) fun s₃ h₃ => ?_
  rw [runSteps_last, List.forall_mem_singleton]
  exact ⟨by decide, h₃⟩

end Miku.UplinkPath
