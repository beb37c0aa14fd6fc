import MikuServer.Impl.Connector
import MikuServer.Proof.CircleList

/-!
# The streams of a connector

`SendDataThread` looks at the result of `write` only to see whether it is negative,
so what a `write` leaves out is never written. If every `write` takes the
whole message or fails, and no message of 0x1001 to 0x1fff bytes is queued (`AddBuffer`
queues it and returns false), each connection has accepted messages from some one on, in
order, and all of what was taken from the queue until a `write` fails (`stream_run`).
-/

namespace Miku.Common

namespace SendPlace

/-- The message that the thread has taken from the queue and not written yet. -/
def hand : SendPlace → List (List Byte)
  | .write outBuff outLen => [outBuff.take outLen.toNat]
  | _ => []

theorem hand_getBuffer : hand .getBuffer = [] := rfl

/-- The thread is done with the connection. -/
def Leaving (p : SendPlace) : Prop := p = .close ∨ p = .closed

instance (p : SendPlace) : Decidable p.Leaving := inferInstanceAs (Decidable (_ ∨ _))

end SendPlace

namespace Connector

def streams (self : Connector) : List (List Byte) := self.sockets.map Socket.stream

/-- A run, with the messages that `SendData` returned true for, those that `SendDataThread` got, and
whether a `write` has failed. -/
structure History where
  connector : Connector
  accepted : List (List Byte)
  dequeued : List (List Byte)
  failed : Bool
  deriving DecidableEq

inductive Event
  | startConnect
  | connect (ok : Bool)
  | reconnect
  | sendData (buff : List Byte) (len : Nat) (le : len ≤ buff.length)
  | send
  | write (ret : Option Nat)
  | disconnect

namespace History

def start : History := ⟨new.initConnectionInfo, [], [], false⟩

def step (s : History) : Event → Option History
  | .startConnect => do some { s with connector := ← s.connector.startConnect }
  | .connect ok => do some { s with connector := ← s.connector.connect ok }
  | .reconnect => do some { s with connector := ← s.connector.reconnectStep }
  | .sendData buff len _ => do
    let (ret, c) ← s.connector.sendData buff len
    some { s with connector := c, accepted := if ret then s.accepted ++ [buff.take len] else s.accepted }
  | .send => do
    let c ← s.connector.sendStep
    some { s with connector := c, dequeued := s.dequeued ++ c.sending.hand }
  | .write ret => do
    let c ← s.connector.write ret
    some { s with connector := c, failed := s.failed || ret.isNone }
  | .disconnect => some { s with connector := s.connector.disconnectStep }

/-- No message is queued that is refused and may be got all the same, and a `write` that does
not fail takes the whole message. -/
def Whole (s : History) : Event → Prop
  | .sendData _ len _ => len ≤ maxSizePerBuff ∨ 0x2000 ≤ len ∨
    s.connector.sendList.maxStruSize < s.connector.sendList.usingSize + slotsFor len
  | .write (some ret) => ret = s.connector.sending.hand.flatten.length
  | _ => True

instance (s : History) : DecidablePred s.Whole
  | .sendData .. => inferInstanceAs (Decidable (_ ∨ _ ∨ _))
  | .write (some _) => inferInstanceAs (Decidable (_ = _))
  | .write none => .isTrue trivial
  | .startConnect => .isTrue trivial
  | .connect _ => .isTrue trivial
  | .reconnect => .isTrue trivial
  | .send => .isTrue trivial
  | .disconnect => .isTrue trivial

/-- Each connection has a part of the messages accepted, from the beginning of one; until
a `write` fails, all that was got is written or about to be; and the queue has a value for every call. -/
structure Intact (s : History) : Prop where
  streams : ∀ x ∈ s.connector.streams, ∃ j, x <+: (s.accepted.drop j).flatten
  all : s.failed = false → s.connector.streams.flatten ++ s.connector.sending.hand.flatten = s.dequeued.flatten
  sendData : ∀ buff (len : Nat), len ≤ buff.length → (s.connector.sendData buff len).isSome
  getBuffer : s.connector.sending = .getBuffer → s.connector.sendStep.isSome

end History

/-! ## The queue -/

/-- The messages accepted are those got and those of the queue that are not too long. -/
structure Queued (list : CircleList) (accepted dequeued ms : List (List Byte)) : Prop where
  holds : list.Holds 1000 ms
  accepted : accepted = dequeued ++ ms.filter fun m => m.length ≤ maxSizePerBuff
  length : ∀ m ∈ ms, m.length ≤ maxSizePerBuff ∨ 0x2000 ≤ m.length

variable {list : CircleList} {accepted dequeued ms : List (List Byte)} {m : List Byte}

theorem Queued.addBuffer (h : Queued list accepted dequeued ms) {buff : List Byte} {len : Nat} (le : len ≤ buff.length)
    (hl : len ≤ maxSizePerBuff ∨ 0x2000 ≤ len ∨ list.maxStruSize < list.usingSize + slotsFor len) :
    ∃ ret list' ms', list.addBuffer buff len = some (ret, list') ∧
      Queued list' (if ret then accepted ++ [buff.take len] else accepted) dequeued ms' := by
  have hM : maxSizePerBuff = 0x1000 := rfl
  have hused := h.holds.used
  have hmax := h.holds.maxStruSize
  have hlen : (buff.take len).length = len := List.length_take_of_le le
  rcases Nat.lt_or_ge 1000 (CircleList.slotsUsed ms + slotsFor len) with hfull | hroom
  · exact ⟨false, list, ms, CircleList.addBuffer_full h.holds buff hfull, h⟩
  obtain ⟨list', hadd, hh⟩ := CircleList.addBuffer_ok h.holds le hroom
  refine ⟨_, list', _, hadd, hh, ?_, ?_⟩
  · rw [List.filter_append, List.filter_singleton, length_stored, hlen, h.accepted]
    by_cases hs : len ≤ maxSizePerBuff
    · rw [stored_of_length_le (by omega), decide_eq_true hs]
      simp
    · rw [decide_eq_false hs]
      simp
  · rw [List.forall_mem_append, List.forall_mem_singleton, length_stored, hlen]
    exact ⟨h.length, by omega⟩

/-- A message that is got was accepted. -/
theorem Queued.getBuffer (h : Queued list accepted dequeued ms) :
    ∃ g ms', list.getBuffer (List.replicate 0x2000 0) 0x2000 0 = some g ∧
      Queued g.list accepted (dequeued ++ if g.ret then [g.outBuff.take g.outLen.toNat] else []) ms' := by
  have hM : maxSizePerBuff = 0x1000 := rfl
  rcases ms with _ | ⟨m, ms⟩
  · refine ⟨_, [], CircleList.getBuffer_nil h.holds _ _ _, ?_⟩
    rw [if_neg Bool.false_ne_true, List.append_nil]
    exact h
  have hm := h.length m List.mem_cons_self
  rcases Nat.lt_or_ge m.length 0x2000 with hlt | hge
  · have hout : (0x2000 : Int) ≤ (List.replicate 0x2000 (0 : Byte)).length := by
      rw [List.length_replicate]
      decide
    obtain ⟨list', hget, hh⟩ := CircleList.getBuffer_ok h.holds 0 (show (m.length : Int) < 0x2000 by omega) hout
    refine ⟨_, ms, hget, hh, ?_, fun k hk => h.length k (List.mem_cons_of_mem _ hk)⟩
    have hshort : m.length ≤ maxSizePerBuff := by omega
    simp only [if_true, splice_zero, Int.toNat_natCast, List.take_left]
    rw [h.accepted, List.filter_cons_of_pos (by simpa using hshort), List.append_assoc, List.singleton_append]
  · refine ⟨_, m :: ms, CircleList.getBuffer_no h.holds _ 0 (show (0x2000 : Int) ≤ m.length by omega), ?_⟩
    rw [if_neg Bool.false_ne_true, List.append_nil]
    exact h

/-! ## The streams -/

/-- What the streams have of the messages got: those in front of the one that the thread has
in its hand. -/
structure Sent (streams : List (List Byte)) (clientFd : Option Nat) (p : SendPlace) (dequeued : List (List Byte))
    (failed : Bool) : Prop where
  last : ∀ i, clientFd = some i → i + 1 = streams.length
  each : ∀ x ∈ streams, ∃ j, x <+: (dequeued.drop j).flatten
  current : p.Leaving ∨ ∃ front, dequeued = front ++ p.hand ∧
    ∀ i x, clientFd = some i → streams[i]? = some x → ∃ j ≤ front.length, x = (front.drop j).flatten
  all : failed = false → streams.flatten ++ p.hand.flatten = dequeued.flatten

namespace Sent

variable {streams : List (List Byte)} {clientFd : Option Nat} {p p' : SendPlace} {failed : Bool}

theorem at_place (h : Sent streams clientFd p dequeued failed) (hh : p'.hand = p.hand) (hl : ¬ p.Leaving) :
    Sent streams clientFd p' dequeued failed where
  last := h.last
  each := h.each
  current := .inr (by rw [hh]; exact h.current.resolve_left hl)
  all := by rw [hh]; exact h.all

theorem closed (h : Sent streams clientFd .close dequeued failed) : Sent streams clientFd .closed dequeued failed where
  last := h.last
  each := h.each
  current := .inl (.inr rfl)
  all := h.all

/-- A new socket. -/
theorem socket (h : Sent streams clientFd p dequeued failed) :
    Sent (streams ++ [[]]) (some streams.length) p dequeued failed where
  last i hi := by
    rw [Option.some_inj] at hi
    rw [← hi, List.length_append, List.length_singleton]
  each := by
    rw [List.forall_mem_append, List.forall_mem_singleton]
    exact ⟨h.each, 0, List.nil_prefix⟩
  current := by
    refine h.current.imp id fun ⟨front, hf, _⟩ => ⟨front, hf, fun i x hi hx => ?_⟩
    rw [Option.some_inj] at hi
    rw [← hi, List.getElem?_append_right le_rfl, Nat.sub_self] at hx
    cases hx
    exact ⟨front.length, le_rfl, by rw [List.drop_length, List.flatten_nil]⟩
  all hf := by
    rw [List.flatten_append, List.flatten_singleton, List.append_nil]
    exact h.all hf

/-- `client_fd_ = -1`. -/
theorem clear (h : Sent streams clientFd p dequeued failed) : Sent streams none p dequeued failed where
  last i hi := by cases hi
  each := h.each
  current := h.current.imp id fun ⟨front, hf, _⟩ => ⟨front, hf, fun i x hi => by cases hi⟩
  all := h.all

/-- `SendDataThread` goes on with no connection. -/
theorem leave (h : Sent streams clientFd .closed dequeued failed) : Sent streams none .loop dequeued failed where
  last i hi := by cases hi
  each := h.each
  current := .inr ⟨dequeued, (List.append_nil _).symm, fun i x hi => by cases hi⟩
  all := h.all

/-- The thread gets a message. -/
theorem get (h : Sent streams clientFd .getBuffer dequeued failed) (outBuff : List Byte) (outLen : Int) :
    Sent streams clientFd (.write outBuff outLen) (dequeued ++ [outBuff.take outLen.toNat]) failed where
  last := h.last
  each x hx := by
    obtain ⟨j, hj⟩ := h.each x hx
    refine ⟨j, hj.trans ?_⟩
    rw [List.drop_append, List.flatten_append]
    exact List.prefix_append ..
  current := by
    rcases h.current with hl | ⟨front, hf, hc⟩
    · exact absurd hl (by decide)
    · rw [SendPlace.hand_getBuffer, List.append_nil] at hf
      exact .inr ⟨front, by rw [hf, SendPlace.hand], hc⟩
  all hf := by
    have hall := h.all hf
    rw [SendPlace.hand_getBuffer, List.flatten_nil, List.append_nil] at hall
    rw [hall, SendPlace.hand, List.flatten_append]

/-- A `write` of the whole message. -/
theorem write {outBuff : List Byte} {outLen : Int} {i : Nat}
    (h : Sent streams (some i) (.write outBuff outLen) dequeued failed) :
    Sent (streams.modify i (· ++ outBuff.take outLen.toNat)) (some i) .loop dequeued failed := by
  obtain ⟨front, hf, hc⟩ : ∃ front, dequeued = front ++ [outBuff.take outLen.toNat] ∧
      ∀ k x, some i = some k → streams[k]? = some x → ∃ j ≤ front.length, x = (front.drop j).flatten :=
    h.current.resolve_left (by simp [SendPlace.Leaving])
  have hlast := h.last i rfl
  obtain ⟨init, x, rfl⟩ : ∃ init x, streams = init ++ [x] := by
    rcases List.eq_nil_or_concat streams with rfl | ⟨init, x, hx⟩
    · cases hlast
    · exact ⟨init, x, by rw [hx, List.concat_eq_append]⟩
  obtain rfl : i = init.length := by
    rw [List.length_append, List.length_singleton] at hlast
    omega
  obtain ⟨j, hj, hx⟩ := hc _ x rfl (by rw [List.getElem?_append_right le_rfl, Nat.sub_self]; rfl)
  have hnew : x ++ outBuff.take outLen.toNat = (dequeued.drop j).flatten := by
    rw [hf, List.drop_append_of_le_length hj, List.flatten_append, List.flatten_singleton, ← hx]
  have hmod : (init ++ [x]).modify init.length (· ++ outBuff.take outLen.toNat) =
      init ++ [x ++ outBuff.take outLen.toNat] := by
    rw [List.modify_eq_take_drop, List.take_left, List.drop_left]
    rfl
  rw [hmod]
  refine ⟨?_, ?_, .inr ⟨dequeued, (List.append_nil _).symm, fun k y hk hy => ?_⟩, fun hfail => ?_⟩
  · intro k hk
    rw [h.last k hk, List.length_append, List.length_append]
    rfl
  · have heach := h.each
    rw [List.forall_mem_append] at heach ⊢
    refine ⟨heach.1, ?_⟩
    rw [List.forall_mem_singleton, hnew]
    exact ⟨j, List.prefix_refl _⟩
  · rw [Option.some_inj] at hk
    rw [← hk, List.getElem?_append_right le_rfl, Nat.sub_self] at hy
    cases hy
    refine ⟨j, ?_, hnew⟩
    rw [hf, List.length_append]
    omega
  · have hall := h.all hfail
    simpa [SendPlace.hand] using hall

/-- A `write` that fails. -/
theorem fail (h : Sent streams clientFd p dequeued failed) : Sent streams clientFd .close dequeued true where
  last := h.last
  each := h.each
  current := .inl (.inl rfl)
  all hf := by cases hf

end Sent

/-! ## Steps -/

variable {self c : Connector}

/-- A change of the socket that leaves its stream as it is. -/
theorem streams_onSocket {f : Socket → Socket} (hf : ∀ x, (f x).stream = x.stream) :
    (self.onSocket f).streams = self.streams := by
  unfold onSocket streams
  cases self.clientFd with
  | none => rfl
  | some i =>
    refine List.ext_getElem? fun k => ?_
    simp only [Option.map_some, Option.getD_some, List.getElem?_map, List.getElem?_modify, Option.map_eq_map,
      Option.map_map]
    congr 1
    funext x
    simp only [Function.comp_apply]
    split
    · exact hf x
    · rfl

/-- A `write` puts its bytes at the end of the stream. -/
theorem streams_write {i : Nat} (hi : self.clientFd = some i) (data : List Byte) :
    (self.onSocket fun x => { x with stream := x.stream ++ data }).streams = self.streams.modify i (· ++ data) := by
  refine List.ext_getElem? fun k => ?_
  simp only [onSocket, streams, hi, Option.map_some, Option.getD_some, List.getElem?_map, List.getElem?_modify,
    Option.map_eq_map, Option.map_map]
  congr 1
  funext x
  simp only [Function.comp_apply]
  split <;> rfl

namespace History

structure Inv (s : History) : Prop where
  queued : ∃ ms, Queued s.connector.sendList s.accepted s.dequeued ms
  sent : Sent s.connector.streams s.connector.clientFd s.connector.sending s.dequeued s.failed
  starting : s.connector.connecting = .none ∨ s.connector.connecting = .connect false → s.connector.sending = .none

variable {s t : History}

theorem start_inv : Inv start :=
  ⟨⟨[], CircleList.initBuffer_holds (CircleList.new 0) (by decide), rfl, fun _ => nofun⟩,
    ⟨nofun, nofun, .inr ⟨[], rfl, nofun⟩, fun _ => rfl⟩, fun _ => rfl⟩

theorem Inv.intact (h : Inv s) : Intact s := by
  obtain ⟨⟨ms, hq⟩, hs, -⟩ := h
  refine ⟨fun x hx => ?_, hs.all, fun buff len le => ?_, fun hp => ?_⟩
  · obtain ⟨j, hj⟩ := hs.each x hx
    refine ⟨j, hj.trans ?_⟩
    rw [hq.accepted, List.drop_append, List.flatten_append]
    exact List.prefix_append ..
  · obtain ⟨r, hr⟩ : ∃ r, s.connector.sendList.addBuffer buff len = some r := by
      rcases Nat.lt_or_ge 1000 (CircleList.slotsUsed ms + slotsFor len) with hfull | hroom
      · exact ⟨_, CircleList.addBuffer_full hq.holds buff hfull⟩
      · obtain ⟨list, hadd, -⟩ := CircleList.addBuffer_ok hq.holds le hroom
        exact ⟨_, hadd⟩
    rw [Connector.sendData, hr]
    rfl
  · obtain ⟨g, -, hg, -⟩ := hq.getBuffer
    rw [sendStep, hp]
    simp only [hg]
    rfl

theorem Inv.sendData (h : Inv s) {buff : List Byte} {len : Nat} {le : len ≤ buff.length}
    (hw : s.Whole (.sendData buff len le)) (ht : s.step (.sendData buff len le) = some t) : Inv t := by
  obtain ⟨⟨ms, hq⟩, hs, hn⟩ := h
  obtain ⟨ret, list, ms', hadd, hq'⟩ := hq.addBuffer le hw
  simp only [History.step, Connector.sendData, hadd, Option.bind_eq_bind, Option.bind_some, Option.some_inj] at ht
  subst ht
  exact ⟨⟨ms', hq'⟩, hs, hn⟩

/-- A step of `SendDataThread` that gets no message. -/
theorem inv_of_no_hand {ms : List (List Byte)} (hq : Queued c.sendList s.accepted s.dequeued ms)
    (hs : Sent c.streams c.clientFd c.sending s.dequeued s.failed)
    (hn : ¬ (c.connecting = .none ∨ c.connecting = .connect false)) (hh : c.sending.hand = []) :
    Inv { s with connector := c, dequeued := s.dequeued ++ c.sending.hand } := by
  rw [hh, List.append_nil]
  exact ⟨⟨ms, hq⟩, hs, fun h => absurd h hn⟩

theorem Inv.send (h : Inv s) (ht : s.step .send = some t) : Inv t := by
  obtain ⟨⟨ms, hq⟩, hs, hn⟩ := h
  simp only [History.step, Option.bind_eq_bind, Option.bind_eq_some_iff, Option.some_inj] at ht
  obtain ⟨c, hc, rfl⟩ := ht
  rw [sendStep] at hc
  rcases hp : s.connector.sending with _ | _ | _ | _ | ⟨outBuff, outLen⟩ | _ | _ | _ <;> rw [hp] at hc hs hn <;>
    simp only [Option.some_inj, reduceCtorEq, imp_false] at hc hn
  case loop =>
    subst hc
    refine inv_of_no_hand hq (hs.at_place ?_ (by decide)) hn ?_ <;> simp only <;> split <;> rfl
  case clientFd =>
    subst hc
    refine inv_of_no_hand hq (hs.at_place ?_ (by decide)) hn ?_ <;> simp only <;> split <;> rfl
  case getBuffer =>
    obtain ⟨g, ms', hg, hq'⟩ := hq.getBuffer
    simp only [hg, Option.bind_eq_bind, Option.bind_some, Option.some_inj] at hc
    subst hc
    cases hr : g.ret with
    | false =>
      rw [hr, if_neg Bool.false_ne_true, List.append_nil] at hq'
      simp only [Bool.false_eq_true, if_false]
      exact inv_of_no_hand hq' (hs.at_place rfl (by decide)) hn rfl
    | true =>
      rw [hr] at hq'
      exact ⟨⟨ms', hq'⟩, hs.get g.outBuff g.outLen, fun h => absurd h hn⟩
  case close =>
    subst hc
    have hstreams : s.connector.close.streams = s.connector.streams := streams_onSocket fun _ => rfl
    refine inv_of_no_hand hq ?_ hn rfl
    exact hstreams ▸ hs.closed
  case closed =>
    subst hc
    exact inv_of_no_hand hq hs.leave hn rfl

theorem Inv.write (h : Inv s) {ret : Option Nat} (hw : s.Whole (.write ret)) (ht : s.step (.write ret) = some t) :
    Inv t := by
  obtain ⟨⟨ms, hq⟩, hs, hn⟩ := h
  simp only [History.step, Option.bind_eq_bind, Option.bind_eq_some_iff, Option.some_inj] at ht
  obtain ⟨c, hc, rfl⟩ := ht
  rw [Connector.write] at hc
  rcases hp : s.connector.sending with _ | _ | _ | _ | ⟨outBuff, outLen⟩ | _ | _ | _ <;> rw [hp] at hc hs hn <;>
    simp only [reduceCtorEq, imp_false] at hc hn
  cases ret with
  | none =>
    cases hc
    simp only [Option.isNone_none, Bool.or_true]
    exact ⟨⟨ms, hq⟩, hs.fail, fun h => absurd h hn⟩
  | some ret =>
    simp only [Option.ite_none_right_eq_some, Option.some_inj] at hc
    obtain ⟨⟨hsock, -⟩, rfl⟩ := hc
    obtain ⟨i, hi⟩ : ∃ i, s.connector.clientFd = some i := by
      rw [← Option.ne_none_iff_exists']
      intro hnone
      simp [socket, hnone] at hsock
    have hret : ret = (outBuff.take outLen.toNat).length := by
      have hw : ret = s.connector.sending.hand.flatten.length := hw
      rw [hw, hp, SendPlace.hand, List.flatten_singleton]
    have hdata : outBuff.take ret = outBuff.take outLen.toNat := by
      rw [hret, List.length_take]
      rcases Nat.le_total outLen.toNat outBuff.length with hle | hge
      · rw [Nat.min_eq_left hle]
      · rw [Nat.min_eq_right hge, List.take_length, List.take_of_length_le hge]
    simp only [Option.isNone_some, Bool.or_false, hdata]
    refine ⟨⟨ms, hq⟩, ?_, fun h => absurd h hn⟩
    show Sent (s.connector.onSocket _).streams s.connector.clientFd .loop s.dequeued s.failed
    rw [streams_write hi, hi]
    exact Sent.write (hi ▸ hs)

/-- The threads that connect and disconnect leave the streams as they are. -/
theorem Inv.connect (h : Inv s) {ok : Bool} (ht : s.step (.connect ok) = some t) : Inv t := by
  obtain ⟨⟨ms, hq⟩, hs, hn⟩ := h
  simp only [History.step, Connector.connect, Option.bind_eq_bind, Option.bind_eq_some_iff, Option.some_inj] at ht
  obtain ⟨c, hc, rfl⟩ := ht
  split at hc
  · rename_i reconnect hp
    cases ok with
    | false =>
      cases hc
      exact ⟨⟨ms, hq⟩, hs, hn⟩
    | true =>
      simp only [if_true, Option.ite_none_right_eq_some, Option.some_inj] at hc
      obtain ⟨-, rfl⟩ := hc
      have hstreams : (s.connector.onSocket fun x => { x with connected := true }).streams = s.connector.streams :=
        streams_onSocket fun _ => rfl
      refine ⟨⟨ms, hq⟩, ?_, fun h => (by cases h with | inl h => cases h | inr h => cases h)⟩
      show Sent (s.connector.onSocket fun x => { x with connected := true }).streams s.connector.clientFd _ s.dequeued s.failed
      rw [hstreams]
      cases reconnect with
      | true => exact hs
      | false =>
        rw [hn (.inr hp)] at hs
        exact hs.at_place rfl (by decide)
  · cases hc

theorem Inv.makeSocket (h : Inv s) {connecting : ConnectPlace} (isStarted : Bool)
    (hc : connecting = .none ∨ connecting = .connect false → s.connector.sending = .none) :
    Inv { s with connector := { s.connector.makeSocket with connecting := connecting, isStarted := isStarted } } := by
  obtain ⟨hq, hs, hn⟩ := h
  refine ⟨hq, ?_, hc⟩
  have hnew := hs.socket
  rw [streams, List.length_map, ← streams] at hnew
  show Sent (s.connector.makeSocket.streams) _ _ _ _
  rw [streams, Connector.makeSocket, List.map_append]
  exact hnew

theorem Inv.reconnect (h : Inv s) (ht : s.step .reconnect = some t) : Inv t := by
  simp only [History.step, reconnectStep, Option.bind_eq_bind, Option.bind_eq_some_iff, Option.some_inj] at ht
  obtain ⟨c, hc, rfl⟩ := ht
  split at hc
  · cases hc
    refine ⟨h.queued, h.sent, ?_⟩
    simp only
    split <;> exact fun hc => absurd hc (by decide)
  · cases hc
    refine ⟨h.queued, h.sent, ?_⟩
    simp only
    split <;> exact fun hc => absurd hc (by decide)
  · cases hc
    exact h.makeSocket _ fun hc => absurd hc (by decide)
  · cases hc

theorem Inv.startConnect (h : Inv s) (ht : s.step .startConnect = some t) : Inv t := by
  simp only [History.step, Connector.startConnect, Option.bind_eq_bind, Option.bind_eq_some_iff, Option.some_inj,
    Option.ite_none_right_eq_some] at ht
  obtain ⟨c, ⟨hnone, rfl⟩, rfl⟩ := ht
  exact h.makeSocket _ fun _ => h.starting (.inl hnone)

theorem Inv.disconnect (h : Inv s) (ht : s.step .disconnect = some t) : Inv t := by
  obtain ⟨hq, hs, hn⟩ := h
  simp only [History.step, disconnectStep, Option.some_inj] at ht
  subst ht
  split
  · exact ⟨hq, hs, hn⟩
  · have hstreams : s.connector.close.streams = s.connector.streams := streams_onSocket fun _ => rfl
    exact ⟨hq, show Sent s.connector.close.streams _ _ _ _ from hstreams ▸ hs, hn⟩
  · exact ⟨hq, hs.clear, hn⟩

theorem Inv.step (h : Inv s) {e : Event} (hw : s.Whole e) (ht : s.step e = some t) : Inv t := by
  cases e with
  | startConnect => exact h.startConnect ht
  | connect ok => exact h.connect ht
  | reconnect => exact h.reconnect ht
  | sendData buff len le => exact h.sendData hw ht
  | send => exact h.send ht
  | write ret => exact h.write hw ht
  | disconnect => exact h.disconnect ht

end History

/-- In every run whose steps are whole, the streams are intact in every state. -/
theorem stream_run (es : List Event) (h : ∀ x ∈ runSteps History.step .start es, x.1.Whole x.2) {s : History}
    (hs : es.foldlM History.step .start = some s) : s.Intact :=
  (foldlM_inv_of_steps (fun _ _ _ hi hw ht => hi.step hw ht) History.start_inv h hs).intact

/-- A message, and a second connection after a `write` that fails. -/
theorem stream_run_example :
    ∃ s, [Event.startConnect, .connect true, .sendData [1, 2] 2 (by decide), .sendData [3] 1 (by decide), .send, .send,
      .send, .write (some 2), .send, .send, .send, .write none, .send, .send, .reconnect, .reconnect, .reconnect,
      .connect true].foldlM History.step .start = some s ∧ s.Intact := by
  obtain ⟨s, hs⟩ := Option.isSome_iff_exists.mp (show ([Event.startConnect, .connect true,
    .sendData [1, 2] 2 (by decide), .sendData [3] 1 (by decide), .send, .send, .send, .write (some 2), .send, .send, .send,
    .write none, .send, .send, .reconnect, .reconnect, .reconnect, .connect true].foldlM History.step .start).isSome by
      decide +kernel)
  exact ⟨s, hs, stream_run _ (by decide +kernel) hs⟩

/-- A `write` that takes one byte of two. -/
theorem short_write_lost :
    ∃ s, [Event.startConnect, .connect true, .sendData [1, 2] 2 (by decide), .sendData [3] 1 (by decide), .send, .send,
      .send, .write (some 1), .send, .send, .send, .write (some 1)].foldlM History.step .start = some s ∧
      s.failed = false ∧ s.accepted = [[1, 2], [3]] ∧ s.dequeued = [[1, 2], [3]] ∧ s.connector.streams = [[1, 3]] ∧
      ¬ ∃ j, [1, 3] <+: (s.accepted.drop j).flatten := by
  have hrun : ([Event.startConnect, .connect true, .sendData [1, 2] 2 (by decide), .sendData [3] 1 (by decide), .send,
      .send, .send, .write (some 1), .send, .send, .send, .write (some 1)].foldlM History.step .start).map
        (fun s => (s.failed, s.accepted, s.dequeued, s.connector.streams)) =
      some (false, [[1, 2], [3]], [[1, 2], [3]], [[1, 3]]) := by
    decide +kernel
  obtain ⟨s, hs, he⟩ := Option.map_eq_some_iff.mp hrun
  simp only [Prod.mk.injEq] at he
  obtain ⟨hfailed, haccepted, hdequeued, hstreams⟩ := he
  refine ⟨s, hs, hfailed, haccepted, hdequeued, hstreams, fun ⟨j, hj⟩ => ?_⟩
  rw [haccepted] at hj
  match j with
  | 0 => exact absurd hj (by decide)
  | 1 => exact absurd hj (by decide)
  | j + 2 => exact absurd hj (by simp)

end Connector

end Miku.Common
