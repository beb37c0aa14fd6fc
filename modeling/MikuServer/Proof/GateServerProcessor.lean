import MikuServer.Impl.GateServerProcessor
import MikuServer.Proof.CircleList
import MikuServer.Proof.Frames

/-!
# What the room server sends to a gate

A message that fits a slot is packed as it should be (`sendData_ok`), and from a
`send_list_` that `InitBuffer` was called for, the gate gets what was accepted
(`always_of_initBuffer`). `InitProcessor` calls it for the other list only, so
`SendData` has no list to add to (`sendData_none`).
-/

namespace Miku.RoomServer.GateServerProcessor

/-- A call of `SendData`. -/
structure Call where
  pack : List Byte
  msgId : CInt
  userHashkey : CInt
  deriving DecidableEq

namespace Call

/-- The message fits a slot with both of its packets. -/
def Fits (k : Call) : Prop := k.pack.length + 36 ≤ maxSizePerBuff

/-- The message fits the arrays of `SendData` with both of its packets. -/
def Packs (k : Call) : Prop := k.pack.length + 36 ≤ 0x2000

/-- The inner packet. -/
def inner (k : Call) : StruCytPacket := ⟨packHead, 0, cint k.pack.length, k.msgId, k.pack, packTail⟩

/-- The outer packet. -/
def outer (k : Call) : GateRoomServerPack := .wrap k.userHashkey k.inner.wire k.inner.wire.length

variable {k : Call}

theorem Fits.packs (h : k.Fits) : k.Packs := Nat.le_trans h (by decide)

theorem inner_ok (h : k.Packs) : k.inner.WellFormed ∧ k.inner.wire.length = k.pack.length + 18 := by
  unfold Packs at h
  have hw : k.inner.WellFormed := ⟨rfl, rfl, toInt_cint (v := k.pack.length) (by omega) (by omega)⟩
  exact ⟨hw, StruCytPacket.length_wire hw⟩

theorem outer_ok (h : k.Packs) :
    k.outer.WellFormed ∧ k.outer.wire.length = k.pack.length + 36 ∧ k.outer.dataMsg = k.inner.wire := by
  obtain ⟨-, hl⟩ := inner_ok h
  unfold Packs at h
  obtain ⟨h1, h2⟩ := GateRoomServerPack.wrap_wf (h := k.userHashkey) (show 0 < k.inner.wire.length by omega)
    (le_refl k.inner.wire.length) (by omega)
  refine ⟨h1, by rw [outer, h2]; omega, ?_⟩
  rw [outer, GateRoomServerPack.wrap_dataMsg (by omega), List.take_length]

/-- The frame decodes to the call: a `GateRoomServerPack` for the user, with a
`StruCytPacket` of the message's type and data in it. -/
def Decodes (k : Call) (frame : List Byte) : Prop :=
  ∃ (g : GateRoomServerPack) (c : StruCytPacket),
    (GateRoomServerPack.fresh.parseFromArray frame (cint frame.length)).within frame.length = some (true, g) ∧
    g.userHashkey = k.userHashkey ∧
    (StruCytPacket.fresh.parseFromArray (cStr g.dataMsg) g.dataLen).within (cStr g.dataMsg).length = some (true, c) ∧
    c.msgType = k.msgId ∧ c.msgData = k.pack

theorem decodes (h : k.Fits) : k.Decodes k.outer.wire := by
  have hM : maxSizePerBuff = 0x1000 := rfl
  obtain ⟨h1, h2, h3⟩ := outer_ok h.packs
  obtain ⟨h4, h5⟩ := inner_ok h.packs
  have h6 : k.outer.dataLen.toInt = k.outer.dataMsg.length := h1.len
  unfold Fits at h
  refine ⟨k.outer, k.inner, ?_, rfl, ?_, rfl, rfl⟩
  · have e := GateRoomServerPack.within_wire .fresh h1 [] (n := cint k.outer.wire.length)
      (by rw [toInt_cint (by omega) (by omega)])
    simpa using e
  · rw [cStr, h3]
    exact StruCytPacket.within_wire .fresh h4 [0] (by rw [h6, h3])

end Call

variable {self : GateServerProcessor} {k : Call} {n : Nat} {ms : List (List Byte)}

/-! ## The packing -/

theorem setData_eq (data x : List Byte) : setData [] (data ++ x) data.length = data := by
  unfold setData
  split
  · rw [Int.toNat_natCast, List.take_left]
  · exact (List.length_eq_zero_iff.mp (by omega)).symm

/-- A message that fits the arrays is queued as its frame. -/
theorem sendData_eq (self : GateServerProcessor) (h : k.Packs) : ∃ x,
    self.sendData k.pack k.msgId k.userHashkey =
      (self.sendList.addBuffer (k.outer.wire ++ x) k.outer.wire.length).map
        fun r => (r.1, { self with sendList := r.2 }) := by
  obtain ⟨h1, h2⟩ := Call.inner_ok h
  obtain ⟨h3, h4, -⟩ := Call.outer_ok h
  unfold Call.Packs at h
  have hzero : (List.replicate 0x2000 (0 : Byte)).length = 0x2000 := List.length_replicate
  have hcopy : memcpy (List.replicate 0x2000 0) 0 k.pack k.pack.length =
      some (k.pack ++ List.replicate (0x2000 - k.pack.length) 0) := by
    rw [memcpy_front rfl (by omega) le_rfl, List.take_length, List.drop_replicate]
  have hinner : (⟨packHead, 0, cint k.pack.length, k.msgId,
      setData [] (k.pack ++ List.replicate (0x2000 - k.pack.length) 0) k.pack.length, packTail⟩ : StruCytPacket) =
      k.inner := by
    rw [setData_eq, Call.inner]
  have hsize : k.inner.byteSize.toInt = k.inner.wire.length :=
    Fields.toInt_byteSize_of_wf h1 (show k.pack.length + 18 < 2 ^ 31 by omega)
  have hwrite : k.inner.serializeToArray (List.replicate 0x2000 0) k.inner.byteSize =
      some (true, k.inner.wire ++ (List.replicate 0x2000 0).drop k.inner.wire.length) :=
    Fields.serializeToArray_eq h1.head h1.tail (show k.inner.wire.length ≤ _ by omega) le_rfl
  have houter : GateRoomServerPack.wrap k.userHashkey (k.inner.wire ++ (List.replicate 0x2000 0).drop k.inner.wire.length)
      k.inner.wire.length = k.outer := by
    rw [← GateRoomServerPack.wrap_take (by omega), List.take_left, Call.outer]
  have hpack : (k.pack ++ List.replicate (0x2000 - k.pack.length) (0 : Byte)).length = 0x2000 := by
    rw [List.length_append, List.length_replicate]
    omega
  have hwrite' := GateRoomServerPack.serialize_ok h3 (show k.outer.wire.length ≤
    (k.pack ++ List.replicate (0x2000 - k.pack.length) 0).length by omega)
  refine ⟨(k.pack ++ List.replicate (0x2000 - k.pack.length) 0).drop k.outer.wire.length, ?_⟩
  simp only [sendData, hcopy, hinner, hwrite, hsize, houter, hwrite', GateRoomServerPack.toInt_byteSize h3 (by omega),
    Option.bind_eq_bind, Option.bind_some, if_true]
  exact (Option.map_eq_bind ..).symm

/-- With room for it, it is accepted. -/
theorem sendData_ok (h : k.Fits) (hq : self.sendList.Holds n ms) (hr : CircleList.slotsUsed ms < n) :
    ∃ list, self.sendData k.pack k.msgId k.userHashkey = some (true, { self with sendList := list }) ∧
      list.Holds n (ms ++ [k.outer.wire]) := by
  obtain ⟨-, hl, -⟩ := Call.outer_ok h.packs
  have hshort : k.outer.wire.length ≤ maxSizePerBuff := hl ▸ h
  obtain ⟨x, hx⟩ := sendData_eq self h.packs
  obtain ⟨list, e1, e2⟩ := CircleList.addBuffer_ok hq (show k.outer.wire.length ≤ (k.outer.wire ++ x).length by simp)
    (show _ + slotsFor k.outer.wire.length ≤ n by rw [slotsFor_of_le hshort]; omega)
  rw [List.take_left, stored_of_length_le hshort] at e2
  refine ⟨list, ?_, e2⟩
  rw [hx, e1, decide_eq_true hshort]
  rfl

theorem sendData_full (h : k.Fits) (hq : self.sendList.Holds n ms) (hr : n ≤ CircleList.slotsUsed ms) :
    self.sendData k.pack k.msgId k.userHashkey = some (false, self) := by
  obtain ⟨x, hx⟩ := sendData_eq self h.packs
  have hpos := slotsFor_pos k.outer.wire.length
  rw [hx, CircleList.addBuffer_full hq _ (show n < _ + slotsFor k.outer.wire.length by omega)]
  rfl

/-- Without a list, nothing is accepted. -/
theorem sendData_none (h : k.Fits) (hq : self.sendList.dataPtr = none) :
    self.sendData k.pack k.msgId k.userHashkey = some (false, self) := by
  obtain ⟨x, hx⟩ := sendData_eq self h.packs
  rw [hx, CircleList.addBuffer, hq]
  rfl

/-! ## Runs -/

/-- A processor, the buffer of its thread, and what became of the calls: those that were
accepted, those that were refused with room in the list, and what was written. -/
structure Sending where
  processor : GateServerProcessor
  tmpOutBuff : List Byte
  accepted : List Call
  refused : List Call
  written : List (List Byte)

/-- A call of `SendData` whose message fits, or a turn of `SendDataThread`. -/
inductive Op
  | send (k : Call) (fits : k.Fits)
  | drain

/-- The messages that were accepted and not written are fewer than the list is for. -/
def Sending.HasRoom (maxListSize : Nat) (t : Sending) : Prop := t.accepted.length < t.written.length + maxListSize

instance (maxListSize : Nat) (t : Sending) : Decidable (t.HasRoom maxListSize) :=
  inferInstanceAs (Decidable (_ < _))

def Sending.step (maxListSize : Nat) (t : Sending) : Op → Option Sending
  | .send k _ => do
    let (ret, p) ← t.processor.sendData k.pack k.msgId k.userHashkey
    some <|
      if ret then { t with processor := p, accepted := t.accepted ++ [k] }
      else if t.HasRoom maxListSize then { t with processor := p, refused := t.refused ++ [k] }
      else { t with processor := p }
  | .drain => do
    let (p, buff, w) ← t.processor.sendDataThread t.tmpOutBuff
    some { t with processor := p, tmpOutBuff := buff, written := t.written ++ w.toList }

/-- No call is refused that has room, and what is written is what was accepted, in
order, but for what is in the list; each frame decodes to its call. -/
structure Sending.Right (t : Sending) : Prop where
  refused : t.refused = []
  frames : t.accepted.map (fun k => k.outer.wire) = t.written ++ t.processor.sendList.messages
  decodes : List.Forall₂ Call.Decodes (t.accepted.take t.written.length) t.written

/-- A connection after `ClientInfoList::AddUserInfo`. -/
def Sending.start : Sending := ⟨new.addUserInfo, List.replicate 0x2000 0, [], [], []⟩

/-- One whose `send_list_` was made ready too. -/
def Sending.ready (maxListSize : Nat) : Sending :=
  ⟨{ new.addUserInfo with sendList := (CircleList.new 0).initBuffer maxListSize }, List.replicate 0x2000 0, [], [], []⟩

/-! ## With a list -/

/-- The calls accepted are those written and those in the list. -/
structure Sending.Inv (n : Nat) (t : Sending) (todo : List Call) (done : List Call) : Prop where
  holds : t.processor.sendList.Holds n (todo.map fun k => k.outer.wire)
  accepted : t.accepted = done ++ todo
  written : t.written = done.map fun k => k.outer.wire
  fits : ∀ k ∈ t.accepted, k.Fits
  buff : t.tmpOutBuff.length = 0x2000
  refused : t.refused = []

variable {t : Sending} {todo done : List Call}

theorem Sending.Inv.slots (h : t.Inv n todo done) :
    CircleList.slotsUsed (todo.map fun k => k.outer.wire) = todo.length := by
  have hM : maxSizePerBuff = 0x1000 := rfl
  rw [CircleList.slotsUsed_short, List.length_map]
  rw [List.forall_mem_map]
  intro k hk
  have hf := h.fits k (h.accepted ▸ List.mem_append_right _ hk)
  rw [(Call.outer_ok hf.packs).2.1]
  exact hf

theorem Sending.Inv.send (h : t.Inv n todo done) (hf : k.Fits) :
    ∃ t' todo', t.step n (.send k hf) = some t' ∧ t'.Inv n todo' done := by
  have hs := h.slots
  have hu := h.holds.used_le
  have hroom : t.HasRoom n ↔ todo.length < n := by
    rw [Sending.HasRoom, h.accepted, h.written, List.length_append, List.length_map]
    omega
  by_cases hr : todo.length < n
  · obtain ⟨list, e1, e2⟩ := sendData_ok hf h.holds (by omega)
    refine ⟨{ t with processor := { t.processor with sendList := list }, accepted := t.accepted ++ [k] }, todo ++ [k],
      ?_, ?_, ?_, h.written, ?_, h.buff, h.refused⟩
    · rw [Sending.step, e1]
      rfl
    · rwa [List.map_append, List.map_singleton]
    · rw [h.accepted, List.append_assoc]
    · rw [List.forall_mem_append, List.forall_mem_singleton]
      exact ⟨h.fits, hf⟩
  · refine ⟨t, todo, ?_, h⟩
    rw [Sending.step, sendData_full hf h.holds (by omega)]
    simp only [Option.bind_eq_bind, Option.bind_some, if_neg (fun hc => hr (hroom.mp hc))]
    rfl

theorem Sending.Inv.drain (h : t.Inv n todo done) :
    ∃ t' todo' done', t.step n .drain = some t' ∧ t'.Inv n todo' done' := by
  have hM : maxSizePerBuff = 0x1000 := rfl
  rcases todo with _ | ⟨k, todo⟩
  · have e := CircleList.getBuffer_nil h.holds t.tmpOutBuff 0x2000 0
    refine ⟨t, [], done, ?_, h⟩
    simp only [Sending.step, sendDataThread, e, Option.bind_eq_bind, Option.bind_some]
    simp
  · have hf : k.Fits := h.fits k (h.accepted ▸ by simp)
    have hl : k.outer.wire.length < 0x2000 := by
      rw [(Call.outer_ok hf.packs).2.1]
      unfold Call.Fits at hf
      omega
    obtain ⟨list, e1, e2⟩ := CircleList.getBuffer_ok h.holds 0 (show (k.outer.wire.length : Int) < 0x2000 by omega)
      (show (0x2000 : Int) ≤ t.tmpOutBuff.length by rw [h.buff]; decide)
    rw [splice_zero] at e1
    refine ⟨⟨{ t.processor with sendList := list }, k.outer.wire ++ t.tmpOutBuff.drop k.outer.wire.length, t.accepted,
      t.refused, t.written ++ [k.outer.wire]⟩, todo, done ++ [k], ?_, e2, ?_, ?_, h.fits, ?_, h.refused⟩
    · simp only [Sending.step, sendDataThread, e1, Option.bind_eq_bind, Option.bind_some, if_true, Int.toNat_natCast,
        List.take_left]
      rfl
    · rw [h.accepted, List.append_assoc, List.singleton_append]
    · simp [h.written]
    · rw [List.length_append, List.length_drop, h.buff]
      omega

theorem Sending.Inv.right (h : t.Inv n todo done) : t.Right where
  refused := h.refused
  frames := by rw [h.holds.messages_eq, h.accepted, h.written, List.map_append]
  decodes := by
    rw [h.accepted, h.written, List.length_map, List.take_left, List.forall₂_map_right_iff, List.forall₂_same]
    exact fun k hk => Call.decodes (h.fits k (h.accepted ▸ List.mem_append_left _ hk))

/-- From a list that is ready, every run goes right. -/
theorem always_of_initBuffer (hn : 0 < n) (ops : List Op) :
    Always (Sending.step n) Sending.Right (Sending.ready n) ops := by
  have hinit : (Sending.ready n).Inv n [] [] :=
    ⟨CircleList.initBuffer_holds (CircleList.new 0) hn, rfl, rfl, fun _ => nofun, List.length_replicate, rfl⟩
  have hkeep (t : Sending) (op : Op) : (∃ todo done, t.Inv n todo done) →
      ∃ t', t.step n op = some t' ∧ ∃ todo done, t'.Inv n todo done := by
    rintro ⟨todo, done, h⟩
    cases op with
    | send k fits =>
      obtain ⟨t', todo', e, h'⟩ := h.send fits
      exact ⟨t', e, todo', done, h'⟩
    | drain =>
      obtain ⟨t', todo', done', e, h'⟩ := h.drain
      exact ⟨t', e, todo', done', h'⟩
  exact always_inv hkeep (fun t ⟨_, _, h⟩ => h.right) ops ⟨[], [], hinit⟩

/-! ## Without one -/

/-- A connection whose `send_list_` has no slots, and that nothing was accepted from. -/
structure Sending.Idle (t : Sending) : Prop where
  list : t.processor.sendList = .new 0
  accepted : t.accepted = []
  refused : t.refused = []
  written : t.written = []

theorem Sending.Idle.right (h : t.Idle) : t.Right := by
  refine ⟨h.refused, ?_, ?_⟩
  · rw [h.accepted, h.written, h.list]
    rfl
  · rw [h.accepted, h.written]
    exact .nil

theorem Sending.Idle.drain (h : t.Idle) : t.step 1000 .drain = some t := by
  have e : t.processor.sendList.getBuffer t.tmpOutBuff 0x2000 0 = some ⟨false, t.tmpOutBuff, 0, t.processor.sendList⟩ := by
    rw [h.list]
    rfl
  simp only [Sending.step, sendDataThread, e, Option.bind_eq_bind, Option.bind_some]
  simp

/-- The first message is refused. -/
theorem Sending.Idle.send (h : t.Idle) (hf : k.Fits) :
    ∃ t', t.step 1000 (.send k hf) = some t' ∧ ¬ t'.Right := by
  have hroom : t.HasRoom 1000 := by
    rw [Sending.HasRoom, h.accepted, h.written]
    decide
  refine ⟨{ t with refused := t.refused ++ [k] }, ?_, fun hr => ?_⟩
  · rw [Sending.step, sendData_none hf (by rw [h.list]; rfl)]
    simp only [Option.bind_eq_bind, Option.bind_some, if_pos hroom]
    rfl
  · have hnil := hr.refused
    rw [h.refused] at hnil
    cases hnil

/-- A connection goes right as long as nothing is sent. -/
theorem always_right_iff (ops : List Op) :
    Always (Sending.step 1000) Sending.Right .start ops ↔ ∀ op ∈ ops, op = .drain := by
  have hidle : Sending.start.Idle := ⟨rfl, rfl, rfl, rfl⟩
  generalize Sending.start = t at hidle
  induction ops with
  | nil => exact ⟨fun _ => nofun, fun _ => hidle.right⟩
  | cons op ops ih =>
    rw [List.forall_mem_cons]
    cases op with
    | send k fits =>
      obtain ⟨t', e, hr⟩ := hidle.send fits
      refine ⟨fun ⟨_, t₁, h1, h2⟩ => ?_, fun h => by cases h.1⟩
      obtain rfl := Option.some.inj (e.symm.trans h1)
      cases ops with
      | nil => exact (hr h2).elim
      | cons => exact (hr h2.1).elim
    | drain =>
      refine ⟨fun ⟨_, t₁, h1, h2⟩ => ⟨rfl, ih.mp ?_⟩, fun h => ⟨hidle.right, t, hidle.drain, ih.mpr h.2⟩⟩
      rwa [Option.some.inj (hidle.drain.symm.trans h1)]

/-- A message of one byte. -/
def byteCall : Call := ⟨[0], 6002, 7⟩

theorem byteCall_fits : byteCall.Fits := by
  unfold Call.Fits
  decide

/-- It is the first that is sent. -/
theorem not_always_right : ¬ Always (Sending.step 1000) Sending.Right .start [.send byteCall byteCall_fits] := by
  have hidle : Sending.start.Idle := ⟨rfl, rfl, rfl, rfl⟩
  obtain ⟨t', e, hr⟩ := hidle.send byteCall_fits
  rintro ⟨-, t₁, h1, h2⟩
  obtain rfl := Option.some.inj (e.symm.trans h1)
  exact hr h2

end Miku.RoomServer.GateServerProcessor
