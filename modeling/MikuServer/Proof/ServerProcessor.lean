import MikuServer.Impl.ServerProcessor
import MikuServer.Proof.CircleList
import MikuServer.Proof.Frames

/-!
# The replies to the room server

`handled` is what a turn of the thread executes of a chunk: at most one command,
whose packet is no longer than the chunk (`handled_length`). So commands for all
the frames take chunks as long as all the frames, which leaves no other chunks
than the frames themselves (`frames_of_handled`). `Inv` says what has been
executed, of which chunks, in every state of a run.
-/

namespace Miku

namespace Fields

variable {lf : LenField} {self q : Fields} {data : List Byte} {n : CInt}

/-- A packet that is read, of an array that is not larger than an `int`, is inside the bytes supplied. -/
theorem within_true (hd : data.length < 2 ^ 31)
    (h : (self.parseFromArray lf data n).within data.length = some (true, q)) :
    q = ofWire lf data ∧ 18 ≤ n.toInt ∧ 0 ≤ lenAt lf data ∧ lenAt lf data + 18 ≤ n.toInt := by
  by_cases h18 : n.toInt < 18
  · rw [parseFromArray_short h18] at h
    cases h
  have h18 : 18 ≤ n.toInt := by omega
  by_cases hr : lenAt lf data < 0 ∨ lenAt lf data + 18 < 2 ^ 31 ∧ n.toInt < lenAt lf data + 18
  · rw [parseFromArray_reject h18 hr, Parsed.within] at h
    split at h <;> cases h
  by_cases ho : 2 ^ 31 ≤ lenAt lf data + 18
  · rw [parseFromArray_overflow h18 ho, Parsed.within, inBounds_overflow hd ho, if_neg Bool.false_ne_true] at h
    cases h
  rw [parseFromArray_ok h18 (by omega) (by omega), Parsed.within] at h
  split at h
  · cases h
    exact ⟨rfl, h18, by omega, by omega⟩
  · cases h

end Fields

namespace RoomServer.ServerProcessor

open StruCytPacket (blank blank_ok)

variable {g : CInt → Bool} {n : Nat} {s : ServerProcessor} {m : List Byte} {ms : List (List Byte)}

/-! ## What a turn executes -/

/-- The call of the command for a packet. -/
def executedOf (p : StruCytPacket) : Executed := ⟨p.msgType, cStr p.msgData, p.msgLen⟩

/-- What a turn executes of a chunk, if it stays inside `tmp_out_buff`. -/
def handled (g : CInt → Bool) (m : List Byte) : Option (List Executed) :=
  ((StruCytPacket.fresh.parseFromArray (m ++ List.replicate (0x2000 - m.length) 0) (cint m.length)).within
    0x2000).map fun r => if r.1 ∧ g r.2.msgType then [executedOf r.2] else []

theorem length_padded (h : m.length < 0x2000) :
    (m ++ List.replicate (0x2000 - m.length) (0 : Byte)).length = 0x2000 := by
  rw [List.length_append, List.length_replicate]
  omega

/-- At most one command is executed, and its packet is inside the chunk. -/
theorem handled_length {es : List Executed} (hm : m.length < 0x2000) (h : handled g m = some es) :
    es = [] ∨ ∃ e, es = [e] ∧ e.buff.length + 17 ≤ m.length := by
  obtain ⟨d, hd⟩ : ∃ d, m ++ List.replicate (0x2000 - m.length) (0 : Byte) = d := ⟨_, rfl⟩
  have hlen : d.length = 0x2000 := hd ▸ length_padded hm
  rw [handled, hd, StruCytPacket.within_eq, Option.map_map, Option.map_eq_some_iff] at h
  obtain ⟨⟨ret, q⟩, h1, h2⟩ := h
  simp only [Function.comp_apply, Prod.map_apply, id_eq] at h2
  split at h2
  · rename_i hr
    rw [hr.1, ← hlen] at h1
    obtain ⟨rfl, -, h5, h6⟩ := Fields.within_true (by rw [hlen]; decide) h1
    rw [toInt_cint (by omega) (by omega)] at h6
    have hb := Fields.length_ofWire_body h5 (by omega)
    refine .inr ⟨_, h2.symm, ?_⟩
    simp only [executedOf, StruCytPacket.ofFields, cStr, List.length_append, hb, List.length_singleton]
    omega
  · exact .inl h2.symm

/-- A chunk of the length of a frame and with its header is a packet of the same type and length. -/
theorem handled_of_header {p : StruCytPacket} (hp : p.WellFormed) (hg : g p.msgType) (hl : p.wire.length < 0x2000)
    (hm : m.length = p.wire.length) (hh : m.take 15 = p.wire.take 15) :
    handled g m = some [⟨p.msgType, cStr (slice m 15 p.msgData.length), p.msgLen⟩] := by
  have hw := StruCytPacket.length_wire hp
  have hlen := length_padded (m := m) (by omega)
  have hint (off : Nat) (h : off + 4 ≤ 15) :
      intAt (m ++ List.replicate (0x2000 - m.length) 0) off = intAt p.wire off := by
    rw [intAt_append_left (by omega)]
    refine intAt_congr fun k hk => ?_
    have e := congrArg (fun l => l[off + k]?) hh
    simp only [List.getElem?_take_of_lt (show off + k < 15 by omega)] at e
    rw [List.getD_eq_getElem?_getD, List.getD_eq_getElem?_getD, e]
  obtain ⟨-, h1, h2⟩ := Fields.intAt_wire (f := p.fields) hp.head []
  rw [List.append_nil] at h1 h2
  have h1 : intAt p.wire 7 = p.msgLen := h1
  have h2 : intAt p.wire 11 = p.msgType := h2
  have hlenAt : Fields.lenAt .second (m ++ List.replicate (0x2000 - m.length) 0) = p.msgData.length := by
    rw [Fields.lenAt, show LenField.off .second = 7 from rfl, hint 7 (by omega), h1]
    exact hp.len
  have hn : (cint m.length).toInt = m.length := toInt_cint (by omega) (by omega)
  have hparse : (StruCytPacket.fresh.fields.parseFromArray .second (m ++ List.replicate (0x2000 - m.length) 0)
      (cint m.length)).within 0x2000 = some (true, Fields.ofWire .second (m ++ List.replicate (0x2000 - m.length) 0)) := by
    rw [Fields.parseFromArray_ok (by omega) (by omega) (by omega), Parsed.within,
      if_pos (Fields.inBounds_reads (by omega) (by omega))]
  have hbody : slice (m ++ List.replicate (0x2000 - m.length) 0) 15 p.msgData.length =
      slice m 15 p.msgData.length := by
    rw [slice, slice, List.drop_append_of_le_length (by omega), List.take_append_of_le_length
      (by rw [List.length_drop]; omega)]
  have hpack : StruCytPacket.ofFields (Fields.ofWire .second (m ++ List.replicate (0x2000 - m.length) 0)) =
      ⟨slice (m ++ List.replicate (0x2000 - m.length) 0) 0 3, intAt p.wire 3, p.msgLen, p.msgType,
        slice m 15 p.msgData.length, slice (m ++ List.replicate (0x2000 - m.length) 0) (15 + p.msgData.length) 3⟩ := by
    simp only [StruCytPacket.ofFields, Fields.ofWire, hlenAt, hint 3 (by omega), hint 7 (by omega),
      hint 11 (by omega), h1, h2, Int.toNat_natCast, hbody]
  rw [handled, StruCytPacket.within_eq, hparse, Option.map_some, Option.map_some, Prod.map_apply, hpack]
  simp only [id_eq, hg, and_self, if_true, executedOf]

/-! ## Chunks that are frames -/

/-- The payload is not changed where `AddBuffer` stores the frame: each of its bytes past
the frame's 0x1000th is the frame's byte 0x1000 before. -/
def KeepsData (p : StruCytPacket) : Prop :=
  ∀ j < 15 + p.msgData.length, p.wire[j]? = p.wire[j % maxSizePerBuff]?

theorem take_stored (m : List Byte) : (stored m).take 15 = m.take 15 := by
  apply List.ext_getElem?
  intro j
  by_cases h : j < 15
  · rw [List.getElem?_take_of_lt h, List.getElem?_take_of_lt h]
    by_cases hj : j < m.length
    · rw [getElem?_stored hj, Nat.mod_eq_of_lt (by rw [show maxSizePerBuff = 4096 from rfl]; omega)]
    · rw [List.getElem?_eq_none (by rw [length_stored]; omega), List.getElem?_eq_none (by omega)]
  · rw [List.getElem?_take_eq_none (by omega), List.getElem?_take_eq_none (by omega)]

theorem slice_wire {p : StruCytPacket} (hp : p.WellFormed) : slice p.wire 15 p.msgData.length = p.msgData := by
  have e := Fields.ofWire_wire (f := p.fields) hp []
  have el := Fields.lenAt_wire (f := p.fields) hp []
  rw [List.append_nil] at e el
  have h : slice p.wire 15 (Fields.lenAt .second p.wire).toNat = p.msgData := congrArg Fields.body e
  rwa [show Fields.lenAt .second p.wire = p.msgData.length from el, Int.toNat_natCast] at h

theorem slice_stored_iff {p : StruCytPacket} (hp : p.WellFormed) :
    slice (stored p.wire) 15 p.msgData.length = p.msgData ↔ KeepsData p := by
  have hw := StruCytPacket.length_wire hp
  have hlen : (slice (stored p.wire) 15 p.msgData.length).length = p.msgData.length := by
    rw [length_slice, length_stored]
    omega
  have hget (k : Nat) (hk : k < p.msgData.length) (l : List Byte) :
      (slice l 15 p.msgData.length)[k]? = l[15 + k]? := by
    rw [slice, List.getElem?_take_of_lt hk, List.getElem?_drop]
  constructor
  · intro h j hj
    by_cases h15 : j < 15
    · rw [Nat.mod_eq_of_lt (by rw [show maxSizePerBuff = 4096 from rfl]; omega)]
    · have e := congrArg (fun l => l[j - 15]?) (h.trans (slice_wire hp).symm)
      simp only [hget (j - 15) (by omega), Nat.add_sub_of_le (show 15 ≤ j by omega)] at e
      rw [getElem?_stored (by omega)] at e
      exact e.symm
  · intro h
    rw [← slice_wire hp]
    conv_lhs => rw [slice_wire hp]
    apply List.ext_getElem?
    intro k
    by_cases hk : k < p.msgData.length
    · rw [hget k hk, hget k hk, getElem?_stored (by omega), ← h (15 + k) (by omega)]
    · rw [List.getElem?_eq_none (by omega), List.getElem?_eq_none (by rw [slice_wire hp]; omega)]

/-- What is executed of a frame that is queued in one chunk. -/
theorem handled_stored_iff {p : StruCytPacket} (hp : p.WellFormed) (hg : g p.msgType) (hl : p.wire.length < 0x2000) :
    handled g (stored p.wire) = some [executedOf p] ↔ KeepsData p := by
  rw [handled_of_header hp hg hl (length_stored _) (take_stored _), ← slice_stored_iff hp, executedOf]
  simp [cStr]

theorem handled_stored_isSome {p : StruCytPacket} (hp : p.WellFormed) (hg : g p.msgType)
    (hl : p.wire.length < 0x2000) : (handled g (stored p.wire)).isSome := by
  rw [handled_of_header hp hg hl (length_stored _) (take_stored _)]
  rfl

/-! ## Counting -/

/-- The turns for the chunks `ds` executed `ess`. -/
def Handled (g : CInt → Bool) : List (List Byte) → List (List Executed) → Prop :=
  List.Forall₂ fun d es => d.length < 0x2000 ∧ handled g (stored d) = some es

/-- Each chunk is as long as the frame that was executed of it. -/
def HandledEach (g : CInt → Bool) : List (List Byte) → List StruCytPacket → Prop :=
  List.Forall₂ fun d p => d.length = p.wire.length ∧ d.length < 0x2000 ∧ handled g (stored d) = some [executedOf p]

variable {ds cs : List (List Byte)} {ess : List (List Executed)} {frames : List StruCytPacket}

/-- Where the frames are executed, the chunks are together at least as long as they are,
and if they are no longer each chunk is for one frame. -/
theorem Handled.count (h : Handled g ds ess) (hp : ∀ p ∈ frames, p.WellFormed) (hd : ∀ d ∈ ds, 1 ≤ d.length)
    (he : ess.flatten = frames.map executedOf) :
    (frames.map StruCytPacket.wire).flatten.length ≤ ds.flatten.length ∧
      (ds.flatten.length ≤ (frames.map StruCytPacket.wire).flatten.length → HandledEach g ds frames) := by
  induction h generalizing frames with
  | nil =>
    obtain rfl : frames = [] := List.map_eq_nil_iff.mp he.symm
    exact ⟨le_refl _, fun _ => .nil⟩
  | @cons d es ds ess hes _ ih =>
    have hd' := fun d hm => hd d (List.mem_cons_of_mem _ hm)
    have hpos := hd d List.mem_cons_self
    rw [List.flatten_cons] at he
    rw [List.flatten_cons, List.length_append]
    rcases handled_length (by rw [length_stored]; exact hes.1) hes.2 with rfl | ⟨e, rfl, hlen⟩
    · obtain ⟨h1, -⟩ := ih hp hd' he
      exact ⟨by omega, fun hle => by omega⟩
    · obtain ⟨p, ps, rfl, rfl, hps⟩ := List.map_eq_cons_iff.mp he.symm
      obtain ⟨h1, h2⟩ := ih (fun q hq => hp q (List.mem_cons_of_mem _ hq)) hd' hps.symm
      have hw := StruCytPacket.length_wire (hp p List.mem_cons_self)
      rw [length_stored, executedOf, cStr, List.length_append, List.length_singleton] at hlen
      rw [List.map_cons, List.flatten_cons, List.length_append]
      exact ⟨by omega, fun hle => .cons ⟨by omega, hes⟩ (h2 (by omega))⟩

/-- Lists of the same bytes cut into pieces of the same lengths. -/
theorem HandledEach.eq_wires (h : HandledEach g ds frames)
    (hf : ds.flatten = (frames.map StruCytPacket.wire).flatten) : ds = frames.map StruCytPacket.wire := by
  induction h with
  | nil => rfl
  | cons hd _ ih =>
    rw [List.flatten_cons, List.map_cons, List.flatten_cons] at hf
    obtain ⟨h1, h2⟩ := List.append_inj hf hd.1
    rw [List.map_cons, h1, ih h2]

/-- Chunks left out of a list make it shorter. -/
theorem sublist_count {as bs : List (List Byte)} (h : as.Sublist bs) (hb : ∀ b ∈ bs, 1 ≤ b.length) :
    as.flatten.length ≤ bs.flatten.length ∧ (bs.flatten.length ≤ as.flatten.length → as = bs) := by
  induction h with
  | slnil => exact ⟨le_refl _, fun _ => rfl⟩
  | cons b _ ih =>
    have hpos := hb b List.mem_cons_self
    obtain ⟨h1, -⟩ := ih fun d hd => hb d (List.mem_cons_of_mem _ hd)
    rw [List.flatten_cons, List.length_append]
    exact ⟨by omega, fun hl => by omega⟩
  | cons_cons b _ ih =>
    obtain ⟨h1, h2⟩ := ih fun d hd => hb d (List.mem_cons_of_mem _ hd)
    rw [List.flatten_cons, List.flatten_cons, List.length_append, List.length_append]
    exact ⟨by omega, fun hl => by rw [h2 (by omega)]⟩

/-! ## Runs -/

/-- The processor, and the chunks that are still to be read. -/
abbrev State := ServerProcessor × List (List Byte)

/-- A turn of `RecvDataThread` or of `DealWithDataThread`. -/
inductive Turn
  | recv
  | deal

def step (g : CInt → Bool) (t : State) : Turn → Option State
  | .recv =>
    match t.2 with
    | [] => some t
    | c :: cs => (t.1.recvData c).map fun s => (s, cs)
  | .deal => (t.1.dealWithData g).map fun r => (r.1, t.2)

def run (g : CInt → Bool) (t : State) (ts : List Turn) : Option State := ts.foldlM (step g) t

/-- A chunk that is queued finds room in the list. -/
def HasRoom (r : State × Turn) : Prop :=
  match r.2, r.1.2 with
  | .recv, c :: _ => r.1.1.circleList.usingSize + slotsFor c.length ≤ r.1.1.circleList.maxStruSize
  | _, _ => True

/-- The states of a run, each with the turn that is taken there. -/
def turns (g : CInt → Bool) : State → List Turn → List (State × Turn) := runTurns (step g) fun t o => [(t, o)]

/-- Nothing is left to read, and the thread gets nothing from the list. -/
def Ended (g : CInt → Bool) (t : State) : Prop := t.2 = [] ∧ t.1.dealWithData g = some (t.1, false)

/-- Of the chunks `read`, `queued` found room; the thread has dealt with the first of these. -/
structure Inv (g : CInt → Bool) (n : Nat) (t : State) (chunks read queued : List (List Byte)) : Prop where
  chunks : chunks = read ++ t.2
  sublist : queued.Sublist read
  split : ∃ ds ms ess, queued = ds ++ ms ∧ t.1.circleList.Holds n (ms.map stored) ∧ Handled g ds ess ∧
    t.1.executed = ess.flatten

variable {t t' : State} {chunks read queued : List (List Byte)} {c : List Byte}

theorem recvData_room (hq : s.circleList.Holds n ms) (hl : c.length ≤ 0x2000)
    (hr : CircleList.slotsUsed ms + slotsFor c.length ≤ n) :
    ∃ list, s.recvData c = some { s with circleList := list } ∧ list.Holds n (ms ++ [stored c]) := by
  have hcopy : memcpy (List.replicate 0x2000 0) 0 c c.length = some (c ++ List.replicate (0x2000 - c.length) 0) := by
    rw [memcpy_front rfl (by rw [List.length_replicate]; exact hl) le_rfl, List.take_length, List.drop_replicate]
  obtain ⟨list, e1, e2⟩ := CircleList.addBuffer_ok hq
    (show c.length ≤ (c ++ List.replicate (0x2000 - c.length) 0).length by rw [List.length_append]; omega) hr
  rw [List.take_left] at e2
  refine ⟨list, ?_, e2⟩
  simp only [recvData, hcopy, e1, Option.bind_eq_bind, Option.bind_some]

theorem recvData_full (hq : s.circleList.Holds n ms) (hl : c.length ≤ 0x2000)
    (hr : n < CircleList.slotsUsed ms + slotsFor c.length) : s.recvData c = some s := by
  have hcopy : memcpy (List.replicate 0x2000 0) 0 c c.length = some (c ++ List.replicate (0x2000 - c.length) 0) := by
    rw [memcpy_front rfl (by rw [List.length_replicate]; exact hl) le_rfl, List.take_length, List.drop_replicate]
  simp only [recvData, hcopy, CircleList.addBuffer_full hq _ hr, Option.bind_eq_bind, Option.bind_some]

theorem dealWithData_nil (g : CInt → Bool) (hq : s.circleList.Holds n []) :
    s.dealWithData g = some (s, false) := by
  simp only [dealWithData, CircleList.getBuffer_nil hq, Option.bind_eq_bind, Option.bind_some]
  rfl

/-- A message of 0x2000 bytes stays in the list. -/
theorem dealWithData_long (g : CInt → Bool) (hq : s.circleList.Holds n (m :: ms)) (hl : 0x2000 ≤ m.length) :
    s.dealWithData g = some (s, false) := by
  simp only [dealWithData, CircleList.getBuffer_no hq _ _ (show (0x2000 : Int) ≤ m.length by omega),
    Option.bind_eq_bind, Option.bind_some]
  rfl

theorem dealWithData_cons (g : CInt → Bool) (hq : s.circleList.Holds n (m :: ms)) (hl : m.length < 0x2000) :
    ∃ list, list.Holds n ms ∧
      s.dealWithData g = (handled g m).map fun es => (⟨list, s.executed ++ es⟩, true) := by
  have hz : (0x2000 : Int) ≤ (List.replicate 0x2000 (0 : Byte)).length := by
    rw [List.length_replicate]
    decide
  obtain ⟨list, e1, e2⟩ := CircleList.getBuffer_ok hq 0 (show (m.length : Int) < 0x2000 by omega) hz
  rw [splice_zero, List.drop_replicate] at e1
  refine ⟨list, e2, ?_⟩
  have hlen := length_padded hl
  simp only [dealWithData, e1, handled, hlen, Option.bind_eq_bind, Option.bind_some, if_true]
  rcases (StruCytPacket.fresh.parseFromArray (m ++ List.replicate (0x2000 - m.length) 0)
    (cint m.length)).within 0x2000 with _ | ⟨_ | _, pack⟩
  · rfl
  · simp
  · by_cases hg : g pack.msgType <;> simp [hg, executedOf]

/-- A turn of `RecvDataThread` queues the chunk exactly if there is room for it. -/
theorem Inv.recv {cs : List (List Byte)} (h : Inv g n (s, c :: cs) chunks read queued)
    (hl : c.length ≤ 0x2000) :
    ∃ s' queued', s.recvData c = some s' ∧ Inv g n (s', cs) chunks (read ++ [c]) queued' ∧
      (queued' = read ++ [c] ↔ queued = read ∧ HasRoom ((s, c :: cs), .recv)) := by
  obtain ⟨ds, ms, ess, rfl, hq, hH, he⟩ := h.split
  have hchunks : chunks = read ++ [c] ++ cs := by rw [h.chunks, List.append_assoc, List.singleton_append]
  have hu := hq.used
  have hm := hq.maxStruSize
  have hroom : HasRoom ((s, c :: cs), .recv) ↔
      CircleList.slotsUsed (ms.map stored) + slotsFor c.length ≤ n := by
    change s.circleList.usingSize + slotsFor c.length ≤ s.circleList.maxStruSize ↔ _
    rw [show s.circleList.usingSize = _ from hu, show s.circleList.maxStruSize = _ from hm]
    omega
  by_cases hr : CircleList.slotsUsed (ms.map stored) + slotsFor c.length ≤ n
  · obtain ⟨list, e1, e2⟩ := recvData_room hq hl hr
    rw [← List.map_singleton, ← List.map_append] at e2
    refine ⟨_, ds ++ ms ++ [c], e1, ⟨hchunks, h.sublist.append (.refl _), ds, ms ++ [c], ess, List.append_assoc .., e2,
      hH, he⟩, ?_⟩
    rw [List.append_left_inj]
    exact ⟨fun h' => ⟨h', hroom.mpr hr⟩, And.left⟩
  · refine ⟨s, ds ++ ms, recvData_full hq hl (by omega), ⟨hchunks, h.sublist.trans (List.sublist_append_left _ _), ds,
      ms, ess, rfl, hq, hH, he⟩, ?_⟩
    refine ⟨fun h' => ?_, fun h' => (hr (hroom.mp h'.2)).elim⟩
    have hle := h.sublist.length_le
    rw [h', List.length_append, List.length_singleton] at hle
    omega

/-- A turn of the thread executes what there is to execute of the first chunk. -/
theorem Inv.deal (h : Inv g n t chunks read queued) {r : ServerProcessor × Bool}
    (hd : t.1.dealWithData g = some r) : Inv g n (r.1, t.2) chunks read queued := by
  obtain ⟨ds, _ | ⟨m, ms⟩, ess, rfl, hq, hH, he⟩ := h.split
  · rw [dealWithData_nil g hq] at hd
    cases hd
    exact h
  · by_cases hl : (stored m).length < 0x2000
    · obtain ⟨list, e1, e2⟩ := dealWithData_cons g hq hl
      obtain ⟨es, h1, h2⟩ := Option.map_eq_some_iff.mp (e2.symm.trans hd)
      cases h2
      refine ⟨h.chunks, h.sublist, ds ++ [m], ms, ess ++ [es], by simp, e1, ?_, ?_⟩
      · exact List.rel_append hH (.cons ⟨by rw [← length_stored]; exact hl, h1⟩ .nil)
      · rw [List.flatten_append, List.flatten_singleton, ← he]
    · rw [dealWithData_long g hq (by omega)] at hd
      cases hd
      exact h

/-- What a turn keeps. -/
theorem Inv.step (h : Inv g n t chunks read queued) (hc : ∀ c ∈ chunks, c.length ≤ 0x2000) {o : Turn}
    (hs : step g t o = some t') : ∃ read' queued', Inv g n t' chunks read' queued' ∧
      (queued' = read' ↔ queued = read ∧ HasRoom (t, o)) := by
  obtain ⟨s, cs⟩ := t
  cases o with
  | recv =>
    rcases cs with _ | ⟨c, cs⟩
    · cases hs
      exact ⟨read, queued, h, by simp [HasRoom]⟩
    · have hmem : c ∈ chunks := h.chunks ▸ by simp
      obtain ⟨s', queued', e1, e2, e3⟩ := h.recv (hc c hmem)
      simp only [ServerProcessor.step, e1, Option.map_some, Option.some.injEq] at hs
      exact ⟨_, queued', hs ▸ e2, e3⟩
  | deal =>
    obtain ⟨r, h1, h2⟩ := Option.map_eq_some_iff.mp hs
    cases h2
    exact ⟨read, queued, h.deal h1, by simp [HasRoom]⟩

/-- What a run keeps: what is queued is what is read exactly if every chunk found room. -/
theorem Inv.run (h : Inv g n t chunks read queued) (hc : ∀ c ∈ chunks, c.length ≤ 0x2000) {ts : List Turn}
    (hr : run g t ts = some t') : ∃ read' queued', Inv g n t' chunks read' queued' ∧
      (queued' = read' ↔ queued = read ∧ ∀ r ∈ turns g t ts, HasRoom r) := by
  induction ts generalizing t read queued with
  | nil =>
    cases hr
    exact ⟨read, queued, h, by simp [turns, runTurns]⟩
  | cons o ts ih =>
    rw [ServerProcessor.run, List.foldlM_cons] at hr
    obtain ⟨t₁, h1, h2⟩ := Option.bind_eq_some_iff.mp hr
    obtain ⟨read₁, queued₁, hI, e1⟩ := h.step hc h1
    obtain ⟨read', queued', hI', e2⟩ := ih hI h2
    refine ⟨read', queued', hI', ?_⟩
    rw [e2, e1, turns, runTurns, h1, and_assoc]
    simp only [List.singleton_append, List.forall_mem_cons]

/-- Where what is stored of every chunk can be read, no turn leaves its memory. -/
theorem Inv.step_isSome (h : Inv g n t chunks read queued) (hc : ∀ c ∈ chunks, c.length ≤ 0x2000)
    (hH : ∀ c ∈ chunks, (handled g (stored c)).isSome) (o : Turn) : ∃ t', ServerProcessor.step g t o = some t' := by
  obtain ⟨s, cs⟩ := t
  cases o with
  | recv =>
    rcases cs with _ | ⟨c, cs⟩
    · exact ⟨_, rfl⟩
    · have hmem : c ∈ chunks := h.chunks ▸ by simp
      obtain ⟨s', -, e1, -⟩ := h.recv (hc c hmem)
      exact ⟨_, congrArg (Option.map _) e1⟩
  | deal =>
    obtain ⟨ds, _ | ⟨m, ms⟩, ess, rfl, hq, -⟩ := h.split
    · exact ⟨_, congrArg (Option.map _) (dealWithData_nil g hq)⟩
    · by_cases hl : (stored m).length < 0x2000
      · have hmem : m ∈ chunks := h.chunks ▸ List.mem_append_left _ (h.sublist.subset (by simp))
        obtain ⟨list, -, e2⟩ := dealWithData_cons g hq hl
        obtain ⟨es, he⟩ := Option.isSome_iff_exists.mp (hH m hmem)
        rw [he] at e2
        exact ⟨_, congrArg (Option.map _) e2⟩
      · exact ⟨_, congrArg (Option.map _) (dealWithData_long g hq (by omega))⟩

theorem Inv.run_isSome (h : Inv g n t chunks read queued) (hc : ∀ c ∈ chunks, c.length ≤ 0x2000)
    (hH : ∀ c ∈ chunks, (handled g (stored c)).isSome) (ts : List Turn) : ∃ t', ServerProcessor.run g t ts = some t' := by
  have hstep : ∀ t o, (∃ read queued, Inv g n t chunks read queued) → True →
      ∃ t', ServerProcessor.step g t o = some t' ∧ ∃ read queued, Inv g n t' chunks read queued := by
    intro t o ⟨read, queued, hI⟩ _
    obtain ⟨t', e⟩ := hI.step_isSome hc hH o
    obtain ⟨read', queued', hI', -⟩ := hI.step hc e
    exact ⟨t', e, read', queued', hI'⟩
  have hts : ∀ o ∈ ts, True := fun _ _ => trivial
  obtain ⟨t', h1, -⟩ := run_inv hstep hts ⟨read, queued, h⟩
  exact ⟨t', h1⟩

theorem init_inv (g : CInt → Bool) (hn : 0 < n) (chunks : List (List Byte)) : Inv g n (init n, chunks) chunks [] [] :=
  ⟨rfl, .slnil, [], [], [], rfl, CircleList.initBuffer_holds (CircleList.new 0) hn, .nil, rfl⟩

/-- Where the thread gets nothing, a message that is left has 0x2000 bytes. -/
theorem Inv.ended (h : Inv g n t chunks read queued) (he : Ended g t) (hs : ∀ c ∈ chunks, c.length < 0x2000) :
    t.2 = [] ∧ read = chunks ∧ ∃ ess, Handled g queued ess ∧ t.1.executed = ess.flatten := by
  obtain ⟨h0, h1⟩ := he
  have hread : read = chunks := by rw [h.chunks, h0, List.append_nil]
  obtain ⟨ds, _ | ⟨m, ms⟩, ess, rfl, hq, hH, hlog⟩ := h.split
  · exact ⟨h0, hread, ess, by rwa [List.append_nil], hlog⟩
  · have hmem : m ∈ chunks := hread ▸ h.sublist.subset (by simp)
    obtain ⟨list, -, e2⟩ := dealWithData_cons g hq (by rw [length_stored]; exact hs m hmem)
    obtain ⟨es, -, h2⟩ := Option.map_eq_some_iff.mp (e2.symm.trans h1)
    exact absurd (Prod.mk.inj h2).2 (by decide)

/-- The frames of a stream, each with a command for its type. -/
def Frames (g : CInt → Bool) (frames : List StruCytPacket) : Prop := ∀ p ∈ frames, p.WellFormed ∧ g p.msgType

/-- The commands are executed for the frames, in order. -/
def ExecutesAll (frames : List StruCytPacket) (t : Option State) : Prop :=
  ∃ t', t = some t' ∧ t'.1.executed = frames.map executedOf

/-- What is executed of the frames, each in one chunk. -/
theorem handledEach_iff (hf : Frames g frames) :
    HandledEach g (frames.map StruCytPacket.wire) frames ↔
      ∀ p ∈ frames, p.wire.length < 0x2000 ∧ KeepsData p := by
  induction frames with
  | nil => exact ⟨fun _ => nofun, fun _ => .nil⟩
  | cons p ps ih =>
    obtain ⟨h1, h2⟩ := hf p List.mem_cons_self
    have ih := ih fun q hq => hf q (List.mem_cons_of_mem _ hq)
    rw [List.map_cons, HandledEach, List.forall₂_cons, List.forall_mem_cons, ← HandledEach, ih]
    refine and_congr ⟨fun h => ⟨h.2.1, (handled_stored_iff h1 h2 h.2.1).mp h.2.2⟩, fun h =>
      ⟨rfl, h.1, (handled_stored_iff h1 h2 h.1).mpr h.2⟩⟩ Iff.rfl

/-- Chunks that are the frames execute the frames. -/
theorem HandledEach.flatten_eq (h : HandledEach g ds frames) (hH : Handled g ds ess) :
    ess.flatten = frames.map executedOf := by
  induction h generalizing ess with
  | nil =>
    cases hH
    rfl
  | cons hd _ ih =>
    cases hH with
    | cons h1 h2 =>
      obtain rfl := Option.some.inj (hd.2.2.symm.trans h1.2)
      rw [List.flatten_cons, ih h2]
      rfl

/-- However the chunks and the turns of the two threads come, once the run has ended. -/
theorem executesAll_iff (g : CInt → Bool) {n : Nat} (hn : 0 < n) {frames : List StruCytPacket} (hf : Frames g frames)
    {chunks : List (List Byte)} (hc : ∀ c ∈ chunks, 1 ≤ c.length ∧ c.length ≤ 0x2000)
    (hcut : chunks.flatten = (frames.map StruCytPacket.wire).flatten) {ts : List Turn}
    (hend : ∀ t, run g (init n, chunks) ts = some t → Ended g t) :
    ExecutesAll frames (run g (init n, chunks) ts) ↔
      chunks = frames.map StruCytPacket.wire ∧ (∀ p ∈ frames, p.wire.length < 0x2000 ∧ KeepsData p) ∧
        ∀ r ∈ turns g (init n, chunks) ts, HasRoom r := by
  have hpos : ∀ c ∈ chunks, 1 ≤ c.length := fun c h => (hc c h).1
  have hshort : ∀ c ∈ chunks, c.length ≤ 0x2000 := fun c h => (hc c h).2
  have hinit := init_inv g hn chunks
  constructor
  · rintro ⟨t, ht, hlog⟩
    obtain ⟨read, queued, hI, hroom⟩ := hinit.run hshort ht
    have hread : read = chunks := by rw [hI.chunks, (hend t ht).1, List.append_nil]
    subst hread
    obtain ⟨ds, ms, ess, rfl, -, hH, he⟩ := hI.split
    have hsub : ds.Sublist read := (List.sublist_append_left ds ms).trans hI.sublist
    obtain ⟨c1, c2⟩ := hH.count (fun p hp => (hf p hp).1) (fun d hd => hpos d (hsub.subset hd)) (he.symm.trans hlog)
    obtain ⟨d1, d2⟩ := sublist_count hsub hpos
    rw [← hcut] at c1 c2
    have hds : ds = read := d2 c1
    have hall : ds ++ ms = read := (sublist_count hI.sublist hpos).2 (by
      rw [List.flatten_append, List.length_append]
      omega)
    have heach : HandledEach g read frames := hds ▸ c2 d1
    have hwires := heach.eq_wires hcut
    exact ⟨hwires, (handledEach_iff hf).mp (hwires ▸ heach), (hroom.mp hall).2⟩
  · rintro ⟨hwires, hframes, hroom⟩
    have heach : HandledEach g chunks frames := hwires ▸ (handledEach_iff hf).mpr hframes
    have hlen : ∀ c ∈ chunks, c.length < 0x2000 := by
      rw [hwires, List.forall_mem_map]
      exact fun p hp => (hframes p hp).1
    have hsome : ∀ c ∈ chunks, (handled g (stored c)).isSome := by
      rw [hwires, List.forall_mem_map]
      exact fun p hp => handled_stored_isSome (hf p hp).1 (hf p hp).2 (hframes p hp).1
    obtain ⟨t, ht⟩ := hinit.run_isSome hshort hsome ts
    obtain ⟨read, queued, hI, hiff⟩ := hinit.run hshort ht
    obtain ⟨-, rfl, ess, hH, he⟩ := hI.ended (hend t ht) hlen
    obtain rfl := hiff.mpr ⟨rfl, hroom⟩
    exact ⟨t, ht, he.trans (heach.flatten_eq hH)⟩

/-- A reply of the type `msgType` with a payload of one byte. -/
def reply (msgType : CInt) : StruCytPacket := { blank 1 with msgType := msgType }

theorem reply_ok (msgType : CInt) : (reply msgType).WellFormed ∧ (reply msgType).wire.length = 19 := by
  obtain ⟨h1, -⟩ := blank_ok (k := 1) (by decide)
  have hw : (reply msgType).WellFormed := ⟨h1.head, h1.tail, h1.len⟩
  exact ⟨hw, StruCytPacket.length_wire hw⟩

/-- A chunk that is queued, and the turn that gets it. -/
theorem run_one (g : CInt → Bool) (hn : 0 < n) (hl : c.length ≤ maxSizePerBuff) :
    HasRoom ((init n, [c]), .recv) ∧
    ∃ list : CircleList, run g (init n, [c]) [.recv, .deal] = (handled g c).map (fun es => (⟨list, es⟩, [])) ∧
      ∀ es, Ended g (⟨list, es⟩, []) := by
  have hM : maxSizePerBuff = 0x1000 := rfl
  have hq : (init n).circleList.Holds n [] := CircleList.initBuffer_holds (CircleList.new 0) hn
  have hslots := slotsFor_of_le hl
  have hroom : CircleList.slotsUsed [] + slotsFor c.length ≤ n := by
    rw [hslots, CircleList.slotsUsed_eq_zero.mpr rfl]
    omega
  obtain ⟨list, e1, e2⟩ := recvData_room (s := init n) hq (by omega) hroom
  rw [stored_of_length_le hl] at e2
  obtain ⟨list', d1, d2⟩ := dealWithData_cons (s := ⟨list, []⟩) g e2 (by omega)
  refine ⟨?_, list', ?_, fun es => ⟨rfl, dealWithData_nil g d1⟩⟩
  · have hu := hq.used
    have hm := hq.maxStruSize
    rw [CircleList.slotsUsed_eq_zero.mpr rfl] at hu
    simp only [HasRoom, hslots, hu, hm]
    omega
  · have hrecv : step g (init n, [c]) .recv = some (⟨list, []⟩, []) := congrArg (Option.map _) e1
    have hdeal : step g (⟨list, []⟩, []) .deal = (handled g c).map fun es => (⟨list', es⟩, []) := by
      rw [step, d2, Option.map_map]
      rfl
    rw [run, List.foldlM_cons, hrecv, Option.bind_eq_bind, Option.bind_some, List.foldlM_cons, hdeal]
    cases handled g c <;> rfl

/-- Short chunks for which there is room are queued one after the other. -/
theorem run_recv (g : CInt → Bool) {cs : List (List Byte)} (hl : ∀ c ∈ cs, c.length ≤ maxSizePerBuff)
    (hq : s.circleList.Holds n ms) (hn : CircleList.slotsUsed ms + cs.length ≤ n) :
    ∃ list, run g (s, cs) (List.replicate cs.length .recv) = some (⟨list, s.executed⟩, []) ∧ list.Holds n (ms ++ cs) := by
  have hM : maxSizePerBuff = 0x1000 := rfl
  induction cs generalizing s ms with
  | nil => exact ⟨s.circleList, rfl, by rwa [List.append_nil]⟩
  | cons c cs ih =>
    rw [List.forall_mem_cons] at hl
    rw [List.length_cons] at hn
    have hslots := slotsFor_of_le hl.1
    obtain ⟨list, e1, e2⟩ := recvData_room hq (by omega) (show CircleList.slotsUsed ms + slotsFor c.length ≤ n by omega)
    rw [stored_of_length_le hl.1] at e2
    have hused : CircleList.slotsUsed (ms ++ [c]) = CircleList.slotsUsed ms + 1 := by
      simp [CircleList.slotsUsed, hslots]
    obtain ⟨list', h1, h2⟩ := ih (s := ⟨list, s.executed⟩) hl.2 e2 (by omega)
    refine ⟨list', ?_, by rwa [List.append_assoc] at h2⟩
    have hstep : step g (s, c :: cs) .recv = some (⟨list, s.executed⟩, cs) :=
      congrArg (Option.map fun s => (s, cs)) e1
    rw [List.length_cons, List.replicate_succ, run, List.foldlM_cons, hstep]
    exact h1

/-- As many turns as there are chunks in the list leave it empty. -/
theorem run_deal {g : CInt → Bool} (hl : ∀ m ∈ ms, m.length < 0x2000) (hq : s.circleList.Holds n ms) {t : State}
    (h : run g (s, []) (List.replicate ms.length .deal) = some t) : Ended g t := by
  induction ms generalizing s with
  | nil =>
    cases h
    exact ⟨rfl, dealWithData_nil g hq⟩
  | cons m ms ih =>
    rw [List.forall_mem_cons] at hl
    obtain ⟨list, d1, d2⟩ := dealWithData_cons g hq hl.1
    rw [List.length_cons, List.replicate_succ, run, List.foldlM_cons, step, d2] at h
    rcases hh : handled g m with _ | es <;> rw [hh] at h
    · cases h
    · exact ih (s := ⟨list, s.executed ++ es⟩) hl.2 d1 h

/-- Two replies, cut in the second. -/
def cutReplies : List (List Byte) := [(reply 6002).wire, (reply 6013).wire.take 9, (reply 6013).wire.drop 9]

theorem executesAll_iff_cut :
    ExecutesAll [reply 6002, reply 6013]
        (run CenterServerProcessor.getCommand (init 3, cutReplies) (.replicate 3 .recv ++ .replicate 3 .deal)) ↔
      cutReplies = [reply 6002, reply 6013].map StruCytPacket.wire ∧
        (∀ p ∈ [reply 6002, reply 6013], p.wire.length < 0x2000 ∧ KeepsData p) ∧
        ∀ r ∈ turns CenterServerProcessor.getCommand (init 3, cutReplies) (.replicate 3 .recv ++ .replicate 3 .deal),
          HasRoom r := by
  have hf : Frames CenterServerProcessor.getCommand [reply 6002, reply 6013] := by
    unfold Frames
    rw [List.forall_mem_cons, List.forall_mem_singleton]
    exact ⟨⟨(reply_ok 6002).1, rfl⟩, (reply_ok 6013).1, rfl⟩
  have hsize : ∀ c ∈ cutReplies, 1 ≤ c.length ∧ c.length ≤ maxSizePerBuff := by decide
  obtain ⟨list, h1, h2⟩ := run_recv CenterServerProcessor.getCommand (s := init 3) (fun c hc => (hsize c hc).2)
    (CircleList.initBuffer_holds (CircleList.new 0) (by decide)) (by decide)
  refine executesAll_iff CenterServerProcessor.getCommand (by decide) hf
    (fun c hc => ⟨(hsize c hc).1, Nat.le_trans (hsize c hc).2 (by decide)⟩) (by decide) fun t ht => ?_
  rw [run, List.foldlM_append] at ht
  obtain ⟨t', h3, h4⟩ := Option.bind_eq_some_iff.mp ht
  cases h1.symm.trans h3
  exact run_deal (s := ⟨list, []⟩) (fun c hc => Nat.lt_of_le_of_lt (hsize c hc).2 (by decide)) h2 h4

/-- A frame at the start of a chunk is all that is executed of it. -/
theorem handled_front {p : StruCytPacket} (hp : p.WellFormed) (hg : g p.msgType) (x : List Byte)
    (hl : (p.wire ++ x).length < 0x2000) : handled g (p.wire ++ x) = some [executedOf p] := by
  have hlen := length_padded hl
  have hn : (cint (p.wire ++ x).length).toInt = (p.wire ++ x).length := toInt_cint (by omega) (by omega)
  rw [List.append_assoc] at hlen
  have e := StruCytPacket.within_wire .fresh hp (x ++ List.replicate (0x2000 - (p.wire ++ x).length) 0)
    (n := cint (p.wire ++ x).length) (by rw [hn, List.length_append]; omega)
  rw [hlen] at e
  rw [handled, List.append_assoc, e, Option.map_some]
  simp only [hg, and_self, if_true]

/-- Of two replies in one chunk the second is not executed. -/
theorem not_executesAll {g : CInt → Bool} {msgType : CInt} (hg : g msgType) :
    Frames g [reply msgType, reply msgType] ∧ ∃ t,
      run g (init 100, [(reply msgType).wire ++ (reply msgType).wire]) [.recv, .deal] = some t ∧ Ended g t ∧
      ¬ ExecutesAll [reply msgType, reply msgType] (some t) := by
  obtain ⟨hp, hlen⟩ := reply_ok msgType
  have hf : Frames g [reply msgType, reply msgType] := by
    intro p hm
    simp only [List.mem_cons, List.not_mem_nil, or_false, or_self] at hm
    subst hm
    exact ⟨hp, hg⟩
  have hl : ((reply msgType).wire ++ (reply msgType).wire).length = 38 := by rw [List.length_append, hlen]
  obtain ⟨-, list, h1, h2⟩ := run_one (n := 100) g (by decide) (show _ ≤ maxSizePerBuff by rw [hl]; decide)
  rw [handled_front hp hg _ (by omega)] at h1
  refine ⟨hf, _, h1, h2 _, fun ⟨t, h3, h4⟩ => ?_⟩
  cases h3
  cases h4

/-- Two login replies from the center, and two connect replies from the director. -/
theorem not_executesAll_two :
    (Frames CenterServerProcessor.getCommand [reply 6002, reply 6002] ∧ ∃ t,
      run CenterServerProcessor.getCommand (init 100, [(reply 6002).wire ++ (reply 6002).wire]) [.recv, .deal] = some t ∧
      Ended CenterServerProcessor.getCommand t ∧ ¬ ExecutesAll [reply 6002, reply 6002] (some t)) ∧
    Frames DirectorServerProcessor.getCommand [reply 1002, reply 1002] ∧ ∃ t,
      run DirectorServerProcessor.getCommand (init 100, [(reply 1002).wire ++ (reply 1002).wire]) [.recv, .deal] = some t ∧
      Ended DirectorServerProcessor.getCommand t ∧ ¬ ExecutesAll [reply 1002, reply 1002] (some t) :=
  ⟨not_executesAll rfl, not_executesAll rfl⟩

end RoomServer.ServerProcessor

end Miku
