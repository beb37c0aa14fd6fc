import MikuServer.Impl.RoomServerProcessor
import MikuServer.Proof.CircleList
import MikuServer.Proof.Frames

/-!
# The gate's way back

`Step` is a chunk queued, with room for it, or a turn of `DealWithDataThread`,
in any order. Where the chunks are stored as they are, `Inv` holds in every
state that is reached (`step_keep`): what is delivered is the first packets, and
`deal_buff_`, the list and the chunks to come have the bytes of the others.
-/

namespace Miku.GateServer.RoomServerProcessor

open Fields

/-- What is delivered of a packet, with the users that `reg` has. -/
def delivery (reg : CInt → Option Int) (p : GateRoomServerPack) : Delivery :=
  match reg p.userHashkey with
  | some sock => .write sock p.dataMsg
  | none => .notFound p.userHashkey

/-- What is delivered of a packet on the wire. -/
def deliveryOf (reg : CInt → Option Int) (f : List Byte) : Delivery :=
  delivery reg (.ofFields (ofWire .third f))

/-- The frames `fs` are for users that `users` knows as `reg` does. -/
def Agrees (reg : CInt → Option Int) (fs : List (List Byte)) (users : CInt → Option Int) : Prop :=
  ∀ f ∈ fs, users (intAt f 3) = reg (intAt f 3)

variable {reg users : CInt → Option Int} {fs : List (List Byte)} {n : Nat}

theorem deliveryOf_wire {p : GateRoomServerPack} (hp : p.WellFormed) (reg : CInt → Option Int) :
    deliveryOf reg p.wire = delivery reg p := by
  have e := ofWire_wire hp []
  rw [List.append_nil] at e
  unfold deliveryOf
  rw [show ofWire .third p.wire = p.fields from e]
  rfl

theorem delivery_congr {p : GateRoomServerPack} (hp : p.WellFormed) (ha : Agrees reg fs users)
    (hf : p.wire ∈ fs) : delivery users p = delivery reg p := by
  obtain ⟨h, -⟩ := intAt_wire hp.head []
  rw [List.append_nil] at h
  have h : intAt p.wire 3 = p.userHashkey := h
  have e := ha _ hf
  rw [h] at e
  rw [delivery, delivery, e]

/-! ## Turns of the inner loop -/

variable {v : RoomServerProcessor × GateRoomServerPack} {w x : List Byte}

theorem turn_stop (users : CInt → Option Int) (hw : Window v.1.dealBuff v.1.validBuffLen w)
    (hs : Stops .third ⟨v.1.dealBuff, v.1.validBuffLen⟩) : ∃ q, turn users v = some ((v.1, q), false) := by
  obtain ⟨self, pack⟩ := v
  by_cases h : self.validBuffLen ≤ 18
  · exact ⟨pack, by simp only [turn, if_pos h]⟩
  · obtain ⟨q, hq⟩ := pack.within_stop (b := ⟨self.dealBuff, self.validBuffLen⟩) hw hs h
    refine ⟨q, ?_⟩
    simp only at hq
    simp only [turn, if_neg h, hq, Option.bind_eq_bind, Option.bind_some]
    rfl

theorem turn_next (users : CInt → Option Int) {p : GateRoomServerPack} (hp : p.WellFormed)
    (hw : Window v.1.dealBuff v.1.validBuffLen (p.wire ++ x)) (h18 : ¬ v.1.validBuffLen ≤ 18) :
    ∃ buff, turn users v = some ((⟨v.1.circleList, buff, v.1.validBuffLen - p.wire.length,
        v.1.delivered ++ [delivery users p]⟩, p), true) ∧
      Window buff (v.1.validBuffLen - p.wire.length) x := by
  obtain ⟨self, pack⟩ := v
  have hlen : p.byteSize.toInt = p.wire.length := byteSize_front hp hw
  obtain ⟨buff, e1, e2⟩ := moveDown_ok hw rfl
  have hdata : (cStr p.dataMsg).take p.dataLen.toInt.toNat = p.dataMsg := by
    rw [show p.dataLen.toInt = p.dataMsg.length from hp.len, Int.toNat_natCast, cStr, List.take_left]
  refine ⟨buff, ?_, e2⟩
  simp only at e1 h18 hw
  simp only [turn, if_neg h18, pack.within_front hp hw, Option.bind_eq_bind, Option.bind_some, if_true, hlen, e1,
    hdata]
  rfl

/-- The loop's variables have the bytes `w` to use, the list `list`, and delivered `log`. -/
structure VarsView (list : CircleList) (v : RoomServerProcessor × GateRoomServerPack) (w : List Byte)
    (log : List Delivery) : Prop where
  window : Window v.1.dealBuff v.1.validBuffLen w
  list : v.1.circleList = list
  log : v.1.delivered = log

theorem turn_takes (ha : Agrees reg fs users) (list : CircleList) :
    Takes (frameSize .third) (Listed .third 0x2000 fs) (turn users) (VarsView list) (fun _ => True)
      (fun log f => some (log ++ [deliveryOf reg f])) where
  stop v w log hV hs _ h := by
    obtain ⟨q, hq⟩ := turn_stop users hV.window
      (stops_of_streams (b := ⟨v.1.dealBuff, v.1.validBuffLen⟩) (by decide) hV.window (streams_of_listed hs) h)
    exact ⟨_, hq, hV.window, hV.list, hV.log⟩
  next v f x log hV hf _ h := by
    obtain ⟨p, hp, rfl, -⟩ := GateRoomServerPack.isFrame_iff.mp hf.1
    have hw := length_of_frameSize h
    have hv := hV.window.valid
    obtain ⟨buff, e1, e2⟩ := turn_next users hp hV.window (by omega)
    rw [e1]
    refine ⟨rfl, e2, hV.list, ?_⟩
    rw [deliveryOf_wire hp, ← delivery_congr hp ha hf.2, ← hV.log]

/-! ## Steps -/

variable {s : RoomServerProcessor} {r m c : List Byte} {ms : List (List Byte)}

/-- A chunk is queued, as `AddBuffer` stores it. -/
theorem recvData_ok (hq : s.circleList.Holds n ms) (hl : c.length ≤ 0x2000)
    (hr : CircleList.slotsUsed ms + slotsFor c.length ≤ n) :
    ∃ list, s.recvData c = some { s with circleList := list } ∧ list.Holds n (ms ++ [stored c]) := by
  have hcopy : memcpy (List.replicate 0x2000 0) 0 c c.length = some (c ++ List.replicate (0x2000 - c.length) 0) := by
    rw [memcpy_front rfl (by rw [List.length_replicate]; exact hl) le_rfl, List.take_length, List.drop_replicate]
  obtain ⟨list, e1, e2⟩ := CircleList.addBuffer_ok hq
    (show c.length ≤ (c ++ List.replicate (0x2000 - c.length) 0).length by rw [List.length_append]; omega) hr
  rw [List.take_left] at e2
  refine ⟨list, ?_, e2⟩
  simp only [recvData, hcopy, e1, Option.bind_eq_bind, Option.bind_some]

/-- With an empty list, a turn of the thread changes nothing. -/
theorem dealWithData_nil (users : CInt → Option Int) (hw : Window s.dealBuff s.validBuffLen r)
    (hq : s.circleList.Holds n []) : s.dealWithData users = some (s, false) := by
  obtain ⟨list, buff, valid, log⟩ := s
  have hv : valid = r.length := hw.valid
  simp only [dealWithData, if_pos (show 0 ≤ valid by omega), CircleList.getBuffer_nil hq, Option.bind_eq_bind,
    Option.bind_some, List.take_append_drop]
  rfl

/-- With room for the first message in `deal_buff_`, `GetBuffer` puts it after the bytes there. -/
theorem dealWithData_cons (users : CInt → Option Int) (hw : Window s.dealBuff s.validBuffLen r)
    (hq : s.circleList.Holds n (m :: ms)) (hfit : r.length + m.length < maxDealBuffLen) :
    (∃ g, s.circleList.getBuffer (s.dealBuff.drop s.validBuffLen.toNat) (maxDealBuffLen - s.validBuffLen) 0 =
      some g ∧ g.ret = true) ∧
    ∃ list buff, list.Holds n ms ∧ Window buff (r ++ m).length (r ++ m) ∧
      s.dealWithData users = (doWhile (turn users) ((r ++ m).length + 1)
        (⟨list, buff, (r ++ m).length, s.delivered⟩, .fresh)).bind fun v => some (v.1, true) := by
  have hM : maxDealBuffLen = 0x4000 := rfl
  have hB : maxRecvBuffLen = 0x4000 := rfl
  obtain ⟨list, buff, valid, log⟩ := s
  have hv : valid = r.length := hw.valid
  subst hv
  have hsize : buff.length = maxRecvBuffLen := hw.size
  obtain ⟨y, hy⟩ := hw.front
  simp only at hy hq
  have hdrop : buff.drop r.length = y := by rw [← hy, List.drop_left]
  have hlen : y.length = 0x4000 - r.length := by rw [← hdrop, List.length_drop]; omega
  obtain ⟨list', e1, e2⟩ := CircleList.getBuffer_ok hq 0 (show (m.length : Int) < maxDealBuffLen - r.length by omega)
    (show (maxDealBuffLen - r.length : Int) ≤ y.length by omega)
  rw [splice_zero] at e1
  simp only [Int.toNat_natCast, hdrop]
  refine ⟨⟨_, e1, rfl⟩, list', r ++ m ++ y.drop m.length, e2, ⟨?_, rfl, List.prefix_append _ _⟩, ?_⟩
  · simp only [List.length_append, List.length_drop]
    omega
  · have htake : buff.take r.length = r := by rw [← hy, List.take_left]
    have hcast : (r.length : Int) + m.length = (r ++ m).length := by rw [List.length_append]; rfl
    simp only [dealWithData, Int.toNat_natCast, hdrop, htake, if_pos (Int.natCast_nonneg r.length), e1, hcast,
      Option.bind_eq_bind, Option.bind_some, if_true, List.append_assoc]

/-! ## Runs -/

/-- The processor, and the chunks that are still to be read. -/
abbrev State := RoomServerProcessor × List (List Byte)

/-- The list has room for a chunk. -/
def HasRoom (s : RoomServerProcessor) (c : List Byte) : Prop :=
  s.circleList.usingSize + slotsFor c.length ≤ s.circleList.maxStruSize

/-- The users that a packet may be for are those of `reg`. -/
def Registered (reg : CInt → Option Int) (frames : List GateRoomServerPack) (users : CInt → Option Int) : Prop :=
  ∀ p ∈ frames, users p.userHashkey = reg p.userHashkey

/-- A step: the next chunk is queued, the list having room for it, or the thread takes a turn. -/
inductive Step (reg : CInt → Option Int) (frames : List GateRoomServerPack) : State → State → Prop
  | recv {s s' : RoomServerProcessor} {c : List Byte} {cs : List (List Byte)}
      (room : s.HasRoom c) (h : s.recvData c = some s') : Step reg frames (s, c :: cs) (s', cs)
  | deal {s s' : RoomServerProcessor} {cs : List (List Byte)} {users : CInt → Option Int} {got : Bool}
      (registered : Registered reg frames users) (h : s.dealWithData users = some (s', got)) :
      Step reg frames (s, cs) (s', cs)

/-- What is delivered is the frames `done`, and the bytes of the others, `todo`, are in
`deal_buff_`, in the list and to come. -/
structure Inv (reg : CInt → Option Int) (fs : List (List Byte)) (n : Nat) (s : State) (done todo : List (List Byte))
    (r : List Byte) (ms : List (List Byte)) : Prop where
  frames : fs = done ++ todo
  delivered : s.1.delivered = done.map (deliveryOf reg)
  window : Window s.1.dealBuff s.1.validBuffLen r
  holds : s.1.circleList.Holds n ms
  pending : Pending (frameSize .third) todo r
  bytes : r ++ (ms ++ s.2).flatten = todo.flatten
  short : ∀ c ∈ ms ++ s.2, c.length ≤ 0x2000

variable {t t' : State} {done todo : List (List Byte)}

theorem Inv.listed (h : Inv reg fs n t done todo r ms) (hf : ∀ f ∈ fs, IsFrame .third 0x2000 f) :
    ∀ f ∈ todo, Listed .third 0x2000 fs f := by
  intro f hm
  have hmem : f ∈ fs := h.frames ▸ List.mem_append_right _ hm
  exact ⟨hf f hmem, hmem⟩

/-- There is always room in `deal_buff_` for the next message. -/
theorem Inv.fits (h : Inv reg fs n t done todo r (m :: ms)) (hf : ∀ f ∈ fs, IsFrame .third 0x2000 f) :
    r.length + m.length < maxDealBuffLen := by
  have hM : maxDealBuffLen = 0x4000 := rfl
  have hr := residue_lt (by decide) h.pending fun f hm => (h.listed hf f hm).1
  have hm := h.short m (by simp)
  omega

/-- A turn of the thread that gets a message. -/
theorem Inv.deal (h : Inv reg fs n t done todo r (m :: ms)) (hf : ∀ f ∈ fs, IsFrame .third 0x2000 f)
    (ha : Agrees reg fs users) :
    ∃ s' done' todo' r', t.1.dealWithData users = some (s', true) ∧ Inv reg fs n (s', t.2) done' todo' r' ms := by
  obtain ⟨-, list, buff, h1, h2, h3⟩ := dealWithData_cons users h.window h.holds (h.fits hf)
  have hbytes := h.bytes
  rw [List.cons_append, List.flatten_cons, ← List.append_assoc] at hbytes
  have hpre : r ++ m <+: todo.flatten := hbytes ▸ List.prefix_append _ _
  have F := listed_framing .third 0x2000 fs
  have hloop := doWhile_drain F (turn_takes ha list) (h.listed hf) hpre (Nat.lt_succ_self _)
    (s := (⟨list, buff, (r ++ m).length, t.1.delivered⟩, .fresh)) ⟨h2, rfl, h.delivered⟩ fun _ _ => trivial
  obtain ⟨todo', d1, d2, d3, -⟩ := drain_ok F (h.listed hf) hpre (Nat.lt_succ_self (r ++ m).length)
  obtain ⟨d, hd⟩ : ∃ d, drain (frameSize .third) ((r ++ m).length + 1) (r ++ m) = d := ⟨_, rfl⟩
  rw [hd] at hloop d1 d2 d3
  rw [foldlM_log, ← List.map_append] at hloop
  obtain ⟨v, e1, e2, e3, e4⟩ := hloop.of_some
  subst d1
  refine ⟨v.1, done ++ d.1, todo', d.2, by rw [h3, e1]; rfl, ?_, e4, e2, e3 ▸ h1, d3, rest_eq d2 hbytes, ?_⟩
  · rw [h.frames, List.append_assoc]
  · exact fun c hc => h.short c (List.mem_cons_of_mem _ hc)

/-- A chunk queued. -/
theorem Inv.recv {cs : List (List Byte)} (h : Inv reg fs n (s, c :: cs) done todo r ms) (hc : Repeats c)
    (room : s.HasRoom c) : ∃ s', s.recvData c = some s' ∧ Inv reg fs n (s', cs) done todo r (ms ++ [c]) := by
  have hq : s.circleList.Holds n ms := h.holds
  have hroom : CircleList.slotsUsed ms + slotsFor c.length ≤ n := by
    have hu := hq.used
    have hm := hq.maxStruSize
    unfold HasRoom at room
    omega
  obtain ⟨list, e1, e2⟩ := recvData_ok hq (h.short c (by simp)) hroom
  rw [stored_eq_iff.mpr hc] at e2
  have happend : ms ++ [c] ++ cs = ms ++ c :: cs := by rw [List.append_assoc, List.singleton_append]
  exact ⟨_, e1, h.frames, h.delivered, h.window, e2, h.pending, happend ▸ h.bytes, happend ▸ h.short⟩

/-- What holds of a state that is reached. -/
def Reached (reg : CInt → Option Int) (fs : List (List Byte)) (n : Nat) (t : State) : Prop :=
  (∀ c ∈ t.2, Repeats c) ∧ ∃ done todo r ms, Inv reg fs n t done todo r ms

variable {frames : List GateRoomServerPack}

/-- The frames of a stream: larger than a packet without data, and of at most 0x2000 bytes. -/
def Frames (frames : List GateRoomServerPack) : Prop :=
  ∀ p ∈ frames, p.WellFormed ∧ 36 ≤ p.wire.length ∧ p.wire.length ≤ 0x2000

theorem Frames.isFrame (hf : Frames frames) :
    ∀ f ∈ frames.map GateRoomServerPack.wire, IsFrame .third 0x2000 f := by
  rw [List.forall_mem_map]
  intro p hp
  exact GateRoomServerPack.isFrame_iff.mpr ⟨p, (hf p hp).1, rfl, (hf p hp).2.2⟩

theorem Frames.agrees (hf : Frames frames) (hu : Registered reg frames users) :
    Agrees reg (frames.map GateRoomServerPack.wire) users := by
  unfold Agrees
  rw [List.forall_mem_map]
  intro p hp
  obtain ⟨h, -⟩ := intAt_wire (hf p hp).1.head []
  rw [List.append_nil] at h
  have h : intAt p.wire 3 = p.userHashkey := h
  rw [h]
  exact hu p hp

theorem Frames.delivery (hf : Frames frames) (reg : CInt → Option Int) :
    (frames.map GateRoomServerPack.wire).map (deliveryOf reg) = frames.map (delivery reg) := by
  rw [List.map_map]
  exact List.map_congr_left fun p hp => deliveryOf_wire (hf p hp).1 reg

/-- What one step keeps. -/
theorem step_keep (hf : Frames frames) (h : Reached reg (frames.map GateRoomServerPack.wire) n t)
    (hs : Step reg frames t t') : Reached reg (frames.map GateRoomServerPack.wire) n t' := by
  obtain ⟨hR, done, todo, r, ms, hI⟩ := h
  cases hs with
  | recv room h =>
    obtain ⟨s₁, e1, e2⟩ := hI.recv (hR _ List.mem_cons_self) room
    rw [h] at e1
    cases e1
    exact ⟨fun c hc => hR c (List.mem_cons_of_mem _ hc), _, _, _, _, e2⟩
  | deal registered h =>
    rcases ms with _ | ⟨m, ms⟩
    · rw [dealWithData_nil _ hI.window hI.holds] at h
      cases h
      exact ⟨hR, _, _, _, _, hI⟩
    · obtain ⟨s₁, done', todo', r', e1, e2⟩ := hI.deal hf.isFrame (hf.agrees registered)
      rw [h] at e1
      cases e1
      exact ⟨hR, _, _, _, _, e2⟩

/-- With nothing to come and nothing in the list, every frame was delivered. -/
theorem Inv.all_delivered (h : Inv reg fs n (s, []) done todo r []) (hf : ∀ f ∈ fs, IsFrame .third 0x2000 f)
    (h18 : ∀ f ∈ fs, 18 < f.length) : done = fs := by
  have hG : ∀ f ∈ todo, IsFrame .third 0x2000 f := fun f hm => (h.listed hf f hm).1
  rcases feed_ok (framing .third 0x2000) hG h.bytes h.pending with ⟨-, h1, -⟩ | ⟨gs, f, rfl, h1, -, -⟩
  · have htodo : todo = [] := h1.symm
    rw [h.frames, htodo, List.append_nil]
  · have hmem : f ∈ fs := h.frames ▸ by simp
    have := h18 f hmem
    rw [(hf f hmem).frameSize_eq_none_iff] at h1
    omega

/-- With nothing to come, the thread delivers what is left in as many turns as there are messages. -/
theorem Inv.drains (h : Inv reg (frames.map GateRoomServerPack.wire) n (s, []) done todo r ms) (hf : Frames frames) :
    ∃ s', Relation.ReflTransGen (Step reg frames) (s, []) (s', []) ∧ s'.delivered = frames.map (delivery reg) := by
  have hreg : Registered reg frames reg := fun _ _ => rfl
  induction ms generalizing s done todo r with
  | nil =>
    have hall := h.all_delivered hf.isFrame (List.forall_mem_map.mpr fun p hp => by have := (hf p hp).2.1; omega)
    refine ⟨s, .refl, ?_⟩
    rw [← hf.delivery, ← hall]
    exact h.delivered
  | cons m ms ih =>
    obtain ⟨s₁, done', todo', r', e1, e2⟩ := h.deal hf.isFrame (hf.agrees hreg)
    obtain ⟨s', d1, d2⟩ := ih e2
    exact ⟨s', .head (.deal hreg e1) d1, d2⟩

/-- Nothing is lost, and nothing gets stuck. -/
structure Good (reg : CInt → Option Int) (frames : List GateRoomServerPack) (t : State) : Prop where
  /-- What is delivered is the first packets' data, in order. -/
  inOrder : t.1.delivered <+: frames.map (delivery reg)
  complete : t.2 = [] → t.1.circleList.usingSize = 0 → t.1.delivered = frames.map (delivery reg)
  /-- With no chunk to come the thread delivers the rest. -/
  drains : t.2 = [] →
    ∃ s', Relation.ReflTransGen (Step reg frames) t (s', []) ∧ s'.delivered = frames.map (delivery reg)
  valid : 0 ≤ t.1.validBuffLen ∧ t.1.validBuffLen ≤ 0x4000
  /-- `GetBuffer` succeeds whenever there is something in the list. -/
  gets : 0 < t.1.circleList.usingSize →
    ∃ g, t.1.circleList.getBuffer (t.1.dealBuff.drop t.1.validBuffLen.toNat) (maxDealBuffLen - t.1.validBuffLen) 0 =
      some g ∧ g.ret = true
  /-- No step leaves its memory. -/
  steps : (∀ users, Registered reg frames users → (t.1.dealWithData users).isSome) ∧
    ∀ c ∈ t.2.head?, t.1.HasRoom c → (t.1.recvData c).isSome

theorem Reached.good (hf : Frames frames) (h : Reached reg (frames.map GateRoomServerPack.wire) n t) :
    Good reg frames t := by
  obtain ⟨s, cs⟩ := t
  obtain ⟨hR, done, todo, r, ms, hI⟩ := h
  have hq : s.circleList.Holds n ms := hI.holds
  have hused := hq.used
  have h18 : ∀ f ∈ frames.map GateRoomServerPack.wire, 18 < f.length :=
    List.forall_mem_map.mpr fun p hp => by have := (hf p hp).2.1; omega
  refine ⟨?_, ?_, ?_, ?_, ?_, ?_, ?_⟩
  · rw [← hf.delivery, hI.frames, hI.delivered, List.map_append]
    exact List.prefix_append _ _
  · rintro rfl h0
    simp only at h0
    have hms : ms = [] := CircleList.slotsUsed_eq_zero.mp (by omega)
    subst hms
    rw [← hf.delivery, ← hI.all_delivered hf.isFrame h18]
    exact hI.delivered
  · rintro rfl
    exact hI.drains hf
  · have hv : s.validBuffLen = r.length := hI.window.valid
    have hle := hI.window.length_le
    rw [show maxRecvBuffLen = 0x4000 from rfl] at hle
    simp only
    omega
  · intro h0
    simp only at h0
    rcases ms with _ | ⟨m, ms⟩
    · rw [hused, CircleList.slotsUsed_eq_zero.mpr rfl] at h0
      omega
    · exact (dealWithData_cons reg hI.window hq (hI.fits hf.isFrame)).1
  · intro users hu
    rcases ms with _ | ⟨m, ms⟩
    · rw [dealWithData_nil _ hI.window hI.holds]
      rfl
    · obtain ⟨s', -, -, -, e, -⟩ := hI.deal hf.isFrame (hf.agrees hu)
      rw [e]
      rfl
  · intro c hc room
    rcases cs with _ | ⟨c', cs⟩
    · cases hc
    · cases hc
      obtain ⟨s', e, -⟩ := hI.recv (hR _ List.mem_cons_self) room
      rw [e]
      rfl

theorem init_reached (hn : 0 < n) {mem : List Byte} (hm : mem.length = maxDealBuffLen)
    {chunks : List (List Byte)} (hc : ∀ c ∈ chunks, c.length ≤ 0x2000) (hR : ∀ c ∈ chunks, Repeats c)
    (hcut : chunks.flatten = fs.flatten) : Reached reg fs n (init n mem, chunks) :=
  ⟨hR, [], fs, [], [], rfl, rfl, window_nil hm, CircleList.initBuffer_holds (CircleList.new 0) hn, .inl rfl, hcut, hc⟩

/-- Whatever the order of the steps, where every chunk repeats. -/
theorem run_good (reg : CInt → Option Int) {n : Nat} (hn : 0 < n) {mem : List Byte} (hm : mem.length = maxDealBuffLen)
    {frames : List GateRoomServerPack} (hf : Frames frames) {chunks : List (List Byte)}
    (hc : ∀ c ∈ chunks, 1 ≤ c.length ∧ c.length ≤ 0x2000)
    (hcut : chunks.flatten = (frames.map GateRoomServerPack.wire).flatten) (hR : ∀ c ∈ chunks, Repeats c)
    {t : State} (h : Relation.ReflTransGen (Step reg frames) (init n mem, chunks) t) : Good reg frames t := by
  have hstart : Reached reg (frames.map GateRoomServerPack.wire) n (init n mem, chunks) :=
    init_reached hn hm (fun c h => (hc c h).2) hR hcut
  exact (reaches_inv (P := Reached reg _ n) (fun _ _ hr hs => step_keep hf hr hs) hstart h).good hf

/-- The packet for the user `7` with a `StruCytPacket` in it. -/
def packFor (c : StruCytPacket) : GateRoomServerPack := .wrap 7 c.wire c.wire.length

open StruCytPacket (blank blank_ok)

theorem packFor_ok {k : Nat} (hk : k ≤ 0x1fdc) :
    (packFor (blank k)).WellFormed ∧ (packFor (blank k)).wire.length = k + 36 ∧
      (packFor (blank k)).dataMsg = (blank k).wire := by
  obtain ⟨-, hl⟩ := blank_ok (k := k) (by omega)
  obtain ⟨h1, h2⟩ := GateRoomServerPack.wrap_wf (h := 7) (show 0 < (blank k).wire.length by omega)
    (le_refl (blank k).wire.length) (by omega)
  refine ⟨h1, by rw [packFor, h2]; omega, ?_⟩
  rw [packFor, GateRoomServerPack.wrap_dataMsg (by omega), List.take_length]

theorem frames_packFor (ks : List Nat) (hk : ∀ k ∈ ks, k ≤ 0x1fdc) : Frames (ks.map fun k => packFor (blank k)) := by
  unfold Frames
  rw [List.forall_mem_map]
  intro k hmem
  have hle := hk k hmem
  obtain ⟨h1, h2, -⟩ := packFor_ok hle
  exact ⟨h1, by omega, by omega⟩

/-- The first chunk of a run is queued. -/
theorem init_recv (mem : List Byte) (hn : slotsFor c.length ≤ n) (hl : c.length ≤ 0x2000) :
    ∃ list, (init n mem).HasRoom c ∧ (init n mem).recvData c = some { init n mem with circleList := list } ∧
      list.Holds n [stored c] := by
  have hpos := slotsFor_pos c.length
  have hq : (init n mem).circleList.Holds n [] := CircleList.initBuffer_holds (CircleList.new 0) (by omega)
  have hroom : CircleList.slotsUsed [] + slotsFor c.length ≤ n := by simpa [CircleList.slotsUsed] using hn
  obtain ⟨list, e1, e2⟩ := recvData_ok hq hl hroom
  refine ⟨list, ?_, e1, e2⟩
  have hu := hq.used
  have hm := hq.maxStruSize
  unfold HasRoom
  omega

/-- Chunks for which there is room are queued one after the other. -/
theorem recv_all (reg : CInt → Option Int) (frames : List GateRoomServerPack) (hq : s.circleList.Holds n ms) {cs : List (List Byte)} (hl : ∀ c ∈ cs, c.length ≤ 0x2000)
    (hn : CircleList.slotsUsed ms + (cs.map fun c => slotsFor c.length).sum ≤ n) :
    ∃ s', Relation.ReflTransGen (Step reg frames) (s, cs) (s', []) := by
  induction cs generalizing s ms with
  | nil => exact ⟨s, .refl⟩
  | cons c cs ih =>
    rw [List.forall_mem_cons] at hl
    rw [List.map_cons, List.sum_cons] at hn
    obtain ⟨list, h1, h2⟩ := recvData_ok hq hl.1 (by omega)
    have hroom : s.HasRoom c := by
      have hu := hq.used
      have hm := hq.maxStruSize
      unfold HasRoom
      omega
    obtain ⟨s', hs'⟩ := ih (s := { s with circleList := list }) h2 hl.2 (by
      simp only [CircleList.slotsUsed, List.map_append, List.map_cons, List.map_nil, List.sum_append, List.sum_cons,
        List.sum_nil, length_stored] at hn ⊢
      omega)
    exact ⟨s', .head (.recv hroom h1) hs'⟩

/-- Two packets, cut in the first one. -/
def cutPackets : List (List Byte) :=
  [(packFor (blank 2)).wire.take 7, (packFor (blank 2)).wire.drop 7 ++ (packFor (blank 3)).wire]

theorem run_good_cut : ∃ t, t.2 = [] ∧ Good (fun _ => some 5) [packFor (blank 2), packFor (blank 3)] t := by
  have hsize : ∀ c ∈ cutPackets, 1 ≤ c.length ∧ c.length ≤ 0x1000 := by decide
  have hle : ∀ c ∈ cutPackets, c.length ≤ 0x2000 := fun c hc => Nat.le_trans (hsize c hc).2 (by decide)
  obtain ⟨s, hs⟩ := recv_all (fun _ => some 5) [packFor (blank 2), packFor (blank 3)]
    (s := init 2 (List.replicate maxDealBuffLen 0)) (CircleList.initBuffer_holds (CircleList.new 0) (by decide)) hle
    (by decide)
  exact ⟨_, rfl, run_good (fun _ => some 5) (by decide) List.length_replicate (frames_packFor [2, 3] (by decide))
    (fun c hc => ⟨(hsize c hc).1, hle c hc⟩) (by decide) (fun c hc => repeats_of_length_le (hsize c hc).2) hs⟩

/-- What is stored of a packet of 0x1004 bytes is another one. -/
theorem stored_packet {p : GateRoomServerPack} (hp : p.WellFormed) (hl : p.wire.length = 0x1004) :
    ∃ q : GateRoomServerPack, q.WellFormed ∧ q.wire = stored p.wire ∧ q.dataMsg[0xff1]? = p.wire[0]? := by
  obtain ⟨c, hc⟩ : ∃ c, p.wire = c := ⟨_, rfl⟩
  have hlen := GateRoomServerPack.length_wire hp
  have hm : stored c = c.take 0x1000 ++ c.take 4 := by
    rw [stored, ← hc, hl]
    simp [maxSizePerBuff]
  have hml : (stored c).length = 0x1004 := by rw [length_stored, ← hc, hl]
  have htake : (c.take 0x1000).length = 0x1000 := by rw [List.length_take, ← hc, hl]; rfl
  have hlenAt : lenAt .third (stored c) = 0xff2 := by
    have e : lenAt .third (p.wire ++ []) = p.dataMsg.length := lenAt_wire hp []
    rw [List.append_nil, hc, ← List.take_append_drop 0x1000 c, lenAt_append_left (by omega)] at e
    rw [hm, lenAt_append_left (by omega), e]
    omega
  have hwf : (ofWire .third (stored c)).WellFormed .third := ofWire_wf (by omega) (by omega)
  have hw : (ofWire .third (stored c)).wire = (stored c).take ((lenAt .third (stored c)).toNat + 18) :=
    wire_ofWire (by omega) (by omega)
  refine ⟨.ofFields (ofWire .third (stored c)), hwf, ?_, ?_⟩
  · rw [hc]
    refine hw.trans (List.take_of_length_le ?_)
    rw [hml, hlenAt]
    decide
  · change (slice (stored c) 15 (lenAt .third (stored c)).toNat)[0xff1]? = _
    rw [slice, hlenAt, List.getElem?_take_of_lt (by decide), List.getElem?_drop, hm,
      List.getElem?_append_right (by omega), htake, hc]
    exact List.getElem?_take_of_lt (by decide)

/-- A turn of the thread that gets a whole packet. -/
theorem deal_one (users : CInt → Option Int) (hw : Window s.dealBuff s.validBuffLen []) {q : GateRoomServerPack}
    (hq : s.circleList.Holds n [q.wire]) (hp : q.WellFormed) (h18 : 18 < q.wire.length)
    (hl : q.wire.length < maxDealBuffLen) :
    ∃ s', s.dealWithData users = some (s', true) ∧ s'.delivered = s.delivered ++ [delivery users q] := by
  obtain ⟨-, list, buff, -, h2, h3⟩ := dealWithData_cons users hw hq (by simpa using hl)
  rw [List.nil_append] at h2 h3
  have hw' : Window buff q.wire.length (q.wire ++ []) := by rwa [List.append_nil]
  obtain ⟨buff', e1, e2⟩ := turn_next users (v := (⟨list, buff, q.wire.length, s.delivered⟩, .fresh)) hp hw'
    (by simp only; omega)
  obtain ⟨pack, e3⟩ := turn_stop users (v := (⟨list, buff', (q.wire.length : Int) - q.wire.length,
    s.delivered ++ [delivery users q]⟩, q)) e2 (.inl (by simp only; omega))
  have hstop : ∀ fuel, 0 < fuel → doWhile (turn users) fuel _ = some _ := fun
    | fuel + 1, _ => doWhile_stop e3 fuel
  have hloop := (doWhile_next e1 q.wire.length).trans (hstop _ (by omega))
  exact ⟨_, h3.trans (congrArg (Option.bind · _) hloop), rfl⟩

/-- A packet of 0x1004 bytes in one chunk is delivered with another last byte. -/
theorem not_good_long {k : Nat} (hk : k + 36 = 0x1004) :
    ∃ t, Relation.ReflTransGen (Step (fun _ => some 5) [packFor (blank k)])
      (init 2 (List.replicate maxDealBuffLen 0), [(packFor (blank k)).wire]) t ∧
      ¬ Good (fun _ => some 5) [packFor (blank k)] t := by
  obtain ⟨hp, hlen, hdata⟩ := packFor_ok (k := k) (by omega)
  have hslots : slotsFor (packFor (blank k)).wire.length ≤ 2 := by rw [hlen, hk]; decide
  obtain ⟨list, h1, h2, h3⟩ := init_recv (List.replicate maxDealBuffLen 0) hslots (by omega)
  obtain ⟨q, hq, hwire, hbyte⟩ := stored_packet hp (hlen.trans hk)
  have hl : q.wire.length = 0x1004 := by rw [hwire, length_stored, hlen, hk]
  obtain ⟨s, h4, h5⟩ := deal_one (s := { init 2 (List.replicate maxDealBuffLen 0) with circleList := list })
    (fun _ => some 5) (window_nil List.length_replicate) (hwire ▸ h3) hq (by omega) (by rw [hl]; decide)
  refine ⟨(s, []), .tail (.single (.recv h1 h2)) (.deal (fun _ _ => rfl) h4), fun hgood => ?_⟩
  have hpre := hgood.inOrder
  rw [h5] at hpre
  have hdeliver : [delivery (fun _ => some 5) q] = [delivery (fun _ => some 5) (packFor (blank k))] :=
    hpre.eq_of_length rfl
  have hmsg : q.dataMsg = (blank k).wire := (Delivery.write.inj (List.head_eq_of_cons_eq hdeliver)).2.trans hdata
  have htail : (blank k).wire[0xff1]? = some 0x36 := by
    rw [StruCytPacket.wire, Fields.wire,
      List.getElem?_append_right (by simp [StruCytPacket.fields, blank, packHead]; omega)]
    have hidx : 0xff1 - ((blank k).fields.head ++ leBytes (blank k).fields.w₀ ++ leBytes (blank k).fields.w₁ ++
        leBytes (blank k).fields.w₂ ++ (blank k).fields.body).length = 2 := by
      simp [StruCytPacket.fields, blank, packHead]
      omega
    rw [hidx]
    rfl
  rw [hmsg, htail] at hbyte
  cases hbyte

/-- A packet and its chunk, both as they may be. -/
theorem not_good_fe0 :
    Frames [packFor (blank 4064)] ∧ (packFor (blank 4064)).wire.length = 0x1004 ∧
    ∃ t, Relation.ReflTransGen (Step (fun _ => some 5) [packFor (blank 4064)])
      (init 2 (List.replicate maxDealBuffLen 0), [(packFor (blank 4064)).wire]) t ∧
      ¬ Good (fun _ => some 5) [packFor (blank 4064)] t :=
  ⟨frames_packFor [4064] (List.forall_mem_singleton.mpr (by decide)), (packFor_ok (by decide)).2.1, not_good_long rfl⟩

end Miku.GateServer.RoomServerProcessor
