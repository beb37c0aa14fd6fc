import MikuServer.Impl.RoomClient
import MikuServer.Proof.Connection

/-!
# The way up: from the gate to the room server's commands

The gate writes each frame of a client as `wrapped`, `DealWithData` queues each
packet it takes as `stamped`, and the processor's thread gives it to a command.
`call_ok` is one read and `run_ok` the whole stream: a packet larger than
`tmp_read_buff` is written past its end (`turn_next`). `thread_ok` is the
thread, and `delivers_iff` all of it.
-/

namespace Miku.RoomServer

open Fields

/-- A frame as the gate writes it to the room server. -/
def wrapped (userHashkey : CInt) (c : StruCytPacket) : GateRoomServerPack :=
  .wrap userHashkey c.wire c.wire.length

theorem wrapped_dataMsg {h : CInt} {c : StruCytPacket} (hc : c.WellFormed) : (wrapped h c).dataMsg = c.wire := by
  have := StruCytPacket.length_wire hc
  rw [wrapped, GateRoomServerPack.wrap_dataMsg (by omega), List.take_length]

theorem wrapped_wf {h : CInt} {c : StruCytPacket} (hc : c.WellFormed) (hl : c.wire.length ≤ 0x1000) :
    (wrapped h c).WellFormed ∧ (wrapped h c).wire.length = c.wire.length + 18 := by
  have := StruCytPacket.length_wire hc
  exact GateRoomServerPack.wrap_wf (by omega) le_rfl (by omega)

namespace ClientInfoEx

/-- The connection with the hash key `g`, whose list has `n` slots. -/
def start (g : CInt) (n : Nat) (mem : List Byte) : ClientInfoEx :=
  ⟨g, .new mem, (CircleList.new 0).initBuffer n⟩

/-- A packet on the wire with another `gs_hashkey`. -/
def stamped (g : CInt) (f : List Byte) : List Byte := f.take 7 ++ leBytes g ++ f.drop 11

theorem stamped_wire {p : GateRoomServerPack} (hp : p.WellFormed) (g : CInt) :
    stamped g p.wire = { p with gsHashkey := g }.wire := by
  have hh := hp.head
  have e : p.wire = (p.strHead ++ leBytes p.userHashkey) ++ (leBytes p.gsHashkey ++
      (leBytes p.dataLen ++ p.dataMsg ++ p.strTail)) := by
    simp only [GateRoomServerPack.wire, Fields.wire, GateRoomServerPack.fields, List.append_assoc]
  have h7 : (p.strHead ++ leBytes p.userHashkey).length = 7 := by
    rw [List.length_append, length_leBytes]
    exact congrArg (· + 4) hh
  rw [stamped, e, List.take_left' h7, ← List.append_assoc, List.drop_left' (by rw [List.length_append, h7]; rfl)]
  simp only [GateRoomServerPack.wire, Fields.wire, GateRoomServerPack.fields, List.append_assoc]

/-- What is done with a packet: it is queued, if it fits `tmp_read_buff`. -/
def emit (g : CInt) (n : Nat) (ms : List (List Byte)) (f : List Byte) : Option (List (List Byte)) :=
  if f.length ≤ 0x1000 then some (CircleList.push n ms (stamped g f)) else none

variable {g : CInt} {n : Nat}

/-- The loop's variables have the bytes `w` to use, and the list the messages `ms`. -/
def VarsView (n : Nat) (v : Vars) (w : List Byte) (ms : List (List Byte)) : Prop :=
  ConnView n v.recv v.circleList w ms ∧ v.tmpReadBuff.length = 0x1000

theorem turn_stop {v : Vars} {w : List Byte} {ms : List (List Byte)} (hV : VarsView n v w ms)
    (hs : Stops .third v.recv) : turn g v = some (v, false) := by
  by_cases hw : v.recv.validBuffLen ≤ 18
  · rw [turn, if_pos hw]
  · obtain ⟨q, hq⟩ := GateRoomServerPack.fresh.within_stop hV.1.window hs hw
    simp only [turn, if_neg hw, hq, Option.bind_eq_bind, Option.bind_some]
    rfl

theorem enqueue_ok {v : Vars} {w : List Byte} {ms : List (List Byte)} (hV : VarsView n v w ms)
    {p : GateRoomServerPack} (hp : p.WellFormed) :
    OptRel (fun ms' v' => VarsView n v' w ms') (emit g n ms p.wire) (enqueue g v p) := by
  obtain ⟨p', hp', hw, hlen⟩ : ∃ p' : GateRoomServerPack, p' = { p with gsHashkey := g } ∧ p'.WellFormed ∧
      p'.wire.length = p.wire.length := by
    have hw : ({ p with gsHashkey := g } : GateRoomServerPack).WellFormed := ⟨hp.head, hp.tail, hp.len⟩
    exact ⟨_, rfl, hw, by rw [GateRoomServerPack.length_wire hw, GateRoomServerPack.length_wire hp]⟩
  rw [enqueue, emit, stamped_wire hp, ← hp']
  by_cases hfit : p.wire.length ≤ 0x1000
  · have hb : p'.wire.length ≤ v.tmpReadBuff.length := by rw [hV.2, hlen]; exact hfit
    have hsize := GateRoomServerPack.toInt_byteSize hw (by omega)
    have hbuff : (p'.wire ++ v.tmpReadBuff.drop p'.wire.length).length = 0x1000 := by
      rw [List.length_append, List.length_drop, hV.2]
      omega
    have hle : p'.wire.length ≤ (p'.wire ++ v.tmpReadBuff.drop p'.wire.length).length := by omega
    obtain ⟨b, q', e1, e2, e3⟩ := CircleList.addBuffer_push hV.1.holds hV.1.short hle (hlen ▸ hfit)
    rw [List.take_left] at e2 e3
    rw [if_pos hfit]
    simp only [GateRoomServerPack.serialize_ok hw hb, Option.bind_eq_bind, Option.bind_some, if_true, hsize, e1]
    exact ⟨⟨hV.1.window, e2, e3⟩, hbuff⟩
  · have hb : v.tmpReadBuff.length < p'.wire.length := by rw [hV.2, hlen]; omega
    rw [if_neg hfit]
    simp only [GateRoomServerPack.serialize_none hw hb, Option.bind_eq_bind, Option.bind_none]
    trivial

theorem turn_next {v : Vars} {p : GateRoomServerPack} {w : List Byte} {ms : List (List Byte)}
    (hV : VarsView n v (p.wire ++ w) ms) (hp : p.WellFormed) (hw : ¬ v.recv.validBuffLen ≤ 18) :
    OptRel (fun ms' v' => v'.2 = true ∧ VarsView n v'.1 w ms') (emit g n ms p.wire) (turn g v) := by
  have hlen : p.byteSize.toInt = p.wire.length := byteSize_front hp hV.1.window
  obtain ⟨buff', d1, d2⟩ := moveDown_ok hV.1.window hlen
  have henq := enqueue_ok (g := g) (v := { v with recv := ⟨buff', v.recv.validBuffLen - p.byteSize.toInt⟩ })
    ⟨⟨d2, hV.1.holds, hV.1.short⟩, hV.2⟩ hp
  simp only [turn, if_neg hw, GateRoomServerPack.fresh.within_front hp hV.1.window, Option.bind_eq_bind,
    Option.bind_some, if_true, d1]
  exact optRel_bind (henq.imp fun _ _ h => ⟨rfl, h⟩)

theorem turn_takes (g : CInt) (n : Nat) :
    Takes (frameSize .third) (IsFrame .third 0x1012) (turn g) (VarsView n) (fun _ => True) (emit g n) where
  stop v _ _ hV hs _ h := ⟨v, turn_stop hV (stops_of_streams (by decide) hV.1.window hs h), hV⟩
  next v f w _ hV hf _ h := by
    obtain ⟨p, hp, rfl, -⟩ := GateRoomServerPack.isFrame_iff.mp hf
    have hw := length_of_frameSize h
    have hv := hV.1.window.valid
    exact turn_next hV hp (by omega)

/-- The connection with the hash key `g` has the bytes `w` to use, and its list the messages `ms`. -/
def ClientView (g : CInt) (n : Nat) (s : ClientInfoEx) (w : List Byte) (ms : List (List Byte)) : Prop :=
  s.hashKey = g ∧ ConnView n s.recv s.circleList w ms

/-- One read of a stream: its packets are taken, and queued. -/
theorem call_ok {s : ClientInfoEx} {r x : List Byte} {ms : List (List Byte)} {hs : List (List Byte)}
    (hV : ClientView g n s r ms) (hx : x.length ≤ 0x1000) (hG : ∀ f ∈ hs, IsFrame .third 0x1012 f)
    (hp : Pending (frameSize .third) hs r) (hw : r ++ x <+: hs.flatten) :
    OptRel (fun ms' s' => ClientView g n s' (drain (frameSize .third) ((r ++ x).length + 1) (r ++ x)).2 ms')
      ((drain (frameSize .third) ((r ++ x).length + 1) (r ++ x)).1.foldlM (emit g n) ms) (s.dealWithData x) := by
  obtain ⟨rfl, hV⟩ := hV
  have hr := residue_lt (by omega) hp hG
  obtain ⟨b, e1, e2, hfuel⟩ := hV.recv hx (by omega)
  rw [dealWithData, readBuff_ok hx, Option.bind_eq_bind, Option.bind_some, e1, Option.bind_eq_bind,
    Option.bind_some, hfuel]
  have hloop := doWhile_drain (framing .third 0x1012) (turn_takes s.hashKey n) hG hw (Nat.lt_succ_self _)
    (s := ⟨b, padded x, s.circleList⟩) ⟨e2, length_padded hx⟩ fun _ _ => trivial
  exact optRel_bind (hloop.imp fun _ _ h => ⟨rfl, h.1⟩)

theorem start_view (g : CInt) {mem : List Byte} (hm : mem.length = maxRecvBuffLen) (hn : 0 < n) :
    ClientView g n (start g n mem) [] [] :=
  ⟨rfl, connView_start hm hn⟩

/-- A whole stream of packets. -/
theorem run_ok {mem : List Byte} (hm : mem.length = maxRecvBuffLen) (hn : 0 < n) {packs reads : List (List Byte)}
    (hf : ∀ f ∈ packs, IsFrame .third 0x1012 f) (hlast : ∀ f ∈ packs.getLast?, 18 < f.length)
    (hr : ∀ x ∈ reads, x.length ≤ 0x1000) (hcut : reads.flatten = packs.flatten) :
    OptRel (fun ms s => s.circleList.Holds n ms) (packs.foldlM (emit g n) [])
      (reads.foldlM dealWithData (start g n mem)) := by
  have F := framing .third 0x1012
  have hrun := run_feed F dealWithData id (fun _ => emit g n) (fun _ _ => []) (V := ClientView g n)
    (Q := fun x => x.length ≤ 0x1000) (C := fun _ : Unit => True)
    (fun s r ms x hs hV hx _ hG hp hw => call_ok hV hx hG hp hw) hr (fun _ _ => trivial) hf
    (by rw [List.map_id]; exact hcut) (.inl rfl) (start_view g hm hn)
  rw [List.map_id, foldlM_taken, (taken_eq_iff hf hcut).mpr hlast] at hrun
  exact hrun.imp fun _ _ h => h.2.holds

/-- What is made of the packets, with room in the list for all of them. -/
theorem foldlM_emit {packs ms : List (List Byte)} (hcap : ms.length + packs.length ≤ n) :
    packs.foldlM (emit g n) ms =
      if ∀ f ∈ packs, f.length ≤ 0x1000 then some (ms ++ packs.map (stamped g)) else none := by
  induction packs generalizing ms with
  | nil => simp
  | cons f packs ih =>
    rw [List.length_cons] at hcap
    rw [List.foldlM_cons, emit]
    by_cases hf : f.length ≤ 0x1000
    · rw [if_pos hf, Option.bind_eq_bind, Option.bind_some, CircleList.push, if_pos (by omega),
        ih (by rw [List.length_append, List.length_singleton]; omega)]
      simp [hf]
    · rw [if_neg hf, if_neg fun h => hf (h f List.mem_cons_self)]
      rfl

end ClientInfoEx

/-! ## The processor's thread -/

namespace GateServerProcessor

variable {T : Type} {getCommand : CInt → Option (List Byte → CInt → Option T)} {n : Nat}

/-- What the command of its message type makes of a packet `p` around the frame `c`. -/
def handled (getCommand : CInt → Option (List Byte → CInt → Option T)) (p : GateRoomServerPack) (c : StruCytPacket) :
    List (Option (GateRoomServerPack × StruCytPacket × T)) :=
  match getCommand c.msgType with
  | none => []
  | some parse => [(parse (cStr c.msgData) c.msgLen).map fun t => (p, c, t)]

theorem unpack_ok (parse : List Byte → CInt → Option T) {p : GateRoomServerPack} {c : StruCytPacket}
    (hp : p.WellFormed) (hc : c.WellFormed) (hm : p.dataMsg = c.wire) (x : List Byte) {len : CInt}
    (hlen : p.wire.length ≤ len.toInt) :
    unpackAndAnalysePackFromGSRS parse (p.wire ++ x) len =
      some ((parse (cStr c.msgData) c.msgLen).map fun t => (p, c, t)) := by
  have hl : p.dataLen.toInt = c.wire.length := hm ▸ hp.len
  have hcyt := StruCytPacket.within_wire .fresh hc [0] (n := p.dataLen) hl.ge
  simp only [unpackAndAnalysePackFromGSRS, GateRoomServerPack.within_wire .fresh hp x hlen, Option.bind_eq_bind,
    Option.bind_some, if_true, hm, cStr] at hcyt ⊢
  rw [hcyt]
  rfl

/-- A turn with a packet in the list. -/
theorem turn_ok {q : CircleList} {p : GateRoomServerPack} {c : StruCytPacket} {ms : List (List Byte)}
    (hq : q.Holds n (p.wire :: ms)) (hp : p.WellFormed) (hc : c.WellFormed) (hm : p.dataMsg = c.wire)
    (hl : p.wire.length ≤ 0x1000) (seen : List (Option (GateRoomServerPack × StruCytPacket × T))) :
    ∃ q', turn getCommand (q, seen) = some ((q', seen ++ handled getCommand p c), true) ∧ q'.Holds n ms := by
  obtain ⟨q', e1, e2⟩ := CircleList.getBuffer_ok hq 0 (show (p.wire.length : Int) < 0x2000 by omega)
    (show (0x2000 : Int) ≤ (List.replicate 0x2000 (0 : Byte)).length by rw [List.length_replicate]; rfl)
  refine ⟨q', ?_, e2⟩
  have hlen : (cint p.wire.length).toInt = p.wire.length := toInt_cint (by omega) (by omega)
  have hl' : p.dataLen.toInt = c.wire.length := hm ▸ hp.len
  have hgr := GateRoomServerPack.within_wire .fresh hp ((List.replicate 0x2000 0).drop p.wire.length) hlen.ge
  have hcyt := StruCytPacket.within_wire .fresh hc [0] (n := p.dataLen) hl'.ge
  have hun (parse : List Byte → CInt → Option T) :=
    unpack_ok parse hp hc hm ((List.replicate 0x2000 0).drop p.wire.length) hlen.ge
  rw [splice_zero] at e1
  rw [← cStr, ← hm] at hcyt
  simp only [turn, e1, hgr, hcyt, hun, Option.bind_eq_bind, Option.bind_some, if_true]
  rw [handled]
  rcases getCommand c.msgType with _ | parse
  · rw [List.append_nil]
  · rfl

/-- The thread takes every packet in the list. -/
theorem thread_ok {packs : List (GateRoomServerPack × StruCytPacket)}
    (hp : ∀ p ∈ packs, p.1.WellFormed ∧ p.2.WellFormed ∧ p.1.dataMsg = p.2.wire ∧ p.1.wire.length ≤ 0x1000)
    {q : CircleList} (hq : q.Holds n (packs.map (·.1.wire))) {fuel : Nat} (hf : packs.length < fuel)
    (seen : List (Option (GateRoomServerPack × StruCytPacket × T))) :
    ∃ q', doWhile (turn getCommand) fuel (q, seen) =
      some (q', seen ++ packs.flatMap fun p => handled getCommand p.1 p.2) := by
  obtain ⟨fuel, rfl⟩ : ∃ k, fuel = k + 1 := ⟨fuel - 1, by omega⟩
  induction packs generalizing q fuel seen with
  | nil =>
    refine ⟨q, doWhile_stop ?_ _⟩
    simp only [turn, CircleList.getBuffer_nil hq, Option.bind_eq_bind, Option.bind_some, List.flatMap_nil,
      List.append_nil]
    rfl
  | cons p packs ih =>
    obtain ⟨h1, h2, h3, h4⟩ := hp p List.mem_cons_self
    rw [List.length_cons] at hf
    obtain ⟨fuel, rfl⟩ : ∃ k, fuel = k + 1 := ⟨fuel - 1, by omega⟩
    obtain ⟨q₁, e1, e2⟩ := turn_ok hq h1 h2 h3 h4 seen
    obtain ⟨q', d1⟩ := ih (fun k hk => hp k (List.mem_cons_of_mem _ hk)) e2 _ fuel (by omega)
    refine ⟨q', ?_⟩
    rw [doWhile_next e1, d1, List.flatMap_cons, List.append_assoc]

end GateServerProcessor

/-! ## All of it -/

variable {T : Type}

/-- The packet that a command gets around the frame `c`. -/
def delivered (h g : CInt) (c : StruCytPacket) : GateRoomServerPack := { wrapped h c with gsHashkey := g }

/-- The commands are given exactly the frames, in order, each in a packet with the
hash keys `h` and `g` and with the message that its bytes parse to. -/
def Delivers (getCommand : CInt → Option (List Byte → CInt → Option T)) (h g : CInt) (n : Nat) (mem : List Byte)
    (reads : List (List Byte)) (frames : List StruCytPacket) : Prop :=
  ∃ s q, reads.foldlM ClientInfoEx.dealWithData (.start g n mem) = some s ∧
    GateServerProcessor.dealWithDataThread getCommand s.circleList =
      some (q, frames.flatMap fun c => GateServerProcessor.handled getCommand (delivered h g c) c)

variable {h g : CInt} {n : Nat} {mem : List Byte} {frames : List StruCytPacket} {reads : List (List Byte)}

theorem delivered_ok {c : StruCytPacket} (hc : c.WellFormed) (hl : c.wire.length ≤ 0x1000) :
    (delivered h g c).WellFormed ∧ (delivered h g c).wire = ClientInfoEx.stamped g (wrapped h c).wire ∧
      (delivered h g c).wire.length = c.wire.length + 18 := by
  obtain ⟨hw, hlen⟩ := wrapped_wf (h := h) hc hl
  have hd : (delivered h g c).WellFormed := ⟨hw.head, hw.tail, hw.len⟩
  refine ⟨hd, (ClientInfoEx.stamped_wire hw g).symm, ?_⟩
  rw [GateRoomServerPack.length_wire hd, ← hlen, GateRoomServerPack.length_wire hw]
  rfl

/-- What the reads of the wrapped frames leave in the list. -/
theorem uplink_ok (hm : mem.length = maxRecvBuffLen) (hn : 0 < n)
    (hf : ∀ c ∈ frames, c.WellFormed ∧ c.wire.length ≤ 0x1000) (hcap : frames.length ≤ n)
    (hr : ∀ x ∈ reads, 1 ≤ x.length ∧ x.length ≤ 0x1000)
    (hcut : reads.flatten = (frames.map fun c => (wrapped h c).wire).flatten) :
    OptRel (fun ms s => s.circleList.Holds n ms)
      (if ∀ c ∈ frames, c.wire.length ≤ 0xfee then some (frames.map fun c => (delivered h g c).wire) else none)
      (reads.foldlM ClientInfoEx.dealWithData (.start g n mem)) := by
  have hG : ∀ f ∈ frames.map fun c => (wrapped h c).wire, IsFrame .third 0x1012 f ∧ 18 < f.length := by
    intro f hf'
    obtain ⟨c, hc, rfl⟩ := List.mem_map.mp hf'
    obtain ⟨hcw, hcl⟩ := hf c hc
    obtain ⟨hw, hlen⟩ := wrapped_wf (h := h) hcw hcl
    have := StruCytPacket.length_wire hcw
    exact ⟨GateRoomServerPack.isFrame_iff.mpr ⟨_, hw, rfl, by omega⟩, by omega⟩
  have hrun := ClientInfoEx.run_ok (g := g) hm hn (fun f hf => (hG f hf).1)
    (fun f hf => (hG f (List.mem_of_getLast? hf)).2) (fun x hx => (hr x hx).2) hcut
  rw [ClientInfoEx.foldlM_emit (by simpa using hcap), List.nil_append, List.map_map] at hrun
  have hfit : (∀ f ∈ frames.map fun c => (wrapped h c).wire, f.length ≤ 0x1000) ↔
      ∀ c ∈ frames, c.wire.length ≤ 0xfee := by
    rw [List.forall_mem_map]
    refine forall₂_congr fun c hc => ?_
    rw [(wrapped_wf (hf c hc).1 (hf c hc).2).2]
    omega
  have hmap : frames.map (ClientInfoEx.stamped g ∘ fun c => (wrapped h c).wire) =
      frames.map fun c => (delivered h g c).wire :=
    List.map_congr_left fun c hc => (delivered_ok (hf c hc).1 (hf c hc).2).2.1.symm
  simp only [hfit, hmap] at hrun
  exact hrun

theorem delivers_iff (getCommand : CInt → Option (List Byte → CInt → Option T)) (h g : CInt) {n : Nat} (hn : 0 < n)
    {mem : List Byte} (hm : mem.length = maxRecvBuffLen) {frames : List StruCytPacket}
    (hf : ∀ c ∈ frames, c.WellFormed ∧ c.wire.length ≤ 0x1000) (hcap : frames.length ≤ n)
    {reads : List (List Byte)} (hr : ∀ x ∈ reads, 1 ≤ x.length ∧ x.length ≤ 0x1000)
    (hcut : reads.flatten = (frames.map fun c => (wrapped h c).wire).flatten) :
    Delivers getCommand h g n mem reads frames ↔ ∀ c ∈ frames, c.wire.length ≤ 0xfee := by
  have hup := uplink_ok (g := g) hm hn hf hcap hr hcut
  constructor
  · rintro ⟨s, q, h1, -⟩
    by_contra hc
    rw [if_neg hc] at hup
    rw [hup.of_none] at h1
    cases h1
  · intro hfit
    rw [if_pos hfit] at hup
    obtain ⟨s, he, hup⟩ := hup.of_some
    have hq : s.circleList.Holds n ((frames.map fun c => (delivered h g c, c)).map (·.1.wire)) := by
      rw [List.map_map]
      exact hup
    have hp : ∀ p ∈ frames.map fun c => (delivered h g c, c), p.1.WellFormed ∧ p.2.WellFormed ∧
        p.1.dataMsg = p.2.wire ∧ p.1.wire.length ≤ 0x1000 := by
      rw [List.forall_mem_map]
      intro c hc
      obtain ⟨d1, -, d3⟩ := delivered_ok (h := h) (g := g) (hf c hc).1 (hf c hc).2
      have := hfit c hc
      exact ⟨d1, (hf c hc).1, wrapped_dataMsg (h := h) (hf c hc).1, d3.le.trans (by omega)⟩
    have hused : s.circleList.usingSize.toNat = frames.length := by
      have hs := CircleList.slotsUsed_short fun m hm => by
        obtain ⟨p, hp', rfl⟩ := List.mem_map.mp hm
        exact (hp p hp').2.2.2
      rw [hq.used, hs, Int.toNat_natCast, List.length_map, List.length_map]
    have hfuel : (frames.map fun c => (delivered h g c, c)).length < s.circleList.usingSize.toNat + 1 := by
      rw [List.length_map, hused]
      omega
    obtain ⟨q, hq'⟩ := GateServerProcessor.thread_ok hp hq hfuel []
    refine ⟨s, q, he, ?_⟩
    rw [GateServerProcessor.dealWithDataThread, hq', List.flatMap_map]
    rfl

open StruCytPacket (blank blank_ok)

/-- Every message type has a command that takes the payload as it is. -/
def takeAll : CInt → Option (List Byte → CInt → Option (List Byte)) :=
  fun _ => some fun data len => some (data.take len.toInt.toNat)

/-- Two frames, cut in the first. -/
theorem delivers_iff_cut :
    Delivers takeAll 7 9 2 (List.replicate maxRecvBuffLen 0)
        [(wrapped 7 (blank 1)).wire.take 9, (wrapped 7 (blank 1)).wire.drop 9 ++ (wrapped 7 (blank 2)).wire]
        [blank 1, blank 2] ↔ ∀ c ∈ [blank 1, blank 2], c.wire.length ≤ 0xfee :=
  delivers_iff takeAll 7 9 (by decide) List.length_replicate (by simp [blank_ok]) (by decide) (by decide) (by decide)

/-- The stream of a frame with `k` bytes of payload, in two reads. -/
def twoReads (k : Nat) : List (List Byte) :=
  [(wrapped 7 (blank k)).wire.take 0x1000, (wrapped 7 (blank k)).wire.drop 0x1000]

/-- A packet that does not fit the room server's `tmp_read_buff`. -/
theorem not_delivers_twoReads {k : Nat} (hk : 4061 ≤ k) (hk' : k ≤ 4078) :
    (twoReads k).flatten = (wrapped 7 (blank k)).wire ∧ (∀ x ∈ twoReads k, 1 ≤ x.length ∧ x.length ≤ 0x1000) ∧
    ¬ Delivers takeAll 7 9 1 (List.replicate maxRecvBuffLen 0) (twoReads k) [blank k] := by
  obtain ⟨hw, hl⟩ := blank_ok (k := k) (by omega)
  obtain ⟨-, hl'⟩ := wrapped_wf (h := 7) hw (by omega)
  have hcut : (twoReads k).flatten = (wrapped 7 (blank k)).wire := by
    simp only [twoReads, List.flatten_cons, List.flatten_nil, List.append_nil, List.take_append_drop]
  have hr : ∀ x ∈ twoReads k, 1 ≤ x.length ∧ x.length ≤ 0x1000 := by
    simp only [twoReads, List.forall_mem_cons, List.length_take, List.length_drop]
    exact ⟨by omega, by omega, nofun⟩
  refine ⟨hcut, hr, ?_⟩
  rintro ⟨s, q, h1, -⟩
  have hf : ∀ c ∈ [blank k], c.WellFormed ∧ c.wire.length ≤ 0x1000 := by
    rw [List.forall_mem_singleton]
    exact ⟨hw, by omega⟩
  have hcut' : (twoReads k).flatten = ([blank k].map fun c => (wrapped 7 c).wire).flatten := by
    rw [hcut, List.map_singleton, List.flatten_singleton]
  have hup := uplink_ok (g := 9) (List.length_replicate (a := (0 : Byte))) Nat.one_pos hf le_rfl hr hcut'
  rw [if_neg (by rw [List.forall_mem_singleton]; omega), h1] at hup
  exact hup

/-- A frame of 0xfef bytes is not delivered. -/
theorem not_delivers_fef :
    (blank 4061).WellFormed ∧ (blank 4061).wire.length = 0xfef ∧
    (twoReads 4061).flatten = (wrapped 7 (blank 4061)).wire ∧
    (∀ x ∈ twoReads 4061, 1 ≤ x.length ∧ x.length ≤ 0x1000) ∧
    ¬ Delivers takeAll 7 9 1 (List.replicate maxRecvBuffLen 0) (twoReads 4061) [blank 4061] :=
  ⟨(blank_ok (by omega)).1, (blank_ok (by omega)).2, not_delivers_twoReads le_rfl (by omega)⟩

end Miku.RoomServer
