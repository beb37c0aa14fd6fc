import MikuServer.Proof.GateUser

/-!
# The gate's framing, over a whole stream

`call_ok` is one read of a stream of frames for known rooms and `run_ok` the
whole of it, where the moves of its turns leave the bytes of the stream
(`ShiftOk`). What is sent is then every frame, but for a last one of 18 bytes
(`sendsFrames_iff`).
-/

namespace Miku.GateServer.UserInfoEx

open Fields

/-- If a frame of `k` bytes is taken, each byte to use from 0x1000 on equals the one
`k` bytes before it. -/
def ShiftOk (b : RecvBuff) : Prop :=
  ∀ k, frameSize .second (b.recvedBuff.take b.validBuffLen.toNat) = some k →
    ∀ i : Nat, 0x1000 ≤ i → i < b.validBuffLen → b.recvedBuff[i]? = b.recvedBuff[i - k]?

theorem shiftOk_of_le {b : RecvBuff} (h : b.validBuffLen ≤ 0x1000) : ShiftOk b := by
  intro k _ i h1 h2
  omega

/-- The frames `fs` are for rooms that are known by their sockets. -/
def Known (sock : CInt → Int) (fs : List (List Byte)) (rooms : CInt → Option Int) : Prop :=
  ∀ f ∈ fs, rooms (intAt f 3) = some (sock (intAt f 3))

/-- The packet that holds a frame's bytes. -/
def packOf (hashKey : CInt) (f : List Byte) : GateRoomServerPack :=
  ⟨packHead, hashKey, 0, cint f.length, f, packTail⟩

/-- What is sent for a frame. -/
def written (sock : CInt → Int) (hashKey : CInt) (f : List Byte) : Event :=
  .write (sock (intAt f 3)) (packOf hashKey f).wire

variable {sock : CInt → Int} {hashKey : CInt} {fs : List (List Byte)}

theorem wrap_eq {f : List Byte} (h : 0 < f.length) :
    GateRoomServerPack.wrap hashKey f f.length = packOf hashKey f := by
  have hd : setData [] f f.length = f := by
    rw [setData, if_pos (by omega), Int.toNat_natCast, List.take_length]
  rw [GateRoomServerPack.wrap, hd, packOf]

theorem sent_eq {rooms : CInt → Option Int} (hk : Known sock fs rooms) {f : List Byte} (hf : f ∈ fs)
    (h : 0 < f.length) : sent rooms hashKey f = [written sock hashKey f] := by
  unfold sent written
  rw [hk f hf, ← wrap_eq h]

/-- The loop's variables have the bytes `w` to use, and `log` is what was done. -/
structure VarsView (v : Vars) (w : List Byte) (log : List Event) : Prop where
  sized : Sized v
  window : Window v.recv.recvedBuff v.recv.validBuffLen w
  log : v.log = log

theorem turn_takes (hashKey : CInt) {rooms : CInt → Option Int} (hk : Known sock fs rooms) :
    Takes (frameSize .second) (Listed .second 0x1000 fs) (turn rooms hashKey) VarsView (fun v => ShiftOk v.recv)
      (fun log f => some (log ++ [written sock hashKey f])) where
  stop v w log hV hs _ h := by
    obtain ⟨q, hq⟩ := turn_stop rooms hashKey hV.sized
      (stops_of_streams (by decide) hV.window (streams_of_listed hs) h)
    exact ⟨_, hq, ⟨hV.sized.recv, hV.sized.packData, hV.sized.sendBuff⟩, hV.window, hV.log⟩
  next v f x log hV hf hC h := by
    obtain ⟨p, hp, rfl, hl⟩ := StruCytPacket.isFrame_iff.mp hf.1
    have hw := length_of_frameSize h
    have h18 := StruCytPacket.length_wire hp
    have hv := hV.window.valid
    have htake : v.recv.recvedBuff.take v.recv.validBuffLen.toNat = p.wire ++ x := by
      rw [hv, Int.toNat_natCast, hV.window.take_eq le_rfl, List.take_length]
    have hmove := (shifted_window hV.window hl).mpr (hC _ (by rw [htake]; exact h))
    obtain ⟨v', e1, e2, e3, e4⟩ := turn_next rooms hashKey hV.sized (by omega) hp hV.window hl
    rw [e1]
    refine ⟨rfl, e2, ?_, ?_⟩
    · rw [e3]
      exact hmove
    · rw [e4, sent_eq hk hf.2 (by omega), hV.log]

/-- The connection has the bytes `r` left, and `log` is what was done. -/
structure View (hashKey : CInt) (s : UserInfoEx × List Event) (r : List Byte) (log : List Event) : Prop where
  key : s.1.hashKey = hashKey
  recv : s.1.recv.Ok
  window : Window s.1.recv.recvedBuff s.1.recv.validBuffLen r
  log : s.2 = log

/-- A call after a read that there is room for. -/
theorem call_view (rooms : CInt → Option Int) {x : List Byte} {s : UserInfoEx × List Event} {r : List Byte}
    {log : List Event} (hV : View hashKey s r log) (hx : x.length ≤ 0x1000)
    (hfit : r.length + x.length < maxRecvBuffLen) :
    ∃ recv, VarsView (.start recv log) (r ++ x) log ∧
      callTurns s (rooms, x) = heads (turn rooms hashKey) ((r ++ x).length + 1) (.start recv log) ∧
      call s (rooms, x) = (doWhile (turn rooms hashKey) ((r ++ x).length + 1) (.start recv log)).bind
        fun v => some (⟨hashKey, v.recv⟩, v.log) := by
  obtain ⟨⟨key, b₀⟩, log₀⟩ := s
  obtain ⟨rfl, hrecv, hwin, rfl⟩ := hV
  obtain ⟨b, e1, e2⟩ := recv_ok hwin hfit
  obtain ⟨recv, d0, d1, d2, d3⟩ := call_eq hrecv (show (rooms, x).2.length ≤ 0x1000 from hx)
  have hb : b = recv := Option.some.inj (e1.symm.trans d1)
  subst hb
  have hfuel : b.validBuffLen.toNat + 1 = (r ++ x).length + 1 := by rw [e2.valid, Int.toNat_natCast]
  rw [hfuel] at d2 d3
  exact ⟨b, ⟨start_sized d0 _, e2, rfl⟩, d2, d3⟩

/-- One read of a stream: its frames are taken, and each is sent. -/
theorem call_ok {rooms : CInt → Option Int} {x : List Byte} {s : UserInfoEx × List Event} {r : List Byte}
    {log : List Event} {hs : List (List Byte)} (hV : View hashKey s r log) (hx : x.length ≤ 0x1000)
    (hk : Known sock fs rooms) (hC : ∀ v ∈ callTurns s (rooms, x), ShiftOk v.recv)
    (hG : ∀ f ∈ hs, Listed .second 0x1000 fs f)
    (hp : Pending (frameSize .second) hs r) (hw : r ++ x <+: hs.flatten) :
    OptRel (fun log' s' => View hashKey s' (drain (frameSize .second) ((r ++ x).length + 1) (r ++ x)).2 log')
      ((drain (frameSize .second) ((r ++ x).length + 1) (r ++ x)).1.foldlM
        (fun log f => some (log ++ [written sock hashKey f])) log) (call s (rooms, x)) := by
  have hr := residue_lt (by omega) hp fun f hf => (hG f hf).1
  obtain ⟨recv, hstart, hturns, hcall⟩ :=
    call_view rooms hV hx (by rw [show maxRecvBuffLen = 0x4000 from rfl]; omega)
  rw [hturns] at hC
  rw [hcall]
  have hloop := doWhile_drain (listed_framing .second 0x1000 fs) (turn_takes hashKey hk) hG hw (Nat.lt_succ_self _)
    hstart hC
  exact optRel_bind (hloop.imp fun _ _ h => ⟨rfl, h.sized.recv, h.window, h.log⟩)

theorem start_view (hashKey : CInt) {mem : List Byte} (hm : mem.length = maxRecvBuffLen) :
    View hashKey (start hashKey mem) [] [] :=
  ⟨rfl, ⟨hm, le_rfl, (by decide : (0 : Int) < maxRecvBuffLen)⟩, window_nil hm, rfl⟩

variable {mem : List Byte} {ops : List ((CInt → Option Int) × List Byte)}

/-- A whole stream: each frame that is taken is sent. -/
theorem run_ok (hashKey : CInt) (hm : mem.length = maxRecvBuffLen) (hf : ∀ f ∈ fs, IsFrame .second 0x1000 f)
    (ho : ∀ op ∈ ops, op.2.length ≤ 0x1000 ∧ Known sock fs op.1) (hcut : (ops.map Prod.snd).flatten = fs.flatten)
    (hC : ∀ v ∈ runTurns call callTurns (start hashKey mem) ops, ShiftOk v.recv) :
    ∃ s, ops.foldlM call (start hashKey mem) = some s ∧
      View hashKey s (feed (frameSize .second) [] (ops.map Prod.snd)).2
        ((taken (feed (frameSize .second) [] (ops.map Prod.snd)).1).map (written sock hashKey)) := by
  have hrun := run_feed (listed_framing .second 0x1000 fs) call Prod.snd
    (fun _ log f => some (log ++ [written sock hashKey f])) callTurns (V := View hashKey)
    (fun s r log op hs hV ho hC hG hp hw => call_ok hV ho.1 ho.2 hC hG hp hw) ho hC (fun f hf' => ⟨hf f hf', hf'⟩)
    hcut (.inl rfl) (start_view hashKey hm)
  rw [foldlM_taken, foldlM_log, List.nil_append] at hrun
  exact hrun.of_some

/-- One pack is written for each frame, in order, and what is left is no frame. -/
def SendsFrames (sock : CInt → Int) (hashKey : CInt) (mem : List Byte)
    (ops : List ((CInt → Option Int) × List Byte)) (frames : List StruCytPacket) : Prop :=
  ∃ s, ops.foldlM call (start hashKey mem) = some s ∧
    s.2 = (frames.map fun c => Event.write (sock c.roomId) (packOf hashKey c.wire).wire) ∧
    (StruCytPacket.fresh.parseFromArray s.1.recv.recvedBuff (cint s.1.recv.validBuffLen)).ret = false

/-- Where every move leaves the bytes of the stream, the frames are sent exactly if the
last is larger than 18 bytes. -/
theorem sendsFrames_iff (sock : CInt → Int) (hashKey : CInt) {mem : List Byte} (hm : mem.length = maxRecvBuffLen)
    {frames : List StruCytPacket} (hf : ∀ c ∈ frames, c.WellFormed ∧ c.wire.length ≤ 0x1000)
    {ops : List ((CInt → Option Int) × List Byte)}
    (ho : ∀ op ∈ ops, (1 ≤ op.2.length ∧ op.2.length ≤ 0x1000) ∧ ∀ c ∈ frames, op.1 c.roomId = some (sock c.roomId))
    (hcut : (ops.map Prod.snd).flatten = (frames.map StruCytPacket.wire).flatten)
    (hC : ∀ v ∈ runTurns call callTurns (start hashKey mem) ops, ShiftOk v.recv) :
    SendsFrames sock hashKey mem ops frames ↔ ∀ c ∈ frames.getLast?, 18 < c.wire.length := by
  have hG := StruCytPacket.isFrame_map hf
  have hroom : ∀ c ∈ frames, intAt c.wire 3 = c.roomId := by
    intro c hc
    obtain ⟨h, -⟩ := intAt_wire (hf c hc).1.head []
    rw [List.append_nil] at h
    exact h
  have hknown : ∀ op ∈ ops, op.2.length ≤ 0x1000 ∧ Known sock (frames.map StruCytPacket.wire) op.1 := by
    intro op hop
    refine ⟨(ho op hop).1.2, fun f hf' => ?_⟩
    obtain ⟨c, hc, rfl⟩ := List.mem_map.mp hf'
    rw [hroom c hc]
    exact (ho op hop).2 c hc
  have hlog : (frames.map fun c => Event.write (sock c.roomId) (packOf hashKey c.wire).wire) =
      (frames.map StruCytPacket.wire).map (written sock hashKey) := by
    rw [List.map_map]
    exact List.map_congr_left fun c hc => by rw [Function.comp_apply, written, hroom c hc]
  obtain ⟨s, e1, hV⟩ := run_ok hashKey hm hG hknown hcut hC
  rw [← StruCytPacket.getLast?_wire (P := fun f => 18 < f.length), ← taken_eq_iff hG hcut, SendsFrames, hlog]
  constructor
  · rintro ⟨s', h1, h2, -⟩
    rw [e1] at h1
    cases h1
    have hlen := congrArg List.length (hV.log.symm.trans h2)
    rw [List.length_map, List.length_map] at hlen
    exact (taken_first hG hcut).1.eq_of_length hlen
  · intro htaken
    rw [htaken] at hV
    refine ⟨s, e1, hV.log, ?_⟩
    have hnil := residue_eq_nil hG hcut htaken
    have hval := hV.window.toInt_cint
    rw [hnil] at hval
    exact congrArg Parsed.ret (congrArg (Parsed.map _) (parseFromArray_short (by rw [hval]; decide)))

/-- A read adds no more bytes than it has. -/
theorem recv_le {b b' : RecvBuff} {x : List Byte} {len : Nat} (hb : b.Ok) (h : b.recv x len = some b') :
    b'.validBuffLen ≤ b.validBuffLen + len := by
  have h0 := hb.nonneg
  rw [RecvBuff.recv] at h
  split at h <;> obtain ⟨buff, -, he⟩ := Option.bind_eq_some_iff.mp h <;> cases he
  · exact le_rfl
  · show (len : Int) ≤ _
    omega

/-- A turn begins with no more bytes than there were and were read. -/
theorem callTurns_le {s : UserInfoEx × List Event} {op : (CInt → Option Int) × List Byte} (hs : s.1.recv.Ok)
    (hx : op.2.length ≤ 0x1000) :
    ∀ v ∈ callTurns s op, v.recv.validBuffLen ≤ s.1.recv.validBuffLen + op.2.length := by
  obtain ⟨recv, d0, d1, d2, -⟩ := call_eq hs hx
  have hle := recv_le hs d1
  rw [d2]
  intro v hv
  have hinv := heads_inv (P := fun v => Sized v ∧ v.recv.validBuffLen ≤ recv.validBuffLen)
    (fun v v' hv h => ⟨(turn_keep hv.1 h).1, (turn_keep hv.1 h).2.1.trans hv.2⟩) ⟨start_sized d0 s.2, le_rfl⟩ v hv
  exact hinv.2.trans hle

/-- A call ends with no more. -/
theorem call_le {s s' : UserInfoEx × List Event} {op : (CInt → Option Int) × List Byte} (hs : s.1.recv.Ok)
    (hx : op.2.length ≤ 0x1000) (h : call s op = some s') :
    s'.1.recv.validBuffLen ≤ s.1.recv.validBuffLen + op.2.length := by
  obtain ⟨recv, d0, d1, -, d3⟩ := call_eq hs hx
  rw [d3, Option.bind_eq_some_iff] at h
  obtain ⟨v, h1, h2⟩ := h
  cases h2
  have hinv := doWhile_inv (P := fun v => Sized v ∧ v.recv.validBuffLen ≤ recv.validBuffLen)
    (fun v v' _ hv h => ⟨(turn_keep hv.1 h).1, (turn_keep hv.1 h).2.1.trans hv.2⟩) ⟨start_sized d0 s.2, le_rfl⟩ h1
  exact hinv.2.trans (recv_le hs d1)

/-- Where all that is read is at most 0x1000 bytes. -/
theorem shiftOk_run {ops : List ((CInt → Option Int) × List Byte)} {s : UserInfoEx × List Event} (hs : s.1.recv.Ok)
    (hl : s.1.recv.validBuffLen + ((ops.map Prod.snd).flatten.length : Nat) ≤ 0x1000) :
    ∀ v ∈ runTurns call callTurns s ops, ShiftOk v.recv := by
  induction ops generalizing s with
  | nil => exact List.forall_mem_nil _
  | cons op ops ih =>
    have h0 := hs.nonneg
    rw [List.map_cons, List.flatten_cons, List.length_append] at hl
    have hx : op.2.length ≤ 0x1000 := by omega
    intro v hv
    rw [runTurns, List.mem_append] at hv
    rcases hv with hv | hv
    · exact shiftOk_of_le ((callTurns_le hs hx v hv).trans (by omega))
    · rcases hcall : call s op with _ | s' <;> rw [hcall] at hv
      · cases hv
      · have hle := call_le hs hx hcall
        exact ih (call_keep hs hx hcall) (by omega) v hv

/-- A call whose read completes no frame. -/
theorem call_waits (rooms : CInt → Option Int) {x : List Byte} {s : UserInfoEx × List Event} {r : List Byte}
    {log : List Event} (hV : View hashKey s r log) (hx : x.length ≤ 0x1000)
    (hfit : r.length + x.length < maxRecvBuffLen) (h18 : 18 ≤ (r ++ x).length)
    (hl : (r ++ x).length < lenAt .second (r ++ x) + 18) (hi : lenAt .second (r ++ x) ≤ intMax - 18) :
    ∃ s', call s (rooms, x) = some s' ∧ View hashKey s' (r ++ x) log := by
  obtain ⟨b, hb, -, hcall⟩ := call_view rooms hV hx hfit
  have hval : b.validBuffLen = (r ++ x).length := hb.window.valid
  have hlen : lenAt .second b.recvedBuff = lenAt .second (r ++ x) := lenAt_window hb.window h18
  obtain ⟨q, hq⟩ := turn_stop rooms hashKey hb.sized (show Stops .second b from .inr (.inr ⟨by omega, by omega⟩))
  rw [doWhile_stop hq] at hcall
  exact ⟨_, hcall, rfl, hb.sized.recv, hb.window, rfl⟩

/-- A call whose read completes a frame of 0x1000 bytes: nothing is moved, and the loop
finds that frame's length again. -/
theorem call_late (rooms : CInt → Option Int) {x y : List Byte} {s : UserInfoEx × List Event} {r : List Byte}
    {log : List Event} (hV : View hashKey s r log) (hx : x.length ≤ 0x1000)
    (hfit : r.length + x.length < maxRecvBuffLen) {p : StruCytPacket} (hp : p.WellFormed)
    (hl : p.wire.length = 0x1000) (hw : r ++ x = p.wire ++ y) (hy : y.length < 0x1000) :
    ∃ s', call s (rooms, x) = some s' ∧ s'.2 = log ++ sent rooms hashKey p.wire := by
  have hI : intMax = 2 ^ 31 - 1 := rfl
  obtain ⟨b, hb, -, hcall⟩ := call_view rooms hV hx hfit
  rw [hw] at hb hcall
  have hwin : Window b.recvedBuff b.validBuffLen (p.wire ++ y) := hb.window
  have hval := hwin.valid
  rw [List.length_append] at hval
  obtain ⟨v, t1, hv, hrecv, hlog⟩ :=
    turn_next rooms hashKey hb.sized (show ¬ b.validBuffLen ≤ 18 by omega) hp hwin hl.le
  have hrecv : v.recv = ⟨b.recvedBuff, b.validBuffLen - p.wire.length⟩ := by
    have hsh : shifted b.recvedBuff p.wire.length = b.recvedBuff := by
      rw [shifted, hl]
      rfl
    exact hrecv.trans (congrArg (RecvBuff.mk · _) hsh)
  have hlen : lenAt .second b.recvedBuff = p.wire.length - 18 := by
    have hf : IsFrame .second 0x1000 p.wire := StruCytPacket.isFrame_iff.mpr ⟨p, hp, rfl, hl.le⟩
    rw [lenAt_window hwin (by rw [List.length_append]; omega), hf.lenAt_append]
  obtain ⟨q, t2⟩ := turn_stop rooms hashKey hv
    (by rw [hrecv]; exact .inr (.inr ⟨by simp only; omega, by simp only; omega⟩))
  obtain ⟨fuel, hfuel⟩ : ∃ k, (p.wire ++ y).length = k + 1 :=
    ⟨0xfff + y.length, by rw [List.length_append]; omega⟩
  rw [hfuel, doWhile_next t1, doWhile_stop t2] at hcall
  exact ⟨_, hcall, hlog⟩

open StruCytPacket (blank blank_ok)

/-- Two frames, cut in the second. -/
theorem sendsFrames_iff_cut :
    SendsFrames (fun _ => 5) 7 (List.replicate maxRecvBuffLen 0)
        [(fun _ => some 5, (blank 2).wire ++ (blank 1).wire.take 5), (fun _ => some 5, (blank 1).wire.drop 5)]
        [blank 2, blank 1] ↔ ∀ c ∈ [blank 2, blank 1].getLast?, 18 < c.wire.length := by
  have hmem : (List.replicate maxRecvBuffLen (0 : Byte)).length = maxRecvBuffLen := List.length_replicate
  refine sendsFrames_iff (fun _ => 5) 7 hmem (by simp [blank_ok]) ?_ (by decide) ?_
  · rw [List.forall_mem_cons, List.forall_mem_singleton]
    exact ⟨⟨by decide, fun _ _ => rfl⟩, by decide, fun _ _ => rfl⟩
  · exact shiftOk_run (start_view 7 hmem).recv (by decide)

/-- The reads of a frame and one of 19 bytes after it: the first is one byte short. -/
def lateReads (k : Nat) : List (List Byte) :=
  [(blank k).wire.take 0xfff, (blank k).wire.drop 0xfff ++ (blank 1).wire]

/-- A frame of 0x1000 bytes leaves nothing to move: the one after it is not sent. -/
theorem not_sendsFrames_lateReads {k : Nat} (hk : k + 18 = 0x1000) :
    (lateReads k).flatten = ([blank k, blank 1].map StruCytPacket.wire).flatten ∧
    (∀ x ∈ lateReads k, 1 ≤ x.length ∧ x.length ≤ 0x1000) ∧
    ¬ SendsFrames (fun _ => 5) 7 (List.replicate maxRecvBuffLen 0) ((lateReads k).map fun x => (fun _ => some 5, x))
      [blank k, blank 1] := by
  have hM : maxRecvBuffLen = 0x4000 := rfl
  have hI : intMax = 2 ^ 31 - 1 := rfl
  obtain ⟨hA, hlA⟩ := blank_ok (k := k) (by omega)
  obtain ⟨-, hlB⟩ := blank_ok (k := 1) (by omega)
  have h1 : ((blank k).wire.take 0xfff).length = 0xfff := by rw [List.length_take]; omega
  have h2 : ((blank k).wire.drop 0xfff ++ (blank 1).wire).length = 20 := by
    rw [List.length_append, List.length_drop]
    omega
  have hjoin : (blank k).wire.take 0xfff ++ ((blank k).wire.drop 0xfff ++ (blank 1).wire) =
      (blank k).wire ++ (blank 1).wire := by
    rw [← List.append_assoc, List.take_append_drop]
  have hlen : lenAt .second ((blank k).wire.take 0xfff) = (blank k).wire.length - 18 := by
    have hf : IsFrame .second 0x1000 (blank k).wire := StruCytPacket.isFrame_iff.mpr ⟨_, hA, rfl, by omega⟩
    have e := hf.lenAt_append []
    rw [List.append_nil, ← List.take_append_drop 0xfff (blank k).wire, lenAt_append_left (by omega),
      List.take_append_drop] at e
    exact e
  refine ⟨?_, ?_, ?_⟩
  · simpa only [lateReads, List.map_cons, List.map_nil, List.flatten_cons, List.flatten_nil, List.append_nil]
      using hjoin
  · simp only [lateReads, List.forall_mem_cons, h1, h2]
    exact ⟨by omega, by omega, nofun⟩
  rintro ⟨s, hrun, hlog, -⟩
  have hmem : (List.replicate maxRecvBuffLen (0 : Byte)).length = maxRecvBuffLen := List.length_replicate
  obtain ⟨s₁, c1, hV₁⟩ := call_waits (fun _ => some 5) (start_view 7 hmem) (h1.le.trans (by omega))
    (by rw [h1, hM]; decide) (by rw [List.nil_append]; omega) (by rw [List.nil_append]; omega)
    (by rw [List.nil_append]; omega)
  obtain ⟨s₂, c2, hlog₂⟩ := call_late (fun _ => some 5) hV₁ (h2.le.trans (by omega))
    (by rw [List.nil_append, h1, h2, hM]; decide) hA (by omega) hjoin (by omega)
  simp only [lateReads, List.map_cons, List.map_nil, List.foldlM_cons, List.foldlM_nil, c1, c2, Option.bind_eq_bind,
    Option.bind_some] at hrun
  cases hrun
  -- one event, for two frames
  have hcount := congrArg List.length (hlog₂.symm.trans hlog)
  cases hcount

/-- Two frames, of 0x1000 and 19 bytes: only the first is sent. -/
theorem not_sendsFrames_late :
    (∀ c ∈ [blank 4078, blank 1], c.WellFormed ∧ c.wire.length ≤ 0x1000) ∧
    (lateReads 4078).flatten = ([blank 4078, blank 1].map StruCytPacket.wire).flatten ∧
    (∀ x ∈ lateReads 4078, 1 ≤ x.length ∧ x.length ≤ 0x1000) ∧
    ¬ SendsFrames (fun _ => 5) 7 (List.replicate maxRecvBuffLen 0)
      ((lateReads 4078).map fun x => (fun _ => some 5, x)) [blank 4078, blank 1] := by
  refine ⟨?_, not_sendsFrames_lateReads rfl⟩
  intro c hc
  simp only [List.mem_cons, List.not_mem_nil, or_false] at hc
  rcases hc with rfl | rfl
  · obtain ⟨h1, h2⟩ := blank_ok (k := 4078) (by omega)
    exact ⟨h1, by omega⟩
  · obtain ⟨h1, h2⟩ := blank_ok (k := 1) (by omega)
    exact ⟨h1, by omega⟩

end Miku.GateServer.UserInfoEx
