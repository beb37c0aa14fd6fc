import MikuServer.Impl.GateUser
import MikuServer.Proof.Frames

/-!
# The gate's framing

`send_ok` is what is done with a frame, and `turn_stop`, `turn_overflow`,
`turn_long` and `turn_next` are the ways a turn of `DealWithData`'s loop ends.
After a frame of `k` bytes the loop moves `0x1000 - k` bytes down, whatever
`valid_buff_len_` is: `shifted_window` says when the bytes left are then those of
the stream.
-/

namespace Miku.GateServer.UserInfoEx

open Fields

/-- What is logged for a frame. -/
def sent (rooms : CInt → Option Int) (hashKey : CInt) (f : List Byte) : List Event :=
  match rooms (intAt f 3) with
  | some sock => [.write sock (GateRoomServerPack.wrap hashKey f f.length).wire]
  | none =>
    if intAt f 11 = eUserLoginRq then
      [.sendQueryRoom (intAt f 3), .addOneUndealPack f (intAt f 3) hashKey]
    else []

/-- The loop's variables have their sizes. -/
structure Sized (v : Vars) : Prop where
  recv : v.recv.Ok
  packData : v.tmpPackData.length = 0x1000
  sendBuff : v.tmpSendBuff.length = 0x2000

variable {rooms : CInt → Option Int} {hashKey : CInt}

theorem send_ok (rooms : CInt → Option Int) (hashKey : CInt) {v : Vars} (hp : v.tmpCytPack.WellFormed)
    (hd : v.tmpCytPack.wire <+: v.tmpPackData) (hl : v.tmpCytPack.wire.length ≤ 0x1000)
    (hs : v.tmpSendBuff.length = 0x2000) :
    ∃ v', send rooms hashKey v v.tmpCytPack.wire.length = some v' ∧ v'.recv = v.recv ∧
      v'.tmpPackData = v.tmpPackData ∧ v'.tmpSendBuff.length = 0x2000 ∧
      v'.log = v.log ++ sent rooms hashKey v.tmpCytPack.wire := by
  have h18 := StruCytPacket.length_wire hp
  obtain ⟨hroom, -, htype⟩ := intAt_wire hp.head []
  rw [List.append_nil] at hroom htype
  have hroom : intAt v.tmpCytPack.wire 3 = v.tmpCytPack.roomId := hroom
  have htype : intAt v.tmpCytPack.wire 11 = v.tmpCytPack.msgType := htype
  have htake : v.tmpPackData.take v.tmpCytPack.wire.length = v.tmpCytPack.wire :=
    (List.prefix_iff_eq_take.mp hd).symm
  rw [send, sent, hroom, htype]
  rcases rooms v.tmpCytPack.roomId with _ | sock
  · by_cases hlogin : v.tmpCytPack.msgType = eUserLoginRq
    · simp only [if_pos hlogin, Int.toNat_natCast, htake]
      exact ⟨_, rfl, rfl, rfl, hs, rfl⟩
    · simp only [if_neg hlogin]
      exact ⟨v, rfl, rfl, rfl, hs, (List.append_nil _).symm⟩
  · obtain ⟨g, hg⟩ : ∃ g, GateRoomServerPack.wrap hashKey v.tmpPackData v.tmpCytPack.wire.length = g := ⟨_, rfl⟩
    obtain ⟨hw, hlen⟩ := GateRoomServerPack.wrap_wf (h := hashKey) (show 0 < v.tmpCytPack.wire.length by omega)
      hd.length_le (by omega)
    have hwire : (GateRoomServerPack.wrap hashKey v.tmpCytPack.wire v.tmpCytPack.wire.length) = g := by
      conv_lhs => rw [← htake, List.length_take, min_eq_left hd.length_le]
      rw [GateRoomServerPack.wrap_take (by omega), hg]
    rw [hg] at hw hlen
    have hsize := GateRoomServerPack.toInt_byteSize hw (by omega)
    have hser := GateRoomServerPack.serialize_ok hw (show g.wire.length ≤ v.tmpSendBuff.length by omega)
    simp only [hg, hser, hsize, hwire, Option.bind_eq_bind, Option.bind_some, if_true, Int.toNat_natCast,
      List.take_left]
    refine ⟨_, rfl, rfl, rfl, ?_, rfl⟩
    simp only [List.length_append, List.length_drop]
    omega

/-- A block after the first `k` bytes are removed from its first 0x1000. -/
def shifted (buff : List Byte) (k : Nat) : List Byte := (buff.drop k).take (0x1000 - k) ++ buff.drop (0x1000 - k)

variable {buff x f : List Byte} {valid : Int}

theorem length_shifted {k : Nat} (hk : k ≤ 0x1000) (hb : buff.length = maxRecvBuffLen) :
    (shifted buff k).length = maxRecvBuffLen := by
  have hM : maxRecvBuffLen = 0x4000 := rfl
  simp only [shifted, List.length_append, List.length_take, List.length_drop]
  omega

theorem moveDown_shifted {k : Nat} (hk : k ≤ 0x1000) (hb : buff.length = maxRecvBuffLen) :
    moveDown buff k (0x1000 - k) = some (shifted buff k) := by
  have hM : maxRecvBuffLen = 0x4000 := rfl
  rw [moveDown, if_pos (by omega), Int.toNat_natCast, memcpy_front (k := 0x1000 - k) (by omega) (by omega)
    (by rw [List.length_drop]; omega), shifted]

theorem getElem?_shifted {k : Nat} (hk : k ≤ 0x1000) (hb : buff.length = maxRecvBuffLen) (j : Nat) :
    (shifted buff k)[j]? = if j + k < 0x1000 then buff[j + k]? else buff[j]? := by
  have hM : maxRecvBuffLen = 0x4000 := rfl
  have hl : ((buff.drop k).take (0x1000 - k)).length = 0x1000 - k := by
    rw [List.length_take, List.length_drop]
    omega
  rw [shifted]
  split
  · rw [List.getElem?_append_left (by omega), List.getElem?_take_of_lt (by omega), List.getElem?_drop,
      Nat.add_comm]
  · rw [List.getElem?_append_right (by omega), hl, List.getElem?_drop]
    congr 1
    omega

/-- The bytes left are those of the stream exactly if every byte to use from 0x1000
on equals the one `k` bytes before it. -/
theorem shifted_window (h : Window buff valid (f ++ x)) (hf : f.length ≤ 0x1000) :
    Window (shifted buff f.length) (valid - f.length) x ↔
      ∀ i : Nat, 0x1000 ≤ i → i < valid → buff[i]? = buff[i - f.length]? := by
  have hv := h.valid
  rw [List.length_append] at hv
  have hle := h.length_le
  rw [List.length_append] at hle
  have hx (j : Nat) (hj : j < x.length) : x[j]? = buff[j + f.length]? := by
    obtain ⟨y, hy⟩ := h.front
    rw [← hy, List.append_assoc, List.getElem?_append_right (by omega), List.getElem?_append_left (by omega),
      Nat.add_sub_cancel]
  have hpre : x <+: shifted buff f.length ↔ ∀ j < x.length, (shifted buff f.length)[j]? = x[j]? := by
    rw [List.prefix_iff_getElem?]
    exact forall₂_congr fun j hj => by rw [List.getElem?_eq_getElem hj]
  have hiff : x <+: shifted buff f.length ↔
      ∀ i : Nat, 0x1000 ≤ i → i < valid → buff[i]? = buff[i - f.length]? := by
    rw [hpre]
    constructor
    · intro hj i h1 h2
      have := hj (i - f.length) (by omega)
      rw [getElem?_shifted hf h.size, if_neg (by omega), hx _ (by omega), Nat.sub_add_cancel (by omega)] at this
      exact this.symm
    · intro hi j hj
      rw [getElem?_shifted hf h.size, hx j hj]
      split
      · rfl
      · have := hi (j + f.length) (by omega) (by omega)
        rw [Nat.add_sub_cancel] at this
        exact this.symm
  rw [← hiff]
  exact ⟨fun hw => hw.front, fun hp => ⟨length_shifted hf h.size, by omega, hp⟩⟩

/-! ## Turns -/

variable {v : Vars}

theorem Sized.window (hv : Sized v) :
    Window v.recv.recvedBuff v.recv.validBuffLen (v.recv.recvedBuff.take v.recv.validBuffLen.toNat) :=
  window_take hv.recv.size hv.recv.nonneg hv.recv.lt.le

theorem turn_stop (rooms : CInt → Option Int) (hashKey : CInt) (hv : Sized v) (hs : Stops .second v.recv) :
    ∃ q, turn rooms hashKey v = some ({ v with tmpCytPack := q }, false) := by
  by_cases hw : v.recv.validBuffLen ≤ 18
  · exact ⟨v.tmpCytPack, by rw [turn, if_pos hw]⟩
  · obtain ⟨q, hq⟩ := v.tmpCytPack.within_stop hv.window hs hw
    refine ⟨q, ?_⟩
    simp only [turn, if_neg hw, hq, Option.bind_eq_bind, Option.bind_some]
    rfl

theorem turn_overflow (hv : Sized v) (ho : Overflows .second v.recv) : turn rooms hashKey v = none := by
  have hw := v.tmpCytPack.within_overflow hv.window ho
  simp only [turn, if_neg (show ¬ v.recv.validBuffLen ≤ 18 by have := ho.1; omega), hw, Option.bind_eq_bind,
    Option.bind_none]

variable {p : StruCytPacket}

/-- A frame larger than `tmp_pack_data` is copied past its end. -/
theorem turn_long (hv : Sized v) (h18 : ¬ v.recv.validBuffLen ≤ 18) (hp : p.WellFormed)
    (hw : Window v.recv.recvedBuff v.recv.validBuffLen (p.wire ++ x)) (hl : 0x1000 < p.wire.length) :
    turn rooms hashKey v = none := by
  have hsize : p.byteSize.toInt = p.wire.length := byteSize_front hp hw
  have hc : memcpy v.tmpPackData 0 v.recv.recvedBuff p.wire.length = none :=
    memcpy_eq_none (show v.tmpPackData.length < 0 + p.wire.length by rw [hv.packData]; omega)
  simp only [turn, if_neg h18, v.tmpCytPack.within_front hp hw, Option.bind_eq_bind, Option.bind_some, if_true, hsize,
    hc, Option.bind_none]

/-- A frame that is not is sent on, and the bytes after it are moved down. -/
theorem turn_next (rooms : CInt → Option Int) (hashKey : CInt) (hv : Sized v) (h18 : ¬ v.recv.validBuffLen ≤ 18)
    (hp : p.WellFormed) (hw : Window v.recv.recvedBuff v.recv.validBuffLen (p.wire ++ x))
    (hl : p.wire.length ≤ 0x1000) :
    ∃ v', turn rooms hashKey v = some (v', true) ∧ Sized v' ∧
      v'.recv = ⟨shifted v.recv.recvedBuff p.wire.length, v.recv.validBuffLen - p.wire.length⟩ ∧
      v'.log = v.log ++ sent rooms hashKey p.wire := by
  have hM : maxRecvBuffLen = 0x4000 := rfl
  have hsize : p.byteSize.toInt = p.wire.length := byteSize_front hp hw
  have hb := hv.recv.size
  have hlt := hv.recv.lt
  have hval := hw.valid
  have hfr := hw.front.length_le
  rw [List.length_append] at hval hfr
  have htake : v.recv.recvedBuff.take p.wire.length = p.wire := by
    rw [hw.take_eq (by rw [List.length_append]; omega), List.take_left]
  have hc : memcpy v.tmpPackData 0 v.recv.recvedBuff p.wire.length =
      some (p.wire ++ v.tmpPackData.drop p.wire.length) := by
    rw [memcpy_front rfl (by rw [hv.packData]; exact hl) (by omega), htake]
  have hmove := moveDown_shifted hl hb
  obtain ⟨v', e1, e2, e3, e4, e5⟩ := send_ok rooms hashKey
    (v := ⟨⟨shifted v.recv.recvedBuff p.wire.length, v.recv.validBuffLen - p.wire.length⟩, p,
      p.wire ++ v.tmpPackData.drop p.wire.length, v.tmpSendBuff, v.log⟩) hp (List.prefix_append _ _) hl hv.sendBuff
  refine ⟨v', ?_, ⟨?_, ?_, e4⟩, e2, e5⟩
  · simp only [turn, if_neg h18, v.tmpCytPack.within_front hp hw, Option.bind_eq_bind, Option.bind_some, if_true,
      hsize, hc, hmove, e1]
  · rw [e2]
    exact ⟨length_shifted hl hb, by simp only; omega, by simp only; omega⟩
  · rw [e3, List.length_append, List.length_drop, hv.packData]
    omega

/-- A turn stays inside its buffers exactly if what it finds fits. -/
theorem turn_isSome_iff (hv : Sized v) : (turn rooms hashKey v).isSome ↔ Fits .second v.recv := by
  rcases window_cases .second hv.window with hs | ho | ⟨h18, p, x, hp, hw, hl⟩
  · obtain ⟨q, hq⟩ := turn_stop rooms hashKey hv hs
    rw [hq]
    exact ⟨fun _ => .inl hs, fun _ => rfl⟩
  · rw [turn_overflow hv ho]
    exact ⟨nofun, fun h => absurd h (not_fits_of_overflows ho)⟩
  · have hwin := hv.window
    rw [hw] at hwin
    have hlen := length_wire hp.head hp.tail
    rw [fits_iff_of_packet h18 hwin hl (by omega)]
    have hp' : (StruCytPacket.ofFields p).WellFormed := hp
    by_cases hfit : p.wire.length ≤ 0x1000
    · obtain ⟨v', e1, -⟩ := turn_next rooms hashKey hv (by omega) hp' hwin hfit
      rw [e1]
      exact ⟨fun _ => hfit, fun _ => rfl⟩
    · rw [turn_long hv (by omega) hp' hwin (Nat.lt_of_not_le hfit)]
      exact ⟨nofun, fun h => absurd h hfit⟩

/-- A turn keeps the sizes, and goes on with fewer bytes. -/
theorem turn_keep (hv : Sized v) {v' : Vars} {go : Bool} (h : turn rooms hashKey v = some (v', go)) :
    Sized v' ∧ v'.recv.validBuffLen ≤ v.recv.validBuffLen ∧
      (go = true → v'.recv.validBuffLen < v.recv.validBuffLen) := by
  rcases window_cases .second hv.window with hs | ho | ⟨h18, p, x, hp, hw, hl⟩
  · obtain ⟨q, hq⟩ := turn_stop rooms hashKey hv hs
    rw [hq] at h
    cases h
    exact ⟨⟨hv.recv, hv.packData, hv.sendBuff⟩, le_rfl, nofun⟩
  · rw [turn_overflow hv ho] at h
    cases h
  · have hwin := hv.window
    rw [hw] at hwin
    have hlen := length_wire hp.head hp.tail
    have hp' : (StruCytPacket.ofFields p).WellFormed := hp
    by_cases hfit : p.wire.length ≤ 0x1000
    · obtain ⟨w, e1, e2, e3, -⟩ := turn_next rooms hashKey hv (by omega) hp' hwin hfit
      rw [e1] at h
      cases h
      have e4 : v'.recv.validBuffLen = v.recv.validBuffLen - p.wire.length := by rw [e3]; rfl
      exact ⟨e2, by omega, fun _ => by omega⟩
    · rw [turn_long hv (by omega) hp' hwin (Nat.lt_of_not_le hfit)] at h
      cases h

/-! ## Calls -/

/-- A call of `DealWithData`: the rooms there are, and the bytes it reads. -/
def call (s : UserInfoEx × List Event) (op : (CInt → Option Int) × List Byte) :
    Option (UserInfoEx × List Event) := s.1.dealWithData op.1 s.2 op.2

/-- The variables as each turn of the call's loop begins. -/
def callTurns (s : UserInfoEx × List Event) (op : (CInt → Option Int) × List Byte) : List Vars :=
  match (readBuff op.2).bind fun t => s.1.recv.recv t op.2.length with
  | none => []
  | some recv => heads (turn op.1 s.1.hashKey) (recv.validBuffLen.toNat + 1) (.start recv s.2)

variable {s : UserInfoEx × List Event} {op : (CInt → Option Int) × List Byte}

theorem start_sized {recv : RecvBuff} (h : recv.Ok) (log : List Event) : Sized (.start recv log) :=
  ⟨h, List.length_replicate, List.length_replicate⟩

/-- A call after its read. -/
theorem call_eq (hs : s.1.recv.Ok) (hx : op.2.length ≤ 0x1000) :
    ∃ recv : RecvBuff, recv.Ok ∧ s.1.recv.recv (padded op.2) op.2.length = some recv ∧
      callTurns s op = heads (turn op.1 s.1.hashKey) (recv.validBuffLen.toNat + 1) (.start recv s.2) ∧
      call s op = (doWhile (turn op.1 s.1.hashKey) (recv.validBuffLen.toNat + 1) (.start recv s.2)).bind
        fun v => some ({ s.1 with recv := v.recv }, v.log) := by
  obtain ⟨recv, e1, e2⟩ := hs.recv hx
  refine ⟨recv, e2, e1, ?_, ?_⟩
  · rw [callTurns, readBuff_ok hx, Option.bind_some, e1]
  · rw [call, dealWithData, readBuff_ok hx, Option.bind_eq_bind, Option.bind_some, e1, Option.bind_eq_bind,
      Option.bind_some]
    rfl

theorem call_isSome_iff (hs : s.1.recv.Ok) (hx : op.2.length ≤ 0x1000) :
    (call s op).isSome ↔ ∀ t ∈ callTurns s op, Fits .second t.recv := by
  obtain ⟨recv, hr, -, e2, e3⟩ := call_eq hs hx
  have hstart := start_sized hr s.2
  have hloop : (doWhile (turn op.1 s.1.hashKey) (recv.validBuffLen.toNat + 1) (.start recv s.2)).isSome ↔
      ∀ t ∈ heads (turn op.1 s.1.hashKey) (recv.validBuffLen.toNat + 1) (.start recv s.2), Fits .second t.recv := by
    refine isSome_doWhile_iff (fun v => v.recv.validBuffLen.toNat) (fun v v' hv h => ?_)
      (fun v hv => turn_isSome_iff hv) hstart (Nat.lt_succ_self _)
    obtain ⟨h1, -, h2⟩ := turn_keep hv h
    have := h1.recv.nonneg
    have := h2 rfl
    exact ⟨h1, by omega⟩
  rw [e2, e3, isSome_bind_some, hloop]

/-- A call keeps the block's size, and `valid_buff_len_` inside it. -/
theorem call_keep (hs : s.1.recv.Ok) (hx : op.2.length ≤ 0x1000) {s' : UserInfoEx × List Event}
    (h : call s op = some s') : s'.1.recv.Ok := by
  obtain ⟨recv, hr, -, -, e3⟩ := call_eq hs hx
  rw [e3, Option.bind_eq_some_iff] at h
  obtain ⟨v, h1, h2⟩ := h
  cases h2
  exact (doWhile_inv (fun v v' _ hv h => (turn_keep hv h).1) (start_sized hr s.2) h1).recv

/-- A connection as it begins. -/
def start (hashKey : CInt) (mem : List Byte) : UserInfoEx × List Event := (⟨hashKey, .new mem⟩, [])

/-- Every read is dealt with inside the buffers exactly if every turn finds what fits. -/
theorem always_call_iff (hashKey : CInt) {mem : List Byte} (hm : mem.length = maxRecvBuffLen)
    {ops : List ((CInt → Option Int) × List Byte)} (ho : ∀ op ∈ ops, 1 ≤ op.2.length ∧ op.2.length ≤ 0x1000) :
    Always call (fun s => 0 ≤ s.1.recv.validBuffLen ∧ s.1.recv.validBuffLen < 0x4000) (start hashKey mem) ops ↔
      ∀ v ∈ runTurns call callTurns (start hashKey mem) ops, Fits .second v.recv :=
  always_iff (P := fun s => s.1.recv.Ok) (fun s op s' hs hx h => call_keep hs hx.2 h)
    (fun s hs => ⟨hs.nonneg, hs.lt⟩) (fun s op hs hx => call_isSome_iff hs hx.2) ho
    ⟨hm, le_rfl, (by decide : (0 : Int) < maxRecvBuffLen)⟩

end Miku.GateServer.UserInfoEx
