import MikuServer.Framework.Stream
import MikuServer.Impl.RecvBuff
import MikuServer.Proof.Packet

/-!
# Packets in a receive buffer

`Window buff valid w`: a block of 0x4000 bytes has the bytes `w` at its front,
and `valid` counts them. `recv_ok` adds a read to them, `moveDown_ok` removes a
packet, and `window_cases` says what `ParseFromArray` may make of them.
`framing`: `frameSize`, which is what the loops make of the bytes, sees the
packets of a stream, but not one of 18 bytes that nothing follows.
-/

namespace Miku

namespace Fields

/-- The length of the packet at the front of `w`, if it is all there and not all there is of 18 bytes. -/
def frameSize (lf : LenField) (w : List Byte) : Option Nat :=
  if 18 < w.length ∧ 0 ≤ lenAt lf w ∧ lenAt lf w + 18 ≤ w.length then some ((lenAt lf w).toNat + 18) else none

/-- The wire of a well-formed packet, of at most `n` bytes. -/
def IsFrame (lf : LenField) (n : Nat) (f : List Byte) : Prop :=
  ∃ p : Fields, p.WellFormed lf ∧ f = p.wire ∧ f.length ≤ n

variable {lf : LenField} {n : Nat} {f w : List Byte}

theorem IsFrame.length_ge (h : IsFrame lf n f) : 18 ≤ f.length := by
  obtain ⟨p, hp, rfl, -⟩ := h
  rw [length_wire hp.head hp.tail]
  omega

theorem IsFrame.lenAt_append (h : IsFrame lf n f) (x : List Byte) : lenAt lf (f ++ x) = f.length - 18 := by
  obtain ⟨p, hp, rfl, -⟩ := h
  rw [lenAt_wire hp, length_wire hp.head hp.tail]
  omega

/-- The length field is in the first 18 bytes. -/
theorem lenAt_append_left (h : 18 ≤ w.length) (x : List Byte) : lenAt lf (w ++ x) = lenAt lf w := by
  have : lf.off + 4 ≤ 15 := by cases lf <;> decide
  rw [lenAt, intAt_append_left (by omega), lenAt]

theorem frameSize_append (h : IsFrame lf n f) {x : List Byte} (hl : 18 < (f ++ x).length) :
    frameSize lf (f ++ x) = some f.length := by
  have h18 := h.length_ge
  have hx : (f ++ x).length = f.length + x.length := List.length_append
  rw [frameSize, h.lenAt_append, if_pos ⟨hl, by omega, by omega⟩]
  congr 1
  omega

theorem framing (lf : LenField) (n : Nat) : Framing (frameSize lf) (IsFrame lf n) where
  nil := rfl
  ne_nil f h hf := by
    have := h.length_ge
    rw [hf] at this
    cases this
  front f x h hx := by
    refine frameSize_append h ?_
    have h18 := h.length_ge
    have := List.length_pos_of_ne_nil hx
    rw [List.length_append]
    omega
  whole f h := by
    by_cases hl : 18 < f.length
    · have := frameSize_append h (x := []) (by rwa [List.append_nil])
      rw [List.append_nil] at this
      exact .inr this
    · exact .inl (if_neg fun hc => hl hc.1)
  part f p h hp hne := by
    obtain ⟨x, rfl⟩ := hp
    refine if_neg fun ⟨h1, h2, h3⟩ => hne ?_
    have e := h.lenAt_append []
    rw [List.append_nil, lenAt_append_left h1.le, List.length_append] at e
    have : x.length = 0 := by omega
    rw [List.length_eq_zero_iff.mp this, List.append_nil]

/-- A frame that is one of `fs`. -/
def Listed (lf : LenField) (n : Nat) (fs : List (List Byte)) (f : List Byte) : Prop := IsFrame lf n f ∧ f ∈ fs

theorem listed_framing (lf : LenField) (n : Nat) (fs : List (List Byte)) :
    Framing (frameSize lf) (Listed lf n fs) where
  nil := (framing lf n).nil
  ne_nil f h := (framing lf n).ne_nil f h.1
  front f x h := (framing lf n).front f x h.1
  whole f h := (framing lf n).whole f h.1
  part f p h := (framing lf n).part f p h.1

theorem streams_of_listed {fs : List (List Byte)} (h : Streams (Listed lf n fs) w) :
    Streams (IsFrame lf n) w := by
  obtain ⟨hs, hG, hw⟩ := h
  exact ⟨hs, fun f hf => (hG f hf).1, hw⟩

/-- A frame that is not seen by itself has 18 bytes. -/
theorem IsFrame.frameSize_eq_none_iff (h : IsFrame lf n f) : frameSize lf f = none ↔ f.length = 18 := by
  have h18 := h.length_ge
  constructor
  · intro hn
    by_contra hc
    have := frameSize_append h (x := []) (by rw [List.append_nil]; omega)
    rw [List.append_nil, hn] at this
    cases this
  · exact fun he => if_neg fun hc => by omega

/-- What is left after a read is less than the largest frame. -/
theorem residue_lt (hn : 18 < n) {hs : List (List Byte)} {r : List Byte} (h : Pending (frameSize lf) hs r)
    (hG : ∀ f ∈ hs, IsFrame lf n f) : r.length < n := by
  refine h.length_lt (fun f hf => ⟨?_, fun h0 => ?_⟩) (by omega)
  · obtain ⟨-, -, -, h⟩ := hG f hf
    exact h
  · rw [(hG f hf).frameSize_eq_none_iff.mp h0]
    exact hn

variable {fs reads : List (List Byte)}

/-- The frames taken of a whole stream are its first, all of them or all but one. -/
theorem taken_first (hG : ∀ f ∈ fs, IsFrame lf n f) (hcut : reads.flatten = fs.flatten) :
    taken (feed (frameSize lf) [] reads).1 <+: fs ∧
      ((∀ f ∈ fs.getLast?, 18 < f.length) ↔ (taken (feed (frameSize lf) [] reads).1).length = fs.length) := by
  rcases feed_ok (framing lf n) hG hcut (.inl rfl) with ⟨h0, h1, -⟩ | ⟨gs, f, rfl, hs, h1, -⟩
  · rw [h1]
    refine ⟨List.prefix_rfl, fun _ => rfl, fun _ f hf => ?_⟩
    have hfr := hG f (List.mem_of_getLast? hf)
    have h18 := hfr.length_ge
    have := hfr.frameSize_eq_none_iff.not.mp (by rw [h0 f hf]; nofun)
    omega
  · rw [h1]
    refine ⟨List.prefix_append _ _, fun h => ?_, fun h => ?_⟩
    · have h18 := h f (List.getLast?_concat)
      rw [(hG f (by simp)).frameSize_eq_none_iff.mp hs] at h18
      omega
    · rw [List.length_append, List.length_singleton] at h
      omega

/-- They are all of them unless the last has 18 bytes. -/
theorem taken_eq_iff (hG : ∀ f ∈ fs, IsFrame lf n f) (hcut : reads.flatten = fs.flatten) :
    taken (feed (frameSize lf) [] reads).1 = fs ↔ ∀ f ∈ fs.getLast?, 18 < f.length := by
  obtain ⟨h1, h2⟩ := taken_first hG hcut
  rw [h2]
  exact ⟨fun h => by rw [h], fun h => h1.eq_of_length h⟩

/-- Then nothing is left. -/
theorem residue_eq_nil (hG : ∀ f ∈ fs, IsFrame lf n f) (hcut : reads.flatten = fs.flatten)
    (h : taken (feed (frameSize lf) [] reads).1 = fs) : (feed (frameSize lf) [] reads).2 = [] := by
  rcases feed_ok (framing lf n) hG hcut (.inl rfl) with ⟨-, -, h2⟩ | ⟨gs, f, rfl, -, h1, -⟩
  · exact h2
  · rw [h1] at h
    simp at h

/-- The length field at the front of a stream of frames is a frame's. -/
theorem lenAt_of_streams (h : Streams (IsFrame lf n) w) (hw : 18 < w.length) : lenAt lf w ≤ n - 18 := by
  obtain ⟨_ | ⟨f, hs⟩, hG, hp⟩ := h
  · rw [List.flatten_nil, List.prefix_nil] at hp
    rw [hp] at hw
    cases hw
  · obtain ⟨x, hx⟩ := hp
    have hf := hG f List.mem_cons_self
    have e := hf.lenAt_append hs.flatten
    obtain ⟨p, hp, rfl, hn⟩ := hf
    rw [List.flatten_cons] at hx
    rw [← hx, lenAt_append_left hw.le] at e
    omega

end Fields

/-! ## Windows -/

/-- A block of 0x4000 bytes, the first of them `w`. -/
structure Window (buff : List Byte) (valid : Int) (w : List Byte) : Prop where
  size : buff.length = maxRecvBuffLen
  valid : valid = w.length
  front : w <+: buff

variable {buff w f x : List Byte} {valid : Int}

theorem Window.length_le (h : Window buff valid w) : w.length ≤ maxRecvBuffLen := h.size ▸ h.front.length_le

theorem Window.take_eq (h : Window buff valid w) {k : Nat} (hk : k ≤ w.length) : buff.take k = w.take k := by
  obtain ⟨y, hy⟩ := h.front
  rw [← hy, List.take_append_of_le_length hk]

/-- Any block of the right size, with a length inside it. -/
theorem window_take (hs : buff.length = maxRecvBuffLen) (h0 : 0 ≤ valid) (hv : valid ≤ maxRecvBuffLen) :
    Window buff valid (buff.take valid.toNat) :=
  ⟨hs, by rw [List.length_take, min_eq_left (by omega)]; omega, List.take_prefix _ _⟩

theorem window_nil (h : buff.length = maxRecvBuffLen) : Window buff 0 [] := ⟨h, rfl, List.nil_prefix⟩

/-- `valid` as an `int`. -/
theorem Window.toInt_cint (h : Window buff valid w) : (cint valid).toInt = w.length := by
  have hl := h.length_le
  have hM : maxRecvBuffLen = 0x4000 := rfl
  rw [h.valid, Miku.toInt_cint (by omega) (by omega)]

/-- `tmp_read_buff` after a read: the bytes of it and zeros. -/
def padded (x : List Byte) : List Byte := x ++ List.replicate (0x1000 - x.length) 0

theorem length_padded (h : x.length ≤ 0x1000) : (padded x).length = 0x1000 := by
  rw [padded, List.length_append, List.length_replicate]
  omega

theorem readBuff_ok (h : x.length ≤ 0x1000) : readBuff x = some (padded x) := by
  rw [padded, readBuff, memcpy_front rfl (by rw [List.length_replicate]; exact h) le_rfl, List.take_length,
    List.drop_replicate]

/-- A read goes after the bytes that are there. -/
theorem recv_ok {b : RecvBuff} (h : Window b.recvedBuff b.validBuffLen w)
    (hx : w.length + x.length < maxRecvBuffLen) :
    ∃ b', b.recv (padded x) x.length = some b' ∧ Window b'.recvedBuff b'.validBuffLen (w ++ x) := by
  have hs := h.size
  obtain ⟨y, hy⟩ := h.front
  have e : splice b.recvedBuff 0 w = b.recvedBuff := by
    rw [splice_zero, ← hy, List.drop_left]
  have hc : memcpy (splice b.recvedBuff 0 w) b.validBuffLen (padded x) x.length =
      some (splice b.recvedBuff 0 (w ++ (padded x).take x.length)) :=
    memcpy_after h.valid rfl (by omega) (by rw [padded, List.length_append]; omega)
  rw [e, padded, List.take_left, ← padded] at hc
  refine ⟨⟨splice b.recvedBuff 0 (w ++ x), b.validBuffLen + x.length⟩, ?_, ?_, ?_, ?_⟩
  · rw [RecvBuff.recv, if_pos (by rw [h.valid]; omega), hc, Option.bind_eq_bind, Option.bind_some]
  · exact (length_splice (by rw [List.length_append]; omega)).trans hs
  · rw [List.length_append, h.valid]
    rfl
  · exact ⟨_, (splice_zero _ _).symm⟩

/-- A block of the right size, not full. -/
structure RecvBuff.Ok (b : RecvBuff) : Prop where
  size : b.recvedBuff.length = maxRecvBuffLen
  nonneg : 0 ≤ b.validBuffLen
  lt : b.validBuffLen < maxRecvBuffLen

/-- A read is put into the block wherever it goes. -/
theorem RecvBuff.Ok.recv {b : RecvBuff} (h : b.Ok) (hx : x.length ≤ 0x1000) :
    ∃ b', b.recv (padded x) x.length = some b' ∧ b'.Ok := by
  have hM : maxRecvBuffLen = 0x4000 := rfl
  obtain ⟨hs, h0, hv⟩ := h
  by_cases hfit : b.validBuffLen + x.length < maxRecvBuffLen
  · have hw := window_take hs h0 hv.le
    have hlen : (b.recvedBuff.take b.validBuffLen.toNat).length = b.validBuffLen := hw.valid.symm
    obtain ⟨b', e1, e2⟩ := recv_ok hw (x := x) (by omega)
    have hv' := e2.valid
    rw [List.length_append] at hv'
    exact ⟨b', e1, e2.size, by omega, by omega⟩
  · have hle : x.length ≤ (padded x).length := by rw [padded, List.length_append]; omega
    refine ⟨⟨(padded x).take x.length ++ b.recvedBuff.drop x.length, x.length⟩, ?_, ?_,
      Int.natCast_nonneg _, Nat.cast_lt.mpr (by omega)⟩
    · rw [RecvBuff.recv, if_neg hfit, memcpy_front rfl (by omega) hle]
      rfl
    · rw [List.length_append, List.length_take, List.length_drop]
      omega

/-- The bytes after a packet, moved to the front. -/
theorem moveDown_ok (h : Window buff valid (f ++ x)) {len : Int} (hl : len = f.length) :
    ∃ buff', moveDown buff len (valid - len) = some buff' ∧ Window buff' (valid - len) x := by
  have hs := h.size
  have hv := h.valid
  have hle := h.length_le
  rw [List.length_append] at hv hle
  obtain ⟨y, hy⟩ := h.front
  have hd : buff.drop len.toNat = x ++ y := by
    rw [hl, Int.toNat_natCast, ← hy, List.append_assoc, List.drop_left]
  refine ⟨x ++ buff.drop x.length, ?_, ?_, by omega, List.prefix_append _ _⟩
  · rw [moveDown, if_pos (by omega), hd, memcpy_front (k := x.length) (by omega) (by omega)
      (by rw [List.length_append]; omega), List.take_left]
  · rw [List.length_append, List.length_drop]
    omega

/-! ## Parsing a window -/

theorem within_map {α β : Type} (p : Parsed α) (g : α → β) (n : Nat) :
    (p.map g).within n = (p.within n).map (Prod.map id g) := by
  rcases p with ⟨ret, pack, reads⟩
  change (if inBounds n reads then some (ret, g pack) else none) =
    Option.map (Prod.map id g) (if inBounds n reads then some (ret, pack) else none)
  split <;> rfl

/-- The loop has no packet to take: at most 18 bytes, a negative length, or one that
is not all there. -/
def Stops (lf : LenField) (b : RecvBuff) : Prop :=
  b.validBuffLen ≤ 18 ∨ Fields.lenAt lf b.recvedBuff < 0 ∨
    Fields.lenAt lf b.recvedBuff ≤ intMax - 18 ∧ b.validBuffLen < Fields.lenAt lf b.recvedBuff + 18

/-- `ByteSize()` of the packet would be past `INT_MAX`. -/
def Overflows (lf : LenField) (b : RecvBuff) : Prop :=
  18 < b.validBuffLen ∧ intMax - 18 < Fields.lenAt lf b.recvedBuff

/-- The loop stops, or the packet it has is at most 0x1000 bytes. -/
def Fits (lf : LenField) (b : RecvBuff) : Prop := Stops lf b ∨ Fields.lenAt lf b.recvedBuff + 18 ≤ 0x1000

namespace Fields

variable {lf : LenField} {p : Fields} {n : CInt} {b : RecvBuff}

theorem not_fits_of_overflows (h : Overflows lf b) : ¬ Fits lf b := by
  have hM : intMax = 2 ^ 31 - 1 := rfl
  rw [Overflows] at h
  rw [Fits, Stops]
  omega

theorem fits_iff_of_packet (h : 18 < b.validBuffLen) (hw : Window b.recvedBuff b.validBuffLen (p.wire ++ x))
    (hl : lenAt lf b.recvedBuff + 18 = p.wire.length) (_h18 : 18 ≤ p.wire.length) :
    Fits lf b ↔ p.wire.length ≤ 0x1000 := by
  have hM : intMax = 2 ^ 31 - 1 := rfl
  have hv := hw.valid
  rw [List.length_append] at hv
  rw [Fits, Stops]
  omega

/-- A packet is read from its wire, whatever follows. -/
theorem within_wire (self : Fields) (hp : p.WellFormed lf) (x : List Byte) (hn : p.wire.length ≤ n.toInt) :
    (self.parseFromArray lf (p.wire ++ x) n).within (p.wire ++ x).length = some (true, p) := by
  obtain ⟨h1, h2⟩ := parse_wire self hp x hn
  rw [h1, Parsed.within, if_pos h2]

theorem within_front (self : Fields) (hp : p.WellFormed lf) (h : Window buff valid (p.wire ++ x)) :
    (self.parseFromArray lf buff (cint valid)).within buff.length = some (true, p) := by
  have hn := h.toInt_cint
  obtain ⟨y, hy⟩ := h.front
  rw [List.length_append] at hn
  rw [← hy, List.append_assoc]
  exact within_wire self hp (x ++ y) (by omega)

/-- Where the loop stops, no packet is read. -/
theorem within_stop (self : Fields) (h : Window b.recvedBuff b.validBuffLen w) (hs : Stops lf b)
    (hw : ¬ b.validBuffLen ≤ 18) :
    ∃ q, (self.parseFromArray lf b.recvedBuff (cint b.validBuffLen)).within b.recvedBuff.length =
      some (false, q) := by
  have hM : intMax = 2 ^ 31 - 1 := rfl
  have hn := h.toInt_cint
  have hv := h.valid
  have hle := h.front.length_le
  refine ⟨self.header b.recvedBuff, ?_⟩
  rw [parseFromArray_reject (by omega) (by rcases hs with hs | hs | hs <;> omega), Parsed.within,
    if_pos (inBounds_headerReads (by omega))]

/-- With a length past `INT_MAX - 18`, bytes past the block are read. -/
theorem within_overflow (self : Fields) (h : Window b.recvedBuff b.validBuffLen w) (ho : Overflows lf b) :
    (self.parseFromArray lf b.recvedBuff (cint b.validBuffLen)).within b.recvedBuff.length = none := by
  have hM : intMax = 2 ^ 31 - 1 := rfl
  have hB : maxRecvBuffLen = 0x4000 := rfl
  have hn := h.toInt_cint
  have hv := h.valid
  have hs := h.size
  obtain ⟨h1, h2⟩ := ho
  have hi : inBounds b.recvedBuff.length (packReads lf b.recvedBuff) = false :=
    inBounds_overflow (by omega) (by omega)
  rw [parseFromArray_overflow (by omega) (by omega), Parsed.within, if_neg (by rw [hi]; nofun)]

/-- What the loop finds: nothing to take, a length that overflows, or a packet. -/
theorem window_cases (lf : LenField) (h : Window b.recvedBuff b.validBuffLen w) :
    Stops lf b ∨ Overflows lf b ∨ 18 < b.validBuffLen ∧ ∃ (p : Fields) (x : List Byte),
      p.WellFormed lf ∧ w = p.wire ++ x ∧ lenAt lf b.recvedBuff + 18 = p.wire.length := by
  have hM : intMax = 2 ^ 31 - 1 := rfl
  have hv := h.valid
  have hle := h.front.length_le
  by_cases hs : Stops lf b
  · exact .inl hs
  by_cases ho : Overflows lf b
  · exact .inr (.inl ho)
  rw [Stops] at hs
  rw [Overflows] at ho
  have h0 : 0 ≤ lenAt lf b.recvedBuff := by omega
  have hl : lenAt lf b.recvedBuff + 18 ≤ b.validBuffLen := by omega
  have hwire : (ofWire lf b.recvedBuff).wire = b.recvedBuff.take ((lenAt lf b.recvedBuff).toNat + 18) :=
    wire_ofWire h0 (by omega)
  refine .inr (.inr ⟨by omega, ofWire lf b.recvedBuff, w.drop ((lenAt lf b.recvedBuff).toNat + 18),
    ofWire_wf h0 (by omega), ?_, ?_⟩)
  · rw [hwire, h.take_eq (by omega), List.take_append_drop]
  · rw [hwire, List.length_take, min_eq_left (by omega)]
    omega

/-- `ByteSize()` of the packet at the front. -/
theorem byteSize_front (hp : p.WellFormed lf) (h : Window buff valid (p.wire ++ x)) :
    (p.byteSize lf).toInt = p.wire.length := by
  have hM : maxRecvBuffLen = 0x4000 := rfl
  have hle := h.length_le
  rw [List.length_append, length_wire hp.head hp.tail] at hle
  exact toInt_byteSize_of_wf hp (by omega)

theorem lenAt_window (h : Window buff valid w) (hw : 18 ≤ w.length) : lenAt lf buff = lenAt lf w := by
  obtain ⟨y, hy⟩ := h.front
  rw [← hy, lenAt_append_left hw]

/-- The loop stops in a stream of frames where there is no frame to take. -/
theorem stops_of_streams {k : Nat} (hk : k ≤ maxRecvBuffLen) (h : Window b.recvedBuff b.validBuffLen w)
    (hs : Streams (IsFrame lf k) w) (hf : frameSize lf w = none) : Stops lf b := by
  have hM : intMax = 2 ^ 31 - 1 := rfl
  have hB : maxRecvBuffLen = 0x4000 := rfl
  have hv := h.valid
  by_cases hw : 18 < w.length
  · have hl := lenAt_of_streams hs hw
    have e : lenAt lf b.recvedBuff = lenAt lf w := lenAt_window h hw.le
    rw [frameSize] at hf
    rw [Stops, e]
    by_contra hc
    rw [if_pos (by omega)] at hf
    cases hf
  · exact .inl (by omega)

/-- There is more than a frame's least size where a frame is seen. -/
theorem length_of_frameSize {k : Nat} (h : frameSize lf w = some k) : 18 < w.length := by
  by_contra hc
  rw [frameSize, if_neg (by omega)] at h
  cases h

end Fields

namespace StruCytPacket

theorem within_eq (self : StruCytPacket) (data : List Byte) (n : CInt) (m : Nat) :
    (self.parseFromArray data n).within m =
      ((self.fields.parseFromArray .second data n).within m).map (Prod.map id ofFields) :=
  within_map _ _ _

theorem within_wire (self : StruCytPacket) {p : StruCytPacket} (hp : p.WellFormed) (x : List Byte) {n : CInt}
    (hn : p.wire.length ≤ n.toInt) :
    (self.parseFromArray (p.wire ++ x) n).within (p.wire ++ x).length = some (true, p) :=
  (within_eq _ _ _ _).trans (congrArg (Option.map _) (Fields.within_wire self.fields hp x hn))

theorem within_front (self : StruCytPacket) {p : StruCytPacket} (hp : p.WellFormed)
    (h : Window buff valid (p.wire ++ x)) :
    (self.parseFromArray buff (cint valid)).within buff.length = some (true, p) :=
  (within_eq _ _ _ _).trans (congrArg (Option.map _) (Fields.within_front self.fields hp h))

theorem within_stop (self : StruCytPacket) {b : RecvBuff} (h : Window b.recvedBuff b.validBuffLen w)
    (hs : Stops .second b) (hw : ¬ b.validBuffLen ≤ 18) :
    ∃ q, (self.parseFromArray b.recvedBuff (cint b.validBuffLen)).within b.recvedBuff.length =
      some (false, q) := by
  obtain ⟨q, hq⟩ := Fields.within_stop self.fields h hs hw
  exact ⟨ofFields q, (within_eq _ _ _ _).trans (congrArg (Option.map _) hq)⟩

theorem within_overflow (self : StruCytPacket) {b : RecvBuff} (h : Window b.recvedBuff b.validBuffLen w)
    (ho : Overflows .second b) :
    (self.parseFromArray b.recvedBuff (cint b.validBuffLen)).within b.recvedBuff.length = none :=
  (within_eq _ _ _ _).trans (congrArg (Option.map _) (Fields.within_overflow self.fields h ho))

/-- The wire of a well-formed packet of at most `n` bytes. -/
theorem isFrame_iff {n : Nat} : Fields.IsFrame .second n f ↔
    ∃ p : StruCytPacket, p.WellFormed ∧ f = p.wire ∧ f.length ≤ n :=
  ⟨fun ⟨p, h⟩ => ⟨ofFields p, h⟩, fun ⟨p, h⟩ => ⟨p.fields, h⟩⟩

variable {frames : List StruCytPacket}

theorem isFrame_map {n : Nat} (h : ∀ c ∈ frames, c.WellFormed ∧ c.wire.length ≤ n) :
    ∀ f ∈ frames.map wire, Fields.IsFrame .second n f := by
  intro f hf
  obtain ⟨c, hc, rfl⟩ := List.mem_map.mp hf
  exact isFrame_iff.mpr ⟨c, (h c hc).1, rfl, (h c hc).2⟩

theorem getLast?_wire {P : List Byte → Prop} :
    (∀ f ∈ (frames.map wire).getLast?, P f) ↔ ∀ c ∈ frames.getLast?, P c.wire := by
  rw [List.getLast?_map]
  cases frames.getLast? <;> simp

/-- A packet whose payload is `k` zeros. -/
def blank (k : Nat) : StruCytPacket := ⟨packHead, 16000, cint k, 6001, List.replicate k 0, packTail⟩

theorem blank_ok {k : Nat} (hk : k ≤ 0x2000) : (blank k).WellFormed ∧ (blank k).wire.length = k + 18 := by
  have hlen : (blank k).msgData.length = k := List.length_replicate
  have hw : (blank k).WellFormed :=
    ⟨rfl, rfl, (toInt_cint (v := k) (by omega) (by omega)).trans (congrArg Nat.cast hlen.symm)⟩
  exact ⟨hw, by rw [length_wire hw, hlen]⟩

end StruCytPacket

namespace GateRoomServerPack

theorem within_eq (self : GateRoomServerPack) (data : List Byte) (n : CInt) (m : Nat) :
    (self.parseFromArray data n).within m =
      ((self.fields.parseFromArray .third data n).within m).map (Prod.map id ofFields) :=
  within_map _ _ _

theorem within_wire (self : GateRoomServerPack) {p : GateRoomServerPack} (hp : p.WellFormed) (x : List Byte)
    {n : CInt} (hn : p.wire.length ≤ n.toInt) :
    (self.parseFromArray (p.wire ++ x) n).within (p.wire ++ x).length = some (true, p) :=
  (within_eq _ _ _ _).trans (congrArg (Option.map _) (Fields.within_wire self.fields hp x hn))

theorem within_front (self : GateRoomServerPack) {p : GateRoomServerPack} (hp : p.WellFormed)
    (h : Window buff valid (p.wire ++ x)) :
    (self.parseFromArray buff (cint valid)).within buff.length = some (true, p) :=
  (within_eq _ _ _ _).trans (congrArg (Option.map _) (Fields.within_front self.fields hp h))

theorem within_stop (self : GateRoomServerPack) {b : RecvBuff} (h : Window b.recvedBuff b.validBuffLen w)
    (hs : Stops .third b) (hw : ¬ b.validBuffLen ≤ 18) :
    ∃ q, (self.parseFromArray b.recvedBuff (cint b.validBuffLen)).within b.recvedBuff.length =
      some (false, q) := by
  obtain ⟨q, hq⟩ := Fields.within_stop self.fields h hs hw
  exact ⟨ofFields q, (within_eq _ _ _ _).trans (congrArg (Option.map _) hq)⟩

theorem within_overflow (self : GateRoomServerPack) {b : RecvBuff} (h : Window b.recvedBuff b.validBuffLen w)
    (ho : Overflows .third b) :
    (self.parseFromArray b.recvedBuff (cint b.validBuffLen)).within b.recvedBuff.length = none :=
  (within_eq _ _ _ _).trans (congrArg (Option.map _) (Fields.within_overflow self.fields h ho))

theorem isFrame_iff {n : Nat} : Fields.IsFrame .third n f ↔
    ∃ p : GateRoomServerPack, p.WellFormed ∧ f = p.wire ∧ f.length ≤ n :=
  ⟨fun ⟨p, h⟩ => ⟨ofFields p, h⟩, fun ⟨p, h⟩ => ⟨p.fields, h⟩⟩

end GateRoomServerPack

/-! ## The gate's packet -/

namespace GateRoomServerPack

variable {h : CInt} {k : Nat} {data : List Byte}

theorem wrap_dataMsg (h0 : 0 < k) : (wrap h data k).dataMsg = data.take k := by
  rw [wrap, setData, if_pos (by omega), Int.toNat_natCast]

theorem wrap_take (h0 : 0 < k) : wrap h (data.take k) k = wrap h data k := by
  rw [wrap, wrap, setData, setData, if_pos (by omega), if_pos (by omega), Int.toNat_natCast, List.take_take,
    min_self]

theorem wrap_wf (h0 : 0 < k) (hk : k ≤ data.length) (hl : k < 2 ^ 31) :
    (wrap h data k).WellFormed ∧ (wrap h data k).wire.length = k + 18 := by
  have hm : (wrap h data k).dataMsg.length = k := by
    rw [wrap_dataMsg h0, List.length_take, min_eq_left hk]
  have hw : (wrap h data k).WellFormed :=
    ⟨rfl, rfl, (toInt_cint (v := k) (by omega) (by omega)).trans (congrArg Nat.cast hm.symm)⟩
  exact ⟨hw, by rw [length_wire hw, hm]⟩

end GateRoomServerPack

end Miku
