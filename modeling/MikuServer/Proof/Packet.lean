import MikuServer.Impl.Packet

/-!
# The packets' codec

`Fields.wire` is a packet as the wire has it, and `Fields.ofWire` the packet an
array starts with. `serializeToArray_eq`: a packet whose length field is right
is written as its `wire`. `parseFromArray_ok`, `parseFromArray_reject` and
`parseFromArray_overflow` are the three ways `ParseFromArray` ends: `ByteSize()`
is the size of the packet only while the length field is at most
`INT_MAX - 18`, and past it a negative number, which no array is too short for.
-/

namespace Miku

/-- The bytes at offset `i` are read. -/
def ReadsAt (as : List Access) (i : Nat) : Prop := ∃ a ∈ as, a.off ≤ i ∧ i < a.off + a.len

theorem readsAt_lt {as : List Access} {n i : Nat} (h : inBounds n as = true) (hi : ReadsAt as i) : i < n := by
  obtain ⟨a, ha, -, h2⟩ := hi
  have := inBounds_iff.mp h a ha
  omega

namespace Fields

/-- The packet on the wire. -/
def wire (f : Fields) : List Byte :=
  f.head ++ leBytes f.w₀ ++ leBytes f.w₁ ++ leBytes f.w₂ ++ f.body ++ f.tail

/-- The length field of the packet an array starts with. -/
def lenAt (lf : LenField) (data : List Byte) : Int := (intAt data lf.off).toInt

/-- The packet an array starts with. -/
def ofWire (lf : LenField) (data : List Byte) : Fields where
  head := slice data 0 3
  w₀ := intAt data 3
  w₁ := intAt data 7
  w₂ := intAt data 11
  body := slice data 15 (lenAt lf data).toNat
  tail := slice data (15 + (lenAt lf data).toNat) 3

/-- A packet with 3 bytes of head and tail, and a length field that is the
payload's length. -/
structure WellFormed (lf : LenField) (f : Fields) : Prop where
  head : f.head.length = 3
  tail : f.tail.length = 3
  len : (lf.get f).toInt = f.body.length

theorem length_wire {f : Fields} (hh : f.head.length = 3) (ht : f.tail.length = 3) :
    f.wire.length = f.body.length + 18 := by
  simp only [wire, List.length_append, length_leBytes]
  omega

/-- `ByteSize()` wraps around on the length fields above `INT_MAX - 18`. -/
theorem toInt_byteSize (lf : LenField) (f : Fields) :
    (f.byteSize lf).toInt =
      if (lf.get f).toInt + 18 < 2 ^ 31 then (lf.get f).toInt + 18 else (lf.get f).toInt + 18 - 2 ^ 32 := by
  have hb := toInt_bounds (lf.get f)
  have e : f.byteSize lf = lf.get f + 18 := by
    simp only [byteSize]
    rw [BitVec.add_comm _ (lf.get f), BitVec.add_assoc]
    rfl
  rw [e, BitVec.toInt_add, show (18 : CInt).toInt = 18 from rfl]
  split
  · exact Int.bmod_eq_of_le (by omega) (by omega)
  · rw [← Int.sub_bmod_right, Int.bmod_eq_of_le (by omega) (by omega)]
    rfl

theorem toInt_byteSize_of_wf {lf : LenField} {f : Fields} (h : f.WellFormed lf)
    (hs : f.body.length + 18 < 2 ^ 31) : (f.byteSize lf).toInt = f.wire.length := by
  rw [toInt_byteSize, if_pos (by rw [h.len]; omega), h.len, length_wire h.head h.tail]
  omega

/-! ## Reading -/

/-- The reads `ParseFromArray` makes before it looks at the length. -/
def headerReads : List Access := [⟨0, 3⟩, ⟨3, 4⟩, ⟨7, 4⟩, ⟨11, 4⟩]

/-- All the reads of a packet it accepts. -/
def packReads (lf : LenField) (data : List Byte) : List Access :=
  headerReads ++ [⟨15, (lenAt lf data).toNat⟩, ⟨15 + (lenAt lf data).toNat, 3⟩]

theorem inBounds_headerReads {n : Nat} (h : 18 ≤ n) : inBounds n headerReads = true := by
  simp only [inBounds_iff, headerReads, List.mem_cons, List.not_mem_nil, or_false]
  rintro a (rfl | rfl | rfl | rfl) <;> simp only <;> omega

/-- The fields of the header as `ParseFromArray` stores them. -/
def header (self : Fields) (data : List Byte) : Fields :=
  { self with head := slice data 0 3, w₀ := intAt data 3, w₁ := intAt data 7, w₂ := intAt data 11 }

theorem get_header (lf : LenField) (self : Fields) (data : List Byte) :
    (lf.get (self.header data)).toInt = lenAt lf data := by
  cases lf <;> rfl

variable {lf : LenField} {self : Fields} {data : List Byte} {n : CInt}

theorem parseFromArray_short (h : n.toInt < 18) : self.parseFromArray lf data n = ⟨false, self, []⟩ := by
  rw [parseFromArray, if_pos h]

/-- `ParseFromArray` after its first test. -/
theorem parseFromArray_long (h : 18 ≤ n.toInt) :
    self.parseFromArray lf data n =
      if lenAt lf data < 0 ∨ n.toInt < ((self.header data).byteSize lf).toInt then
        ⟨false, self.header data, headerReads⟩
      else ⟨true, ofWire lf data, packReads lf data⟩ := by
  rw [parseFromArray, if_neg (by omega)]
  cases lf <;> rfl

theorem parseFromArray_reject (h : 18 ≤ n.toInt)
    (hl : lenAt lf data < 0 ∨ lenAt lf data + 18 < 2 ^ 31 ∧ n.toInt < lenAt lf data + 18) :
    self.parseFromArray lf data n = ⟨false, self.header data, headerReads⟩ := by
  rw [parseFromArray_long h, if_pos]
  rcases hl with hl | ⟨h1, h2⟩
  · exact .inl hl
  · refine .inr ?_
    rw [toInt_byteSize, get_header, if_pos h1]
    exact h2

theorem parseFromArray_ok (h : 18 ≤ n.toInt) (h0 : 0 ≤ lenAt lf data)
    (hl : lenAt lf data + 18 ≤ n.toInt) :
    self.parseFromArray lf data n = ⟨true, ofWire lf data, packReads lf data⟩ := by
  have hn := toInt_bounds n
  rw [parseFromArray_long h, if_neg]
  rw [toInt_byteSize, get_header, if_pos (by omega)]
  omega

/-- Past `INT_MAX - 18` no length is too long. -/
theorem parseFromArray_overflow (h : 18 ≤ n.toInt) (hl : 2 ^ 31 ≤ lenAt lf data + 18) :
    self.parseFromArray lf data n = ⟨true, ofWire lf data, packReads lf data⟩ := by
  have hb : lenAt lf data < 2 ^ 31 := (toInt_bounds _).2
  rw [parseFromArray_long h, if_neg]
  rw [toInt_byteSize, get_header, if_neg (by omega)]
  omega

/-- The reads of a packet that is inside the array. -/
theorem inBounds_reads {m : Nat} (hl : lenAt lf data + 18 ≤ m) (h0 : 0 ≤ lenAt lf data) :
    inBounds m (packReads lf data) = true := by
  rw [packReads, inBounds, List.all_append, ← inBounds, inBounds_headerReads (by omega), Bool.true_and]
  simp only [List.all_cons, List.all_nil, Bool.and_true, Bool.and_eq_true, decide_eq_true_eq]
  omega

/-- The reads of a packet that is not. -/
theorem inBounds_overflow {m : Nat} (hm : m < 2 ^ 31) (hl : 2 ^ 31 ≤ lenAt lf data + 18) :
    inBounds m (packReads lf data) = false := by
  rw [packReads, inBounds, List.all_append, Bool.and_eq_false_iff]
  refine .inr ?_
  simp only [List.all_cons, List.all_nil, Bool.and_true, Bool.and_eq_false_iff, decide_eq_false_iff_not]
  omega

/-! ## A packet and the bytes of it -/

theorem length_ofWire_body (h0 : 0 ≤ lenAt lf data) (hl : lenAt lf data + 18 ≤ data.length) :
    (ofWire lf data).body.length = (lenAt lf data).toNat := by
  simp only [ofWire, length_slice]
  omega

/-- The packet read from an array is well-formed. -/
theorem ofWire_wf (h0 : 0 ≤ lenAt lf data) (hl : lenAt lf data + 18 ≤ data.length) :
    (ofWire lf data).WellFormed lf where
  head := by simp only [ofWire, length_slice]; omega
  tail := by simp only [ofWire, length_slice]; omega
  len := by
    rw [length_ofWire_body h0 hl, Int.toNat_of_nonneg h0]
    cases lf <;> rfl

/-- Writing what was read. -/
theorem wire_ofWire (h0 : 0 ≤ lenAt lf data) (hl : lenAt lf data + 18 ≤ data.length) :
    (ofWire lf data).wire = data.take ((lenAt lf data).toNat + 18) := by
  simp only [wire, ofWire]
  rw [leBytes_intAt (by omega), leBytes_intAt (by omega), leBytes_intAt (by omega)]
  rw [slice_zero, take_append_slice data (b := 7) rfl, take_append_slice data (b := 11) rfl,
    take_append_slice data (b := 15) rfl, take_append_slice data rfl, take_append_slice data rfl]
  congr 1; omega

variable {f : Fields}

/-- The integers of a packet on the wire, whatever follows. -/
theorem intAt_wire (hh : f.head.length = 3) (rest : List Byte) :
    intAt (f.wire ++ rest) 3 = f.w₀ ∧ intAt (f.wire ++ rest) 7 = f.w₁ ∧ intAt (f.wire ++ rest) 11 = f.w₂ := by
  simp only [wire, List.append_assoc]
  refine ⟨?_, ?_, ?_⟩
  · rw [intAt_append_right (by omega), hh, intAt_leBytes]
  · rw [intAt_append_right (by omega), hh, intAt_append_right (by simp), length_leBytes, intAt_leBytes]
  · rw [intAt_append_right (by omega), hh, intAt_append_right (by simp), length_leBytes,
      intAt_append_right (by simp), length_leBytes, intAt_leBytes]

theorem lenAt_wire (h : f.WellFormed lf) (rest : List Byte) : lenAt lf (f.wire ++ rest) = f.body.length := by
  obtain ⟨-, h1, h2⟩ := intAt_wire h.head rest
  rw [← h.len]
  cases lf
  · simp only [lenAt, LenField.off, h1, LenField.get]
  · simp only [lenAt, LenField.off, h2, LenField.get]

/-- Reading what was written. -/
theorem ofWire_wire (h : f.WellFormed lf) (rest : List Byte) : ofWire lf (f.wire ++ rest) = f := by
  obtain ⟨h0, h1, h2⟩ := intAt_wire h.head rest
  have e : (lenAt lf (f.wire ++ rest)).toNat = f.body.length := by rw [lenAt_wire h]; rfl
  have hd : slice (f.wire ++ rest) 0 3 = f.head := by
    simp only [wire, List.append_assoc]
    rw [slice_zero, ← h.head, List.take_left]
  have hb : slice (f.wire ++ rest) 15 f.body.length = f.body := by
    simp only [wire, List.append_assoc]
    rw [← List.append_assoc, ← List.append_assoc, ← List.append_assoc,
      slice_append_right (by simp [h.head]), List.take_left]
  have ht : slice (f.wire ++ rest) (15 + f.body.length) 3 = f.tail := by
    simp only [wire]
    rw [List.append_assoc, slice_append_right (by simp [h.head]; omega), ← h.tail, List.take_left]
  simp only [ofWire, h0, h1, h2, e, hd, hb, ht]

/-! ## Writing -/

/-- A well-formed packet is written as its wire, at the start of the array. -/
theorem serializeToArray_eq {buf : List Byte} (hh : f.head.length = 3) (ht : f.tail.length = 3)
    (hb : f.wire.length ≤ buf.length) (hn : (f.byteSize lf).toInt ≤ n.toInt) :
    f.serializeToArray lf buf n = some (true, f.wire ++ buf.drop f.wire.length) := by
  have hw := length_wire hh ht
  have e0 : buf = splice buf 0 [] := by rw [splice_zero, List.nil_append, List.length_nil, List.drop_zero]
  have eh : (cStr f.head).take 3 = f.head := by rw [cStr, ← hh, List.take_left]
  have et : (cStr f.tail).take 3 = f.tail := by rw [cStr, ← ht, List.take_left]
  have eb : (cStr f.body).take f.body.length = f.body := by rw [cStr, List.take_left]
  have el (x : CInt) : (leBytes x).take 4 = leBytes x := rfl
  rw [serializeToArray, if_neg (by omega)]
  conv_lhs => rw [e0]
  simp only [Option.bind_eq_bind]
  rw [memcpy_after (o := 0) (n := 3) (k := 3) rfl rfl (by simp; omega) (by simp [cStr, hh]), Option.bind_some, eh,
    memcpy_after (o := 3) (n := 4) (k := 4) (by simp [hh]) rfl (by simp; omega) (by simp), Option.bind_some, el,
    memcpy_after (n := 4) (k := 4) (by simp [hh]) rfl (by simp; omega) (by simp), Option.bind_some, el,
    memcpy_after (n := 4) (k := 4) (by simp [hh]) rfl (by simp; omega) (by simp), Option.bind_some, el,
    memcpy_after (by simp [hh]) rfl (by simp; omega) (by simp [cStr]), Option.bind_some, eb,
    memcpy_after (n := 3) (k := 3) (by simp [hh]; omega) rfl (by simp; omega) (by simp [cStr, ht]),
    Option.bind_some, et, List.nil_append, splice_zero]
  rfl

/-- A packet larger than the array it is written to is not written inside it. -/
theorem serializeToArray_none {buf : List Byte} (hb : buf.length < f.body.length + 18)
    (hn : (f.byteSize lf).toInt ≤ n.toInt) : f.serializeToArray lf buf n = none := by
  rw [serializeToArray, if_neg (by omega), ← Option.not_isSome_iff_eq_none, Option.isSome_iff_exists]
  rintro ⟨r, hr⟩
  simp only [Option.bind_eq_bind, Option.bind_eq_some_iff] at hr
  obtain ⟨d₁, h1, d₂, h2, d₃, h3, d₄, h4, d₅, h5, d₆, h6, -⟩ := hr
  have := memcpy_some h1; have := memcpy_some h2; have := memcpy_some h3
  have := memcpy_some h4; have := memcpy_some h5; have := memcpy_some h6
  omega

/-! ## Round trips -/

/-- Writing a packet and reading it back. -/
theorem parse_wire (self : Fields) (h : f.WellFormed lf) (rest : List Byte) (hn : f.wire.length ≤ n.toInt) :
    self.parseFromArray lf (f.wire ++ rest) n = ⟨true, f, packReads lf (f.wire ++ rest)⟩ ∧
      inBounds (f.wire ++ rest).length (packReads lf (f.wire ++ rest)) = true := by
  have hw := length_wire h.head h.tail
  have hl := lenAt_wire h rest
  refine ⟨?_, inBounds_reads ?_ ?_⟩
  · rw [parseFromArray_ok (by omega) (by omega) (by omega), ofWire_wire h]
  · rw [hl, List.length_append]; omega
  · omega

/-- Writing a packet, and reading it back with whatever follows. -/
theorem write_read {buf rest : List Byte} {m : CInt} (self : Fields) (h : f.WellFormed lf)
    (hl : (lf.get f).toInt ≤ intMax - 18) (hs : (f.byteSize lf).toInt ≤ m.toInt) (hm : m.toInt ≤ buf.length)
    (hn : n.toInt = f.wire.length + rest.length) :
    (f.wire.length : Int) = (f.byteSize lf).toInt ∧
    f.serializeToArray lf buf m = some (true, f.wire ++ buf.drop f.wire.length) ∧
    (self.parseFromArray lf (f.wire ++ rest) n).ret = true ∧
    (self.parseFromArray lf (f.wire ++ rest) n).pack = f := by
  have hM : intMax = 2 ^ 31 - 1 := rfl
  have e := toInt_byteSize_of_wf h (by rw [h.len] at hl; omega)
  rw [(parse_wire self h rest (by omega)).1]
  exact ⟨e.symm, serializeToArray_eq h.head h.tail (by omega) hs, rfl, rfl⟩

/-- Reading a packet and writing it back. -/
theorem serialize_parse {buf : List Byte} {m : CInt} (hn : n.toInt = data.length)
    (hr : (self.parseFromArray lf data n).ret = true) (hl : lenAt lf data + 18 ≤ n.toInt)
    (hm : lenAt lf data + 18 ≤ m.toInt) (hb : m.toInt ≤ buf.length) :
    (self.parseFromArray lf data n).pack.serializeToArray lf buf m =
      some (true, data.take (lenAt lf data + 18).toNat ++ buf.drop (lenAt lf data + 18).toNat) := by
  have hd : 18 ≤ n.toInt := by
    by_contra hc
    rw [parseFromArray_short (by omega)] at hr
    cases hr
  have h0 : 0 ≤ lenAt lf data := by
    by_contra hc
    rw [parseFromArray_reject hd (.inl (by omega))] at hr
    cases hr
  have wf : (ofWire lf data).WellFormed lf := ofWire_wf h0 (by omega)
  have hB : (ofWire lf data).body.length = _ := length_ofWire_body h0 (by omega)
  have hw := length_wire wf.head wf.tail
  have hb' := toInt_bounds m
  rw [parseFromArray_ok hd h0 hl, serializeToArray_eq wf.head wf.tail (by omega)
    (by rw [toInt_byteSize_of_wf wf (by omega)]; omega), hw, hB, wire_ofWire h0 (by omega)]
  congr 4 <;> omega

end Fields

/-! ## `StruCytPacket` -/

namespace StruCytPacket

/-- Three bytes of head and tail, and `msg_len` the payload's length. -/
def WellFormed (p : StruCytPacket) : Prop := p.fields.WellFormed .second

/-- The packet on the wire. -/
def wire (p : StruCytPacket) : List Byte := p.fields.wire

theorem length_wire {p : StruCytPacket} (hp : p.WellFormed) : p.wire.length = p.msgData.length + 18 :=
  Fields.length_wire hp.head hp.tail

/-- `ParseFromArray` of the whole of `data` accepts what the format is, a length
field `L` at offset 7 and `L + 18` bytes, and reads nothing past the array. -/
def ParsesFormat (self : StruCytPacket) (data : List Byte) (n : CInt) : Prop :=
  ((self.parseFromArray data n).ret = true ↔
    18 ≤ n.toInt ∧ 0 ≤ (intAt data 7).toInt ∧ (intAt data 7).toInt + 18 ≤ n.toInt) ∧
  ∀ i : Nat, ReadsAt (self.parseFromArray data n).reads i → (i : Int) < n.toInt

theorem parsesFormat_iff (self : StruCytPacket) (data : List Byte) (n : CInt) (hn : n.toInt = data.length) :
    self.ParsesFormat data n ↔ n.toInt < 18 ∨ (intAt data 7).toInt ≤ intMax - 18 := by
  have hb := (toInt_bounds n).2
  have hM : intMax = 2 ^ 31 - 1 := rfl
  simp only [ParsesFormat, parseFromArray, Parsed.map]
  change (_ ↔ 18 ≤ n.toInt ∧ 0 ≤ Fields.lenAt .second data ∧ Fields.lenAt .second data + 18 ≤ n.toInt) ∧ _ ↔
    n.toInt < 18 ∨ Fields.lenAt .second data ≤ intMax - 18
  by_cases h18 : n.toInt < 18
  · rw [Fields.parseFromArray_short h18]
    exact ⟨fun _ => .inl h18, fun _ => ⟨by simp; omega, fun i ⟨a, ha, _⟩ => by cases ha⟩⟩
  by_cases hov : 2 ^ 31 ≤ Fields.lenAt .second data + 18
  · rw [Fields.parseFromArray_overflow (by omega) hov]
    exact ⟨fun h => by have := h.1.mp rfl; omega, fun h => by omega⟩
  refine ⟨fun _ => .inr (by omega), fun _ => ?_⟩
  by_cases hok : 0 ≤ Fields.lenAt .second data ∧ Fields.lenAt .second data + 18 ≤ n.toInt
  · rw [Fields.parseFromArray_ok (by omega) hok.1 hok.2]
    refine ⟨by simp; omega, fun i hi => ?_⟩
    have := readsAt_lt (Fields.inBounds_reads (m := data.length) (by omega) hok.1) hi
    omega
  · rw [Fields.parseFromArray_reject (by omega) (by omega)]
    refine ⟨by simp; omega, fun i hi => ?_⟩
    have := readsAt_lt (Fields.inBounds_headerReads (n := data.length) (by omega)) hi
    omega

/-- A login request with two bytes of payload. -/
def shortLogin : StruCytPacket := ⟨packHead, 16000, 2, 6001, [8, 1], packTail⟩

theorem parsesFormat_iff_shortLogin :
    fresh.ParsesFormat (shortLogin.fields.wire ++ [7]) 21 ↔
      (21 : CInt).toInt < 18 ∨ (intAt (shortLogin.fields.wire ++ [7]) 7).toInt ≤ intMax - 18 :=
  parsesFormat_iff fresh (shortLogin.fields.wire ++ [7]) 21 rfl

/-- Eighteen bytes with `INT_MAX` in the length field. -/
def hugeLen : List Byte := [0, 0, 0, 0, 0, 0, 0, 0xff, 0xff, 0xff, 0x7f, 0, 0, 0, 0, 0, 0, 0]

/-- They are accepted, and bytes past them read. -/
theorem not_parsesFormat_hugeLen :
    (fresh.parseFromArray hugeLen 18).ret = true ∧ ReadsAt (fresh.parseFromArray hugeLen 18).reads 18 ∧
      ¬ fresh.ParsesFormat hugeLen 18 := by
  have hr : (fresh.parseFromArray hugeLen 18).ret = true := by decide
  refine ⟨hr, ⟨⟨15, 2147483647⟩, by decide, by decide, by decide⟩, fun h => ?_⟩
  exact absurd (h.1.mp hr) (by decide)

/-- The two directions of the codec: every packet with `msg_len` the payload's
length is written as `ByteSize()` bytes, and read back from them and whatever
follows into any packet; and every array that is read, with a length field
inside it, is written back. -/
theorem roundTrip :
    (∀ (p q : StruCytPacket) (rest buf : List Byte) (m n : CInt), p.WellFormed →
      p.msgLen.toInt ≤ intMax - 18 → p.byteSize.toInt ≤ m.toInt → m.toInt ≤ buf.length →
      n.toInt = p.wire.length + rest.length →
      (p.wire.length : Int) = p.byteSize.toInt ∧
      p.serializeToArray buf m = some (true, p.wire ++ buf.drop p.wire.length) ∧
      (q.parseFromArray (p.wire ++ rest) n).ret = true ∧
      (q.parseFromArray (p.wire ++ rest) n).pack = p) ∧
    ∀ (q : StruCytPacket) (data buf : List Byte) (m n : CInt), n.toInt = data.length →
      (q.parseFromArray data n).ret = true → (intAt data 7).toInt + 18 ≤ n.toInt →
      (intAt data 7).toInt + 18 ≤ m.toInt → m.toInt ≤ buf.length →
      (q.parseFromArray data n).pack.serializeToArray buf m =
        some (true, data.take ((intAt data 7).toInt + 18).toNat ++
          buf.drop ((intAt data 7).toInt + 18).toNat) := by
  refine ⟨fun p q rest buf m n h hl hs hm hn => ?_, fun q data buf m n hn hr hl hm hb => ?_⟩
  · obtain ⟨h1, h2, h3, h4⟩ := Fields.write_read q.fields h hl hs hm hn
    exact ⟨h1, h2, h3, congrArg ofFields h4⟩
  · have hl' : Fields.lenAt .second data + 18 ≤ n.toInt := hl
    exact Fields.serialize_parse hn hr hl' hm hb

theorem shortLogin_wf : shortLogin.WellFormed := ⟨rfl, rfl, rfl⟩

/-- The request is written over the front of an array, and read with one byte after it. -/
theorem roundTrip_shortLogin :
    (shortLogin.serializeToArray (List.replicate 24 9) 24 = some (true, shortLogin.wire ++ [9, 9, 9, 9]) ∧
      (fresh.parseFromArray (shortLogin.wire ++ [7]) 21).pack = shortLogin) ∧
    (fresh.parseFromArray (shortLogin.wire ++ [7]) 21).pack.serializeToArray (List.replicate 24 9) 24 =
      some (true, shortLogin.wire ++ [9, 9, 9, 9]) := by
  obtain ⟨-, h2, -, h4⟩ := roundTrip.1 shortLogin fresh [7] (List.replicate 24 9) 24 21 shortLogin_wf
    (by decide) (by decide) (by decide) (by decide)
  have h := roundTrip.2 fresh (shortLogin.wire ++ [7]) (List.replicate 24 9) 24 21 (by decide) (by decide)
    (by decide) (by decide) (by decide)
  exact ⟨⟨h2, h4⟩, h⟩

end StruCytPacket

/-! ## `GateRoomServerPack` -/

namespace GateRoomServerPack

/-- Three bytes of head and tail, and `data_len` the payload's length. -/
def WellFormed (p : GateRoomServerPack) : Prop := p.fields.WellFormed .third

/-- The packet on the wire. -/
def wire (p : GateRoomServerPack) : List Byte := p.fields.wire

theorem length_wire {p : GateRoomServerPack} (hp : p.WellFormed) : p.wire.length = p.dataMsg.length + 18 :=
  Fields.length_wire hp.head hp.tail

theorem toInt_byteSize {p : GateRoomServerPack} (hp : p.WellFormed) (hl : p.wire.length < 2 ^ 31) :
    p.byteSize.toInt = p.wire.length :=
  Fields.toInt_byteSize_of_wf hp (length_wire hp ▸ hl)

/-- A packet is written whole to an array that has room for it. -/
theorem serialize_ok {p : GateRoomServerPack} (hp : p.WellFormed) {buf : List Byte}
    (hb : p.wire.length ≤ buf.length) :
    p.serializeToArray buf p.byteSize = some (true, p.wire ++ buf.drop p.wire.length) :=
  Fields.serializeToArray_eq hp.head hp.tail hb le_rfl

/-- It is written past the end of one that has not. -/
theorem serialize_none {p : GateRoomServerPack} (hp : p.WellFormed) {buf : List Byte}
    (hb : buf.length < p.wire.length) : p.serializeToArray buf p.byteSize = none :=
  Fields.serializeToArray_none (length_wire hp ▸ hb) le_rfl

/-- Written into an array of at least `ByteSize()` bytes, a packet is there as
exactly that many bytes, and is read back from them and whatever follows. -/
def WritesAndReadsBack (p : GateRoomServerPack) : Prop :=
  ∀ (q : GateRoomServerPack) (rest buf : List Byte) (m n : CInt),
    p.byteSize.toInt ≤ m.toInt → m.toInt ≤ buf.length → n.toInt = p.wire.length + rest.length →
    (p.wire.length : Int) = p.byteSize.toInt ∧
    p.serializeToArray buf m = some (true, p.wire ++ buf.drop p.wire.length) ∧
    (q.parseFromArray (p.wire ++ rest) n).ret = true ∧
    (q.parseFromArray (p.wire ++ rest) n).pack = p

/-- What is accepted is a packet inside `data`, and is written back as it was. -/
def ReadsAndWritesBack (q : GateRoomServerPack) (data : List Byte) (n : CInt) : Prop :=
  (q.parseFromArray data n).ret = true →
    18 ≤ n.toInt ∧ 0 ≤ (intAt data 11).toInt ∧ (intAt data 11).toInt + 18 ≤ n.toInt ∧
    ∀ (buf : List Byte) (m : CInt), (intAt data 11).toInt + 18 ≤ m.toInt → m.toInt ≤ buf.length →
      (q.parseFromArray data n).pack.serializeToArray buf m =
        some (true, data.take ((intAt data 11).toInt + 18).toNat ++
          buf.drop ((intAt data 11).toInt + 18).toNat)

/-- The codec: the first direction always, the second exactly when the array is
shorter than a packet or its length field at most `INT_MAX - 18`. -/
theorem codec (p : GateRoomServerPack) (hp : p.WellFormed) (hl : p.dataLen.toInt ≤ intMax - 18)
    (q : GateRoomServerPack) (data : List Byte) (n : CInt) (hn : n.toInt = data.length) :
    p.WritesAndReadsBack ∧
    (q.ReadsAndWritesBack data n ↔ n.toInt < 18 ∨ (intAt data 11).toInt ≤ intMax - 18) := by
  refine ⟨fun q rest buf m n hs hm hn => ?_, ?_⟩
  · obtain ⟨h1, h2, h3, h4⟩ := Fields.write_read q.fields hp hl hs hm hn
    exact ⟨h1, h2, h3, congrArg ofFields h4⟩
  have hb := (toInt_bounds n).2
  have hM : intMax = 2 ^ 31 - 1 := rfl
  change _ ↔ n.toInt < 18 ∨ Fields.lenAt .third data ≤ intMax - 18
  constructor
  · intro h
    by_contra hc
    have hr : (q.parseFromArray data n).ret = true := by
      simp only [parseFromArray, Parsed.map]
      rw [Fields.parseFromArray_overflow (by omega) (by omega)]
    have h3 : Fields.lenAt .third data + 18 ≤ n.toInt := (h hr).2.2.1
    omega
  · intro h hr
    have hr' := hr
    simp only [parseFromArray, Parsed.map] at hr
    by_cases h18 : n.toInt < 18
    · rw [Fields.parseFromArray_short h18] at hr; cases hr
    by_cases hok : 0 ≤ Fields.lenAt .third data ∧ Fields.lenAt .third data + 18 ≤ n.toInt
    · exact ⟨by omega, hok.1, hok.2, fun buf m hm hb => Fields.serialize_parse hn hr hok.2 hm hb⟩
    · rw [Fields.parseFromArray_reject (by omega) (by omega)] at hr; cases hr

/-- A packet from user 7, around two bytes. -/
def shortPack : GateRoomServerPack := ⟨packHead, 7, 3, 2, [8, 1], packTail⟩

theorem codec_shortPack :
    shortPack.WritesAndReadsBack ∧
    (fresh.ReadsAndWritesBack (shortPack.wire ++ [7]) 21 ↔
      (21 : CInt).toInt < 18 ∨ (intAt (shortPack.wire ++ [7]) 11).toInt ≤ intMax - 18) :=
  codec shortPack ⟨rfl, rfl, rfl⟩ (by decide) fresh (shortPack.wire ++ [7]) 21 (by decide)

/-- Eighteen bytes with `INT_MAX` in the length field. -/
def hugeLen : List Byte := [0, 0, 0, 0, 0, 0, 0, 0, 0, 0, 0, 0xff, 0xff, 0xff, 0x7f, 0, 0, 0]

/-- They are accepted. -/
theorem not_readsAndWritesBack_hugeLen :
    (fresh.parseFromArray hugeLen 18).ret = true ∧ ¬ fresh.ReadsAndWritesBack hugeLen 18 := by
  have hr : (fresh.parseFromArray hugeLen 18).ret = true := by decide
  exact ⟨hr, fun h => absurd (h hr).2.2.1 (by decide)⟩

end GateRoomServerPack

end Miku
