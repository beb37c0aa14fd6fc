import Mathlib.Tactic.SplitIfs
import MikuServer.Framework.Mem
import MikuServer.Framework.WireFormat

/-!
# Streams in the wire format of protocol buffers

What is written of integers and strings (`writeVarint`, `writeInt32`,
`writeBytes`), and the readers of them. A reader returns what is left
of the input, and has no value where the input ends inside of what it reads.

Each reader has three lemmas: it reads what was written and leaves the rest
(`read_write`), it leaves no more than there was (`le`), and it has no value on
a beginning of what was written (`take_none`).
-/

namespace Miku.WireFormat

/-! ## Writing -/

/-- At most `n + 1` groups of seven bits, the lowest first. -/
def writeVarintFrom : Nat → Nat → List Byte
  | 0, v => [BitVec.ofNat 8 v]
  | n + 1, v =>
    if v < 128 then [BitVec.ofNat 8 v] else BitVec.ofNat 8 (v % 128 + 128) :: writeVarintFrom n (v / 128)

/-- `CodedOutputStream::WriteVarint64ToArray`, and `WriteVarint32ToArray`. -/
def writeVarint (v : Nat) : List Byte := writeVarintFrom 9 v

/-- `WireFormatLite::WriteInt32NoTagToArray`, and the same of an enumeration: the number is
extended to 64 bits. -/
def writeInt32 (v : CInt) : List Byte := writeVarint (v.signExtend 64).toNat

/-- A string, or a message: its length and its bytes. -/
def writeBytes (s : List Byte) : List Byte := writeVarint s.length ++ s

/-! ## Reading -/

/-- The groups of a varint of at most `n` bytes. -/
def readVarintFrom : Nat → List Byte → Option (Nat × List Byte)
  | 0, _ => none
  | _ + 1, [] => none
  | n + 1, b :: rest =>
    if b.toNat < 128 then some (b.toNat, rest)
    else (readVarintFrom n rest).map fun r => (b.toNat - 128 + 128 * r.1, r.2)

/-- `CodedInputStream::ReadVarint64`. -/
def readVarint64 (input : List Byte) : Option (Nat × List Byte) :=
  (readVarintFrom 10 input).map fun r => (r.1 % 2 ^ 64, r.2)

/-- `CodedInputStream::ReadVarint32`: the upper bits are dropped. -/
def readVarint32 (input : List Byte) : Option (Nat × List Byte) :=
  (readVarintFrom 10 input).map fun r => (r.1 % 2 ^ 32, r.2)

/-- `ReadPrimitive` of an `int32` or an enumeration. -/
def readInt32 (input : List Byte) : Option (CInt × List Byte) :=
  (readVarint32 input).map fun r => (BitVec.ofNat 32 r.1, r.2)

/-- `n` bytes. -/
def readRaw (n : Nat) (input : List Byte) : Option (List Byte × List Byte) :=
  if n ≤ input.length then some (input.take n, input.drop n) else none

/-- `WireFormatLite::ReadString`: the length is taken for an `int`. -/
def readBytes (input : List Byte) : Option (List Byte × List Byte) :=
  (readVarint32 input).bind fun r => if r.1 < 2 ^ 31 then readRaw r.1 r.2 else none

/-! ## Varints -/

theorem toNat_ofNat_byte {v : Nat} (h : v < 256) : (BitVec.ofNat 8 v).toNat = v := by
  rw [BitVec.toNat_ofNat, Nat.mod_eq_of_lt h]

theorem length_writeVarintFrom_pos (n v : Nat) : 1 ≤ (writeVarintFrom n v).length := by
  cases n with
  | zero => exact Nat.le_refl 1
  | succ n =>
    rw [writeVarintFrom]
    split_ifs <;> simp

theorem readVarintFrom_write {n v : Nat} (h : v < 128 ^ (n + 1)) (rest : List Byte) :
    readVarintFrom (n + 1) (writeVarintFrom n v ++ rest) = some (v, rest) := by
  induction n generalizing v with
  | zero =>
    have hv : v < 128 := by simpa using h
    have hb := toNat_ofNat_byte (v := v) (by omega)
    simp [writeVarintFrom, readVarintFrom, hb, hv]
  | succ n ih =>
    rw [writeVarintFrom]
    split_ifs with hv
    · have hb := toNat_ofNat_byte (v := v) (by omega)
      simp [readVarintFrom, hb, hv]
    · have hb := toNat_ofNat_byte (v := v % 128 + 128) (by omega)
      have hdiv : v / 128 < 128 ^ (n + 1) := Nat.div_lt_of_lt_mul (by rwa [Nat.pow_succ, Nat.mul_comm] at h)
      rw [List.cons_append, readVarintFrom, hb, if_neg (by omega), ih hdiv, Option.map_some]
      have hsum : v % 128 + 128 - 128 + 128 * (v / 128) = v := by omega
      rw [hsum]

theorem readVarint64_write {v : Nat} (h : v < 2 ^ 64) (rest : List Byte) :
    readVarint64 (writeVarint v ++ rest) = some (v, rest) := by
  rw [readVarint64, writeVarint, readVarintFrom_write (Nat.lt_trans h (by decide)), Option.map_some,
    Nat.mod_eq_of_lt h]

/-- The lower half of what was written. -/
theorem readVarint32_write_mod {v : Nat} (h : v < 2 ^ 64) (rest : List Byte) :
    readVarint32 (writeVarint v ++ rest) = some (v % 2 ^ 32, rest) := by
  rw [readVarint32, writeVarint, readVarintFrom_write (Nat.lt_trans h (by decide)), Option.map_some]

theorem readVarint32_write {v : Nat} (h : v < 2 ^ 32) (rest : List Byte) :
    readVarint32 (writeVarint v ++ rest) = some (v, rest) := by
  rw [readVarint32_write_mod (Nat.lt_trans h (by decide)), Nat.mod_eq_of_lt h]

/-- A reader consumes. -/
theorem readVarintFrom_lt {n v : Nat} {input rest : List Byte} (h : readVarintFrom n input = some (v, rest)) :
    rest.length < input.length := by
  induction n generalizing v input with
  | zero => cases h
  | succ n ih =>
    cases input with
    | nil => cases h
    | cons b input =>
      rw [readVarintFrom] at h
      split_ifs at h
      · cases h
        exact Nat.lt_succ_self _
      · obtain ⟨r, hr, he⟩ := Option.map_eq_some_iff.mp h
        cases he
        have := ih hr
        exact Nat.lt_succ_of_lt this

theorem readVarint64_lt {v : Nat} {input rest : List Byte} (h : readVarint64 input = some (v, rest)) :
    rest.length < input.length := by
  obtain ⟨r, hr, he⟩ := Option.map_eq_some_iff.mp h
  cases he
  exact readVarintFrom_lt hr

theorem readVarint32_lt {v : Nat} {input rest : List Byte} (h : readVarint32 input = some (v, rest)) :
    rest.length < input.length := by
  obtain ⟨r, hr, he⟩ := Option.map_eq_some_iff.mp h
  cases he
  exact readVarintFrom_lt hr

theorem readVarint64_bound {v : Nat} {input rest : List Byte} (h : readVarint64 input = some (v, rest)) :
    v < 2 ^ 64 := by
  obtain ⟨r, hr, he⟩ := Option.map_eq_some_iff.mp h
  cases he
  exact Nat.mod_lt _ (by decide)

theorem readVarint32_bound {v : Nat} {input rest : List Byte} (h : readVarint32 input = some (v, rest)) :
    v < 2 ^ 32 := by
  obtain ⟨r, hr, he⟩ := Option.map_eq_some_iff.mp h
  cases he
  exact Nat.mod_lt _ (by decide)

/-- Every byte of a varint but the last one says that there is another. -/
theorem readVarintFrom_take_none {n v m : Nat} (hv : v < 128 ^ (n + 1)) {k : Nat}
    (hk : k < (writeVarintFrom n v).length) : readVarintFrom m ((writeVarintFrom n v).take k) = none := by
  induction n generalizing v m k with
  | zero =>
    have hk : k = 0 := by simpa [writeVarintFrom] using hk
    cases m <;> simp [hk, readVarintFrom]
  | succ n ih =>
    cases m with
    | zero => rfl
    | succ m =>
      rw [writeVarintFrom] at hk ⊢
      split_ifs at hk ⊢ with hlt
      · have hk : k = 0 := by simpa using hk
        simp [hk, readVarintFrom]
      · cases k with
        | zero => rfl
        | succ k =>
          have hb := toNat_ofNat_byte (v := v % 128 + 128) (by omega)
          have hdiv : v / 128 < 128 ^ (n + 1) := Nat.div_lt_of_lt_mul (by rwa [Nat.pow_succ, Nat.mul_comm] at hv)
          rw [List.take_succ_cons, readVarintFrom, hb, if_neg (by omega), ih hdiv (by simpa using hk), Option.map_none]

theorem readVarint32_take_none {v k : Nat} (hv : v < 2 ^ 64) (hk : k < (writeVarint v).length) :
    readVarint32 ((writeVarint v).take k) = none := by
  rw [readVarint32, writeVarint, readVarintFrom_take_none (Nat.lt_trans hv (by decide)) hk, Option.map_none]

/-! ### Sizes -/

theorem length_writeVarint_pos (v : Nat) : 1 ≤ (writeVarint v).length := length_writeVarintFrom_pos 9 v

theorem writeVarint_of_lt {v : Nat} (h : v < 128) : writeVarint v = [BitVec.ofNat 8 v] := by
  rw [writeVarint, writeVarintFrom, if_pos h]

theorem length_writeVarintFrom_of_lt {n v : Nat} (h : v < 128) : (writeVarintFrom n v).length = 1 := by
  cases n with
  | zero => rfl
  | succ n => rw [writeVarintFrom, if_pos h, List.length_singleton]

theorem length_writeVarintFrom_succ {n v : Nat} (h : 128 ≤ v) :
    (writeVarintFrom (n + 1) v).length = (writeVarintFrom n (v / 128)).length + 1 := by
  rw [writeVarintFrom, if_neg (by omega), List.length_cons]

/-- `VarintSize32` is the number of bytes. -/
theorem length_writeVarint {v : Nat} (h : v < 2 ^ 32) : (writeVarint v).length = varintSize32 v := by
  rw [writeVarint, varintSize32]
  split_ifs with h1 h2 h3 h4
  · rw [length_writeVarintFrom_of_lt h1]
  · rw [length_writeVarintFrom_succ (by omega), length_writeVarintFrom_of_lt (by omega)]
  · rw [length_writeVarintFrom_succ (by omega), length_writeVarintFrom_succ (by omega),
      length_writeVarintFrom_of_lt (by omega)]
  · rw [length_writeVarintFrom_succ (by omega), length_writeVarintFrom_succ (by omega),
      length_writeVarintFrom_succ (by omega), length_writeVarintFrom_of_lt (by omega)]
  · rw [length_writeVarintFrom_succ (by omega), length_writeVarintFrom_succ (by omega),
      length_writeVarintFrom_succ (by omega), length_writeVarintFrom_succ (by omega),
      length_writeVarintFrom_of_lt (by omega)]

/-- A number whose upper bit of 64 is set has ten bytes. -/
theorem length_writeVarint_of_le {v : Nat} (h : 2 ^ 63 ≤ v) (h' : v < 2 ^ 64) : (writeVarint v).length = 10 := by
  rw [writeVarint]
  iterate 9 rw [length_writeVarintFrom_succ (by omega)]
  rfl

/-! ## Integers -/

theorem toNat_signExtend (v : CInt) :
    (v.signExtend 64).toNat = if v.toInt < 0 then 2 ^ 64 - 2 ^ 32 + v.toNat else v.toNat := by
  rw [BitVec.toNat_signExtend, BitVec.msb_eq_toInt]
  have hw : (v.setWidth 64).toNat = v.toNat := BitVec.toNat_setWidth_of_le (by omega)
  rw [hw]
  by_cases h : v.toInt < 0
  · rw [decide_eq_true h, if_pos rfl, if_pos h]
    omega
  · rw [decide_eq_false h, if_neg Bool.false_ne_true, if_neg h]
    rfl

theorem toNat_signExtend_lt (v : CInt) : (v.signExtend 64).toNat < 2 ^ 64 := (v.signExtend 64).isLt

theorem toNat_signExtend_mod (v : CInt) : (v.signExtend 64).toNat % 2 ^ 32 = v.toNat := by
  have := v.isLt
  rw [toNat_signExtend]
  split_ifs <;> omega

theorem readInt32_write (v : CInt) (rest : List Byte) : readInt32 (writeInt32 v ++ rest) = some (v, rest) := by
  rw [readInt32, writeInt32, readVarint32_write_mod (toNat_signExtend_lt v), Option.map_some,
    toNat_signExtend_mod]
  simp

theorem readInt32_lt {v : CInt} {input rest : List Byte} (h : readInt32 input = some (v, rest)) :
    rest.length < input.length := by
  obtain ⟨r, hr, he⟩ := Option.map_eq_some_iff.mp h
  cases he
  exact readVarint32_lt hr

theorem readInt32_take_none {v : CInt} {k : Nat} (hk : k < (writeInt32 v).length) :
    readInt32 ((writeInt32 v).take k) = none := by
  rw [readInt32, writeInt32, readVarint32_take_none (toNat_signExtend_lt v) hk, Option.map_none]

/-- `Int32Size` is the number of bytes. -/
theorem length_writeInt32 (v : CInt) : (writeInt32 v).length = int32Size v.toInt := by
  have hlt := v.isLt
  have hc := BitVec.toInt_eq_toNat_cond v
  rw [writeInt32, toNat_signExtend, int32Size]
  split_ifs with h
  · exact length_writeVarint_of_le (by omega) (by omega)
  · have hv : v.toInt.toNat = v.toNat := by
      split_ifs at hc <;> omega
    rw [hv]
    exact length_writeVarint hlt

/-! ## Strings -/

theorem readRaw_append (s rest : List Byte) : readRaw s.length (s ++ rest) = some (s, rest) := by
  rw [readRaw, if_pos (by simp), List.take_left, List.drop_left]

theorem readBytes_write {s : List Byte} (h : s.length < 2 ^ 31) (rest : List Byte) :
    readBytes (writeBytes s ++ rest) = some (s, rest) := by
  rw [readBytes, writeBytes, List.append_assoc, readVarint32_write (by omega)]
  rw [Option.bind_some, if_pos h, readRaw_append]

theorem readRaw_eq {n : Nat} {input s rest : List Byte} (h : readRaw n input = some (s, rest)) :
    s.length = n ∧ s ++ rest = input := by
  rw [readRaw] at h
  split_ifs at h with hn
  cases h
  exact ⟨List.length_take_of_le hn, List.take_append_drop n input⟩

theorem readRaw_le {n : Nat} {input s rest : List Byte} (h : readRaw n input = some (s, rest)) :
    rest.length ≤ input.length := by
  rw [← (readRaw_eq h).2, List.length_append]
  exact Nat.le_add_left _ _

theorem readBytes_spec {input s rest : List Byte} (h : readBytes input = some (s, rest)) :
    rest.length < input.length ∧ s.length < 2 ^ 31 := by
  rw [readBytes] at h
  obtain ⟨r, hr, h⟩ := Option.bind_eq_some_iff.mp h
  split_ifs at h with hn
  have hlen := readVarint32_lt hr
  have hle := readRaw_le h
  have hs := (readRaw_eq h).1
  exact ⟨by omega, by omega⟩

theorem readBytes_take_none {s : List Byte} (h : s.length < 2 ^ 31) {k : Nat} (hk : k < (writeBytes s).length) :
    readBytes ((writeBytes s).take k) = none := by
  rw [writeBytes, List.length_append] at hk
  rw [readBytes, writeBytes]
  rcases Nat.lt_or_ge k (writeVarint s.length).length with hlt | hge
  · rw [List.take_append_of_le_length (Nat.le_of_lt hlt), readVarint32_take_none (by omega) hlt]
    rfl
  · rw [List.take_append, List.take_of_length_le hge, readVarint32_write (by omega)]
    rw [Option.bind_some, if_pos h, readRaw, if_neg]
    simp only [List.length_take]
    omega

theorem length_writeBytes {s : List Byte} (h : s.length < 2 ^ 32) : (writeBytes s).length = stringSize s.length := by
  rw [writeBytes, List.length_append, length_writeVarint h, stringSize]

end Miku.WireFormat
