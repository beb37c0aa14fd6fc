import Mathlib.Data.List.Basic
import Mathlib.Tactic.Linarith

/-!
# Bytes, C integers and blocks of memory

A block of memory is the list of its bytes. `memcpy` is the C function on
blocks: it has no value (`none`) when the copy leaves one of them, or when its
length is negative, so that a function built from it has a value exactly where
the code stays inside its buffers. An `int` is a `BitVec 32`, read as signed by
`toInt`; `intAt` and `leBytes` are the little-endian load and store of one.

Code that only reads reports where it reads (`Access`, `inBounds`).
-/

namespace Miku

abbrev Byte := BitVec 8

/-- A C `int`. -/
abbrev CInt := BitVec 32

/-- `INT_MAX`. -/
abbrev intMax : Int := 2 ^ 31 - 1

/-- The bytes of `data` from `off`, `len` of them. -/
def slice (data : List Byte) (off len : Nat) : List Byte := (data.drop off).take len

/-- `*(int *)(data + off)`. -/
def intAt (data : List Byte) (off : Nat) : CInt :=
  data.getD (off + 3) 0 ++ data.getD (off + 2) 0 ++ data.getD (off + 1) 0 ++ data.getD off 0

/-- The bytes of an `int` in memory. -/
def leBytes (x : CInt) : List Byte :=
  [x.extractLsb' 0 8, x.extractLsb' 8 8, x.extractLsb' 16 8, x.extractLsb' 24 8]

/-- An `int` expression with the value `v`, reduced to 32 bits. -/
def cint (v : Int) : CInt := BitVec.ofInt 32 v

/-- What `data()` and `c_str()` of a string point to. -/
def cStr (s : List Byte) : List Byte := s ++ [0]

/-- `len` bytes at `off`. -/
structure Access where
  off : Nat
  len : Nat
  deriving DecidableEq, Repr

/-- Every access is inside a block of `n` bytes. -/
def inBounds (n : Nat) (as : List Access) : Bool := as.all fun a => a.off + a.len ≤ n

theorem inBounds_iff {n : Nat} {as : List Access} :
    inBounds n as = true ↔ ∀ a ∈ as, a.off + a.len ≤ n := by
  simp [inBounds]

/-- `dst` with `bs` in place of the bytes from `off`. -/
def splice (dst : List Byte) (off : Nat) (bs : List Byte) : List Byte :=
  dst.take off ++ bs ++ dst.drop (off + bs.length)

/-- `memcpy(dst + off, src, n)` (and `memmove`, the source being taken before
anything is written). -/
def memcpy (dst : List Byte) (off : Int) (src : List Byte) (n : Int) : Option (List Byte) :=
  if 0 ≤ n ∧ 0 ≤ off ∧ off + n ≤ dst.length ∧ n ≤ src.length then
    some (splice dst off.toNat (src.take n.toNat))
  else none

/-! ## Slices -/

@[simp] theorem length_slice (data : List Byte) (off len : Nat) :
    (slice data off len).length = min len (data.length - off) := by
  simp [slice]

theorem slice_append_right {xs ys : List Byte} {off len : Nat} (h : off = xs.length) :
    slice (xs ++ ys) off len = ys.take len := by
  rw [slice, h, List.drop_left]

theorem slice_zero (data : List Byte) (len : Nat) : slice data 0 len = data.take len := by
  rw [slice, List.drop_zero]

/-- The first bytes and the slice after them. -/
theorem take_append_slice (data : List Byte) {a n b : Nat} (h : a + n = b) :
    data.take a ++ slice data a n = data.take b := by
  rw [slice, ← h, List.take_add]

/-! ## Integers -/

theorem toInt_cint {v : Int} (h : -2 ^ 31 ≤ v) (h' : v < 2 ^ 31) : (cint v).toInt = v := by
  rw [cint, BitVec.toInt_ofInt, Int.bmod_eq_of_le (by omega) (by omega)]

theorem toInt_bounds (x : CInt) : -2 ^ 31 ≤ x.toInt ∧ x.toInt < 2 ^ 31 := by
  have := BitVec.le_toInt x
  have := BitVec.toInt_lt (x := x)
  omega

@[simp] theorem length_leBytes (x : CInt) : (leBytes x).length = 4 := rfl

theorem intAt_congr {xs ys : List Byte} {i j : Nat} (h : ∀ k < 4, xs.getD (i + k) 0 = ys.getD (j + k) 0) :
    intAt xs i = intAt ys j := by
  simp only [intAt]
  rw [h 3 (by omega), h 2 (by omega), h 1 (by omega)]
  have := h 0 (by omega)
  simp only [Nat.add_zero] at this
  rw [this]

theorem intAt_append_left {xs ys : List Byte} {off : Nat} (h : off + 4 ≤ xs.length) :
    intAt (xs ++ ys) off = intAt xs off :=
  intAt_congr fun k hk => by
    rw [List.getD_eq_getElem?_getD, List.getD_eq_getElem?_getD, List.getElem?_append_left (by omega)]

theorem intAt_append_right {xs ys : List Byte} {off : Nat} (h : xs.length ≤ off) :
    intAt (xs ++ ys) off = intAt ys (off - xs.length) :=
  intAt_congr fun k hk => by
    rw [List.getD_eq_getElem?_getD, List.getD_eq_getElem?_getD, List.getElem?_append_right (by omega),
      show off + k - xs.length = off - xs.length + k by omega]

/-- Loading a stored integer. -/
theorem intAt_leBytes (x : CInt) (ys : List Byte) : intAt (leBytes x ++ ys) 0 = x := by
  rw [intAt_append_left (by rw [length_leBytes])]
  simp only [intAt, leBytes, List.getD_cons_succ, List.getD_cons_zero, Nat.zero_add]
  ext i hi
  simp only [BitVec.getElem_append, BitVec.getElem_extractLsb']
  repeat' split
  all_goals rw [← BitVec.getLsbD_eq_getElem hi]; congr 1; omega

/-- Storing a loaded integer. -/
theorem leBytes_intAt {data : List Byte} {off : Nat} (h : off + 4 ≤ data.length) :
    leBytes (intAt data off) = slice data off 4 := by
  have e (k : Nat) (hk : k < 4) : data.getD (off + k) 0 = data[off + k] := by
    rw [List.getD_eq_getElem?_getD, List.getElem?_eq_getElem (by omega), Option.getD_some]
  have hs : slice data off 4 =
      [data.getD off 0, data.getD (off + 1) 0, data.getD (off + 2) 0, data.getD (off + 3) 0] := by
    have e0 : data.getD off 0 = data[off] := e 0 (by omega)
    rw [e 1 (by omega), e 2 (by omega), e 3 (by omega), e0, slice]
    rw [List.drop_eq_getElem_cons (by omega), List.drop_eq_getElem_cons (i := off + 1) (by omega),
      List.drop_eq_getElem_cons (i := off + 1 + 1) (by omega),
      List.drop_eq_getElem_cons (i := off + 1 + 1 + 1) (by omega)]
    rfl
  rw [hs]
  simp only [leBytes, intAt, List.cons.injEq, and_true]
  generalize data.getD (off + 3) 0 = a
  generalize data.getD (off + 2) 0 = b
  generalize data.getD (off + 1) 0 = c
  generalize data.getD off 0 = d
  refine ⟨?_, ?_, ?_, ?_⟩ <;>
  · ext i hi
    simp only [BitVec.getElem_extractLsb', BitVec.getLsbD_append]
    repeat' split
    all_goals first | (exfalso; omega) | (rw [← BitVec.getLsbD_eq_getElem hi]; congr 1; omega)

/-! ## Copies -/

theorem length_splice {dst bs : List Byte} {off : Nat} (h : off + bs.length ≤ dst.length) :
    (splice dst off bs).length = dst.length := by
  simp only [splice, List.length_append, List.length_take, List.length_drop]
  omega

theorem getElem?_splice {dst bs : List Byte} {off : Nat} (h : off + bs.length ≤ dst.length) (i : Nat) :
    (splice dst off bs)[i]? = if off ≤ i ∧ i < off + bs.length then bs[i - off]? else dst[i]? := by
  have hl : (dst.take off ++ bs).length = off + bs.length := by
    rw [List.length_append, List.length_take, min_eq_left (by omega)]
  rw [splice]
  by_cases hi : i < off + bs.length
  · rw [List.getElem?_append_left (by omega)]
    split <;> rename_i hc
    · rw [List.getElem?_append_right (by rw [List.length_take]; omega), List.length_take, min_eq_left (by omega)]
    · rw [List.getElem?_append_left (by rw [List.length_take]; omega), List.getElem?_take_of_lt (by omega)]
  · rw [List.getElem?_append_right (by omega), hl, List.getElem?_drop, if_neg (by omega),
      show off + bs.length + (i - (off + bs.length)) = i by omega]

/-- A copy to the start of a block. -/
theorem splice_zero (dst bs : List Byte) : splice dst 0 bs = bs ++ dst.drop bs.length := by
  rw [splice, List.take_zero, List.nil_append, Nat.zero_add]

/-- The bytes before a copy, and the copy. -/
theorem take_splice {dst bs : List Byte} {off : Nat} (h : off ≤ dst.length) :
    (splice dst off bs).take (off + bs.length) = dst.take off ++ bs := by
  rw [splice, List.take_left' (by rw [List.length_append, List.length_take, min_eq_left h])]

/-- The bytes after a copy. -/
theorem drop_splice {dst bs : List Byte} {off : Nat} (h : off ≤ dst.length) (k : Nat) :
    (splice dst off bs).drop (off + bs.length + k) = dst.drop (off + bs.length + k) := by
  have hl : (dst.take off ++ bs).length = off + bs.length := by
    rw [List.length_append, List.length_take, min_eq_left h]
  rw [splice, List.drop_append, List.drop_eq_nil_of_le (by omega), List.nil_append, hl,
    List.drop_drop]
  congr 1; omega

/-- Two neighbouring copies are one. -/
theorem splice_splice {dst a b : List Byte} {off : Nat} (h : off ≤ dst.length) :
    splice (splice dst off a) (off + a.length) b = splice dst off (a ++ b) := by
  rw [splice, take_splice h, drop_splice h, splice]
  simp only [List.append_assoc, List.length_append, Nat.add_assoc]

theorem memcpy_eq {dst src : List Byte} {off n : Nat} (hd : off + n ≤ dst.length) (hs : n ≤ src.length) :
    memcpy dst off src n = some (splice dst off (src.take n)) := by
  rw [memcpy, if_pos ⟨by omega, by omega, by omega, by omega⟩, Int.toNat_natCast, Int.toNat_natCast]

/-- A copy to the start of a block. -/
theorem memcpy_front {dst src : List Byte} {n : Int} {k : Nat} (hn : n = k) (hd : k ≤ dst.length)
    (hs : k ≤ src.length) : memcpy dst 0 src n = some (src.take k ++ dst.drop k) := by
  have h := memcpy_eq (show 0 + k ≤ dst.length by omega) hs
  rw [splice_zero, List.length_take, min_eq_left hs] at h
  rw [hn]
  exact h

/-- A copy right after the bytes `d` copied to the start of a block. -/
theorem memcpy_after {dst d src : List Byte} {o n : Int} {k : Nat} (ho : o = d.length) (hn : n = k)
    (hd : d.length + k ≤ dst.length) (hs : k ≤ src.length) :
    memcpy (splice dst 0 d) o src n = some (splice dst 0 (d ++ src.take k)) := by
  rw [ho, hn, memcpy_eq (by rw [length_splice (by omega)]; exact hd) hs]
  have := splice_splice (a := d) (b := src.take k) (Nat.zero_le dst.length)
  rw [Nat.zero_add] at this
  rw [this]

/-- A copy that has a value is inside the block, and keeps its length. -/
theorem memcpy_some {dst src d : List Byte} {o n : Int} (h : memcpy dst o src n = some d) :
    d.length = dst.length ∧ o + n ≤ dst.length := by
  rw [memcpy] at h
  split at h
  · rename_i hc
    obtain ⟨h0, h1, h2, h3⟩ := hc
    cases h
    refine ⟨length_splice ?_, h2⟩
    rw [List.length_take, min_eq_left (by omega)]
    omega
  · cases h

/-- A copy that leaves the block it writes to has no value. -/
theorem memcpy_eq_none {dst src : List Byte} {off n : Nat} (hd : dst.length < off + n) :
    memcpy dst off src n = none := by
  rw [memcpy, if_neg (by omega)]

end Miku
