import MikuServer.Framework.Loop
import MikuServer.Framework.Ring
import MikuServer.Impl.CircleBuff

/-!
# The byte buffer as a FIFO

`Holds b q`: the bytes of `q` are in the ring, from `buff_header_` on. `AddBuff`
keeps it (`addBuff_ok`, `addBuff_full`). `GetBuff` keeps it where it takes part
of the bytes (`getBuff_part`) and does not read past the array, and empties the
buffer (`getBuff_all`), but copies them out right only if they lie in one piece,
which `Sound` says of the pointers.
-/

namespace Miku.Common.CircleBuff

/-- The bytes of `q` are stored. The header can be at the end of the array, and where the bytes fill
the array the tail may be at the header or, if that is the end, at the start. -/
structure Holds (b : CircleBuff) (q : List Byte) : Prop where
  pos : 0 < b.buff.length
  le : q.length ≤ b.buff.length
  remain : b.remainLen = b.buff.length - q.length
  header_le : b.header ≤ b.buff.length
  tail_le : b.tail ≤ b.buff.length
  content : ring b.buff b.header q.length = q
  place : b.tail = b.header + q.length ∨ b.tail + b.buff.length = b.header + q.length ∨
    b.tail = 0 ∧ b.header = b.buff.length ∧ q.length = b.buff.length
  full_of_tail : b.tail = b.buff.length → b.header = b.buff.length ∧ q.length = b.buff.length
  empty : q.length = 0 → b.header = 0 ∧ b.tail = 0

variable {b : CircleBuff} {q data out : List Byte}

theorem resetBuff_holds (hn : 0 < b.buff.length) : Holds b.resetBuff [] where
  pos := hn
  le := Nat.zero_le _
  remain := by simp [resetBuff, buffLen]
  header_le := Nat.zero_le _
  tail_le := Nat.zero_le _
  content := ring_zero
  place := .inl rfl
  full_of_tail h := absurd h (by show ¬ 0 = b.buff.length; omega)
  empty _ := ⟨rfl, rfl⟩

theorem new_holds {buff : List Byte} (hn : 0 < buff.length) : Holds (new buff) [] :=
  resetBuff_holds (b := new buff) hn

namespace Holds

/-! ## `AddBuff` -/

/-- Bytes that are stored after the last one. -/
theorem append (hh : Holds b q) {buff : List Byte} {tail : Nat} (hl : buff.length = b.buff.length)
    (hd : 0 < data.length) (hu : q.length + data.length ≤ b.buff.length)
    (hold : ∀ i < q.length, buff[(b.header + i) % b.buff.length]? = b.buff[(b.header + i) % b.buff.length]?)
    (hnew : ∀ i < data.length, buff[(b.header + q.length + i) % b.buff.length]? = data[i]?)
    (ht : tail < b.buff.length ∨ tail = b.buff.length ∧ b.header = tail ∧ q.length + data.length = tail)
    (hp : tail = b.header + (q.length + data.length) ∨ tail + b.buff.length = b.header + (q.length + data.length)) :
    Holds { b with buff := buff, tail := tail, remainLen := b.remainLen - data.length } (q ++ data) := by
  have hlen : (q ++ data).length = q.length + data.length := List.length_append
  have hr := hh.remain
  have hle := hh.header_le
  refine ⟨by simp only [hl]; exact hh.pos, by simp only [hl]; omega, by simp only [hl]; omega, by simp only [hl]; omega,
    by simp only [hl]; omega, ?_, ?_, ?_, ?_⟩
  · rw [hlen]
    show ring buff b.header _ = _
    rw [ring_append hl hu hold hnew, hh.content]
  · simp only [hl, hlen]
    exact hp.imp_right Or.inl
  · simp only [hl, hlen]
    omega
  · intro h0
    omega

/-- No bytes are stored; the tail may go from the end of the array to its start. -/
theorem append_nil (hh : Holds b q) :
    Holds { b with tail := if b.tail = b.buff.length then 0 else b.tail } q := by
  have hpos := hh.pos
  refine ⟨hpos, hh.le, hh.remain, hh.header_le, ?_, hh.content, ?_, ?_, ?_⟩ <;> dsimp only <;> split <;> rename_i ht
  · omega
  · exact hh.tail_le
  · exact .inr (.inr ⟨rfl, hh.full_of_tail ht⟩)
  · exact hh.place
  · omega
  · exact hh.full_of_tail
  · intro h0
    have := hh.full_of_tail ht
    omega
  · exact hh.empty

/-- One piece, after the last byte. -/
theorem append_piece (hh : Holds b q) {tail : Nat} (hd : 0 < data.length)
    (hu : q.length + data.length ≤ b.buff.length) (hfit : b.tail + data.length ≤ b.buff.length)
    (hp : b.tail = b.header + q.length ∨ b.tail + b.buff.length = b.header + q.length)
    (ht : b.tail < b.header ∧ tail = b.tail + data.length ∨
      b.header ≤ b.tail ∧ tail = if b.tail + data.length = b.buff.length then 0 else b.tail + data.length) :
    Holds { b with
      buff := splice b.buff b.tail data
      tail := tail
      remainLen := b.remainLen - data.length } (q ++ data) := by
  have hle := hh.header_le
  have hpos := hh.pos
  refine hh.append (length_splice hfit) hd hu (fun i hi => ?_) (fun i hi => ?_) ?_ ?_
  · rw [getElem?_splice hfit, mod_of_lt_two_mul (by omega)]
    rw [if_neg]
    split <;> omega
  · have hslot : (b.header + q.length + i) % b.buff.length = b.tail + i := by
      rw [mod_of_lt_two_mul (by omega)]
      split <;> omega
    rw [hslot, getElem?_splice hfit, if_pos (by omega), Nat.add_sub_cancel_left]
  · rcases ht with ⟨hlt, rfl⟩ | ⟨hlt, rfl⟩
    · omega
    · split <;> omega
  · rcases ht with ⟨hlt, rfl⟩ | ⟨hlt, rfl⟩
    · omega
    · split <;> omega

/-- Two pieces, at the end of the array and at its start. -/
theorem append_pieces (hh : Holds b q) (hu : q.length + data.length ≤ b.buff.length)
    (hp : b.tail = b.header + q.length) {e : Nat} (he : b.tail + e = b.buff.length) (hd : e < data.length) :
    Holds { b with
      buff := splice (splice b.buff b.tail (data.take e)) 0 (data.drop e)
      tail := data.length - e
      remainLen := b.remainLen - data.length } (q ++ data) := by
  have hle := hh.header_le
  have htake : (data.take e).length = e := by rw [List.length_take]; omega
  have hdrop : (data.drop e).length = data.length - e := List.length_drop
  have hfit : b.tail + (data.take e).length ≤ b.buff.length := by omega
  have hl : (splice b.buff b.tail (data.take e)).length = b.buff.length := length_splice hfit
  have hfit' : 0 + (data.drop e).length ≤ (splice b.buff b.tail (data.take e)).length := by omega
  refine hh.append (by rw [length_splice hfit', hl]) (by omega) hu (fun i hi => ?_) (fun i hi => ?_) (by omega)
    (by omega)
  · rw [Nat.mod_eq_of_lt (by omega), getElem?_splice hfit', if_neg (by omega), getElem?_splice hfit, if_neg (by omega)]
  · by_cases hi' : i < e
    · rw [Nat.mod_eq_of_lt (by omega), getElem?_splice hfit', if_neg (by omega), getElem?_splice hfit,
        if_pos (by omega), show b.header + q.length + i - b.tail = i by omega, List.getElem?_take_of_lt hi']
    · rw [mod_of_lt_two_mul (by omega), if_neg (by omega), getElem?_splice hfit', if_pos (by omega),
        List.getElem?_drop, show e + (b.header + q.length + i - b.buff.length - 0) = i by omega]

end Holds

/-! ## `AddBuff` -/

theorem addBuff_full (hh : Holds b q) (h : b.buff.length < q.length + data.length) :
    b.addBuff data data.length = some (false, b) := by
  have hr := hh.remain
  rw [addBuff]
  split
  · rfl
  · rw [if_pos (by omega)]

theorem addBuff_nil (hh : Holds b q) :
    b.addBuff [] 0 = some (true, { b with tail := if b.tail = b.buff.length then 0 else b.tail }) := by
  have hr := hh.remain
  have hle := hh.header_le
  have htl := hh.tail_le
  have hcopy : memcpy b.buff b.tail [] 0 = some b.buff := by
    rw [show (0 : Int) = (0 : Nat) by rfl, memcpy_eq htl (Nat.zero_le _)]
    simp [splice]
  rw [addBuff, if_neg (by simp only [buffLen]; omega), if_neg (by have := hh.le; omega)]
  simp only [hcopy, Int.toNat_zero, Nat.add_zero, sub_zero, Option.bind_eq_bind, Option.bind_some]
  split
  · rw [if_pos (by simp only [buffLen]; omega)]
  · rw [if_neg (by omega)]

/-- One piece. -/
theorem addBuff_piece (hh : Holds b q) (hu : q.length + data.length ≤ b.buff.length)
    (hend : b.tail + data.length ≤ b.buff.length) :
    b.addBuff data data.length = some (true, { b with
      buff := splice b.buff b.tail data
      tail := if b.header ≤ b.tail ∧ b.tail + data.length = b.buff.length then 0 else b.tail + data.length
      remainLen := b.remainLen - data.length }) := by
  have hr := hh.remain
  rw [addBuff, if_neg (by simp only [buffLen]; omega), if_neg (by omega), memcpy_eq hend le_rfl, List.take_length]
  by_cases hht : b.header ≤ b.tail
  · rw [if_pos hht, if_pos (by simp only [buffLen]; omega)]
    simp only [hht, true_and]
    rfl
  · rw [if_neg hht]
    simp only [hht, false_and, if_false]
    rfl

/-- Two pieces. -/
theorem addBuff_pieces (hh : Holds b q) (hht : b.header ≤ b.tail) (hu : q.length + data.length ≤ b.buff.length)
    {e : Nat} (he : b.tail + e = b.buff.length) (hd : e < data.length) :
    b.addBuff data data.length = some (true, { b with
      buff := splice (splice b.buff b.tail (data.take e)) 0 (data.drop e)
      tail := data.length - e
      remainLen := b.remainLen - data.length }) := by
  have hr := hh.remain
  have hlen : b.buffLen - b.tail = e := by simp only [buffLen]; omega
  have hrest : (data.length : Int) - e = (data.length - e : Nat) := by omega
  have hl : (splice b.buff b.tail (data.take e)).length = b.buff.length :=
    length_splice (by rw [List.length_take]; omega)
  have hfirst := memcpy_eq he.le hd.le
  have hsecond : memcpy (splice b.buff b.tail (data.take e)) 0 (data.drop e) (data.length - e : Nat) =
      some (splice (splice b.buff b.tail (data.take e)) 0 (data.drop e)) := by
    have h := memcpy_eq (show 0 + (data.length - e) ≤ (splice b.buff b.tail (data.take e)).length by omega)
      (List.length_drop (l := data)).ge
    rwa [← List.length_drop, List.take_length, List.length_drop] at h
  rw [addBuff, if_neg (by simp only [buffLen]; omega), if_neg (by omega), if_pos hht]
  simp only [hlen, hrest, Int.toNat_natCast, hfirst, Option.bind_eq_bind, Option.bind_some, hsecond]
  rw [if_neg (by omega)]

theorem addBuff_ok (hh : Holds b q) (hu : q.length + data.length ≤ b.buff.length) :
    ∃ b', b.addBuff data data.length = some (true, b') ∧ b'.buff.length = b.buff.length ∧ Holds b' (q ++ data) := by
  have hle := hh.header_le
  have hplace := hh.place
  rcases Nat.eq_zero_or_pos data.length with h0 | h0
  · obtain rfl : data = [] := List.eq_nil_of_length_eq_zero h0
    rw [List.append_nil]
    exact ⟨_, addBuff_nil hh, rfl, hh.append_nil⟩
  have hnext : b.tail = b.header + q.length ∨ b.tail + b.buff.length = b.header + q.length := by omega
  by_cases hend : b.tail + data.length ≤ b.buff.length
  · refine ⟨_, addBuff_piece hh hu hend, length_splice hend, hh.append_piece h0 hu hend hnext ?_⟩
    by_cases hht : b.header ≤ b.tail
    · refine .inr ⟨hht, ?_⟩
      simp only [hht, true_and]
    · refine .inl ⟨by omega, ?_⟩
      rw [if_neg fun h => hht h.1]
  · have hht : b.header ≤ b.tail := by omega
    have htl := hh.tail_le
    have he : b.tail + (b.buff.length - b.tail) = b.buff.length := by omega
    refine ⟨_, addBuff_pieces hh hht hu he (by omega), ?_, hh.append_pieces hu (by omega) he (by omega)⟩
    have htake : b.tail + (data.take (b.buff.length - b.tail)).length ≤ b.buff.length := by
      rw [List.length_take]
      omega
    rw [length_splice, length_splice htake]
    rw [length_splice htake, List.length_drop]
    omega

/-! ## `GetBuff` -/

/-- The header after `k` of the bytes. -/
theorem Holds.advance (hh : Holds b q) {k header : Nat} (hk : k < q.length) (hle : header ≤ b.buff.length)
    (h : header = b.header + k ∨ b.tail < b.header ∧ header + b.buff.length = b.header + k) :
    Holds { b with header := header, remainLen := b.remainLen + k } (q.drop k) := by
  have hr := hh.remain
  have hq := hh.le
  have hl := hh.header_le
  have htl := hh.tail_le
  have hplace := hh.place
  have hfull := hh.full_of_tail
  have hlen : (q.drop k).length = q.length - k := List.length_drop
  have hring : ring b.buff header (q.length - k) = q.drop k := by
    rw [← hh.content, length_ring hq, ← drop_ring hq hk.le]
    rcases h with rfl | ⟨-, h⟩
    · rfl
    · have hmod : (header + b.buff.length) % b.buff.length = header % b.buff.length := Nat.add_mod_right ..
      rw [← h, ← ring_mod, ← hmod, ring_mod]
  refine ⟨hh.pos, ?_, ?_, hle, htl, ?_, ?_, ?_, ?_⟩ <;> simp only [hlen]
  · omega
  · omega
  · exact hring
  · omega
  · omega
  · omega

/-- Part of the bytes. -/
theorem getBuff_part (hh : Holds b q) {k : Nat} (hk : k < q.length) (ho : k ≤ out.length)
    (hs : b.header ≤ b.tail → b.header + k ≤ b.buff.length) :
    ∃ g, b.getBuff out k = some g ∧ g.ret = true ∧ g.lenOut = k ∧ g.buffOut.take k = q.take k ∧
      g.circle.buff = b.buff ∧ Holds g.circle (q.drop k) := by
  have hr := hh.remain
  have hq := hh.le
  have hl := hh.header_le
  have hstored : b.buffLen - b.remainLen > k := by simp only [buffLen]; omega
  have hfront : q.take k = ring b.buff b.header k := by rw [← hh.content, take_ring hk.le]
  have hdrop : (b.buff.drop b.header).length = b.buff.length - b.header := List.length_drop
  by_cases hpiece : b.header + k ≤ b.buff.length
  · have hcopy : memcpy out 0 (b.buff.drop b.header) k = some ((b.buff.drop b.header).take k ++ out.drop k) :=
      memcpy_front rfl ho (by omega)
    have hg : b.getBuff out k = some ⟨true, (b.buff.drop b.header).take k ++ out.drop k, k,
        { b with header := b.header + k, remainLen := b.remainLen + k }⟩ := by
      simp only [getBuff, hcopy, if_pos hstored, Option.bind_eq_bind, Option.bind_some, Int.toNat_natCast]
      split
      · rfl
      · rw [if_pos (by simp only [buffLen]; omega)]
    refine ⟨_, hg, rfl, rfl, ?_, rfl, hh.advance hk hpiece (.inl rfl)⟩
    rw [hfront, ring_of_le hpiece]
    exact List.take_left' (by rw [List.length_take]; omega)
  · -- The bytes to the end of the array, and those at its start.
    have hht : b.tail < b.header := by omega
    obtain ⟨e, he⟩ := Nat.exists_eq_add_of_le hl
    obtain ⟨r, hr'⟩ := Nat.exists_eq_add_of_le (show e ≤ k by omega)
    have hend : b.buffLen - b.header = e := by simp only [buffLen]; omega
    have hrest : (k : Int) - e = r := by omega
    have hfirst : memcpy out 0 (b.buff.drop b.header) e = some (splice out 0 (b.buff.drop b.header)) := by
      have h := memcpy_eq (show 0 + e ≤ out.length by omega) (show e ≤ (b.buff.drop b.header).length by omega)
      rwa [List.take_of_length_le (by omega)] at h
    have hsecond : memcpy (splice out 0 (b.buff.drop b.header)) e b.buff r =
        some (splice out 0 (b.buff.drop b.header ++ b.buff.take r)) :=
      memcpy_after (by omega) rfl (by omega) (by omega)
    have hg : b.getBuff out k = some ⟨true, splice out 0 (b.buff.drop b.header ++ b.buff.take r), k,
        { b with header := r, remainLen := b.remainLen + k }⟩ := by
      simp only [getBuff, hend, hrest, hfirst, hsecond, if_pos hstored, Option.bind_eq_bind, Option.bind_some,
        Int.toNat_natCast]
      rw [if_neg (by omega), if_neg (by omega)]
    refine ⟨_, hg, rfl, rfl, ?_, rfl, hh.advance hk (by omega) (.inr ⟨hht, by omega⟩)⟩
    rw [hfront, ring_of_ge hl (by omega) (by omega), splice_zero, show b.header + k - b.buff.length = r by omega]
    exact List.take_left' (by rw [List.length_append, List.length_take]; omega)

theorem getBuff_straight (hh : Holds b q) {k : Nat} (hk : q.length ≤ k) (ho : k ≤ out.length)
    (ht : b.header + q.length = b.tail) :
    b.getBuff out k = some ⟨true, q ++ out.drop q.length, q.length, b.resetBuff⟩ := by
  have hr := hh.remain
  have htl := hh.tail_le
  have hstored : b.buffLen - b.remainLen = q.length := by simp only [buffLen]; omega
  have hlen : (b.tail : Int) - b.header = q.length := by omega
  have hq : (b.buff.drop b.header).take q.length = q := by rw [← ring_of_le (by omega), hh.content]
  have hcopy : memcpy out 0 (b.buff.drop b.header) q.length = some (q ++ out.drop q.length) := by
    rw [memcpy_front rfl (by omega) (by rw [List.length_drop]; omega), hq]
  simp only [getBuff, hstored, hlen, hcopy, Option.bind_eq_bind, Option.bind_some]
  rw [if_neg (by omega), if_pos (by omega)]

/-- Two copies to the start of `buff_out`. -/
theorem getBuff_wrapped (hh : Holds b q) {k : Nat} (hk : q.length ≤ k) (ho : k ≤ out.length)
    (ht : b.tail < b.header) (hend : b.buff.length - b.header ≤ q.length) (htail : b.tail ≤ q.length) :
    b.getBuff out k = some ⟨true, splice (splice out 0 (b.buff.drop b.header)) 0 (b.buff.take b.tail), q.length,
      b.resetBuff⟩ := by
  have hr := hh.remain
  have hl := hh.header_le
  have htl := hh.tail_le
  have hstored : b.buffLen - b.remainLen = q.length := by simp only [buffLen]; omega
  have hlen : b.buffLen - b.header = (b.buff.drop b.header).length := by
    rw [List.length_drop]
    simp only [buffLen]
    omega
  have hfit : 0 + (b.buff.drop b.header).length ≤ out.length := by rw [List.length_drop]; omega
  have hfirst := memcpy_eq hfit le_rfl
  have hsecond : memcpy (splice out 0 (b.buff.drop b.header)) 0 b.buff b.tail =
      some (splice (splice out 0 (b.buff.drop b.header)) 0 (b.buff.take b.tail)) :=
    memcpy_eq (show 0 + b.tail ≤ (splice out 0 (b.buff.drop b.header)).length by rw [length_splice hfit]; omega) htl
  rw [List.take_length, Nat.cast_zero] at hfirst
  simp only [getBuff, hstored, hlen, hfirst, hsecond, Option.bind_eq_bind, Option.bind_some]
  rw [if_neg (by omega), if_neg (by omega)]

/-- All the bytes, where they lie in one piece. -/
theorem getBuff_all (hh : Holds b q) {k : Nat} (hk : q.length ≤ k) (ho : k ≤ out.length)
    (hs : if b.header ≤ b.tail then b.header + q.length = b.tail
      else b.header + q.length = b.buff.length ∨ q.length = b.tail) :
    ∃ g, b.getBuff out k = some g ∧ g.ret = true ∧ g.lenOut = q.length ∧ g.buffOut.take q.length = q ∧
      g.circle = b.resetBuff := by
  have hl := hh.header_le
  have htl := hh.tail_le
  have hplace := hh.place
  split at hs
  · exact ⟨_, getBuff_straight hh hk ho hs, rfl, rfl, List.take_left, rfl⟩
  · have hg := getBuff_wrapped hh hk ho (by omega) (by omega) (by omega)
    refine ⟨_, hg, rfl, rfl, ?_, rfl⟩
    have hq := hh.content
    rw [ring_of_ge hl (by omega) hh.le] at hq
    rcases hs with h | h
    · obtain ht : b.tail = 0 := by omega
      rw [show b.header + q.length - b.buff.length = 0 by omega, List.take_zero, List.append_nil] at hq
      rw [ht, List.take_zero, splice_zero, List.nil_append, List.length_nil, List.drop_zero, hq, splice_zero]
      exact List.take_left
    · obtain hh' : b.header = b.buff.length := by omega
      rw [hh', List.drop_length, List.nil_append, show b.buff.length + q.length - b.buff.length = b.tail by omega] at hq
      rw [hh', List.drop_length, splice_zero out, List.nil_append, List.length_nil, List.drop_zero, hq, splice_zero]
      exact List.take_left

/-! ## Runs -/

inductive Op
  | add (data : List Byte)
  | get (buffOut : List Byte) (lenIn : Nat)
  | reset
  deriving DecidableEq

/-- `buff_out` has room for what is asked for. -/
def Op.Fits : Op → Prop
  | .get buffOut lenIn => lenIn ≤ buffOut.length
  | _ => True

instance : DecidablePred Op.Fits
  | .add _ => .isTrue trivial
  | .get buffOut lenIn => inferInstanceAs (Decidable (lenIn ≤ buffOut.length))
  | .reset => .isTrue trivial

/-- `GetBuff` does not read past the array, and where it takes all bytes the pointers show them
in one piece. -/
def Sound (b : CircleBuff) : Op → Prop
  | .get _ lenIn =>
    let stored := b.buffLen - b.remainLen
    if stored > lenIn then b.header ≤ b.tail → b.header + lenIn ≤ b.buffLen
    else if b.header ≤ b.tail then b.header + stored = b.tail
    else b.header + stored = b.buffLen ∨ stored = b.tail
  | _ => True

instance (b : CircleBuff) : DecidablePred b.Sound
  | .add _ => .isTrue trivial
  | .get _ lenIn => inferInstanceAs (Decidable (
      if b.buffLen - b.remainLen > lenIn then b.header ≤ b.tail → b.header + lenIn ≤ b.buffLen
      else if b.header ≤ b.tail then b.header + (b.buffLen - b.remainLen) = b.tail
      else b.header + (b.buffLen - b.remainLen) = b.buffLen ∨ b.buffLen - b.remainLen = b.tail))
  | .reset => .isTrue trivial

theorem getBuff_ok (hh : Holds b q) {k : Nat} (ho : k ≤ out.length) (hs : b.Sound (.get out k)) :
    ∃ g, b.getBuff out k = some g ∧ g.ret = true ∧ g.lenOut = min k q.length ∧
      g.buffOut.take g.lenOut.toNat = q.take k ∧ g.circle.buff.length = b.buff.length ∧ Holds g.circle (q.drop k) := by
  have hr := hh.remain
  have hstored : b.buffLen - b.remainLen = q.length := by simp only [buffLen]; omega
  have hlen : b.buffLen = b.buff.length := rfl
  simp only [Sound, hstored] at hs
  rw [hlen] at hs
  rcases Nat.lt_or_ge k q.length with hk | hk
  · rw [if_pos (by omega)] at hs
    obtain ⟨g, hg, hret, hl, hb, hbuff, hh'⟩ := getBuff_part hh hk ho (by omega)
    refine ⟨g, hg, hret, by omega, ?_, by rw [hbuff], hh'⟩
    rw [hl, Int.toNat_natCast, hb]
  · rw [if_neg (by omega)] at hs
    have hpiece : if b.header ≤ b.tail then b.header + q.length = b.tail
        else b.header + q.length = b.buff.length ∨ q.length = b.tail := by
      split at hs <;> rename_i hht
      · rw [if_pos hht]
        omega
      · rw [if_neg hht]
        omega
    obtain ⟨g, hg, hret, hl, hb, hc⟩ := getBuff_all hh hk ho hpiece
    refine ⟨g, hg, hret, by omega, ?_, by rw [hc]; rfl, ?_⟩
    · rw [hl, Int.toNat_natCast, hb, List.take_of_length_le hk]
    · rw [hc, List.drop_eq_nil_of_le hk]
      exact resetBuff_holds hh.pos

/-- The bytes that `AddBuff` accepted and `GetBuff` returned since the last `ResetBuff`. -/
structure History where
  buff : CircleBuff
  accepted : List Byte
  returned : List Byte
  deriving DecidableEq

namespace History

def start (buff : List Byte) : History := ⟨new buff, [], []⟩

def step (s : History) : Op → Option History
  | .add data => do
    let (ok, b) ← s.buff.addBuff data data.length
    some { s with buff := b, accepted := if ok then s.accepted ++ data else s.accepted }
  | .get buffOut lenIn => do
    let g ← s.buff.getBuff buffOut lenIn
    some { s with buff := g.circle, returned := s.returned ++ g.buffOut.take g.lenOut.toNat }
  | .reset => some ⟨s.buff.resetBuff, [], []⟩

/-- The bytes that are stored. -/
def stored (s : History) : Nat := s.accepted.length - s.returned.length

/-- A FIFO of `n` bytes. -/
def Fifo (n : Nat) (s : History) : Prop :=
  s.buff.buff.length = n ∧ s.returned <+: s.accepted ∧ s.stored ≤ n ∧ s.buff.remainLen = n - s.stored

/-- What a call returns. -/
def Answers (s : History) : Op → Prop
  | .add data => ∃ b, s.buff.addBuff data data.length = some (decide ((data.length : Int) ≤ s.buff.remainLen), b) ∧
      (s.buff.remainLen < data.length → b = s.buff)
  | .get buffOut lenIn => ∃ g, s.buff.getBuff buffOut lenIn = some g ∧ g.ret = true ∧ g.lenOut = min lenIn s.stored
  | .reset => True

/-- The stored bytes are those that were accepted and not returned. -/
def Inv (n : Nat) (s : History) : Prop :=
  s.buff.buff.length = n ∧ ∃ q, Holds s.buff q ∧ s.accepted = s.returned ++ q

variable {s : History} {n : Nat}

theorem stored_eq (he : s.accepted = s.returned ++ q) : s.stored = q.length := by
  rw [stored, he, List.length_append, Nat.add_sub_cancel_left]

theorem start_inv {buff : List Byte} (hn : 0 < buff.length) : Inv buff.length (start buff) :=
  ⟨rfl, [], new_holds hn, rfl⟩

theorem Inv.fifo (h : Inv n s) : Fifo n s := by
  obtain ⟨hn, q, hh, he⟩ := h
  refine ⟨hn, he ▸ List.prefix_append .., ?_, ?_⟩
  · rw [stored_eq he, ← hn]
    exact hh.le
  · rw [stored_eq he, ← hn]
    exact hh.remain

/-- A call that is sound. -/
theorem Inv.step (h : Inv n s) {op : Op} (hf : op.Fits) (hs : s.buff.Sound op) :
    ∃ s', s.step op = some s' ∧ Inv n s' := by
  obtain ⟨hn, q, hh, he⟩ := h
  cases op with
  | add data =>
    by_cases hu : q.length + data.length ≤ s.buff.buff.length
    · obtain ⟨b, ha, hl, hh'⟩ := addBuff_ok hh hu
      refine ⟨{ s with buff := b, accepted := s.accepted ++ data }, ?_, hl.trans hn, q ++ data, hh', ?_⟩
      · simp [History.step, ha]
      · rw [he, List.append_assoc]
    · refine ⟨s, ?_, hn, q, hh, he⟩
      simp [History.step, addBuff_full hh (Nat.lt_of_not_le hu)]
  | get buffOut lenIn =>
    obtain ⟨g, hg, -, -, hb, hl, hh'⟩ := getBuff_ok hh hf hs
    refine ⟨{ s with buff := g.circle, returned := s.returned ++ q.take lenIn }, ?_, hl.trans hn, q.drop lenIn, hh', ?_⟩
    · simp [History.step, hg, hb]
    · rw [List.append_assoc, List.take_append_drop, he]
  | reset => exact ⟨⟨s.buff.resetBuff, [], []⟩, rfl, hn, [], resetBuff_holds hh.pos, rfl⟩

theorem Inv.answers (h : Inv n s) {op : Op} (hf : op.Fits) (hs : s.buff.Sound op) : s.Answers op := by
  obtain ⟨hn, q, hh, he⟩ := h
  have hr := hh.remain
  cases op with
  | add data =>
    by_cases hu : q.length + data.length ≤ s.buff.buff.length
    · obtain ⟨b, ha, -, -⟩ := addBuff_ok hh hu
      refine ⟨b, ?_, by omega⟩
      rw [ha, decide_eq_true (by omega)]
    · refine ⟨s.buff, ?_, fun _ => rfl⟩
      rw [addBuff_full hh (Nat.lt_of_not_le hu), decide_eq_false (by omega)]
  | get buffOut lenIn =>
    obtain ⟨g, hg, hret, hl, -, -, -⟩ := getBuff_ok hh hf hs
    exact ⟨g, hg, hret, by rw [hl, stored_eq he]⟩
  | reset => trivial

end History

/-- In a run whose calls are all sound the buffer is a FIFO of `n` bytes: the bytes returned are the
first ones accepted, `remain_len_` is what is free, and every call returns what it should. -/
theorem fifo_run (buff : List Byte) (hn : 0 < buff.length) (ops : List Op) (hf : ∀ op ∈ ops, op.Fits)
    (hs : ∀ x ∈ runSteps History.step (.start buff) ops, x.1.buff.Sound x.2) :
    Always History.step (History.Fifo buff.length) (.start buff) ops ∧
      ∀ x ∈ runSteps History.step (.start buff) ops, x.1.Answers x.2 := by
  have hok (s : History) (op : Op) (h : History.Inv buff.length s) (hq : op.Fits) (hsound : s.buff.Sound op) :=
    h.step hq hsound
  refine ⟨always_of_steps hok (fun _ => History.Inv.fifo) hf (History.start_inv hn) hs, ?_⟩
  have hall (x : History × Op) (hx : x ∈ runSteps History.step (.start buff) ops) :
      x.2.Fits ∧ x.1.buff.Sound x.2 := ⟨hf x.2 (snd_mem_of_runSteps hx), hs x hx⟩
  refine runSteps_inv (C := fun s op => op.Fits ∧ s.buff.Sound op) ?_ ?_ (History.start_inv hn) hall
  · rintro s op s' h ⟨hq, hsound⟩ he
    obtain ⟨t, ht, hi⟩ := hok s op h hq hsound
    cases ht.symm.trans he
    exact hi
  · rintro s op h ⟨hq, hsound⟩
    exact h.answers hq hsound

/-- Reads in parts, across the end of the array, and of what is left at its start. -/
theorem fifo_run_example :
    let ops := [.add [1, 2, 3], .get [0, 0] 2, .add [4, 5], .get [0] 1, .get [0] 1, .get [0, 0] 2, .reset]
    Always History.step (History.Fifo 4) (.start [0, 0, 0, 0]) ops ∧
      ∀ x ∈ runSteps History.step (.start [0, 0, 0, 0]) ops, x.1.Answers x.2 :=
  fifo_run [0, 0, 0, 0] (by decide) _ (by decide) (by decide)

/-- Three bytes across the end of the array: the one at its start is copied over the others. -/
theorem wrapped_read_wrong :
    ∃ s : History, [Op.add [1, 2, 3], .get [0, 0] 2, .add [4, 5], .get [0, 0, 0] 3].foldlM History.step
      (.start [0, 0, 0, 0]) = some s ∧ ¬ s.returned <+: s.accepted :=
  ⟨_, rfl, by decide⟩

end Miku.Common.CircleBuff
