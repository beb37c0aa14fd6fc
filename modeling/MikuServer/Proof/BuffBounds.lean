import MikuServer.Proof.CircleBuff

/-!
# The bounds of the byte buffer

A call that has a value copies nothing outside of `buff_`, and no negative length.
`AddBuff` always has one, and so has a `GetBuff` that takes all bytes. One that takes
a part of them reads past the array exactly where the array is full, so that the
tail is at the header, and the part goes on at the start (`Unwrapped`).
-/

namespace Miku.Common.CircleBuff

def step (b : CircleBuff) : Op → Option CircleBuff
  | .add data => (b.addBuff data data.length).map Prod.snd
  | .get buffOut lenIn => (b.getBuff buffOut lenIn).map Got.circle
  | .reset => some b.resetBuff

/-- The offsets, and what is free. -/
structure InArray (n : Nat) (b : CircleBuff) : Prop where
  length : b.buff.length = n
  header : b.header ≤ n
  tail : b.tail ≤ n
  remain : 0 ≤ b.remainLen ∧ b.remainLen ≤ n

/-- Where the array is full and the tail is at the header, no part of the bytes is asked for that goes on
at the start of the array. -/
def Unwrapped (b : CircleBuff) : Op → Prop
  | .get _ lenIn => b.remainLen = 0 → b.header = b.tail → lenIn < b.buff.length → b.header + lenIn ≤ b.buff.length
  | _ => True

instance (b : CircleBuff) : DecidablePred b.Unwrapped
  | .add _ | .reset => .isTrue trivial
  | .get _ lenIn => inferInstanceAs (Decidable (b.remainLen = 0 → b.header = b.tail → lenIn < b.buff.length →
      b.header + lenIn ≤ b.buff.length))

variable {b b' : CircleBuff} {q data out : List Byte} {n : Nat} {op : Op}

namespace Holds

theorem inArray (hh : Holds b q) : InArray b.buff.length b := by
  have hr := hh.remain
  have hle := hh.le
  exact ⟨rfl, hh.header_le, hh.tail_le, by omega, by omega⟩

/-- Where the pointers show bytes in one piece, they end before the array does, unless it is full. -/
theorem piece_iff (hh : Holds b q) {k : Nat} (hk : k < q.length) :
    (b.header ≤ b.tail → b.header + k ≤ b.buff.length) ↔ b.Unwrapped (.get out k) := by
  have hr := hh.remain
  have hle := hh.le
  have hl := hh.header_le
  have htl := hh.tail_le
  have hplace := hh.place
  have hend := hh.full_of_tail
  refine ⟨fun h _ hht _ => h (Nat.le_of_eq hht), fun h hht => ?_⟩
  by_cases hfull : q.length = b.buff.length
  · exact h (by omega) (by omega) (by omega)
  · omega

end Holds

/-- All bytes are taken. -/
theorem getBuff_reset (hh : Holds b q) {k : Nat} (hk : q.length ≤ k) (ho : k ≤ out.length) :
    ∃ g, b.getBuff out k = some g ∧ g.circle = b.resetBuff := by
  have hr := hh.remain
  have hl := hh.header_le
  have htl := hh.tail_le
  have hle := hh.le
  have hplace := hh.place
  by_cases hht : b.header ≤ b.tail
  · have hlen : (b.tail : Int) - b.header = (b.tail - b.header : Nat) := by omega
    have hdrop : (b.buff.drop b.header).length = b.buff.length - b.header := List.length_drop
    have hcopy : memcpy out 0 (b.buff.drop b.header) (b.tail - b.header : Nat) =
        some ((b.buff.drop b.header).take (b.tail - b.header) ++ out.drop (b.tail - b.header)) :=
      memcpy_front rfl (by omega) (by omega)
    have hstored : ¬b.buffLen - b.remainLen > k := by simp only [buffLen]; omega
    simp only [getBuff, if_neg hstored, if_pos hht, hlen, hcopy, Option.bind_eq_bind, Option.bind_some]
    exact ⟨_, rfl, rfl⟩
  · have hg := getBuff_wrapped hh hk ho (by omega) (by omega) (by omega)
    exact ⟨_, hg, rfl⟩

/-- `AddBuff` stores the bytes or leaves the buffer as it was. -/
theorem addBuff_keep (hh : Holds b q) (data : List Byte) :
    ∃ ok b', b.addBuff data data.length = some (ok, b') ∧ b'.buff.length = b.buff.length ∧ ∃ q', Holds b' q' := by
  by_cases hu : q.length + data.length ≤ b.buff.length
  · obtain ⟨b', hb, hl, hh'⟩ := addBuff_ok hh hu
    exact ⟨true, b', hb, hl, _, hh'⟩
  · exact ⟨false, b, addBuff_full hh (Nat.lt_of_not_le hu), rfl, q, hh⟩

/-- `GetBuff` takes a part of the bytes, or all of them. -/
theorem getBuff_keep (hh : Holds b q) {k : Nat} (ho : k ≤ out.length) (hu : b.Unwrapped (.get out k)) :
    ∃ g, b.getBuff out k = some g ∧ g.circle.buff.length = b.buff.length ∧ ∃ q', Holds g.circle q' := by
  rcases Nat.lt_or_ge k q.length with hk | hk
  · obtain ⟨g, hg, -, -, -, hbuff, hh'⟩ := getBuff_part hh hk ho ((hh.piece_iff hk).mpr hu)
    exact ⟨g, hg, by rw [hbuff], _, hh'⟩
  · obtain ⟨g, hg, hc⟩ := getBuff_reset hh hk ho
    refine ⟨g, hg, ?_, [], ?_⟩
    · rw [hc]
      rfl
    · rw [hc]
      exact resetBuff_holds hh.pos

/-- `buff_` is read past its end. -/
theorem getBuff_eq_none (hh : Holds b q) {k : Nat} (hu : ¬b.Unwrapped (.get out k)) : b.getBuff out k = none := by
  have hr := hh.remain
  have hle := hh.le
  have hl := hh.header_le
  have hk : k < q.length := by
    by_contra hge
    refine hu fun hfull _ hlt => ?_
    omega
  have hpiece : ¬(b.header ≤ b.tail → b.header + k ≤ b.buff.length) := fun h => hu ((hh.piece_iff hk).mp h)
  obtain ⟨hht, hend⟩ := Classical.not_imp.mp hpiece
  have hstored : b.buffLen - b.remainLen > k := by simp only [buffLen]; omega
  have hcopy : memcpy out 0 (b.buff.drop b.header) k = none := by
    rw [memcpy, if_neg]
    rw [List.length_drop]
    omega
  simp only [getBuff, if_pos hstored, if_pos hht, hcopy, Option.bind_eq_bind, Option.bind_none]

/-- A call that is `Unwrapped` has a value, and leaves what it should. -/
theorem Holds.step (hh : Holds b q) (hf : op.Fits) (hu : b.Unwrapped op) :
    ∃ b', b.step op = some b' ∧ b'.buff.length = b.buff.length ∧ ∃ q', Holds b' q' := by
  cases op with
  | add data =>
    obtain ⟨ok, b', hb, hh'⟩ := addBuff_keep hh data
    exact ⟨b', by rw [CircleBuff.step, hb]; rfl, hh'⟩
  | get buffOut lenIn =>
    obtain ⟨g, hg, hh'⟩ := getBuff_keep hh hf hu
    exact ⟨g.circle, by rw [CircleBuff.step, hg]; rfl, hh'⟩
  | reset => exact ⟨b.resetBuff, rfl, rfl, [], resetBuff_holds hh.pos⟩

theorem Holds.step_eq_none (hh : Holds b q) (hu : ¬b.Unwrapped op) : b.step op = none := by
  cases op with
  | add data => exact absurd trivial hu
  | get buffOut lenIn => rw [CircleBuff.step, getBuff_eq_none hh hu, Option.map_none]
  | reset => exact absurd trivial hu

/-- In every run all copies are inside the array, and so are the offsets, exactly if no part of a full
array is asked for that goes on at its start. -/
theorem inArray_iff (buff : List Byte) (hn : 0 < buff.length) (ops : List Op) (hf : ∀ op ∈ ops, op.Fits) :
    Always step (InArray buff.length) (new buff) ops ↔ ∀ x ∈ runSteps step (new buff) ops, x.1.Unwrapped x.2 := by
  refine always_iff (P := fun b => b.buff.length = buff.length ∧ ∃ q, Holds b q) (Q := Op.Fits)
    (C := fun x : CircleBuff × Op => x.1.Unwrapped x.2) ?_ ?_ ?_ hf ⟨rfl, [], new_holds hn⟩
  · intro b op b' ⟨hl, q, hh⟩ hq h
    by_cases hu : b.Unwrapped op
    · obtain ⟨c, hc, hl', hh'⟩ := hh.step hq hu
      cases hc.symm.trans h
      exact ⟨hl'.trans hl, hh'⟩
    · cases (hh.step_eq_none hu).symm.trans h
  · intro b ⟨hl, q, hh⟩
    rw [← hl]
    exact hh.inArray
  · intro b op ⟨_, q, hh⟩ hq
    rw [List.forall_mem_singleton]
    by_cases hu : b.Unwrapped op
    · obtain ⟨c, hc, -⟩ := hh.step hq hu
      exact iff_of_true (by rw [hc, Option.isSome_some]) hu
    · exact iff_of_false (by rw [hh.step_eq_none hu]; exact Bool.false_ne_true) hu

/-- A full array from its middle on, of which what ends before it does is taken. -/
theorem inArray_iff_full :
    let ops := [.add [1, 2, 3], .get [0, 0] 2, .add [4, 5, 6], .get [0, 0] 2, .get [0, 0, 0] 1]
    Always step (InArray 4) (new [0, 0, 0, 0]) ops ↔ ∀ x ∈ runSteps step (new [0, 0, 0, 0]) ops, x.1.Unwrapped x.2 :=
  inArray_iff [0, 0, 0, 0] (by decide) _ (by decide)

/-- Three bytes of a full array, from its middle on. -/
theorem not_inArray_full : ¬Always step (InArray 4) (new [0, 0, 0, 0])
    [.add [1, 2, 3], .get [0, 0] 2, .add [4, 5, 6], .get [0, 0, 0] 3] := by
  rintro ⟨-, _, h, -, _, h', -, _, h'', -, _, h''', -⟩
  cases h
  cases h'
  cases h''
  cases h'''

end Miku.Common.CircleBuff
