import MikuServer.Framework.Ring
import MikuServer.Proof.Chain

/-!
# The queue's functions

`Slots q slots start us`: the slots in use, in the order of the ring, are `us`.
`fillSlot_ok` and `fillParts_ok` are what `AddBuffer` does to them, `measure_ok`
and `copy_ok` what `GetBuffer`'s loops do.

`Holds q n ms`: the list has `n` slots and the messages `ms` in it. This is what
its users see, and `addBuffer_ok`, `addBuffer_full`, `getBuffer_ok` and
`getBuffer_no` say what the functions do to it.
-/

namespace Miku

/-- The slots in use, from the start of the ring. -/
structure Slots (q : CircleList) (slots : List UnitStruct) (start : Nat) (us : List UnitStruct) : Prop where
  data : q.dataPtr = some slots
  size : q.maxStruSize = slots.length
  startPos : q.startPosIndex = start
  start_lt : start < slots.length
  used : q.usingSize = us.length
  used_le : us.length ≤ slots.length
  endPos : q.endPosIndex = ((start + us.length) % slots.length : Nat)
  full : ∀ u ∈ slots, u.buff.length = maxSizePerBuff
  occupied : ring slots start us.length = us

@[simp] theorem unitAt_natCast (slots : List UnitStruct) (i : Nat) : unitAt slots i = slots[i]? := by
  rw [unitAt, if_pos (by omega), Int.toNat_natCast]

variable {q : CircleList} {slots us : List UnitStruct} {start : Nat}

/-- The slots in use have full blocks of bytes. -/
theorem Slots.full_used (h : Slots q slots start us) : ∀ u ∈ us, u.buff.length = maxSizePerBuff := by
  intro u hu
  rw [← h.occupied] at hu
  exact h.full u (List.mem_rotate.mp (List.mem_of_mem_take hu))

theorem Slots.getElem? (h : Slots q slots start us) {i : Nat} (hi : i < us.length) :
    slots[(start + i) % slots.length]? = us[i]? := by
  rw [← getElem?_ring h.used_le hi, h.occupied]

namespace CircleList

/-! ## Adding -/

/-- A slot filled after those in use. -/
theorem fillSlot_ok (h : Slots q slots start us) (hu : us.length < slots.length) {buff : List Byte} {n : Nat}
    (hn : n ≤ maxSizePerBuff) (hb : n ≤ buff.length) (child : Bool) :
    ∃ (q' : CircleList) (slots' : List UnitStruct) (u : UnitStruct),
      q.fillSlot slots buff n child = some q' ∧ Slots q' slots' start (us ++ [u]) ∧
      slots'.length = slots.length ∧ u.len = n ∧ u.hasChild = child ∧ u.bytes = buff.take n := by
  have he : (start + us.length) % slots.length < slots.length := Nat.mod_lt _ (by omega)
  obtain ⟨u, hu'⟩ : ∃ u, slots[(start + us.length) % slots.length]? = some u :=
    ⟨_, List.getElem?_eq_getElem he⟩
  have hl : u.buff.length = maxSizePerBuff := h.full u (List.mem_of_getElem? hu')
  have ht : (buff.take n).length = n := by rw [List.length_take, min_eq_left hb]
  have hc : memcpy u.buff 0 buff n = some (splice u.buff 0 (buff.take n)) :=
    memcpy_eq (show 0 + n ≤ u.buff.length by omega) hb
  have hs := h.start_lt
  have hend : (if q.endPosIndex + 1 ≥ q.maxStruSize then 0 else q.endPosIndex + 1) =
      ((start + (us.length + 1)) % slots.length : Nat) := by
    rw [h.endPos, h.size, add_mod_eq hs h.used_le, add_mod_eq hs (b := us.length + 1) (by omega)]
    split <;> split <;> split <;> omega
  let v : UnitStruct := ⟨splice u.buff 0 (buff.take n), n, child⟩
  refine ⟨{ q with
      dataPtr := some (slots.set ((start + us.length) % slots.length) v)
      endPosIndex := if q.endPosIndex + 1 ≥ q.maxStruSize then 0 else q.endPosIndex + 1
      usingSize := q.usingSize + 1 }, slots.set ((start + us.length) % slots.length) v, v, ?_,
    ⟨rfl, ?_, h.startPos, ?_, ?_, ?_, hend.trans ?_, ?_, ?_⟩,
    List.length_set, rfl, rfl, ?_⟩
  · rw [fillSlot, h.endPos, unitAt_natCast, hu', Option.bind_eq_bind, Option.bind_some, hc, Option.bind_eq_bind,
      Option.bind_some, Int.toNat_natCast]
  · rw [List.length_set]; exact h.size
  · rw [List.length_set]; exact hs
  · simp only [h.used, List.length_append, List.length_singleton, Nat.cast_add, Nat.cast_one]
  · rw [List.length_set, List.length_append, List.length_singleton]; exact hu
  · rw [List.length_set, List.length_append, List.length_singleton]
  · intro v hv
    rcases List.mem_or_eq_of_mem_set hv with hv | rfl
    · exact h.full v hv
    · rw [← hl]
      exact length_splice (by omega)
  · rw [List.length_append, List.length_singleton, ring_set_end hs hu, h.occupied]
  · change (splice u.buff 0 (buff.take n)).take ((n : Int).toNat) = _
    rw [splice_zero, Int.toNat_natCast, List.take_left' ht]

/-- The parts of a long message: a chain of slots after those in use, all but
the last with the message's first 0x1000 bytes. -/
theorem fillParts_ok {buff : List Byte} {last : Nat} (hl : last < maxSizePerBuff)
    (hb : maxSizePerBuff ≤ buff.length) (k : Nat) {q : CircleList} {slots us : List UnitStruct}
    (h : Slots q slots start us) (hu : us.length + (k + 1) ≤ slots.length) :
    ∃ (q' : CircleList) (slots' : List UnitStruct) (u : UnitStruct) (c : List UnitStruct),
      fillParts buff last (k + 1) q = some q' ∧ Slots q' slots' start (us ++ u :: c) ∧
      slots'.length = slots.length ∧ 0 < u.len ∧ IsChain (u :: c) ∧
      payload (u :: c) = (List.replicate k (buff.take maxSizePerBuff)).flatten ++
        buff.take (if last = 0 then maxSizePerBuff else last) := by
  have hM : maxSizePerBuff = 4096 := rfl
  induction k generalizing q slots us with
  | zero =>
    obtain ⟨p, hp, hp0, hpM⟩ : ∃ p, (if last = 0 then maxSizePerBuff else last) = p ∧ 0 < p ∧
        p ≤ maxSizePerBuff := ⟨_, rfl, by split <;> omega, by split <;> omega⟩
    obtain ⟨q', slots', u, h1, h2, h3, h4, h5, h6⟩ := fillSlot_ok h (by omega) hpM (hpM.trans hb) false
    refine ⟨q', slots', u, [], ?_, h2, h3, by omega, .last h5 (by omega) (by omega), ?_⟩
    · rw [fillParts, h.data, Option.bind_eq_bind, Option.bind_some, if_neg (by omega)]
      rw [← hp] at h1
      split at h1
      · rw [if_pos (by omega), h1]; rfl
      · rw [if_neg (by omega), h1]; rfl
    · rw [payload_singleton, h6, hp]; rfl
  | succ k ih =>
    obtain ⟨q₁, slots₁, u, h1, h2, h3, h4, h5, h6⟩ := fillSlot_ok h (by omega) le_rfl hb true
    obtain ⟨q', slots', v, c, e1, e2, e3, e4, e5, e6⟩ := ih h2
      (by rw [List.length_append, List.length_singleton]; omega)
    refine ⟨q', slots', u, v :: c, ?_, ?_, e3.trans h3, by omega, .cons h5 h4 e4 e5, ?_⟩
    · rw [fillParts, h.data, Option.bind_eq_bind, Option.bind_some, if_pos (by omega), h1,
        Option.bind_eq_bind, Option.bind_some]
      exact e1
    · rw [List.append_assoc] at e2
      exact e2
    · rw [payload_cons, h6, e6, List.replicate_succ, List.flatten_cons, List.append_assoc]

/-! ## Getting -/

/-- The slots a loop that began at `start` has looked at after `i` turns. -/
def positions (n start i : Nat) : List Int := (List.range i).map fun j => ((start + j) % n : Nat)

/-- The loop's variables after `i` turns: `tmp_start_pos_index` is `n` too small
once the loop has passed the end of the array. -/
structure At (n start i : Nat) (s : Scan) : Prop where
  index : s.index = i - 1
  startPos : s.startPosIndex = if start + i ≤ n then (start : Int) else start - n
  seen : s.seen = positions n start i

theorem At.first {n : Nat} (hs : start < n) : At n start 0 (.first start) where
  index := rfl
  startPos := by rw [if_pos (by omega)]; rfl
  seen := rfl

/-- A turn looks at the next slot of the ring. -/
theorem At.advance {n i : Nat} {s : Scan} (h : At n start i s) (hs : start < n) (hi : i < n) :
    At n start (i + 1) (s.advance n) ∧ (s.advance n).pos = ((start + i) % n : Nat) ∧
      (s.advance n).outLen = s.outLen := by
  obtain ⟨hx, hp, hv⟩ := h
  have hpos : (s.advance n).pos = ((start + i) % n : Nat) := by
    simp only [Scan.pos, Scan.advance, hx, hp]
    rw [add_mod_eq hs hi.le]
    split <;> split <;> split <;> omega
  refine ⟨⟨?_, ?_, ?_⟩, hpos, rfl⟩
  · simp only [Scan.advance, hx]
    omega
  · simp only [Scan.advance, hx, hp]
    split <;> split <;> split <;> omega
  · have e : (s.advance n).seen = s.seen ++ [(s.advance n).pos] := rfl
    rw [e, hv, hpos, positions, positions, List.range_succ, List.map_append, List.map_singleton]

variable {c : List UnitStruct}

/-- Where a loop that has looked at `i` slots finds the chain `us` next. -/
def Ahead (slots : List UnitStruct) (start i : Nat) (us : List UnitStruct) : Prop :=
  ∀ j < us.length, slots[(start + (i + j)) % slots.length]? = us[j]?

theorem Ahead.head {u : UnitStruct} {i : Nat} (h : Ahead slots start i (u :: c)) :
    slots[(start + i) % slots.length]? = some u := h 0 (by simp)

theorem Ahead.tail {u : UnitStruct} {i : Nat} (h : Ahead slots start i (u :: c)) : Ahead slots start (i + 1) c := by
  intro j hj
  rw [show start + (i + 1 + j) = start + (i + (j + 1)) by omega, h (j + 1) (by simpa using hj)]
  rfl

/-- A turn of the loop that adds up the lengths. -/
theorem measureTurn_ok {n i : Nat} {s : Scan} {u : UnitStruct} (h : At n start i s) (hs : start < n) (hi : i < n)
    (hu : slots[(start + i) % n]? = some u) (h0 : 0 ≤ u.len) :
    ∃ s', measureTurn n slots s = some (s', decide (0 < u.len) && u.hasChild) ∧ At n start (i + 1) s' ∧
      s'.outLen = s.outLen + u.len := by
  obtain ⟨h1, h2, h3⟩ := h.advance hs hi
  by_cases hl : u.len ≤ 0
  · refine ⟨s.advance n, ?_, h1, by omega⟩
    simp only [measureTurn, h2, unitAt_natCast, hu, Option.bind_eq_bind, Option.bind_some, if_pos hl,
      decide_eq_false (show ¬ 0 < u.len by omega), Bool.false_and]
  · refine ⟨{ s.advance n with outLen := (s.advance n).outLen + u.len }, ?_, ⟨h1.index, h1.startPos, h1.seen⟩,
      by rw [← h3]⟩
    simp only [measureTurn, h2, unitAt_natCast, hu, Option.bind_eq_bind, Option.bind_some, if_neg hl,
      decide_eq_true (show 0 < u.len by omega), Bool.true_and]

/-- A turn of the loop that copies: the slot's bytes come after those copied
before, and no other slot changes. -/
theorem copyTurn_ok {n i : Nat} {s : Scan} {u : UnitStruct} {out d : List Byte} (h : At n start i s)
    (hs : start < n) (hi : i < n) (hu : slots[(start + i) % n]? = some u) (h0 : 0 ≤ u.len)
    (hM : u.len ≤ maxSizePerBuff) (full : ∀ u ∈ slots, u.buff.length = maxSizePerBuff)
    (ho : s.outLen = d.length) (hl : d.length + u.bytes.length ≤ out.length) :
    ∃ s' slots', copyTurn n (s, slots, splice out 0 d) =
        some ((s', slots', splice out 0 (d ++ u.bytes)), decide (0 < u.len) && u.hasChild) ∧
      At n start (i + 1) s' ∧ s'.outLen = (d ++ u.bytes).length ∧ slots'.length = slots.length ∧
      (∀ u ∈ slots', u.buff.length = maxSizePerBuff) ∧
      ∀ p, p ≠ (start + i) % n → slots'[p]? = slots[p]? := by
  obtain ⟨h1, h2, h3⟩ := h.advance hs hi
  have hb := full u (List.mem_of_getElem? hu)
  have hbytes := length_bytes hb hM
  by_cases hl0 : u.len ≤ 0
  · have hnil : u.bytes = [] := List.length_eq_zero_iff.mp (by omega)
    refine ⟨s.advance n, slots, ?_, h1, ?_, rfl, full, fun p _ => rfl⟩
    · simp only [copyTurn, h2, unitAt_natCast, hu, Option.bind_eq_bind, Option.bind_some, if_pos hl0,
        decide_eq_false (show ¬ 0 < u.len by omega), Bool.false_and, hnil, List.append_nil]
    · rw [h3, ho, hnil, List.append_nil]
  · have hc : memcpy (splice out 0 d) (s.advance n).outLen u.buff u.len =
        some (splice out 0 (d ++ u.bytes)) :=
      memcpy_after (h3.trans ho) (by omega) (by omega) (by omega)
    let v : UnitStruct := ⟨List.replicate maxSizePerBuff 0, 0, u.hasChild⟩
    refine ⟨{ s.advance n with outLen := (s.advance n).outLen + u.len }, slots.set ((start + i) % n) v, ?_,
      ⟨h1.index, h1.startPos, h1.seen⟩, ?_, List.length_set, ?_, ?_⟩
    · simp only [copyTurn, h2, unitAt_natCast, hu, Option.bind_eq_bind, Option.bind_some, if_neg hl0, hc,
        decide_eq_true (show 0 < u.len by omega), Bool.true_and, Int.toNat_natCast, v]
    · simp only [h3, ho, List.length_append, hbytes]
      omega
    · intro w hw
      rcases List.mem_or_eq_of_mem_set hw with hw | rfl
      · exact full w hw
      · exact List.length_replicate
    · exact fun p hp => List.getElem?_set_ne (Ne.symm hp)

/-- The loop that adds up the lengths ends with the chain. -/
theorem measure_ok (hc : IsChain c) (hs : start < slots.length) {i : Nat} {s : Scan} (h : At slots.length start i s)
    (ha : Ahead slots start i c) (hi : i + c.length ≤ slots.length) {fuel : Nat} (hf : c.length ≤ fuel) :
    ∃ s', doWhile (measureTurn slots.length slots) fuel s = some s' ∧ At slots.length start (i + c.length) s' ∧
      s'.outLen = s.outLen + (c.map UnitStruct.len).sum := by
  obtain ⟨fuel, rfl⟩ : ∃ k, fuel = k + 1 := ⟨fuel - 1, by have := hc.length_pos; omega⟩
  induction hc generalizing i s fuel with
  | @last u child nonneg le =>
    rw [List.length_singleton] at hi ⊢
    obtain ⟨s', h1, h2, h3⟩ := measureTurn_ok h hs (by omega) ha.head nonneg
    rw [child, Bool.and_false] at h1
    exact ⟨s', doWhile_stop h1 _, h2, by rw [h3, List.map_singleton, List.sum_singleton]⟩
  | @cons u v us child len pos tail ih =>
    have hM : maxSizePerBuff = 4096 := rfl
    rw [List.length_cons] at hi hf ⊢
    obtain ⟨s₁, h1, h2, h3⟩ := measureTurn_ok h hs (by omega) ha.head (by omega)
    rw [child, decide_eq_true (show 0 < u.len by omega)] at h1
    obtain ⟨fuel, rfl⟩ : ∃ k, fuel = k + 1 := ⟨fuel - 1, by rw [List.length_cons] at hf; omega⟩
    obtain ⟨s', e1, e2, e3⟩ := ih h2 ha.tail (by omega) fuel (by omega)
    refine ⟨s', (doWhile_next h1 _).trans e1, ?_, ?_⟩
    · rw [show i + ((v :: us).length + 1) = i + 1 + (v :: us).length by omega]
      exact e2
    · rw [e3, h3, List.map_cons (a := u), List.sum_cons (a := u.len), Int.add_assoc]

/-- The loop that copies: the chain's bytes come after those copied before, and
no slot after the chain's changes. -/
theorem copy_ok (hc : IsChain c) {n : Nat} {slots : List UnitStruct} (hn : slots.length = n) (hs : start < n)
    {i : Nat} {s : Scan} (h : At n start i s) (ha : Ahead slots start i c) (hi : i + c.length ≤ n)
    (full : ∀ u ∈ slots, u.buff.length = maxSizePerBuff) {out d : List Byte} (ho : s.outLen = d.length)
    (hl : d.length + (payload c).length ≤ out.length) {fuel : Nat} (hf : c.length ≤ fuel) :
    ∃ s' slots', doWhile (copyTurn n) fuel (s, slots, splice out 0 d) =
        some (s', slots', splice out 0 (d ++ payload c)) ∧
      At n start (i + c.length) s' ∧ slots'.length = n ∧ (∀ u ∈ slots', u.buff.length = maxSizePerBuff) ∧
      ∀ j, i + c.length ≤ j → j < n → slots'[(start + j) % n]? = slots[(start + j) % n]? := by
  obtain ⟨fuel, rfl⟩ : ∃ k, fuel = k + 1 := ⟨fuel - 1, by have := hc.length_pos; omega⟩
  induction hc generalizing slots i s d fuel with
  | @last u child nonneg le =>
    rw [List.length_singleton] at hi ⊢
    rw [payload_singleton] at hl ⊢
    obtain ⟨s', slots', h1, h2, -, h4, h5, h6⟩ :=
      copyTurn_ok h hs (by omega) (hn ▸ ha.head) nonneg le full ho hl
    rw [child, Bool.and_false] at h1
    refine ⟨s', slots', doWhile_stop h1 _, h2, h4.trans hn, h5, fun j hj hjn => h6 _ fun he => ?_⟩
    have := slot_inj hs hjn (by omega) he
    omega
  | @cons u v us child len pos tail ih =>
    have hM : maxSizePerBuff = 4096 := rfl
    rw [List.length_cons] at hi hf ⊢
    rw [payload_cons, List.length_append] at hl
    have hl₁ : d.length + u.bytes.length ≤ out.length := by omega
    obtain ⟨s₁, slots₁, h1, h2, h3, h4, h5, h6⟩ :=
      copyTurn_ok h hs (by omega) (hn ▸ ha.head) (by omega) len.le full ho hl₁
    rw [child, decide_eq_true (show 0 < u.len by omega)] at h1
    have ha₁ : Ahead slots₁ start (i + 1) (v :: us) := by
      intro j hj
      rw [h4, hn, h6 _ fun he => ?_, ← hn]
      · exact ha.tail j hj
      · have := slot_inj hs (by omega) (by omega) he
        omega
    obtain ⟨fuel, rfl⟩ : ∃ k, fuel = k + 1 := ⟨fuel - 1, by rw [List.length_cons] at hf; omega⟩
    obtain ⟨s', slots', e1, e2, e3, e4, e5⟩ :=
      ih (h4.trans hn) h2 ha₁ (by omega) h5 h3 (by rw [List.length_append]; omega) fuel (by omega)
    refine ⟨s', slots', ?_, ?_, e3, e4, fun j hj hjn => ?_⟩
    · rw [doWhile_next h1, e1, List.append_assoc, ← payload_cons]
    · rw [show i + ((v :: us).length + 1) = i + 1 + (v :: us).length by omega]
      exact e2
    · rw [e5 j (by omega) hjn, h6]
      intro he
      have := slot_inj hs hjn (by omega) he
      omega

/-- The loops of `GetBuffer` end, having looked at the slots of the first chain. -/
theorem scans_ok (h : Slots q slots start (c ++ us)) (hc : IsChain c) :
    (∃ s, doWhile (measureTurn q.maxStruSize slots) slots.length (.first q.startPosIndex) = some s ∧
      At slots.length start c.length s ∧ s.outLen = (payload c).length) ∧
    ∀ out, (payload c).length ≤ out.length →
      ∃ t slots', doWhile (copyTurn q.maxStruSize) slots.length (.first q.startPosIndex, slots, out) =
          some (t, slots', splice out 0 (payload c)) ∧
        At slots.length start c.length t ∧ slots'.length = slots.length ∧
        (∀ u ∈ slots', u.buff.length = maxSizePerBuff) ∧
        ∀ j, c.length ≤ j → j < slots.length →
          slots'[(start + j) % slots.length]? = slots[(start + j) % slots.length]? := by
  have hle := h.used_le
  rw [List.length_append] at hle
  have hlen := (hc.length_payload fun u hu => h.full_used u (List.mem_append_left _ hu)).1
  have ha : Ahead slots start 0 c := by
    intro j hj
    rw [Nat.zero_add, h.getElem? (by rw [List.length_append]; omega), List.getElem?_append_left hj]
  have hf : c.length ≤ slots.length := by omega
  rw [h.size, h.startPos]
  refine ⟨?_, fun out ho => ?_⟩
  · obtain ⟨s, e1, e2, e3⟩ := measure_ok hc h.start_lt (.first h.start_lt) ha (by omega) hf
    rw [Nat.zero_add] at e2
    exact ⟨s, e1, e2, by rw [e3, hlen]; exact Int.zero_add _⟩
  · obtain ⟨t, slots', e1, e2, e3, e4, e5⟩ := copy_ok hc rfl h.start_lt (.first h.start_lt) ha (by omega) h.full
      (d := []) rfl (by simpa using ho) hf
    rw [Nat.zero_add] at e2
    have e0 : splice out 0 [] = out := by rw [splice_zero]; rfl
    rw [e0, List.nil_append] at e1
    exact ⟨t, slots', e1, e2, e3, e4, fun j hj hjn => e5 j (by omega) hjn⟩

/-- `GetBuffer` with a chain first that is too long for the buffer it is given. -/
theorem getBuffer_long (h : Slots q slots start (c ++ us)) (hc : IsChain c) (out : List Byte) (outLen : Int)
    {max : Int} (hm : max ≤ (payload c).length) : q.getBuffer out max outLen = some ⟨false, out, outLen, q⟩ := by
  obtain ⟨⟨s, e1, -, e3⟩, -⟩ := scans_ok h hc
  have := hc.length_pos
  have hu := h.used
  rw [List.length_append] at hu
  rw [getBuffer, h.data]
  simp only
  rw [if_neg (by omega), e1, Option.bind_eq_bind, Option.bind_some, if_pos (by omega)]

/-- `GetBuffer` with one that is not: the chain's bytes are copied, and its slots are free. -/
theorem getBuffer_chain (h : Slots q slots start (c ++ us)) (hc : IsChain c) {out : List Byte} (outLen : Int)
    {max : Int} (hm : (payload c).length < max) (hx : max ≤ out.length) :
    ∃ q' slots', q.getBuffer out max outLen = some ⟨true, splice out 0 (payload c), (payload c).length, q'⟩ ∧
      Slots q' slots' ((start + c.length) % slots.length) us ∧ slots'.length = slots.length := by
  obtain ⟨⟨s, e1, e2, e3⟩, he⟩ := scans_ok h hc
  obtain ⟨t, slots', d1, d2, d3, d4, d5⟩ := he out (by omega)
  have hpos := hc.length_pos
  have hlt := h.start_lt
  have hu := h.used
  have hle := h.used_le
  have hend := h.endPos
  rw [List.length_append] at hu hle hend
  have hstart : (if t.startPosIndex + t.index + 1 = slots.length then (0 : Int) else t.startPosIndex + t.index + 1) =
      ((start + c.length) % slots.length : Nat) := by
    rw [d2.index, d2.startPos, add_mod_eq hlt (by omega)]
    split <;> split <;> split <;> omega
  refine ⟨⟨q.maxStruSize, us.length, some slots', ((start + c.length) % slots.length : Nat), q.endPosIndex⟩, slots',
    ?_, ⟨rfl, by rw [d3]; exact h.size, rfl, by rw [d3]; exact Nat.mod_lt _ (by omega), rfl, by omega, ?_, d4, ?_⟩,
    d3⟩
  · rw [getBuffer, h.data]
    simp only
    rw [if_neg (by omega), e1, Option.bind_eq_bind, Option.bind_some, if_neg (by omega), d1, Option.bind_eq_bind,
      Option.bind_some]
    simp only
    rw [← hstart, h.size, e3, e2.index, hu]
    congr 3
    omega
  · rw [hend, d3, Nat.mod_add_mod, Nat.add_assoc]
  · have hc : c.length ≤ (c ++ us).length := by rw [List.length_append]; omega
    have hd : ring slots ((start + c.length) % slots.length) ((c ++ us).length - c.length) = _ :=
      ring_drop h.used_le hc
    rw [h.occupied, List.drop_left, List.length_append, Nat.add_sub_cancel_left] at hd
    refine Eq.trans (ring_ext (by omega) (by omega) fun i hi => ?_) hd
    rw [d3, Nat.mod_add_mod, Nat.add_assoc]
    exact d5 _ (by omega) (by omega)

/-! ## The messages -/

/-- The slots in use, in the order of the ring. -/
def occupied (q : CircleList) : List UnitStruct :=
  match q.dataPtr with
  | none => []
  | some slots => ring slots q.startPosIndex.toNat q.usingSize.toNat

/-- The chains in use. -/
def chains (q : CircleList) : List (List UnitStruct) := splitChains q.occupied

/-- The messages in the queue. -/
def messages (q : CircleList) : List (List Byte) := q.chains.map payload

/-- The slots the messages take. -/
def slotsUsed (ms : List (List Byte)) : Nat := (ms.map fun m => slotsFor m.length).sum

/-- A list of `n` slots, with the messages `ms` in it. -/
def Holds (q : CircleList) (n : Nat) (ms : List (List Byte)) : Prop :=
  ∃ (slots : List UnitStruct) (start : Nat) (cs : List (List UnitStruct)),
    Slots q slots start cs.flatten ∧ slots.length = n ∧ (∀ c ∈ cs, IsChain c) ∧ cs.map payload = ms

variable {n : Nat} {m : List Byte} {ms : List (List Byte)}

theorem occupied_eq (h : Slots q slots start us) : q.occupied = us := by
  simp only [occupied, h.data, h.startPos, h.used, Int.toNat_natCast]
  exact h.occupied

theorem chains_eq {cs : List (List UnitStruct)} (h : Slots q slots start cs.flatten) (hc : ∀ c ∈ cs, IsChain c) :
    q.chains = cs := by
  rw [chains, occupied_eq h, splitChains_flatten hc]

theorem Holds.messages_eq (h : Holds q n ms) : q.messages = ms := by
  obtain ⟨slots, start, cs, hs, -, hc, rfl⟩ := h
  rw [messages, chains_eq hs hc]

theorem Holds.used (h : Holds q n ms) : q.usingSize = slotsUsed ms := by
  obtain ⟨slots, start, cs, hs, -, hc, rfl⟩ := h
  rw [hs.used, slotsUsed, List.length_flatten, List.map_map]
  congr 2
  refine List.map_congr_left fun c hcs => ?_
  exact ((hc c hcs).length_payload fun u hu => hs.full_used u (List.mem_flatten_of_mem hcs hu)).2.1

theorem Holds.maxStruSize (h : Holds q n ms) : q.maxStruSize = n := by
  obtain ⟨slots, start, cs, hs, rfl, -, -⟩ := h
  exact hs.size

theorem Holds.used_le (h : Holds q n ms) : slotsUsed ms ≤ n := by
  have hu := h.used
  obtain ⟨slots, start, cs, hs, rfl, -, -⟩ := h
  have := hs.used_le
  rw [hs.used] at hu
  omega

theorem holds_fresh (hn : 0 < n) :
    Holds ⟨n, 0, some (List.replicate n .init), 0, 0⟩ n [] := by
  refine ⟨List.replicate n .init, 0, [], ⟨rfl, ?_, rfl, ?_, rfl, Nat.zero_le _, ?_, ?_, ring_zero⟩, ?_, ?_, rfl⟩
  · rw [List.length_replicate]
  · rw [List.length_replicate]; exact hn
  · simp
  · intro u hu
    rw [List.eq_of_mem_replicate hu]
    exact List.length_replicate
  · exact List.length_replicate
  · simp

theorem new_holds (hn : 0 < n) : Holds (new n) n [] := by
  rw [new, if_pos (by omega), Int.toNat_natCast]
  exact holds_fresh hn

theorem initBuffer_holds (q : CircleList) (hn : 0 < n) : Holds (q.initBuffer n) n [] := by
  rw [initBuffer, Int.toNat_natCast]
  exact holds_fresh hn

theorem releaseBuffer_holds (h : Holds q n ms) : Holds q.releaseBuffer n [] := by
  obtain ⟨slots, start, cs, hs, hn, hc, -⟩ := h
  have hlt := hs.start_lt
  exact ⟨slots, 0, [], ⟨hs.data, hs.size, rfl, by omega, rfl, Nat.zero_le _, by simp [releaseBuffer], hs.full,
    ring_zero⟩, hn, by simp, rfl⟩

/-- `AddBuffer` with enough free slots: what is stored of the message comes
after those in the queue, and only a short one is reported. -/
theorem addBuffer_ok (h : Holds q n ms) {buff : List Byte} {len : Nat} (hb : len ≤ buff.length)
    (hr : slotsUsed ms + slotsFor len ≤ n) :
    ∃ q', q.addBuffer buff len = some (decide (len ≤ maxSizePerBuff), q') ∧
      Holds q' n (ms ++ [stored (buff.take len)]) := by
  have hM : maxSizePerBuff = 4096 := rfl
  have hu := h.used
  obtain ⟨slots, start, cs, hs, rfl, hc, rfl⟩ := h
  have hused : cs.flatten.length = slotsUsed (cs.map payload) := by rw [hs.used] at hu; omega
  have ht : (buff.take len).length = len := by rw [List.length_take, min_eq_left hb]
  have hlt := hs.start_lt
  by_cases hl : len ≤ maxSizePerBuff
  · have h1 := slotsFor_of_le hl
    obtain ⟨q', slots', u, e1, e2, e3, e4, e5, e6⟩ := fillSlot_ok hs (by omega) hl hb false
    refine ⟨q', ?_, slots', start, cs ++ [[u]], ?_, e3, ?_, ?_⟩
    · rw [addBuffer, hs.data]
      simp only [if_neg (show ¬ (len : Int) > maxSizePerBuff by omega)]
      rw [if_pos, e1, decide_eq_true hl]
      · rfl
      · rw [hs.startPos, hs.endPos, hs.used, add_mod_eq hlt hs.used_le]
        split <;> omega
    · rw [List.flatten_append, List.flatten_singleton]; exact e2
    · intro c hcs
      rcases List.mem_append.mp hcs with hcs | hcs
      · exact hc c hcs
      · rw [List.mem_singleton.mp hcs]
        exact .last e5 (by omega) (by omega)
    · rw [List.map_append, List.map_singleton, payload_singleton, e6, stored_of_length_le (by omega)]
  · obtain ⟨k, hk⟩ : ∃ k, slotsFor len = k + 1 := ⟨slotsFor len - 1, by have := slotsFor_pos len; omega⟩
    have hk' := hk
    rw [slotsFor, hM] at hk'
    obtain ⟨q', slots', u, c, e1, e2, e3, e4, e5, e6⟩ := fillParts_ok
      (show len % maxSizePerBuff < maxSizePerBuff from Nat.mod_lt _ (by omega))
      (show maxSizePerBuff ≤ buff.length by omega) k hs (by omega)
    refine ⟨q', ?_, slots', start, cs ++ [u :: c], ?_, e3, ?_, ?_⟩
    · have hcount : (if 0 ≠ (len : Int) % maxSizePerBuff then (len : Int) / maxSizePerBuff + 1
          else (len : Int) / maxSizePerBuff) = (k + 1 : Nat) := by
        rw [hM]
        split <;> omega
      rw [addBuffer, hs.data]
      simp only [if_pos (show (len : Int) > maxSizePerBuff by omega)]
      rw [hcount, if_neg (by rw [hs.size, hs.used]; omega), Int.toNat_natCast, ← Int.natCast_emod, e1,
        decide_eq_false hl]
      rfl
    · rw [List.flatten_append, List.flatten_singleton]; exact e2
    · intro d hcs
      rcases List.mem_append.mp hcs with hcs | hcs
      · exact hc d hcs
      · rw [List.mem_singleton.mp hcs]
        exact e5
    · rw [List.map_append, List.map_singleton, e6, stored_parts hb (by omega) hk]

/-- `AddBuffer` without. -/
theorem addBuffer_full (h : Holds q n ms) (buff : List Byte) {len : Nat} (hr : n < slotsUsed ms + slotsFor len) :
    q.addBuffer buff len = some (false, q) := by
  have hM : maxSizePerBuff = 4096 := rfl
  have hu := h.used
  have hul := h.used_le
  obtain ⟨slots, start, cs, hs, rfl, hc, rfl⟩ := h
  have hlt := hs.start_lt
  rw [hs.used] at hu
  rw [addBuffer, hs.data]
  by_cases hl : len ≤ maxSizePerBuff
  · have h1 := slotsFor_of_le hl
    simp only [if_neg (show ¬ (len : Int) > maxSizePerBuff by omega)]
    rw [if_neg]
    rw [hs.startPos, hs.endPos, hs.used, add_mod_eq hlt hs.used_le]
    split <;> omega
  · have hk : slotsFor len = max 1 ((len + (maxSizePerBuff - 1)) / maxSizePerBuff) := rfl
    rw [hM] at hk
    simp only [if_pos (show (len : Int) > maxSizePerBuff by omega)]
    rw [if_pos]
    rw [hs.size, hs.used, hM]
    split <;> omega

/-- A queue of `n` messages of one slot each. -/
def push (n : Nat) (ms : List (List Byte)) (m : List Byte) : List (List Byte) :=
  if ms.length < n then ms ++ [m] else ms

theorem slotsUsed_eq_zero : slotsUsed ms = 0 ↔ ms = [] := by
  rcases ms with _ | ⟨m, ms⟩
  · simp [slotsUsed]
  · have := slotsFor_pos m.length
    simp only [slotsUsed, List.map_cons, List.sum_cons]
    constructor
    · omega
    · nofun

theorem slotsUsed_short (hs : ∀ m ∈ ms, m.length ≤ maxSizePerBuff) : slotsUsed ms = ms.length := by
  induction ms with
  | nil => rfl
  | cons m ms ih =>
    rw [slotsUsed, List.map_cons, List.sum_cons, ← slotsUsed, ih fun k hk => hs k (List.mem_cons_of_mem _ hk),
      slotsFor_of_le (hs m List.mem_cons_self), List.length_cons, Nat.add_comm]

/-- `AddBuffer` of a short message to a queue of such. -/
theorem addBuffer_push (h : Holds q n ms) (hs : ∀ m ∈ ms, m.length ≤ maxSizePerBuff) {buff : List Byte} {len : Nat}
    (hb : len ≤ buff.length) (hl : len ≤ maxSizePerBuff) :
    ∃ b q', q.addBuffer buff len = some (b, q') ∧ Holds q' n (push n ms (buff.take len)) ∧
      ∀ m ∈ push n ms (buff.take len), m.length ≤ maxSizePerBuff := by
  have hu := slotsUsed_short hs
  have h1 := slotsFor_of_le hl
  have ht : (buff.take len).length ≤ maxSizePerBuff := by rw [List.length_take]; omega
  rw [push]
  by_cases hr : ms.length < n
  · obtain ⟨q', e1, e2⟩ := addBuffer_ok h hb (by omega)
    rw [stored_of_length_le ht] at e2
    rw [if_pos hr]
    refine ⟨_, q', e1, e2, fun m hm => ?_⟩
    rcases List.mem_append.mp hm with hm | hm
    · exact hs m hm
    · exact List.mem_singleton.mp hm ▸ ht
  · rw [if_neg hr]
    exact ⟨_, q, addBuffer_full h buff (by omega), h, hs⟩

theorem foldl_push (ks : List (List Byte)) (hr : ms.length + ks.length ≤ n) : ks.foldl (push n) ms = ms ++ ks := by
  induction ks generalizing ms with
  | nil => exact (List.append_nil ms).symm
  | cons k ks ih =>
    rw [List.length_cons] at hr
    rw [List.foldl_cons, push, if_pos (by omega), ih (by rw [List.length_append, List.length_singleton]; omega),
      List.append_assoc, List.singleton_append]

/-- `GetBuffer` with an empty queue. -/
theorem getBuffer_nil (h : Holds q n []) (out : List Byte) (max outLen : Int) :
    q.getBuffer out max outLen = some ⟨false, out, outLen, q⟩ := by
  have hu := h.used
  obtain ⟨slots, start, cs, hs, rfl, hc, hm⟩ := h
  have hlt := hs.start_lt
  rw [getBuffer, hs.data]
  simp only
  rw [if_pos]
  have h0 : cs.flatten.length = 0 := by
    have hn : slotsUsed [] = 0 := rfl
    have hu' := hs.used
    omega
  rw [hs.startPos, hs.endPos, hs.used, h0, Nat.add_zero, Nat.mod_eq_of_lt hlt]
  exact ⟨rfl, rfl⟩

/-- `GetBuffer` with a message first that is too long for the buffer it is given. -/
theorem getBuffer_no (h : Holds q n (m :: ms)) (out : List Byte) (outLen : Int) {max : Int} (hm : max ≤ m.length) :
    q.getBuffer out max outLen = some ⟨false, out, outLen, q⟩ := by
  obtain ⟨slots, start, _ | ⟨c, cs⟩, hs, -, hc, he⟩ := h
  · cases he
  rw [List.map_cons, List.cons.injEq] at he
  exact getBuffer_long hs (hc c List.mem_cons_self) out outLen (he.1 ▸ hm)

/-- `GetBuffer` with one that is not. -/
theorem getBuffer_ok (h : Holds q n (m :: ms)) {out : List Byte} (outLen : Int) {max : Int} (hm : m.length < max)
    (hx : max ≤ out.length) :
    ∃ q', q.getBuffer out max outLen = some ⟨true, splice out 0 m, m.length, q'⟩ ∧ Holds q' n ms := by
  obtain ⟨slots, start, _ | ⟨c, cs⟩, hs, hn, hc, he⟩ := h
  · cases he
  rw [List.map_cons, List.cons.injEq] at he
  obtain ⟨rfl, rfl⟩ := he
  obtain ⟨q', slots', e1, e2, e3⟩ := getBuffer_chain hs (hc c List.mem_cons_self) outLen hm hx
  exact ⟨q', e1, slots', _, cs, e2, e3.trans hn, fun d hd => hc d (List.mem_cons_of_mem _ hd), rfl⟩

end CircleList

end Miku
