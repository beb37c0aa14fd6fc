import MikuServer.Impl.BufVector

/-!
# The send buffer as a FIFO

`Holds v q`: the unread bytes of the units are `q`, no unit but the last is
without any, and the last has room. A turn of the loop of `AddBuf` copies at
least one byte (`addTurn_ok`), so the loop ends (`addBuf_ok`), and `DelBuf` drops
what it is asked to from the front (`delBuf_ok`).
-/

namespace Miku.ZzmCommon

namespace CBufUnit

/-- The bytes that have been written and not read. -/
def unread (self : CBufUnit) : List Byte := (self.szData.take self.len.toNat).drop self.readLen.toNat

structure Ok (u : CBufUnit) : Prop where
  size : u.szData.length = bufUnitLength
  read : 0 ≤ u.readLen
  le : u.readLen ≤ u.len
  len : u.len ≤ bufUnitLength

variable {u : CBufUnit} {data : List Byte}

theorem new_ok : Ok new := ⟨List.length_replicate .., Int.le_refl _, Int.le_refl _, Int.natCast_nonneg _⟩

@[simp] theorem new_unread : new.unread = [] := rfl

theorem Ok.length_unread (h : Ok u) : (u.unread.length : Int) = u.getBufLen := by
  have := h.size
  have := h.read
  have := h.le
  have := h.len
  simp only [unread, List.length_drop, List.length_take, getBufLen]
  omega

/-- What `GetBuf` returns and `GetBufLen` says. -/
theorem Ok.take_getBuf (h : Ok u) : u.getBuf.take u.getBufLen.toNat = u.unread := by
  have := h.read
  have := h.le
  rw [getBuf, unread, getBufLen, List.drop_take]
  congr 1
  omega

/-- Data that goes into the room that is left. -/
theorem Ok.addBuf (h : Ok u) (hl : u.len < bufUnitLength) (hd : 0 < data.length) :
    ∃ k, 0 < k ∧ k ≤ data.length ∧ ∃ u', Ok u' ∧ u'.unread = u.unread ++ data.take k ∧
      u.addBuf data data.length = some ⟨decide (u'.len = (bufUnitLength : Int)), u', data.drop k, (data.drop k).length⟩ := by
  have hs := h.size
  have hr := h.read
  have hle := h.le
  obtain ⟨n, hn⟩ := Int.eq_ofNat_of_zero_le (hr.trans hle)
  have hcopyLen : ∃ k, 0 < k ∧ k ≤ data.length ∧ n + k ≤ bufUnitLength ∧
      (if (bufUnitLength : Int) - n > data.length then (data.length : Int) else bufUnitLength - n) = (k : Nat) := by
    split
    · exact ⟨data.length, hd, Nat.le_refl _, by omega, rfl⟩
    · exact ⟨bufUnitLength - n, by omega, by omega, by omega, by omega⟩
  obtain ⟨k, hk, hkd, hkn, hcopyLen⟩ := hcopyLen
  have htake : (data.take k).length = k := by rw [List.length_take]; omega
  have hcopy := memcpy_eq (show n + k ≤ u.szData.length by omega) hkd
  refine ⟨k, hk, hkd, { u with szData := splice u.szData n (data.take k), len := u.len + k }, ?_, ?_, ?_⟩
  · exact ⟨by rw [length_splice (by omega), hs], hr, by simp only; omega, by simp only; omega⟩
  · have hnk : (u.len + k).toNat = n + (data.take k).length := by omega
    simp only [unread, hnk, take_splice (show n ≤ u.szData.length by omega)]
    rw [List.drop_append_of_le_length (by rw [List.length_take]; omega), hn, Int.toNat_natCast]
  · have hrest : (data.length : Int) - k = (data.drop k).length := by rw [List.length_drop]; omega
    rw [CBufUnit.addBuf, if_neg (by omega), hn, if_neg (by omega), hcopyLen]
    simp only [hcopy, hrest, Option.bind_eq_bind, Option.bind_some, Int.toNat_natCast]

/-- Bytes that are there are deleted from the front. -/
theorem Ok.delbuf (h : Ok u) {k : Nat} (hk : (k : Int) ≤ u.getBufLen) :
    (u.delbuf k).Ok ∧ (u.delbuf k).unread = u.unread.drop k ∧ (u.delbuf k).len = u.len := by
  have hr := h.read
  have hle := h.le
  have hl := h.length_unread
  rw [getBufLen] at hk hl
  by_cases hlt : (k : Int) < u.len - u.readLen
  · rw [CBufUnit.delbuf, if_pos hlt]
    refine ⟨⟨h.size, by simp only; omega, by simp only; omega, h.len⟩, ?_, rfl⟩
    simp only [unread, List.drop_drop]
    congr 1
    omega
  · rw [CBufUnit.delbuf, if_neg hlt]
    refine ⟨⟨h.size, hr.trans hle, Int.le_refl _, h.len⟩, ?_, rfl⟩
    rw [List.drop_eq_nil_of_le (by omega)]
    exact List.drop_eq_nil_of_le (List.length_take_le ..)

theorem Ok.unread_eq_nil (h : Ok u) : u.unread = [] ↔ u.getBufLen < 1 := by
  have := h.length_unread
  rw [← List.length_eq_zero_iff]
  omega

end CBufUnit

namespace CBufVect

variable {v : CBufVect} {q data : List Byte}

/-- The unread bytes of the units. -/
def unread (self : CBufVect) : List Byte := self.vect.flatMap CBufUnit.unread

/-- The units before the last have bytes, and the last has room. -/
structure Chained (us : List CBufUnit) (last : CBufUnit) : Prop where
  ok : ∀ u ∈ us, u.Ok ∧ u.unread ≠ []
  last_ok : last.Ok
  room : last.len < bufUnitLength

/-- The unread bytes are `q`. -/
def Holds (v : CBufVect) (q : List Byte) : Prop :=
  v.vect = [] ∧ q = [] ∨ ∃ us last, v.vect = us ++ [last] ∧ Chained us last ∧ (us ++ [last]).flatMap CBufUnit.unread = q

theorem Holds.unread_eq (hh : Holds v q) : v.unread = q := by
  rcases hh with ⟨hv, rfl⟩ | ⟨us, last, hv, -, rfl⟩
  · rw [unread, hv, List.flatMap_nil]
  · rw [unread, hv]

theorem new_chained : Chained [] .new := ⟨fun _ => nofun, CBufUnit.new_ok, by decide⟩

theorem releaseBuf_holds (v : CBufVect) : Holds v.releaseBuf [] := .inl ⟨rfl, rfl⟩

/-! ## `AddBuf` -/

/-- A turn copies some of the data. -/
theorem addTurn_ok {us : List CBufUnit} {last : CBufUnit} (hc : Chained us last) (hd : 0 < data.length) :
    ∃ k, 0 < k ∧ k ≤ data.length ∧ ∃ us' last', Chained us' last' ∧
      (us' ++ [last']).flatMap CBufUnit.unread = (us ++ [last]).flatMap CBufUnit.unread ++ data.take k ∧
      addTurn (⟨us ++ [last]⟩, data, data.length) =
        some ((⟨us' ++ [last']⟩, data.drop k, ((data.drop k).length : Int)), true) := by
  obtain ⟨k, hk, hkd, u, hu, hunread, hadd⟩ := hc.last_ok.addBuf hc.room hd
  refine ⟨k, hk, hkd, ?_⟩
  have hbytes : (us ++ [u]).flatMap CBufUnit.unread = (us ++ [last]).flatMap CBufUnit.unread ++ data.take k := by
    simp only [List.flatMap_append, List.flatMap_singleton, hunread, List.append_assoc]
  have hturn : addTurn (⟨us ++ [last]⟩, data, data.length) =
      some
      ((⟨if u.len = bufUnitLength then us ++ [u] ++ [.new] else us ++ [u]⟩, data.drop k, ((data.drop k).length : Int)), true) := by
    simp only [addTurn, List.getLast?_concat, Option.bind_eq_bind, Option.bind_some, hadd, List.dropLast_concat]
    rw [if_pos (by omega)]
    simp
  rw [hturn]
  have hle := hu.len
  split
  · rename_i hfull
    refine ⟨us ++ [u], .new, ⟨?_, CBufUnit.new_ok, by decide⟩, ?_, rfl⟩
    · intro w hw
      rcases List.mem_append.mp hw with hw | hw
      · exact hc.ok w hw
      · obtain rfl := List.mem_singleton.mp hw
        refine ⟨hu, ?_⟩
        rw [hunread]
        intro h
        have := congrArg List.length h
        simp only [List.length_append, List.length_take, List.length_nil] at this
        omega
    · rw [List.flatMap_append, hbytes, List.flatMap_singleton, CBufUnit.new_unread, List.append_nil]
  · rename_i hroom
    exact ⟨us, u, ⟨hc.ok, hu, by omega⟩, hbytes, rfl⟩

/-- The loop of `AddBuf`; `fuel` is more than there are bytes. -/
theorem addLoop_ok {fuel : Nat} (hf : data.length < fuel) {us : List CBufUnit} {last : CBufUnit}
    (hc : Chained us last) :
    ∃ us' last', Chained us' last' ∧
      (us' ++ [last']).flatMap CBufUnit.unread = (us ++ [last]).flatMap CBufUnit.unread ++ data ∧
      doWhile addTurn fuel (⟨us ++ [last]⟩, data, data.length) = some (⟨us' ++ [last']⟩, [], 0) := by
  induction fuel generalizing data us last with
  | zero => omega
  | succ fuel ih =>
    rcases Nat.eq_zero_or_pos data.length with h0 | h0
    · obtain rfl : data = [] := List.eq_nil_of_length_eq_zero h0
      refine ⟨us, last, hc, by rw [List.append_nil], ?_⟩
      have hstop : addTurn (⟨us ++ [last]⟩, [], 0) = some ((⟨us ++ [last]⟩, [], 0), false) := by
        simp [addTurn]
      exact doWhile_stop hstop fuel
    · obtain ⟨k, hk, hkd, us', last', hc', hbytes, hturn⟩ := addTurn_ok hc h0
      have hlen : (data.drop k).length < fuel := by rw [List.length_drop]; omega
      obtain ⟨us'', last'', hc'', hbytes', hloop⟩ := ih hlen hc'
      refine ⟨us'', last'', hc'', ?_, ?_⟩
      · rw [hbytes', hbytes, List.append_assoc, List.take_append_drop]
      · rw [doWhile_next hturn, hloop]

theorem addBuf_ok (hh : Holds v q) {fuel : Nat} (hf : data.length < fuel) :
    ∃ v', v.addBuf fuel data data.length = some v' ∧ Holds v' (q ++ data) := by
  rcases hh with ⟨hv, rfl⟩ | ⟨us, last, hv, hc, rfl⟩
  · obtain ⟨us', last', hc', hbytes, hloop⟩ := addLoop_ok hf new_chained
    refine ⟨⟨us' ++ [last']⟩, ?_, .inr ⟨us', last', rfl, hc', ?_⟩⟩
    · simp only [List.nil_append] at hloop
      simp [addBuf, hv, hloop]
    · rw [hbytes]
      rfl
  · obtain ⟨us', last', hc', hbytes, hloop⟩ := addLoop_ok hf hc
    refine ⟨⟨us' ++ [last']⟩, ?_, .inr ⟨us', last', rfl, hc', hbytes⟩⟩
    simp [addBuf, hv, hloop]

/-! ## `GetBuf` and `DelBuf` -/

/-- The bytes that `GetBuf` returns. -/
def got (self : CBufVect) : List Byte := (self.getBuf.1.getD []).take self.getBuf.2.toNat

/-- They are the unread bytes of the first unit. -/
theorem Holds.got (hh : Holds v q) : v.got <+: q ∧ (v.got.length : Int) = v.getBuf.2 ∧ (q ≠ [] → v.got ≠ []) := by
  rcases hh with ⟨hv, rfl⟩ | ⟨_ | ⟨u, us⟩, last, hv, hc, rfl⟩
  · rw [CBufVect.got, getBuf, hv]
    exact ⟨List.prefix_refl _, rfl, fun h => absurd rfl h⟩
  · have hl := hc.last_ok.length_unread
    rw [CBufVect.got, getBuf, hv]
    simp [hc.last_ok.take_getBuf, hl]
  · obtain ⟨hu, hne⟩ := hc.ok u List.mem_cons_self
    have hl := hu.length_unread
    rw [CBufVect.got, getBuf, hv]
    simp [hu.take_getBuf, hl, hne]

theorem Holds.dropLast (hh : Holds v q) : ∀ u ∈ v.vect.dropLast, u.unread ≠ [] := by
  rcases hh with ⟨hv, -⟩ | ⟨us, last, hv, hc, -⟩
  · simp [hv]
  · rw [hv, List.dropLast_concat]
    exact fun u hu => (hc.ok u hu).2

theorem delBuf_ok (hh : Holds v q) {k : Nat} (hk : (k : Int) ≤ v.getBuf.2) : Holds (v.delBuf k) (q.drop k) := by
  rcases hh with ⟨hv, rfl⟩ | ⟨_ | ⟨u, us⟩, last, hv, hc, rfl⟩
  · rw [List.drop_nil, delBuf, hv]
    exact .inl ⟨hv, rfl⟩
  · rw [List.nil_append] at hv
    rw [getBuf, hv] at hk
    obtain ⟨hu, hunread, hlen⟩ := hc.last_ok.delbuf hk
    have hq : ([] ++ [last]).flatMap CBufUnit.unread = last.unread := List.flatMap_singleton ..
    rw [hq, ← hunread, delBuf, hv]
    dsimp only
    split <;> rename_i hempty
    · exact .inl ⟨rfl, hu.unread_eq_nil.mpr hempty⟩
    · refine .inr ⟨[], last.delbuf k, rfl, ⟨fun _ => nofun, hu, hlen ▸ hc.room⟩, List.flatMap_singleton ..⟩
  · rw [List.cons_append] at hv
    rw [getBuf, hv] at hk
    obtain ⟨hu, hne⟩ := hc.ok u List.mem_cons_self
    have hl := hu.length_unread
    obtain ⟨hu', hunread, -⟩ := hu.delbuf hk
    have hrest (w : CBufUnit) (hw : w ∈ us) := hc.ok w (List.mem_cons_of_mem _ hw)
    have hq : ((u :: us) ++ [last]).flatMap CBufUnit.unread = u.unread ++ (us ++ [last]).flatMap CBufUnit.unread := by
      rw [List.cons_append, List.flatMap_cons]
    rw [hq, List.drop_append_of_le_length (by dsimp only at hk; omega), ← hunread, delBuf, hv]
    dsimp only
    split <;> rename_i hempty
    · rw [hu'.unread_eq_nil.mpr hempty, List.nil_append]
      exact .inr ⟨us, last, rfl, ⟨hrest, hc.last_ok, hc.room⟩, rfl⟩
    · have hleft : (u.delbuf k).unread ≠ [] := fun h => hempty (hu'.unread_eq_nil.mp h)
      refine .inr ⟨u.delbuf k :: us, last, rfl, ⟨?_, hc.last_ok, hc.room⟩, ?_⟩
      · intro w hw
        rcases List.mem_cons.mp hw with rfl | hw
        · exact ⟨hu', hleft⟩
        · exact hrest w hw
      · rw [List.cons_append, List.flatMap_cons]

/-- `DelBuf` of more bytes than the first unit has deletes those that it has. -/
theorem delBuf_all {len : Int} (h : v.getBuf.2 ≤ len) : v.delBuf len = v.delBuf v.getBuf.2 := by
  rcases hv : v.vect with _ | ⟨u, us⟩
  · rw [delBuf, delBuf, hv]
  · rw [getBuf, hv] at h
    simp only [CBufUnit.getBufLen] at h
    have hsame : u.delbuf len = u.delbuf u.getBufLen := by
      rw [CBufUnit.delbuf, CBufUnit.delbuf, CBufUnit.getBufLen, if_neg (Int.not_lt.mpr h), if_neg (Int.lt_irrefl _)]
    simp only [delBuf, getBuf, hv, hsame]

theorem Holds.delBuf (hh : Holds v q) {len : Int} (h0 : 0 ≤ len) : ∃ k, Holds (v.delBuf len) (q.drop k) := by
  obtain ⟨k, rfl⟩ := Int.eq_ofNat_of_zero_le h0
  rcases Int.le_total k v.getBuf.2 with hle | hle
  · exact ⟨k, delBuf_ok hh hle⟩
  · have hlen := hh.got.2.1
    rw [delBuf_all hle, ← hlen]
    exact ⟨v.got.length, delBuf_ok hh (Int.le_of_eq hlen)⟩

/-- `GetBuf` has no bytes exactly if there are none. -/
theorem Holds.getBuf_lt_one (hh : Holds v q) : v.getBuf.2 < 1 ↔ q = [] := by
  obtain ⟨hp, hlen, hne⟩ := hh.got
  rw [← hlen]
  refine ⟨fun h => ?_, fun h => ?_⟩
  · by_contra hq
    have := List.length_pos_iff.mpr (hne hq)
    omega
  · rw [h, List.prefix_nil] at hp
    rw [hp]
    decide

/-! ## Runs -/

inductive Op
  | addBuf (data : List Byte)
  | getBuf
  | delBuf (len : Nat)
  | releaseBuf
  deriving DecidableEq

/-- The bytes that were added since the last `ReleaseBuf`, and how many of them have been deleted. -/
structure History where
  buf : CBufVect
  added : List Byte
  deleted : Nat
  deriving DecidableEq

namespace History

def start : History := ⟨new, [], 0⟩

/-- The loop of `AddBuf` may take a turn for each byte, and one to see that none is left. -/
def step (s : History) : Op → Option History
  | .addBuf data => do
    let v ← s.buf.addBuf (data.length + 1) data data.length
    some { s with buf := v, added := s.added ++ data }
  | .getBuf => some s
  | .delBuf len => some { s with buf := s.buf.delBuf len, deleted := s.deleted + len }
  | .releaseBuf => some ⟨s.buf.releaseBuf, [], 0⟩

/-- `DelBuf` is for bytes that `GetBuf` has returned. -/
def Allowed (s : History) : Op → Prop
  | .delBuf len => (len : Int) ≤ s.buf.getBuf.2
  | _ => True

instance (s : History) : DecidablePred s.Allowed
  | .delBuf len => inferInstanceAs (Decidable ((len : Int) ≤ s.buf.getBuf.2))
  | .addBuf _ => .isTrue trivial
  | .getBuf => .isTrue trivial
  | .releaseBuf => .isTrue trivial

/-- The units have the bytes that were added and not deleted. -/
structure Fifo (s : History) : Prop where
  deleted_le : s.deleted ≤ s.added.length
  unread : s.buf.unread = s.added.drop s.deleted
  got : s.buf.got <+: s.buf.unread
  got_ne_nil : s.buf.unread ≠ [] → s.buf.got ≠ []
  dropLast : ∀ u ∈ s.buf.vect.dropLast, u.unread ≠ []

def Inv (s : History) : Prop := s.deleted ≤ s.added.length ∧ Holds s.buf (s.added.drop s.deleted)

variable {s : History}

theorem Inv.fifo (h : Inv s) : Fifo s where
  deleted_le := h.1
  unread := h.2.unread_eq
  got := h.2.unread_eq ▸ h.2.got.1
  got_ne_nil := h.2.unread_eq ▸ h.2.got.2.2
  dropLast := h.2.dropLast

theorem Inv.step (h : Inv s) {op : Op} (ha : s.Allowed op) : ∃ s', s.step op = some s' ∧ Inv s' := by
  obtain ⟨hd, hh⟩ := h
  cases op with
  | addBuf data =>
    obtain ⟨v, hv, hh'⟩ := addBuf_ok hh (Nat.lt_succ_self data.length)
    refine ⟨{ s with buf := v, added := s.added ++ data }, by simp [History.step, hv], ?_, ?_⟩
    · show s.deleted ≤ (s.added ++ data).length
      rw [List.length_append]
      omega
    · rwa [← List.drop_append_of_le_length hd] at hh'
  | getBuf => exact ⟨s, rfl, hd, hh⟩
  | delBuf len =>
    refine ⟨_, rfl, ?_, ?_⟩
    · obtain ⟨hp, hl, -⟩ := hh.got
      have hle := hp.length_le
      have hk : (len : Int) ≤ s.buf.getBuf.2 := ha
      rw [List.length_drop] at hle
      show s.deleted + len ≤ s.added.length
      omega
    · rw [← List.drop_drop]
      exact delBuf_ok hh ha
  | releaseBuf => exact ⟨_, rfl, Nat.le_refl _, releaseBuf_holds s.buf⟩

end History

/-- In every run `AddBuf` comes to its end, the unread bytes are those added and not deleted, `GetBuf`
returns the first of them, some if there are any, and only the last unit may have none. -/
theorem vect_fifo_run (ops : List Op) (h : ∀ x ∈ runSteps History.step .start ops, x.1.Allowed x.2) :
    Always History.step History.Fifo .start ops := by
  have hok (s : History) (op : Op) (hi : History.Inv s) (_ : True) (ha : s.Allowed op) := hi.step ha
  exact always_of_steps hok (fun _ => History.Inv.fifo) (fun _ _ => trivial) ⟨Nat.le_refl _, .inl ⟨rfl, rfl⟩⟩ h

/-- The bytes are read and deleted in two steps, and then the empty unit is. -/
theorem vect_fifo_run_example :
    Always History.step History.Fifo .start
      [.addBuf [1, 2, 3], .getBuf, .delBuf 2, .addBuf [4], .delBuf 2, .delBuf 0, .releaseBuf] :=
  vect_fifo_run _ (by decide +kernel)

end CBufVect

end Miku.ZzmCommon
