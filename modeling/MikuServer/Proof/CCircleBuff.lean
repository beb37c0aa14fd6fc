import Mathlib.Data.List.Forall2
import MikuServer.Framework.Loop
import MikuServer.Framework.Ring
import MikuServer.Impl.CCircleBuff

/-!
# The newest messages

`Holds b n q`: the messages of `q` are in the slots from the head on, at most
`n - 1` of them, and the tail is after the last. `newest n q m` is `q` with `m`
added, and without its oldest message if that makes more than `n - 1`; pushing
is that (`push_ok`), and reading takes the oldest (`read_ok`).
-/

namespace Miku.ZzmCommon

/-- The message of a slot. -/
def BuffStruc.msg (u : BuffStruc) : List Byte := u.mszBuff.take u.miLen.toNat

/-- `m` after the messages of `q`, of which there can be `n - 1`. -/
def newest (n : Nat) (q : List (List Byte)) (m : List Byte) : List (List Byte) :=
  if q.length + 1 > n - 1 then (q ++ [m]).drop 1 else q ++ [m]

namespace CCircleBuff

/-- A slot that has the message `m`. -/
structure Slot (u : BuffStruc) (m : List Byte) : Prop where
  size : u.mszBuff.length = maxBuffLen + 1
  len : u.miLen = m.length
  le : m.length ≤ maxBuffLen
  msg : u.mszBuff.take m.length = m

/-- The messages of `q` are in the slots from `head` on. -/
structure Holds (b : CCircleBuff) (n : Nat) (q : List (List Byte)) : Prop where
  two_le : 2 ≤ n
  size : b.miBuffQueueSize = n
  slots : ∃ slots head, b.mszTCPData = some slots ∧ slots.length = n ∧
    (∀ u ∈ slots, u.mszBuff.length = maxBuffLen + 1) ∧ b.miHeadPos = (head : Nat) ∧ head < n ∧
    b.miTailPos = ((head + q.length) % n : Nat) ∧ List.Forall₂ Slot (ring slots head q.length) q
  count : b.miCountBuff = q.length
  lt : q.length < n

variable {b : CCircleBuff} {n : Nat} {q : List (List Byte)} {m : List Byte}

theorem init_holds (hn : 2 ≤ n) : Holds (init n) n [] where
  two_le := hn
  size := rfl
  slots := by
    refine ⟨_, 0, rfl, ?_, fun u hu => ?_, rfl, by omega, ?_, .nil⟩
    · rw [List.length_replicate, Int.toNat_natCast]
    · rw [List.eq_of_mem_replicate hu]
      exact List.length_replicate
    · simp [init]
  count := rfl
  lt := by simp only [List.length_nil]; omega

theorem clear_holds (hh : Holds b n q) : Holds b.clear n [] := by
  obtain ⟨hn, hsize, ⟨slots, head, hs, hl, hbuff, hhead, hlt, htail, hq⟩, hcount, hle⟩ := hh
  refine ⟨hn, hsize, ⟨slots, (head + q.length) % n, hs, hl, hbuff, htail, Nat.mod_lt _ (by omega), ?_, .nil⟩, rfl, ?_⟩
  · show b.miTailPos = _
    rw [htail, List.length_nil, Nat.add_zero, Nat.mod_mod]
  · simp only [List.length_nil]
    omega

theorem next_eq (hh : Holds b n q) (k : Nat) : b.next (k : Nat) = ((k + 1) % n : Nat) := by
  rw [next, hh.size, Int.natCast_mod, Int.natCast_add, Int.natCast_one]

/-- A message in the slot `k`. -/
theorem store_ok {slots : List BuffStruc} (hbuff : ∀ u ∈ slots, u.mszBuff.length = maxBuffLen + 1) {k : Nat}
    (hk : k < slots.length) (hm : m.length ≤ maxBuffLen) :
    ∃ u, Slot u m ∧ store slots (k : Nat) m m.length = some (slots.set k u) := by
  have hsize := hbuff slots[k] (List.getElem_mem hk)
  have hcopy : memcpy slots[k].mszBuff 0 m m.length = some (m.take m.length ++ slots[k].mszBuff.drop m.length) :=
    memcpy_front rfl (by omega) le_rfl
  refine ⟨⟨m ++ slots[k].mszBuff.drop m.length, m.length⟩, ⟨?_, rfl, hm, List.take_left⟩, ?_⟩
  · simp only [List.length_append, List.length_drop]
    omega
  · rw [List.take_length] at hcopy
    simp [store, buffAt, hk, hcopy]

/-- A message in the slot after the last one. -/
theorem store_end (hh : Holds b n q) (hm : m.length ≤ maxBuffLen) :
    ∃ slots slots' head, b.mszTCPData = some slots ∧ b.miHeadPos = (head : Nat) ∧ head < n ∧
      b.miTailPos = ((head + q.length) % n : Nat) ∧ store slots b.miTailPos m m.length = some slots' ∧
      slots'.length = n ∧ (∀ u ∈ slots', u.mszBuff.length = maxBuffLen + 1) ∧
      List.Forall₂ Slot (ring slots' head (q.length + 1)) (q ++ [m]) := by
  obtain ⟨hn, -, ⟨slots, head, hs, hl, hbuff, hhead, hlt, htail, hq⟩, -, hle⟩ := hh
  have htl : (head + q.length) % n < n := Nat.mod_lt _ (by omega)
  obtain ⟨u, hu, hstore⟩ := store_ok hbuff (show (head + q.length) % n < slots.length by omega) hm
  refine ⟨slots, slots.set ((head + q.length) % n) u, head, hs, hhead, hlt, htail, ?_, ?_, fun w hw => ?_, ?_⟩
  · rw [htail, hstore]
  · rw [List.length_set, hl]
  · rcases List.mem_or_eq_of_mem_set hw with hw | rfl
    · exact hbuff w hw
    · exact hu.size
  · have h := ring_set_end (hl ▸ hlt) (hl ▸ hle) u
    rw [hl] at h
    rw [h]
    exact List.rel_append hq (.cons hu .nil)

theorem push_ok (hh : Holds b n q) (h0 : 0 < m.length) (hm : m.length ≤ maxBuffLen) :
    ∃ b', b.pushTCPData m m.length = some b' ∧ Holds b' n (newest n q m) := by
  have hnext := next_eq hh
  obtain ⟨slots, slots', head, hs, hhead, hlt, htail, hstore, hlen, hbuff', hring⟩ := store_end hh hm
  obtain ⟨hn, hsize, -, hcount, hle⟩ := hh
  have hnext' : b.next b.miTailPos = ((head + (q.length + 1)) % n : Nat) := by
    rw [htail, hnext, Nat.mod_add_mod, Nat.add_assoc]
  rw [pushTCPData, if_neg (by omega), hs]
  dsimp only
  rcases Nat.eq_zero_or_pos q.length with hq0 | hq0
  · -- The ring is empty.
    obtain rfl : q = [] := List.eq_nil_of_length_eq_zero hq0
    have heq : b.miHeadPos = b.miTailPos := by
      rw [hhead, htail, List.length_nil, Nat.add_zero, Nat.mod_eq_of_lt hlt]
    have hnew : newest n [] m = [m] := by
      rw [newest, if_neg (by simp only [List.length_nil]; omega), List.nil_append]
    rw [if_pos ⟨hcount, heq⟩, heq, hstore, hnext', hnew]
    refine ⟨_, rfl, hn, hsize, ⟨_, head, rfl, hlen, hbuff', ?_, hlt, rfl, hring⟩, ?_, ?_⟩
    · rw [← heq, hhead]
    · show b.miCountBuff + 1 = _
      rw [hcount]
      rfl
    · simp only [List.length_singleton]
      omega
  · rw [if_neg (fun h => by have := h.1; omega), hstore]
    simp only [Option.bind_eq_bind, Option.bind_some, hnext', hhead, hnext]
    by_cases hfull : q.length + 1 = n
    · -- The tail has come round to the head.
      have hwrap : (head + (q.length + 1)) % n = head := by rw [hfull, Nat.add_mod_right, Nat.mod_eq_of_lt hlt]
      have hnew : newest n q m = (q ++ [m]).drop 1 := by rw [newest, if_pos (by omega)]
      have hdrop : ((q ++ [m]).drop 1).length = q.length := by simp
      have hring' : List.Forall₂ Slot (ring slots' ((head + 1) % n) q.length) ((q ++ [m]).drop 1) := by
        have h : ring slots' ((head + 1) % slots'.length) (n - 1) = (ring slots' head n).drop 1 :=
          ring_drop (by omega) (by omega)
        rw [hlen] at h
        rw [show q.length = n - 1 by omega, h]
        exact List.forall₂_drop 1 (hfull ▸ hring)
      rw [if_pos (by rw [hwrap]), hnew]
      refine ⟨_, rfl, hn, hsize, ⟨slots', (head + 1) % n, rfl, hlen, hbuff', rfl, Nat.mod_lt _ (by omega), ?_, ?_⟩, ?_, ?_⟩
      · rw [hdrop, Nat.mod_add_mod, Nat.add_right_comm, Nat.add_assoc]
      · rwa [hdrop]
      · rw [hdrop]
        show b.miCountBuff - 1 + 1 = _
        omega
      · omega
    · have hne : ((head : Nat) : Int) ≠ ((head + (q.length + 1)) % n : Nat) := by
        rw [mod_of_lt_two_mul (by omega)]
        split <;> omega
      have hnew : newest n q m = q ++ [m] := by rw [newest, if_neg (by omega)]
      have happ : (q ++ [m]).length = q.length + 1 := List.length_append
      rw [if_neg hne, hnew]
      refine ⟨_, rfl, hn, hsize, ⟨slots', head, rfl, hlen, hbuff', rfl, hlt, ?_, ?_⟩, ?_, ?_⟩
      · rw [happ]
      · rwa [happ]
      · rw [happ]
        show b.miCountBuff + 1 = _
        omega
      · omega

/-- Reading takes the oldest message. -/
theorem read_ok (hh : Holds b n (m :: q)) {info : BuffStruc} (hi : info.mszBuff.length = maxBuffLen + 1) :
    ∃ r, b.readTCPData info = some r ∧ r.ret = true ∧ r.info.miLen = m.length ∧ r.info.mszBuff.take m.length = m ∧
      r.info.mszBuff.length = maxBuffLen + 1 ∧ Holds r.buff n q := by
  have hnext := next_eq hh
  obtain ⟨hn, hsize, ⟨slots, head, hs, hl, hbuff, hhead, hlt, htail, hq⟩, hcount, hle⟩ := hh
  rw [List.length_cons] at hcount hle htail hq
  have hdrop : ring slots ((head + 1) % slots.length) (q.length + 1 - 1) = (ring slots head (q.length + 1)).drop 1 :=
    ring_drop (by omega) (by omega)
  obtain ⟨u, us, hu, hus, hring⟩ := List.forall₂_cons_right_iff.mp hq
  have hat : buffAt slots b.miHeadPos = some u := by
    have h : (ring slots head (q.length + 1))[0]? = slots[(head + 0) % slots.length]? :=
      getElem?_ring (by omega) (Nat.succ_pos _)
    rw [hring, List.getElem?_cons_zero, Nat.add_zero, hl, Nat.mod_eq_of_lt hlt] at h
    rw [buffAt, hhead, if_pos (by omega), Int.toNat_natCast, ← h]
  have hcopy : memcpy info.mszBuff 0 u.mszBuff maxBuffLen =
      some (u.mszBuff.take maxBuffLen ++ info.mszBuff.drop maxBuffLen) :=
    memcpy_front rfl (by omega) (by rw [hu.size]; omega)
  have hcopied : (u.mszBuff.take maxBuffLen).length = maxBuffLen := by
    rw [List.length_take, hu.size]
    omega
  rw [readTCPData, hs]
  dsimp only
  rw [if_neg (by omega), hat]
  simp only [Option.bind_eq_bind, Option.bind_some, hcopy, hhead, hnext]
  refine ⟨_, rfl, rfl, hu.len, ?_, ?_, hn, hsize,
    ⟨slots, (head + 1) % n, rfl, hl, hbuff, rfl, Nat.mod_lt _ (by omega), ?_, ?_⟩, ?_, by omega⟩
  · rw [List.take_append_of_le_length (by rw [hcopied]; exact hu.le), List.take_take, min_eq_left hu.le, hu.msg]
  · rw [List.length_append, hcopied, List.length_drop, hi]
    omega
  · rw [Nat.mod_add_mod, Nat.add_right_comm, Nat.add_assoc]
    exact htail
  · rw [hl, hring, Nat.add_sub_cancel, List.drop_succ_cons, List.drop_zero] at hdrop
    rwa [hdrop]
  · show b.miCountBuff - 1 = _
    omega

theorem read_nil (hh : Holds b n []) (info : BuffStruc) :
    b.readTCPData info = some ⟨false, info, { b with miCountBuff := 0 }⟩ ∧ Holds { b with miCountBuff := 0 } n [] := by
  obtain ⟨hn, hsize, ⟨slots, head, hs, hrest⟩, hcount, hle⟩ := hh
  refine ⟨?_, hn, hsize, ⟨slots, head, hs, hrest⟩, rfl, hle⟩
  rw [readTCPData, hs]
  exact if_pos (by rw [hcount]; exact Int.le_refl _)

/-! ## Runs -/

inductive Op
  | push (buffer : List Byte)
  | read (info : BuffStruc)
  | clear
  deriving DecidableEq

/-- A message of 1 to `MaxBuffLen` bytes; the buffer of a `BuffStruc` has its size. -/
def Op.Fits : Op → Prop
  | .push buffer => 0 < buffer.length ∧ buffer.length ≤ maxBuffLen
  | .read info => info.mszBuff.length = maxBuffLen + 1
  | .clear => True

/-- The ring, and the messages that a FIFO has which drops the oldest. -/
structure History where
  buff : CCircleBuff
  fifo : List (List Byte)
  deriving DecidableEq

namespace History

def start (n : Nat) : History := ⟨init n, []⟩

def step (n : Nat) (s : History) : Op → Option History
  | .push buffer => do
    let b ← s.buff.pushTCPData buffer buffer.length
    some ⟨b, newest n s.fifo buffer⟩
  | .read info => do
    let r ← s.buff.readTCPData info
    some ⟨r.buff, s.fifo.drop 1⟩
  | .clear => some ⟨s.buff.clear, []⟩

/-- The messages in the slots from the head on. -/
def content (s : History) : List (List Byte) :=
  (ring (s.buff.mszTCPData.getD []) s.buff.miHeadPos.toNat s.buff.miCountBuff.toNat).map BuffStruc.msg

/-- The ring has the messages of the FIFO, at most `n - 1`, and reading gives the oldest. -/
structure Newest (n : Nat) (s : History) : Prop where
  content : s.content = s.fifo
  le : s.fifo.length ≤ n - 1
  count : s.buff.miCountBuff = s.fifo.length ∧ s.buff.miCountBuff = (s.buff.miTailPos - s.buff.miHeadPos) % n
  read : ∀ info, info.mszBuff.length = maxBuffLen + 1 → ∃ r, s.buff.readTCPData info = some r ∧
    (r.ret = true ↔ s.fifo ≠ []) ∧
    ∀ m q, s.fifo = m :: q → r.info.miLen = m.length ∧ r.info.mszBuff.take m.length = m

variable {s : History}

theorem content_eq (hh : Holds s.buff n s.fifo) : s.content = s.fifo := by
  obtain ⟨-, -, ⟨slots, head, hs, -, -, hhead, -, -, hq⟩, hcount, -⟩ := hh
  rw [content, hs, hhead, hcount, Option.getD_some, Int.toNat_natCast, Int.toNat_natCast]
  have hmsg : ∀ us q, List.Forall₂ Slot us q → us.map BuffStruc.msg = q := by
    intro us q h
    induction h with
    | nil => rfl
    | cons hu _ ih => rw [List.map_cons, ih, BuffStruc.msg, hu.len, Int.toNat_natCast, hu.msg]
  exact hmsg _ _ hq

theorem count_eq (hh : Holds b n q) : b.miCountBuff = (b.miTailPos - b.miHeadPos) % n := by
  obtain ⟨hn, -, ⟨slots, head, -, -, -, hhead, hlt, htail, -⟩, hcount, hle⟩ := hh
  rw [hcount, htail, hhead, Int.natCast_mod, Int.emod_sub_emod, show ((head + q.length : Nat) : Int) - head = q.length by omega,
    Int.emod_eq_of_lt (by omega) (by omega)]

theorem newest_of_holds (hh : Holds s.buff n s.fifo) : Newest n s where
  content := content_eq hh
  le := Nat.le_sub_one_of_lt hh.lt
  count := ⟨hh.count, count_eq hh⟩
  read info hi := by
    rcases hf : s.fifo with _ | ⟨m, q⟩
    · rw [hf] at hh
      exact ⟨_, (read_nil hh info).1, by simp, fun _ _ => nofun⟩
    · rw [hf] at hh
      obtain ⟨r, hr, hret, hlen, htake, -, -⟩ := read_ok hh hi
      refine ⟨r, hr, by simp [hret], fun m' q' h => ?_⟩
      cases h
      exact ⟨hlen, htake⟩

theorem step_ok (hh : Holds s.buff n s.fifo) {op : Op} (hf : op.Fits) :
    ∃ s', step n s op = some s' ∧ Holds s'.buff n s'.fifo := by
  cases op with
  | push buffer =>
    obtain ⟨b, hb, hh'⟩ := push_ok hh hf.1 hf.2
    exact ⟨⟨b, newest n s.fifo buffer⟩, by simp [step, hb], hh'⟩
  | read info =>
    rcases hq : s.fifo with _ | ⟨m, q⟩
    · rw [hq] at hh
      obtain ⟨hr, hh'⟩ := read_nil hh info
      exact ⟨⟨_, []⟩, by simp [step, hr, hq], hh'⟩
    · rw [hq] at hh
      obtain ⟨r, hr, -, -, -, -, hh'⟩ := read_ok hh hf
      exact ⟨⟨r.buff, q⟩, by simp [step, hr, hq], hh'⟩
  | clear => exact ⟨_, rfl, clear_holds hh⟩

end History

/-- In every run the ring has the messages of the FIFO of at most `n - 1` that drops the oldest, its
count is the distance of its positions, and reading gives the oldest message or fails if there is none. -/
theorem newest_run (n : Nat) (hn : 2 ≤ n) (ops : List Op) (hf : ∀ op ∈ ops, op.Fits) :
    Always (History.step n) (History.Newest n) (.start n) ops := by
  have hok (s : History) (op : Op) (hh : Holds s.buff n s.fifo) (hq : op.Fits) (_ : True) := History.step_ok hh hq
  exact always_of_steps hok (fun _ => History.newest_of_holds) hf (init_holds hn) fun _ _ => trivial

/-- A second message takes the place of the first. -/
theorem newest_run_example :
    Always (History.step 2) (History.Newest 2) (.start 2) [.push [1], .push [2], .read .new, .clear, .read .new] := by
  have hnew : BuffStruc.new.mszBuff.length = maxBuffLen + 1 := List.length_replicate
  refine newest_run 2 (by decide) _ ?_
  simp only [List.forall_mem_cons, Op.Fits, hnew]
  exact ⟨by decide, by decide, trivial, trivial, trivial, List.forall_mem_nil _⟩

end CCircleBuff

end Miku.ZzmCommon
