import MikuServer.Proof.CircleList

/-!
# Runs of the queue

A run is any sequence of calls on a new list. `History` keeps what the calls
since the last reset added and got, an added message being one that
`using_size_` grew with. `History.step_ok`: every call has a value, and what was
added, as it is stored, is what was got and then what is in the list
(`History.Inv`).
-/

namespace Miku

namespace CircleList

/-- A call. The caller's arrays are as long as it says they are. -/
inductive Op
  | initBuffer (n : Nat) (pos : 0 < n)
  | addBuffer (buff : List Byte) (len : Nat) (le : len ≤ buff.length)
  | getBuffer (outBuff : List Byte) (maxBuffLen outLen : Int) (le : maxBuffLen ≤ outBuff.length)
  | releaseBuffer

/-- A list of `size` slots, and the messages added and got since it was last emptied. -/
structure History where
  size : Nat
  list : CircleList
  added : List (List Byte)
  got : List (List Byte)

namespace History

def start (n : Nat) : History := ⟨n, new n, [], []⟩

def step (h : History) : Op → Option History
  | .initBuffer n _ => some ⟨n, h.list.initBuffer n, [], []⟩
  | .addBuffer buff len _ => do
    let (_, q) ← h.list.addBuffer buff len
    some { h with
      list := q
      added := if q.usingSize = h.list.usingSize then h.added else h.added ++ [buff.take len] }
  | .getBuffer outBuff maxBuffLen outLen _ => do
    let g ← h.list.getBuffer outBuff maxBuffLen outLen
    some { h with
      list := g.list
      got := if g.ret then h.got ++ [g.outBuff.take g.outLen.toNat] else h.got }
  | .releaseBuffer => some ⟨h.size, h.list.releaseBuffer, [], []⟩

def run (h : History) (ops : List Op) : Option History := ops.foldlM step h

/-- What was added, as it is stored, is what was got and what is in the list. -/
def Inv (h : History) : Prop :=
  0 < h.size ∧ ∃ ms, Holds h.list h.size ms ∧ h.added.map stored = h.got ++ ms

theorem start_inv {n : Nat} (hn : 0 < n) : (start n).Inv := ⟨hn, [], new_holds hn, rfl⟩

variable {h : History} {ms : List (List Byte)}

theorem step_addBuffer (hh : Holds h.list h.size ms) {buff : List Byte} {len : Nat} (le : len ≤ buff.length)
    (hr : slotsUsed ms + slotsFor len ≤ h.size) :
    ∃ q', h.step (.addBuffer buff len le) = some ⟨h.size, q', h.added ++ [buff.take len], h.got⟩ ∧
      Holds q' h.size (ms ++ [stored (buff.take len)]) := by
  obtain ⟨q', e1, e2⟩ := addBuffer_ok hh le hr
  have hu := hh.used
  have hu' := e2.used
  have hp := slotsFor_pos len
  rw [slotsUsed, List.map_append, List.sum_append, List.map_singleton, List.sum_singleton, length_stored,
    List.length_take, min_eq_left le, ← slotsUsed] at hu'
  refine ⟨q', ?_, e2⟩
  simp only [step, e1, Option.bind_eq_bind, Option.bind_some]
  rw [if_neg (by omega)]

theorem step_getBuffer {m : List Byte} (hh : Holds h.list h.size (m :: ms)) {outBuff : List Byte}
    {maxBuffLen : Int} (outLen : Int) (le : maxBuffLen ≤ outBuff.length) (hl : m.length < maxBuffLen) :
    ∃ q', h.step (.getBuffer outBuff maxBuffLen outLen le) = some ⟨h.size, q', h.added, h.got ++ [m]⟩ ∧
      Holds q' h.size ms := by
  obtain ⟨q', e1, e2⟩ := getBuffer_ok hh outLen hl le
  refine ⟨q', ?_, e2⟩
  simp only [step, e1, Option.bind_eq_bind, Option.bind_some, if_true]
  rw [splice_zero, Int.toNat_natCast, List.take_left]

/-- A call on a list that is as it should be has a value, and leaves it so. -/
theorem step_ok (hi : h.Inv) (op : Op) : ∃ h', h.step op = some h' ∧ h'.Inv := by
  obtain ⟨hn, ms, hh, hm⟩ := hi
  cases op with
  | initBuffer n pos => exact ⟨_, rfl, pos, [], initBuffer_holds h.list pos, rfl⟩
  | addBuffer buff len le =>
    by_cases hr : slotsUsed ms + slotsFor len ≤ h.size
    · obtain ⟨q', e1, e2⟩ := step_addBuffer hh le hr
      exact ⟨_, e1, hn, _, e2, by rw [List.map_append, hm, List.map_singleton, List.append_assoc]⟩
    · have e := addBuffer_full hh buff (Nat.lt_of_not_ge hr)
      refine ⟨h, ?_, hn, ms, hh, hm⟩
      simp only [step, e, Option.bind_eq_bind, Option.bind_some, if_true]
  | getBuffer outBuff maxBuffLen outLen le =>
    rcases ms with _ | ⟨m, ms⟩
    · exact ⟨h, by rw [step, getBuffer_nil hh]; rfl, hn, [], hh, hm⟩
    · by_cases hl : (m.length : Int) < maxBuffLen
      · obtain ⟨q', e1, e2⟩ := step_getBuffer hh outLen le hl
        exact ⟨_, e1, hn, ms, e2, by rw [hm, List.append_assoc]; rfl⟩
      · exact ⟨h, by rw [step, getBuffer_no hh _ _ (by omega)]; rfl, hn, _, hh, hm⟩
  | releaseBuffer => exact ⟨_, rfl, hn, [], releaseBuffer_holds hh, rfl⟩

theorem run_ok {n : Nat} (hn : 0 < n) (ops : List Op) : ∃ h, (start n).run ops = some h ∧ h.Inv :=
  run_inv (Q := fun _ => True) (fun _ op hs _ => step_ok hs op) (fun _ _ => trivial) (start_inv hn)

end History

/-! ## The representation invariant -/

/-- A list of `n` slots as its functions keep it. -/
structure RepInv (q : CircleList) (n : Nat) : Prop where
  size : q.maxStruSize = n
  used : 0 ≤ q.usingSize ∧ q.usingSize ≤ n
  startPos : 0 ≤ q.startPosIndex ∧ q.startPosIndex < n
  endPos : 0 ≤ q.endPosIndex ∧ q.endPosIndex < n
  endPos_eq : q.endPosIndex = (q.startPosIndex + q.usingSize) % n
  length_occupied : q.occupied.length = q.usingSize
  split : q.chains.flatten = q.occupied
  chain : ∀ c ∈ q.chains, IsChain c

/-- Both loops of `GetBuffer` end, and look at the slots of the first chain only. -/
def ScansFirst (q : CircleList) : Prop :=
  ∀ slots c cs, q.dataPtr = some slots → q.chains = c :: cs →
    (∃ s, doWhile (measureTurn q.maxStruSize slots) slots.length (.first q.startPosIndex) = some s ∧
      s.seen = positions slots.length q.startPosIndex.toNat c.length) ∧
    ∀ out : List Byte, (payload c).length ≤ out.length →
      ∃ t, doWhile (copyTurn q.maxStruSize) slots.length (.first q.startPosIndex, slots, out) = some t ∧
        t.1.seen = positions slots.length q.startPosIndex.toNat c.length

/-- `GetBuffer` fails and changes nothing, or it has the length of the first message
that was added and not yet got, and frees the slots of the first chain. -/
def History.GetsFirst (h : History) : Prop :=
  ∀ (outBuff : List Byte) (maxBuffLen outLen : Int), maxBuffLen ≤ outBuff.length →
    ∃ g, h.list.getBuffer outBuff maxBuffLen outLen = some g ∧
      (g.ret = false → g = ⟨false, outBuff, outLen, h.list⟩) ∧
      (g.ret = true → ∃ m c, h.added[h.got.length]? = some m ∧ g.outLen = m.length ∧
        h.list.chains = c :: g.list.chains ∧ g.list.usingSize = h.list.usingSize - c.length ∧
        g.list.startPosIndex = (h.list.startPosIndex + c.length) % h.size)

theorem Holds.repInv {q : CircleList} {n : Nat} {ms : List (List Byte)} (h : Holds q n ms) : q.RepInv n := by
  obtain ⟨slots, start, cs, hs, rfl, hc, -⟩ := h
  have hlt := hs.start_lt
  have hle := hs.used_le
  have hmod := Nat.mod_lt (start + cs.flatten.length) (show 0 < slots.length by omega)
  refine ⟨hs.size, ?_, ?_, ?_, ?_, ?_, ?_, ?_⟩
  · rw [hs.used]; omega
  · rw [hs.startPos]; omega
  · rw [hs.endPos]; omega
  · rw [hs.endPos, hs.startPos, hs.used, Int.natCast_emod, Nat.cast_add]
  · rw [occupied_eq hs, hs.used]
  · rw [chains_eq hs hc, occupied_eq hs]
  · rw [chains_eq hs hc]; exact hc

theorem Holds.scansFirst {q : CircleList} {n : Nat} {ms : List (List Byte)} (h : Holds q n ms) : q.ScansFirst := by
  obtain ⟨slots, start, cs, hs, -, hc, -⟩ := h
  intro slots' c cs' hd hcs
  rw [hs.data] at hd
  cases hd
  rw [chains_eq hs hc] at hcs
  subst hcs
  obtain ⟨⟨s, e1, e2, -⟩, he⟩ := scans_ok hs (hc c List.mem_cons_self)
  rw [hs.startPos] at e1 he ⊢
  refine ⟨⟨s, e1, e2.seen⟩, fun out ho => ?_⟩
  obtain ⟨t, slots', d1, d2, -⟩ := he out ho
  exact ⟨_, d1, d2.seen⟩

theorem History.Inv.getsFirst {h : History} (hi : h.Inv) : h.GetsFirst := by
  obtain ⟨hn, ms, hh, hm⟩ := hi
  intro outBuff maxBuffLen outLen le
  rcases ms with _ | ⟨m, ms⟩
  · exact ⟨_, getBuffer_nil hh _ _ _, fun _ => rfl, nofun⟩
  by_cases hl : (m.length : Int) < maxBuffLen
  · obtain ⟨slots, start, _ | ⟨c, cs⟩, hs, hsz, hc, he⟩ := hh
    · cases he
    rw [List.map_cons, List.cons.injEq] at he
    obtain ⟨rfl, rfl⟩ := he
    obtain ⟨q', slots', e1, e2, e3⟩ := getBuffer_chain hs (hc c List.mem_cons_self) outLen hl le
    have hadd : (h.added.map stored)[h.got.length]? = some (payload c) := by
      rw [hm, List.getElem?_append_right le_rfl, Nat.sub_self]
      rfl
    rw [List.getElem?_map, Option.map_eq_some_iff] at hadd
    obtain ⟨m, h1, h2⟩ := hadd
    refine ⟨_, e1, nofun, fun _ => ⟨m, c, h1, ?_, ?_, ?_, ?_⟩⟩
    · rw [← h2, length_stored]
    · rw [chains_eq hs hc, chains_eq e2 fun d hd => hc d (List.mem_cons_of_mem _ hd)]
    · have hu := hs.used
      rw [List.flatten_cons, List.length_append] at hu
      rw [e2.used, hu]
      omega
    · rw [e2.startPos, hs.startPos, ← hsz, Int.natCast_emod, Nat.cast_add]
  · exact ⟨_, getBuffer_no hh _ _ (by omega), fun _ => rfl, nofun⟩

/-- After any run the list is as its functions keep it, and `GetBuffer` gets what is first. -/
theorem run_repInv {n : Nat} (hn : 0 < n) (ops : List Op) :
    ∃ h, (History.start n).run ops = some h ∧ h.list.RepInv h.size ∧ h.list.ScansFirst ∧ h.GetsFirst := by
  obtain ⟨h, h1, h2⟩ := History.run_ok hn ops
  have hg := h2.getsFirst
  obtain ⟨-, ms, hh, -⟩ := h2
  exact ⟨h, h1, hh.repInv, hh.scansFirst, hg⟩

/-- A run that fills a list of two slots, gets a message and adds one more. -/
theorem run_repInv_two :
    ∃ h, (History.start 2).run [.initBuffer 2 (by decide), .addBuffer [1, 2] 2 (by decide),
      .addBuffer [3] 1 (by decide), .getBuffer (List.replicate 16 0) 16 0 (by decide),
      .addBuffer [] 0 (by decide)] = some h ∧ h.list.RepInv h.size ∧ h.list.ScansFirst ∧ h.GetsFirst :=
  run_repInv (by decide) _

/-! ## The messages got are the messages added -/

namespace History

/-- A message that `GetBuffer` gets, the oldest one, if it is shorter than the caller's array, is from its 0x1000th
byte on a repetition of its first 0x1000. -/
def GetsRepeats (h : History) : Op → Prop
  | .getBuffer _ maxBuffLen _ _ =>
    ∀ m, h.added[h.got.length]? = some m → (m.length : Int) < maxBuffLen → Miku.Repeats m
  | _ => True

/-- What a call adds is behind what was added before. -/
theorem prefix_addBuffer {h h' : History} {buff : List Byte} {len : Nat} {le : len ≤ buff.length} (hs : h.step (.addBuffer buff len le) = some h')
    (hp : h.got <+: h.added) : h'.got <+: h'.added := by
  simp only [step, Option.bind_eq_bind, Option.bind_eq_some_iff] at hs
  obtain ⟨⟨b, q⟩, -, he⟩ := hs
  cases he
  dsimp only
  split
  · exact hp
  · exact hp.trans (List.prefix_append ..)

theorem prefix_concat_iff {l l' : List (List Byte)} {m m' : List Byte} (hp : l <+: l') (hm : l'[l.length]? = some m') :
    l ++ [m] <+: l' ↔ m = m' := by
  obtain ⟨k, rfl⟩ := hp
  rw [List.getElem?_append_right le_rfl, Nat.sub_self] at hm
  cases k with
  | nil => cases hm
  | cons d k =>
    cases hm
    rw [List.prefix_append_right_inj, List.cons_prefix_cons]
    exact and_iff_left (List.nil_prefix ..)

/-- The next message, and what is stored for it. -/
theorem Inv.next {h : History} {m : List Byte} {ms : List (List Byte)} (hm : h.added.map stored = h.got ++ m :: ms) :
    ∃ m', h.added[h.got.length]? = some m' ∧ stored m' = m := by
  have hget : (h.added.map stored)[h.got.length]? = some m := by
    rw [hm, List.getElem?_append_right le_rfl, Nat.sub_self]
    rfl
  rw [List.getElem?_map, Option.map_eq_some_iff] at hget
  exact hget

/-- A call keeps what was got a prefix of what was added exactly if it gets no message that does not repeat. -/
theorem step_prefix_iff {h h' : History} (op : Op) (hi : h.Inv) (hp : h.got <+: h.added) (hs : h.step op = some h') :
    h'.got <+: h'.added ↔ h.GetsRepeats op := by
  cases op with
  | initBuffer n pos =>
    cases hs
    exact iff_of_true List.prefix_rfl trivial
  | addBuffer buff len le => exact iff_of_true (prefix_addBuffer hs hp) trivial
  | getBuffer outBuff maxBuffLen outLen le =>
    obtain ⟨-, ms, hh, hm⟩ := hi
    rcases ms with _ | ⟨m, ms⟩
    · rw [step, getBuffer_nil hh] at hs
      cases hs
      have hlen := congrArg List.length hm
      rw [List.length_map, List.append_nil] at hlen
      refine iff_of_true hp fun m' hm' _ => ?_
      rw [List.getElem?_eq_none hlen.le] at hm'
      cases hm'
    obtain ⟨m', hm', hstored⟩ := Inv.next hm
    have hlen : m'.length = m.length := by rw [← hstored, length_stored]
    by_cases hl : (m.length : Int) < maxBuffLen
    · obtain ⟨q, e, -⟩ := step_getBuffer hh outLen le hl
      cases e.symm.trans hs
      rw [prefix_concat_iff hp hm', ← hstored, stored_eq_iff]
      constructor
      · intro hr m₁ h₁ _
        cases hm'.symm.trans h₁
        exact hr
      · exact fun hr => hr m' hm' (by omega)
    · rw [step, getBuffer_no hh _ _ (by omega)] at hs
      cases hs
      refine iff_of_true hp fun m₁ h₁ hlt => ?_
      cases hm'.symm.trans h₁
      omega
  | releaseBuffer =>
    cases hs
    exact iff_of_true List.prefix_rfl trivial

/-- In every run: what was got since the last reset is, in every state, what was added, as far as it goes, complete
and byte for byte, exactly if each `GetBuffer` that gets a message gets one that repeats. -/
theorem got_prefix_added_iff {n : Nat} (hn : 0 < n) (ops : List Op) :
    (∃ h, (start n).run ops = some h) ∧ (Always step (fun h => h.got <+: h.added) (start n) ops ↔
      ∀ x ∈ runSteps step (start n) ops, GetsRepeats x.1 x.2) := by
  obtain ⟨h, hr, -⟩ := run_ok hn ops
  refine ⟨⟨h, hr⟩, always_iff_steps (I := Inv) ?_ ?_ (start_inv hn) List.prefix_rfl hr⟩
  · intro h op h' hi hs
    obtain ⟨h₁, h1, h2⟩ := step_ok hi op
    cases h1.symm.trans hs
    exact h2
  · intro h op h' hi hp hs
    exact step_prefix_iff op hi hp hs

/-- A message of 0x1001 bytes, all 1 but the last. -/
def longMessage : List Byte := List.replicate 0x1000 1 ++ [2]

theorem length_longMessage : longMessage.length = 0x1001 := by
  rw [longMessage, List.length_append, List.length_replicate, List.length_singleton]

theorem not_repeats_longMessage : ¬ Miku.Repeats longMessage := by
  intro h
  have h1 := h 0x1000 (by rw [length_longMessage]; omega)
  rw [show 0x1000 % maxSizePerBuff = 0 from rfl, longMessage,
    List.getElem?_append_right (by rw [List.length_replicate]),
    List.getElem?_append_left (by rw [List.length_replicate]; omega), List.length_replicate,
    List.getElem?_replicate_of_lt (by omega)] at h1
  exact absurd h1 (by decide)

theorem le_length_zeros (k : Nat) : (k : Int) ≤ (List.replicate k (0 : Byte)).length := by
  rw [List.length_replicate]

/-- In a list of two slots: two short messages, the long one, for which there is no room, and a `GetBuffer`. -/
theorem got_prefix_added_iff_two :
    let ops := [.addBuffer [1, 2] 2 (by decide), .addBuffer [3] 1 (by decide),
      .addBuffer longMessage 0x1001 length_longMessage.ge, .getBuffer (List.replicate 16 0) 16 0 (by decide)]
    (∃ h, (start 2).run ops = some h) ∧ (Always step (fun h => h.got <+: h.added) (start 2) ops ↔
      ∀ x ∈ runSteps step (start 2) ops, GetsRepeats x.1 x.2) :=
  got_prefix_added_iff (by decide) _

/-- The long one does not come back as it was added. -/
theorem not_got_prefix_added :
    ∃ h, (start 2).run [.addBuffer longMessage 0x1001 length_longMessage.ge,
        .getBuffer (List.replicate 0x2000 0) 0x2000 0 (le_length_zeros 0x2000)] = some h ∧
      h.added = [longMessage] ∧ ¬ h.got <+: h.added := by
  have hs : slotsUsed [] + slotsFor 0x1001 ≤ 2 := by decide
  obtain ⟨q₁, e1, e2⟩ := step_addBuffer (h := start 2) (new_holds (by decide)) length_longMessage.ge hs
  have ht : longMessage.take 0x1001 = longMessage := List.take_of_length_le length_longMessage.le
  rw [ht] at e1 e2
  obtain ⟨q₂, d1, -⟩ := step_getBuffer (h := ⟨2, q₁, [longMessage], []⟩) e2 0
    (le_length_zeros 0x2000) (by rw [length_stored, length_longMessage]; decide)
  refine ⟨⟨2, q₂, [longMessage], [stored longMessage]⟩, ?_, rfl, fun hp => ?_⟩
  · rw [run, List.foldlM_cons, e1, Option.bind_eq_bind, Option.bind_some, List.foldlM_cons]
    exact (congrArg (Option.bind · _) d1).trans rfl
  · have := List.prefix_iff_eq_take.mp hp
    exact not_repeats_longMessage (stored_eq_iff.mp (by simpa using this))

/-! ## The oldest message at the consumer's limit -/

/-- `GetBuffer(out, 0x2000, len)`, as the threads that deal with the chunks call it, gets the oldest
message, and the messages behind it are what is left. -/
def GetsOldest (h : History) : Prop :=
  ∀ (outBuff : List Byte) (outLen : Int), outBuff.length = 0x2000 →
    ∃ g c, h.list.getBuffer outBuff 0x2000 outLen = some g ∧ g.ret = true ∧ h.list.chains = c :: g.list.chains

/-- The oldest message is the first in the list. -/
theorem Inv.oldest {h : History} (hi : h.Inv) {m : List Byte} (hm : h.added[h.got.length]? = some m) :
    ∃ ms, Holds h.list h.size (stored m :: ms) := by
  obtain ⟨-, ms, hh, he⟩ := hi
  have hget : (h.got ++ ms)[h.got.length]? = some (stored m) := by rw [← he, List.getElem?_map, hm, Option.map_some]
  rw [List.getElem?_append_right le_rfl, Nat.sub_self] at hget
  rcases ms with _ | ⟨d, ms⟩
  · cases hget
  · cases hget
    exact ⟨ms, hh⟩

/-- It is got exactly if it has fewer bytes than `out` has room for. -/
theorem Inv.gets_iff {h : History} (hi : h.Inv) {m : List Byte} (hm : h.added[h.got.length]? = some m) :
    h.GetsOldest ↔ m.length < 0x2000 := by
  obtain ⟨ms, hh⟩ := hi.oldest hm
  have hlen : (stored m).length = m.length := length_stored m
  constructor
  · intro hg
    by_contra hge
    obtain ⟨g, c, he, hret, -⟩ := hg (List.replicate 0x2000 0) 0 List.length_replicate
    have hno := getBuffer_no hh (List.replicate 0x2000 0) 0 (show (0x2000 : Int) ≤ (stored m).length by omega)
    rw [hno, Option.some_inj] at he
    rw [← he] at hret
    exact Bool.false_ne_true hret
  · intro hlt outBuff outLen ho
    have hroom : (0x2000 : Int) ≤ outBuff.length := by omega
    obtain ⟨g, he, -, hr⟩ := hi.getsFirst outBuff 0x2000 outLen hroom
    obtain ⟨q, he', -⟩ := getBuffer_ok hh outLen (show ((stored m).length : Int) < 0x2000 by omega) hroom
    have hret : g.ret = true := by
      rw [he', Option.some_inj] at he
      rw [← he]
    obtain ⟨-, c, -, -, hc, -⟩ := hr hret
    exact ⟨g, c, he, hret, hc⟩

/-- In every state that is reached, a message of 1 to 0x2000 bytes that is the oldest is got exactly if
it has fewer than 0x2000. -/
theorem getsOldest_iff {n : Nat} (hn : 0 < n) (ops : List Op) :
    ∃ h, (start n).run ops = some h ∧ ∀ m, h.added[h.got.length]? = some m → 1 ≤ m.length → m.length ≤ 0x2000 →
      (h.GetsOldest ↔ m.length < 0x2000) := by
  obtain ⟨h, hr, hi⟩ := run_ok hn ops
  exact ⟨h, hr, fun m hm _ _ => hi.gets_iff hm⟩

/-- A list of two slots with a short message. -/
theorem getsOldest_iff_two :
    ∃ h, (start 2).run [.initBuffer 2 (by decide), .addBuffer [7] 1 (by decide)] = some h ∧
      ∀ m, h.added[h.got.length]? = some m → 1 ≤ m.length → m.length ≤ 0x2000 → (h.GetsOldest ↔ m.length < 0x2000) :=
  getsOldest_iff (by decide) _

/-- A read of 0x2000 bytes stays in the list, however often the thread asks for it. -/
theorem not_getsOldest :
    ∃ h, (start 2).run [.addBuffer (List.replicate 0x2000 7) 0x2000 List.length_replicate.ge] = some h ∧
      h.added[h.got.length]? = some (List.replicate 0x2000 7) ∧
      ∀ outBuff outLen, h.list.getBuffer outBuff 0x2000 outLen = some ⟨false, outBuff, outLen, h.list⟩ := by
  have hl : (List.replicate 0x2000 (7 : Byte)).length = 0x2000 := List.length_replicate
  have hs : slotsUsed [] + slotsFor 0x2000 ≤ 2 := by decide
  obtain ⟨q, e1, e2⟩ := step_addBuffer (h := start 2) (new_holds (by decide)) hl.ge hs
  have ht : (List.replicate 0x2000 (7 : Byte)).take 0x2000 = List.replicate 0x2000 7 := List.take_of_length_le hl.le
  rw [ht] at e1 e2
  refine ⟨⟨2, q, [List.replicate 0x2000 7], []⟩, ?_, rfl, fun outBuff outLen => ?_⟩
  · rw [run, List.foldlM_cons, e1]
    rfl
  · exact getBuffer_no e2 outBuff outLen (by rw [length_stored, hl]; decide)

end History

/-! ## What the caller is told -/

variable {q : CircleList} {n : Nat} {ms : List (List Byte)} {buff : List Byte} {len : Nat}

/-- `AddBuffer` returns true exactly if the slots of the whole message are in use after it, does so if they
are free, and leaves the list as it was if it returns false. -/
def AddsTruthfully (q : CircleList) (buff : List Byte) (len : Nat) : Prop :=
  ∃ ret q', q.addBuffer buff len = some (ret, q') ∧
    (ret = true ↔ q'.usingSize = q.usingSize + slotsFor len) ∧
    (q.usingSize + slotsFor len ≤ q.maxStruSize → ret = true) ∧
    (ret = false → q'.usingSize = q.usingSize ∧ q'.startPosIndex = q.startPosIndex ∧
      q'.endPosIndex = q.endPosIndex ∧ q'.occupied = q.occupied)

/-- The message fits into one slot, or there are not as many free slots as it takes. -/
def ShortOrFull (q : CircleList) (len : Nat) : Prop :=
  len ≤ maxSizePerBuff ∨ q.maxStruSize < q.usingSize + slotsFor len

/-- A list that refuses a message without a change. -/
theorem addsTruthfully_of_refused (h : q.addBuffer buff len = some (false, q))
    (hfull : q.maxStruSize < q.usingSize + slotsFor len) : q.AddsTruthfully buff len := by
  have hpos := slotsFor_pos len
  refine ⟨false, q, h, iff_of_false Bool.false_ne_true (by omega), fun hroom => absurd hroom (not_le.mpr hfull), ?_⟩
  intro _
  exact ⟨rfl, rfl, rfl, rfl⟩

/-- The branch for long messages returns false after it has added one. -/
theorem Holds.adds_iff (h : Holds q n ms) (hb : len ≤ buff.length) :
    q.AddsTruthfully buff len ↔ q.ShortOrFull len := by
  have hsize := h.maxStruSize
  have hused := h.used
  by_cases hr : slotsUsed ms + slotsFor len ≤ n
  · obtain ⟨q', he, hh⟩ := addBuffer_ok h hb hr
    have hroom : q.usingSize + slotsFor len ≤ q.maxStruSize := by omega
    have hused' : q'.usingSize = q.usingSize + slotsFor len := by
      rw [hh.used, hused, slotsUsed, List.map_append, List.sum_append, List.map_singleton, List.sum_singleton,
        length_stored, List.length_take, min_eq_left hb, Nat.cast_add, ← slotsUsed]
    constructor
    · rintro ⟨ret, q₁, he₁, -, hfree, -⟩
      cases he.symm.trans he₁
      exact .inl (of_decide_eq_true (hfree hroom))
    · rintro (hl | hfull)
      · rw [decide_eq_true hl] at he
        exact ⟨true, q', he, iff_of_true rfl hused', fun _ => rfl, fun hret => by cases hret⟩
      · exact absurd hroom (not_le.mpr hfull)
  · have hfull : q.maxStruSize < q.usingSize + slotsFor len := by omega
    have he := addBuffer_full h buff (Nat.lt_of_not_ge hr)
    exact iff_of_true (addsTruthfully_of_refused he hfull) (.inr hfull)

namespace History

/-- A list that has no slots until `InitBuffer`. -/
theorem step_unallocated {h : History} (hn : h.list = new 0) (op : Op) :
    ∃ h', h.step op = some h' ∧ (h'.Inv ∨ h'.list = new 0) := by
  cases op with
  | initBuffer n pos => exact ⟨_, rfl, .inl ⟨pos, [], initBuffer_holds h.list pos, rfl⟩⟩
  | addBuffer buff len le => exact ⟨_, by rw [step, hn]; rfl, .inr rfl⟩
  | getBuffer outBuff maxBuffLen outLen le => exact ⟨_, by rw [step, hn]; rfl, .inr rfl⟩
  | releaseBuffer => exact ⟨_, rfl, .inr (by rw [hn]; rfl)⟩

/-- After any run, of a list of any size. -/
theorem run_reaches (n : Nat) (ops : List Op) :
    ∃ h, (start n).run ops = some h ∧ (h.Inv ∨ h.list = new 0) := by
  have hstart : (start n).Inv ∨ (start n).list = new 0 := by
    rcases Nat.eq_zero_or_pos n with rfl | hn
    · exact .inr rfl
    · exact .inl (start_inv hn)
  refine run_inv (Q := fun _ => True) (fun h op hs _ => ?_) (fun _ _ => trivial) hstart
  rcases hs with hi | hn
  · obtain ⟨h', e, hi'⟩ := step_ok hi op
    exact ⟨h', e, .inl hi'⟩
  · exact step_unallocated hn op

/-- In every state that is reached, `AddBuffer` says what it has done exactly if the message takes one slot
or finds too few. -/
theorem addsTruthfully_iff (n : Nat) (ops : List Op) :
    ∃ h, (start n).run ops = some h ∧ ∀ (buff : List Byte) (len : Nat), 1 ≤ len → len ≤ buff.length →
      (h.list.AddsTruthfully buff len ↔ h.list.ShortOrFull len) := by
  obtain ⟨h, hr, hi | hn⟩ := run_reaches n ops
  · obtain ⟨-, ms, hh, -⟩ := hi
    exact ⟨h, hr, fun buff len _ hb => hh.adds_iff hb⟩
  · refine ⟨h, hr, fun buff len _ _ => ?_⟩
    have hfull : (new 0).maxStruSize < (new 0).usingSize + slotsFor len := by
      have hpos := slotsFor_pos len
      show (0 : Int) < 0 + slotsFor len
      omega
    rw [hn]
    exact iff_of_true (addsTruthfully_of_refused rfl hfull) (.inr hfull)

/-- A message of two slots is in the list, and the caller is told that it is not. -/
theorem not_addsTruthfully_long :
    ∃ q', (start 2).run [] = some (start 2) ∧ (new 2).addBuffer longMessage 0x1001 = some (false, q') ∧
      q'.usingSize = 2 ∧ ¬ (new 2).AddsTruthfully longMessage 0x1001 := by
  have hh : Holds (new 2) 2 [] := new_holds (by decide)
  obtain ⟨q', he, hh'⟩ := addBuffer_ok hh (length_longMessage.ge : 0x1001 ≤ _) (by decide)
  have ht : longMessage.take 0x1001 = longMessage := List.take_of_length_le length_longMessage.le
  refine ⟨q', rfl, he, ?_, fun h => ?_⟩
  · rw [hh'.used, ht, slotsUsed, List.nil_append, List.map_singleton, length_stored, length_longMessage]
    rfl
  · have hbad := (hh.adds_iff length_longMessage.ge).mp h
    exact absurd hbad (by unfold ShortOrFull; decide)

end History

end CircleList

end Miku
