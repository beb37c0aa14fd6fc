import Mathlib.Data.Finset.Lattice.Fold
import Mathlib.Data.List.Nodup
import Mathlib.Order.Lattice.Nat
import MikuServer.Framework.Loop
import MikuServer.Impl.ResQueue

/-!
# What the pool of objects keeps

The free objects and those in use are all different after every call (`Safe`), and
`Get` gives an object that nobody has. Their number is at most `m_iMaxSize`, or
`m_iMinSize` where that is more. `Put` compares the number of the free objects
with `m_iMinSize + m_iIncrease` modulo 2^32, so it keeps `m_iMinSize` of them
exactly where that sum does not overflow, or nothing is deleted (`contract_iff`).
-/

namespace Miku.ZzmCommon.CResQueue

variable {s : CResQueue}

def total (self : CResQueue) : Nat := self.resList.length + self.resMap.card

/-- What `Init` has set. -/
def sizes (self : CResQueue) : UInt32 × UInt32 × UInt32 := (self.iMinSize, self.iIncrease, self.iMaxSize)

structure Safe (s : CResQueue) : Prop where
  nodup : s.resList.Nodup
  disjoint : ∀ p ∈ s.resList, p ∉ s.resMap

def Bounded (s : CResQueue) : Prop :=
  s.iMinSize.toNat ≤ s.total ∧ s.total ≤ max s.iMinSize.toNat s.iMaxSize.toNat

theorem Bounded.congr {t : CResQueue} (h : s.Bounded) (hs : t.sizes = s.sizes) (ht : t.total = s.total) : t.Bounded := by
  simp only [sizes, Prod.mk.injEq] at hs
  rw [Bounded, hs.1, hs.2.2, ht]
  exact h

theorem Bounded.total_lt (h : s.Bounded) : s.total < 2 ^ 32 := by
  have hmin := s.iMinSize.toNat_lt
  have hmax := s.iMaxSize.toNat_lt
  have := h.2
  omega

/-! ## Growing -/

theorem increaseLoop_spec (newRes : NewRes) (resMap : Finset Res) (n : Nat) {l : List Res} (hn : l.Nodup)
    (hd : ∀ p ∈ l, p ∉ resMap) :
    (increaseLoop newRes resMap n l).2.Nodup ∧ (∀ p ∈ (increaseLoop newRes resMap n l).2, p ∉ resMap) ∧
      l.length ≤ (increaseLoop newRes resMap n l).2.length ∧
      (increaseLoop newRes resMap n l).2.length ≤ l.length + n ∧
      ((increaseLoop newRes resMap n l).1 = true → (increaseLoop newRes resMap n l).2.length = l.length + n) := by
  induction n generalizing l with
  | zero => exact ⟨hn, hd, Nat.le_refl _, Nat.le_refl _, fun _ => rfl⟩
  | succ n ih =>
    rw [increaseLoop]
    rcases hg : newRes.get (l.toFinset ∪ resMap) with _ | p
    · exact ⟨hn, hd, Nat.le_refl _, Nat.le_add_right .., nofun⟩
    · have hf := newRes.fresh hg
      rw [Finset.mem_union, List.mem_toFinset, not_or] at hf
      have hn' : (l ++ [p]).Nodup := by
        rw [List.nodup_append]
        refine ⟨hn, List.nodup_singleton p, fun a ha b hb e => ?_⟩
        rw [List.mem_singleton.mp hb] at e
        exact hf.1 (e ▸ ha)
      have hd' : ∀ q ∈ l ++ [p], q ∉ resMap := by
        rw [List.forall_mem_append, List.forall_mem_singleton]
        exact ⟨hd, hf.2⟩
      obtain ⟨h1, h2, h3, h4, h5⟩ := ih hn' hd'
      rw [List.length_append, List.length_singleton, Nat.add_assoc, Nat.add_comm 1 n] at h4 h5
      rw [List.length_append] at h3
      exact ⟨h1, h2, Nat.le_of_add_right_le h3, h4, h5⟩

/-- `Increase` adds at most `iNum` objects. -/
theorem Safe.increase (h : s.Safe) (newRes : NewRes) (now : UInt64) (iNum : UInt32) :
    (s.increase newRes now iNum).2.Safe ∧ (s.increase newRes now iNum).2.sizes = s.sizes ∧
      (s.increase newRes now iNum).2.resMap = s.resMap ∧ s.total ≤ (s.increase newRes now iNum).2.total ∧
      (s.increase newRes now iNum).2.total ≤ s.total + iNum.toNat ∧
      ((s.increase newRes now iNum).1 = true → (s.increase newRes now iNum).2.total = s.total + iNum.toNat) := by
  obtain ⟨h1, h2, h3, h4, h5⟩ := increaseLoop_spec newRes s.resMap iNum.toNat h.nodup h.disjoint
  refine ⟨⟨h1, h2⟩, rfl, rfl, Nat.add_le_add_right h3 _, ?_, fun hr => ?_⟩
  · show (increaseLoop newRes s.resMap iNum.toNat s.resList).2.length + s.resMap.card ≤ s.resList.length + s.resMap.card + _
    omega
  · show (increaseLoop newRes s.resMap iNum.toNat s.resList).2.length + s.resMap.card = s.resList.length + s.resMap.card + _
    have := h5 hr
    omega

theorem Safe.grow (h : s.Safe) (hb : s.Bounded) (newRes : NewRes) (now : UInt64) :
    (s.grow newRes now).Safe ∧ (s.grow newRes now).Bounded ∧ (s.grow newRes now).sizes = s.sizes ∧
      (s.grow newRes now).resMap = s.resMap := by
  have hcount : (UInt32.ofNat (s.resList.length + s.resMap.card)).toNat = s.total := by
    exact UInt32.toNat_ofNat'.trans (Nat.mod_eq_of_lt hb.total_lt)
  simp only [CResQueue.grow]
  split <;> rename_i hlt
  · generalize hnum : (if s.iIncrease > s.iMaxSize - UInt32.ofNat (s.resList.length + s.resMap.card) then
      s.iMaxSize - UInt32.ofNat (s.resList.length + s.resMap.card) else s.iIncrease) = iNum
    have hle : iNum ≤ s.iMaxSize - UInt32.ofNat (s.resList.length + s.resMap.card) := by
      rw [← hnum]
      split <;> rename_i hi
      · exact UInt32.le_refl _
      · exact UInt32.not_lt.mp hi
    rw [UInt32.lt_iff_toNat_lt, hcount] at hlt
    rw [UInt32.le_iff_toNat_le, UInt32.toNat_sub_of_le _ _ (UInt32.le_iff_toNat_le.mpr (by omega)), hcount] at hle
    obtain ⟨h1, h2, h3, h4, h5, -⟩ := h.increase newRes now iNum
    refine ⟨h1, ?_, h2, h3⟩
    have hsizes := h2
    simp only [sizes, Prod.mk.injEq] at hsizes
    have hmin := hb.1
    have hmax := hb.2
    rw [Bounded, hsizes.1, hsizes.2.2]
    omega
  · exact ⟨h, hb, rfl, rfl⟩

/-! ## `Get` -/

theorem Safe.takeFront (h : s.Safe) :
    s.takeFront.2.Safe ∧ s.takeFront.2.sizes = s.sizes ∧ s.takeFront.2.total = s.total ∧
      ∀ p, s.takeFront.1 = some p → p ∉ s.resMap := by
  rw [CResQueue.takeFront]
  rcases hl : s.resList with _ | ⟨p, rest⟩
  · exact ⟨h, rfl, rfl, nofun⟩
  · dsimp only
    split
    · have hn := h.nodup
      have hd := h.disjoint
      rw [hl, List.nodup_cons] at hn
      rw [hl, List.forall_mem_cons] at hd
      refine ⟨⟨hn.2, fun q hq => ?_⟩, rfl, ?_, fun q e => ?_⟩
      · rw [Finset.mem_insert, not_or]
        exact ⟨fun e => hn.1 (e ▸ hq), hd.2 q hq⟩
      · simp only [total, hl, List.length_cons, Finset.card_insert_of_notMem hd.1]
        omega
      · cases e
        exact hd.1
    · exact ⟨h, rfl, rfl, nofun⟩

theorem Safe.get (h : s.Safe) (hb : s.Bounded) (newRes : NewRes) (now : UInt64) :
    (s.get newRes now).2.Safe ∧ (s.get newRes now).2.Bounded ∧
      ∀ p, (s.get newRes now).1 = some p → p ∉ s.resMap := by
  rw [CResQueue.get]
  split
  · obtain ⟨h1, h2, h3, h4⟩ := h.takeFront
    exact ⟨h1, hb.congr h2 h3, h4⟩
  · obtain ⟨g1, g2, g3, g4⟩ := h.grow hb newRes now
    obtain ⟨h1, h2, h3, h4⟩ := g1.takeFront
    exact ⟨h1, g2.congr h2 h3, g4 ▸ h4⟩

/-! ## `Put` -/

theorem Safe.giveBack (h : s.Safe) (p : Res) :
    (s.giveBack p).Safe ∧ (s.giveBack p).sizes = s.sizes ∧ (s.giveBack p).total = s.total := by
  rw [CResQueue.giveBack]
  split <;> rename_i hp
  · have hnot : p ∉ s.resList := fun hl => h.disjoint p hl hp
    refine ⟨⟨?_, fun q hq => ?_⟩, rfl, ?_⟩
    · rw [List.nodup_append]
      refine ⟨h.nodup, List.nodup_singleton p, fun a ha b hb e => ?_⟩
      rw [List.mem_singleton.mp hb] at e
      exact hnot (e ▸ ha)
    · rw [List.mem_append, List.mem_singleton] at hq
      rw [Finset.mem_erase, not_and]
      intro hne
      exact h.disjoint q (hq.resolve_right hne)
    · have hpos := Finset.card_pos.mpr ⟨p, hp⟩
      simp only [total, List.length_append, List.length_singleton, Finset.card_erase_of_mem hp]
      omega
  · exact ⟨h, rfl, rfl⟩

/-- `Put` calls `Descend`, which deletes something. -/
def Shrinks (s : CResQueue) (pData : Res) (now : UInt64) : Prop :=
  let free := s.resList.length + if pData ∈ s.resMap then 1 else 0
  0 < s.iIncrease ∧ s.iIncrease * 2 ≤ UInt32.ofNat free ∧ s.iMinSize + s.iIncrease ≤ UInt32.ofNat free ∧
    60000 < now - s.dwMaxTime ∧ s.iIncrease.toNat ≤ free

theorem length_giveBack (s : CResQueue) (p : Res) :
    (s.giveBack p).resList.length = s.resList.length + if p ∈ s.resMap then 1 else 0 := by
  rw [CResQueue.giveBack]
  split
  · exact List.length_append
  · rfl

/-- Nothing but the clock's reading, or `m_iIncrease` of the free objects are gone. -/
theorem put_cases (s : CResQueue) (p : Res) (now : UInt64) :
    (¬ s.Shrinks p now ∧ ∃ time, s.put (some p) now = ([], { s.giveBack p with dwMaxTime := time })) ∨
    (s.Shrinks p now ∧ s.put (some p) now = ((s.giveBack p).resList.take s.iIncrease.toNat,
      { s.giveBack p with resList := (s.giveBack p).resList.drop s.iIncrease.toNat, dwMaxTime := now })) := by
  have hinc : (s.giveBack p).iIncrease = s.iIncrease := by
    rw [CResQueue.giveBack]
    split <;> rfl
  have hmin : (s.giveBack p).iMinSize = s.iMinSize := by
    rw [CResQueue.giveBack]
    split <;> rfl
  have htime : (s.giveBack p).dwMaxTime = s.dwMaxTime := by
    rw [CResQueue.giveBack]
    split <;> rfl
  simp only [CResQueue.put, CResQueue.shrink, CResQueue.descend, Shrinks, ← hinc, ← hmin, ← htime, ← length_giveBack]
  split <;> rename_i hpos
  · split <;> rename_i hcount
    · split <;> rename_i hwait
      · split <;> rename_i hlen
        · exact .inl ⟨fun h => Nat.not_lt.mpr h.2.2.2.2 hlen, now, rfl⟩
        · exact .inr ⟨⟨hpos, hcount.1, hcount.2, hwait, Nat.not_lt.mp hlen⟩, rfl⟩
      · exact .inl ⟨fun h => hwait h.2.2.2.1, _, rfl⟩
    · exact .inl ⟨fun h => hcount ⟨h.2.1, h.2.2.1⟩, now, rfl⟩
  · exact .inl ⟨fun h => hpos h.1, _, rfl⟩

theorem Safe.put (h : s.Safe) (pData : Option Res) (now : UInt64) :
    (s.put pData now).2.Safe ∧ (s.put pData now).2.sizes = s.sizes ∧
      (∀ p ∈ (s.put pData now).1, p ∉ (s.put pData now).2.resMap) ∧
      ((∀ p, pData = some p → p ∉ s.resMap) →
        (s.put pData now).2.resList ⊆ s.resList ∧ (s.put pData now).2.resMap = s.resMap) := by
  rcases pData with _ | p
  · exact ⟨h, rfl, nofun, fun _ => ⟨List.Subset.refl _, rfl⟩⟩
  · obtain ⟨g1, g2, -⟩ := h.giveBack p
    have hsame (hp : ∀ q, some p = some q → q ∉ s.resMap) : s.giveBack p = s := if_neg (hp p rfl)
    rcases s.put_cases p now with ⟨-, time, e⟩ | ⟨-, e⟩ <;> rw [e]
    · refine ⟨⟨g1.nodup, g1.disjoint⟩, g2, nofun, fun hp => ?_⟩
      rw [hsame hp]
      exact ⟨List.Subset.refl _, rfl⟩
    · refine ⟨⟨g1.nodup.sublist (List.drop_sublist ..), fun q hq => g1.disjoint q (List.mem_of_mem_drop hq)⟩, g2,
        fun q hq => g1.disjoint q (List.mem_of_mem_take hq), fun hp => ?_⟩
      rw [hsame hp]
      exact ⟨List.drop_subset .., rfl⟩

/-! ## Runs -/

/-- What `Get` gives is not in use, nor is what `Put` deletes; a pointer that is not in use is not added. -/
def CallSound (s : CResQueue) : Call → Prop
  | .get newRes now => ∀ p, (s.get newRes now).1 = some p → p ∉ s.resMap
  | .put pData now =>
    (∀ p ∈ (s.put pData now).1, p ∉ (s.put pData now).2.resMap) ∧
      ((∀ p, pData = some p → p ∉ s.resMap) →
        (s.put pData now).2.resList ⊆ s.resList ∧ (s.put pData now).2.resMap = s.resMap)

def Contract (s : CResQueue) (c : Call) : Prop := s.CallSound c ∧ (s.step c).Safe ∧ (s.step c).Bounded

/-- The sum that `Put` compares with does not overflow, or `Put` deletes nothing. -/
def KeepsMin (s : CResQueue) : Call → Prop
  | .put (some pData) now => s.iMinSize.toNat + s.iIncrease.toNat < 2 ^ 32 ∨ ¬ s.Shrinks pData now
  | _ => True

def next (s : CResQueue) (c : Call) : Option CResQueue := some (s.step c)

theorem put_bounded_iff (h : s.Safe) (hb : s.Bounded) (p : Res) (now : UInt64) :
    (s.put (some p) now).2.Bounded ↔ s.KeepsMin (.put (some p) now) := by
  obtain ⟨-, g2, g3⟩ := h.giveBack p
  have hgiven := hb.congr g2 g3
  rcases s.put_cases p now with ⟨hnot, time, e⟩ | ⟨hshrinks, e⟩
  · rw [e]
    exact iff_of_true hgiven (.inr hnot)
  · have hlen := s.length_giveBack p
    obtain ⟨-, -, hcount, -, hle⟩ := id hshrinks
    rw [← hlen] at hcount hle
    have hlt := hgiven.total_lt
    have hfree : (UInt32.ofNat (s.giveBack p).resList.length).toNat = (s.giveBack p).resList.length :=
      UInt32.toNat_ofNat'.trans (Nat.mod_eq_of_lt (Nat.lt_of_le_of_lt (Nat.le_add_right ..) hlt))
    rw [UInt32.le_iff_toNat_le, hfree, UInt32.toNat_add] at hcount
    have hmin := hgiven.1
    have hmax := hgiven.2
    simp only [sizes, Prod.mk.injEq] at g2
    have hkeeps : s.KeepsMin (.put (some p) now) ↔ s.iMinSize.toNat + s.iIncrease.toNat < 2 ^ 32 :=
      or_iff_left (not_not_intro hshrinks)
    simp only [Bounded, e, hkeeps, total, List.length_drop, g2.1, g2.2.2] at hlt hmin hmax ⊢
    by_cases hsum : s.iMinSize.toNat + s.iIncrease.toNat < 2 ^ 32
    · rw [Nat.mod_eq_of_lt hsum] at hcount
      exact iff_of_true (by omega) hsum
    · -- The objects are fewer than the sum, and `m_iIncrease` of them are gone.
      exact iff_of_false (by omega) hsum

theorem contract_step (h : s.Safe) (hb : s.Bounded) (c : Call) : s.Contract c ↔ s.KeepsMin c := by
  cases c with
  | get newRes now =>
    obtain ⟨h1, h2, h3⟩ := h.get hb newRes now
    exact iff_of_true ⟨h3, h1, h2⟩ trivial
  | put pData now =>
    obtain ⟨h1, -, h3, h4⟩ := h.put pData now
    rcases pData with _ | p
    · exact iff_of_true ⟨⟨h3, h4⟩, h1, hb⟩ trivial
    · rw [← put_bounded_iff h hb]
      exact ⟨fun hc => hc.2.2, fun hb' => ⟨⟨h3, h4⟩, h1, hb'⟩⟩

theorem init_spec {self : CResQueue} {newRes : NewRes} {now : UInt64} {iMinSize iIncrease iMaxSize : UInt32}
    (h : self.init newRes now iMinSize iIncrease iMaxSize = (true, s)) :
    s.Safe ∧ s.Bounded := by
  have hempty : Safe { self with resList := [], resMap := ∅ } := ⟨List.nodup_nil, List.forall_mem_nil _⟩
  obtain ⟨h1, -, -, -, -, h6⟩ := hempty.increase newRes now iMinSize
  rw [init] at h
  split at h
  · cases h
  · split at h <;> rename_i self' he
    · cases h
    · cases h
      rw [he] at h1 h6
      have htotal : self'.total = iMinSize.toNat := (h6 rfl).trans (Nat.zero_add _)
      refine ⟨⟨h1.nodup, h1.disjoint⟩, ?_⟩
      show iMinSize.toNat ≤ self'.total ∧ self'.total ≤ max iMinSize.toNat iMaxSize.toNat
      omega

/-- From `Init` on, the objects are safe and their number is within the bounds, exactly if no `Put` deletes
some where `m_iMinSize + m_iIncrease` overflows. -/
theorem contract_iff {self : CResQueue} {newRes : NewRes} {now : UInt64} {iMinSize iIncrease iMaxSize : UInt32}
    (h : self.init newRes now iMinSize iIncrease iMaxSize = (true, s)) (cs : List Call) :
    (s.Safe ∧ s.Bounded ∧ ∀ x ∈ runSteps next s cs, x.1.Contract x.2) ↔
      ∀ x ∈ runSteps next s cs, x.1.KeepsMin x.2 := by
  obtain ⟨hsafe, hb⟩ := init_spec h
  have keep (s : CResQueue) (c : Call) (s' : CResQueue) (hi : s.Safe ∧ s.Bounded) (hc : s.Contract c)
      (e : s.next c = some s') : s'.Safe ∧ s'.Bounded := by
    cases e
    exact hc.2
  refine ⟨fun ⟨_, _, hall⟩ => ?_, fun hall => ⟨hsafe, hb, ?_⟩⟩
  · exact runSteps_inv keep (fun s c hi => (contract_step hi.1 hi.2 c).mp) ⟨hsafe, hb⟩ hall
  · refine runSteps_inv (I := fun s : CResQueue => s.Safe ∧ s.Bounded) (fun s c s' hi hc => ?_)
      (fun s c hi => (contract_step hi.1 hi.2 c).mpr) ⟨hsafe, hb⟩ hall
    exact keep s c s' hi ((contract_step hi.1 hi.2 c).mpr hc)

/-- An allocator that always has another address. -/
def nextRes : NewRes where
  get live := some (live.sup id + 1)
  fresh {live p} h hp := by
    cases h
    exact Nat.not_succ_le_self _ (Finset.le_sup (f := id) hp)

theorem increaseLoop_nextRes (resMap : Finset Res) (n : Nat) (l : List Res) :
    (increaseLoop nextRes resMap n l).1 = true := by
  induction n generalizing l with
  | zero => rfl
  | succ n ih => exact ih _

theorem init_nextRes {iMinSize : UInt32} (h : ¬ iMinSize < 1) (iIncrease iMaxSize : UInt32) :
    ∃ s, new.init nextRes 0 iMinSize iIncrease iMaxSize = (true, s) ∧ s.resMap = ∅ ∧
      s.resList.length = iMinSize.toNat ∧ s.sizes = (iMinSize, iIncrease, iMaxSize) ∧ s.dwMaxTime = 0 := by
  obtain ⟨-, -, -, -, h5⟩ := increaseLoop_spec nextRes ∅ iMinSize.toNat List.nodup_nil (List.forall_mem_nil _)
  have htrue := increaseLoop_nextRes ∅ iMinSize.toNat []
  refine ⟨⟨∅, (increaseLoop nextRes ∅ iMinSize.toNat []).2, iMinSize, iIncrease, iMaxSize, 0⟩, ?_, rfl,
    (h5 htrue).trans (Nat.zero_add _), rfl, rfl⟩
  simp only [init, if_neg h, increase, htrue]

/-- A pool of one object, which grows to two. -/
theorem contract_iff_one : ∃ s : CResQueue, new.init nextRes 0 1 1 3 = (true, s) ∧
    ((s.Safe ∧ s.Bounded ∧ ∀ x ∈ runSteps next s [.get nextRes 5, .put (some 1) 70000],
        x.1.Contract x.2) ↔
      ∀ x ∈ runSteps next s [.get nextRes 5, .put (some 1) 70000], x.1.KeepsMin x.2) := by
  obtain ⟨s, hinit, -⟩ := init_nextRes (show ¬ (1 : UInt32) < 1 by decide) 1 3
  exact ⟨s, hinit, contract_iff hinit _⟩

/-- A pool of at least 2^31 objects, which are all deleted after a minute. -/
theorem not_contract_wrap : ∃ s, new.init nextRes 0 0x80000000 0x80000000 0 = (true, s) ∧
    (s.step (.put (some 0) 60001)).total = 0 ∧ ¬ s.Contract (.put (some 0) 60001) := by
  obtain ⟨s, hinit, hmap, hlen, hsizes, htime⟩ := init_nextRes (show ¬ (0x80000000 : UInt32) < 1 by decide) 0x80000000 0
  simp only [sizes, Prod.mk.injEq] at hsizes
  obtain ⟨hsafe, hb⟩ := init_spec hinit
  have hshrinks : s.Shrinks 0 60001 := by
    simp only [Shrinks, hmap, hlen, hsizes.1, hsizes.2.1, htime]
    decide
  have hmin : ¬ s.KeepsMin (.put (some 0) 60001) := by
    simp only [KeepsMin, hshrinks, hsizes.1, hsizes.2.1]
    decide
  refine ⟨s, hinit, ?_, fun hc => hmin ((contract_step hsafe hb _).mp hc)⟩
  rcases s.put_cases 0 60001 with ⟨hnot, -⟩ | ⟨-, e⟩
  · exact absurd hshrinks hnot
  · simp [step, e, total, giveBack, hmap, hlen, hsizes.2.1]

end Miku.ZzmCommon.CResQueue
