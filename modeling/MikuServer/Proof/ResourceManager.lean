import Mathlib.Data.List.Nodup
import MikuServer.Proof.ConnectionRegistry

/-!
# The pool of objects

Any calls of `Get` and `Put` on a `UserResourceManager`. Put tests a key with
`operator[]`, so a pointer that it refuses stays in the map with `NULL`; what
counts is which keys have an object (`CheckedOut`). `Pooled` says that these are
the objects that are not on the free list, and every call keeps it.

The numbers below `max_num` are the objects of `resource_block_ptr`; every other
number is a pointer to something else, or `NULL`.
-/

namespace Miku.Common.UserResourceManager

inductive Call
  | get
  | put (user : UserPtr)
  deriving DecidableEq

def call (self : UserResourceManager) : Call → UserResourceManager
  | .get => self.get.2
  | .put user => (self.put user).2

/-- `Init`, and then calls. -/
def after (maxNum : Nat) (calls : List Call) : UserResourceManager := calls.foldl call (init maxNum)

/-- `using_user_list_[user]` is not `NULL`. -/
def CheckedOut (self : UserResourceManager) (user : Int) : Prop := (self.usingUserList.ptr user).isSome

instance (self : UserResourceManager) (user : Int) : Decidable (self.CheckedOut user) :=
  inferInstanceAs (Decidable (_ = true))

/-- The objects are the ones on the free list, each once, and the ones that have been handed out. -/
structure Pooled (maxNum : Nat) (pool : UserResourceManager) : Prop where
  nodup : pool.unusedUserList.Nodup
  unused : ∀ p ∈ pool.unusedUserList, p < maxNum
  used : ∀ (k : Int) (p : UserPtr),
    pool.usingUserList.ptr k = some p ↔ k = p ∧ p < maxNum ∧ p ∉ pool.unusedUserList

variable {self : UserResourceManager} {maxNum : Nat}

theorem init_pooled (maxNum : Nat) : Pooled maxNum (init maxNum) where
  nodup := List.nodup_range
  unused _ hp := List.mem_range.mp hp
  used k p := by
    simp only [init, StdMap.ptr_empty, List.mem_range]
    refine iff_of_false (Option.some_ne_none p).symm fun h => ?_
    exact h.2.2 h.2.1

namespace Pooled

theorem checkedOut (hp : Pooled maxNum self) {k : Int} :
    self.CheckedOut k ↔ ∃ p : UserPtr, k = p ∧ p < maxNum ∧ p ∉ self.unusedUserList := by
  simp only [CheckedOut, Option.isSome_iff_exists, hp.used]

theorem checkedOut_ptr (hp : Pooled maxNum self) {p : UserPtr} :
    self.CheckedOut p ↔ p < maxNum ∧ p ∉ self.unusedUserList := by
  rw [hp.checkedOut]
  refine ⟨fun ⟨q, e, hq⟩ => ?_, fun h => ⟨p, rfl, h⟩⟩
  rwa [Int.ofNat_inj.mp e]

/-- `Put` of what the map has no object for. -/
theorem put_refused {p : UserPtr} (hc : ¬ self.CheckedOut p) :
    self.put p = (false, { self with usingUserList := self.usingUserList.subscript p none }) := by
  have hptr : self.usingUserList.ptr p = none := Option.not_isSome_iff_eq_none.mp hc
  rw [put, hptr]

theorem put_taken {p : UserPtr} (hc : self.CheckedOut p) :
    self.put p = (true, ⟨(self.usingUserList.subscript p none).erase p, self.unusedUserList ++ [p]⟩) := by
  obtain ⟨q, hq⟩ := Option.isSome_iff_exists.mp hc
  rw [put, hq]

theorem put_eq_true (p : UserPtr) : (self.put p).1 = true ↔ self.CheckedOut p := by
  by_cases hc : self.CheckedOut p
  · simp only [put_taken hc, hc]
  · simp [put_refused hc, hc]

theorem get (hp : Pooled maxNum self) : Pooled maxNum self.get.2 := by
  rcases hu : self.unusedUserList with _ | ⟨p, rest⟩
  · rwa [get_nil hu]
  have hn := hp.nodup
  rw [hu, List.nodup_cons] at hn
  have hlt : p < maxNum := hp.unused p (hu ▸ List.mem_cons_self)
  rw [get_cons hu]
  refine ⟨hn.2, fun q hq => hp.unused q (hu ▸ List.mem_cons_of_mem p hq), fun k q => ?_⟩
  simp only [StdMap.ptr_assign]
  split <;> rename_i hk
  · subst hk
    rw [Option.some_inj]
    refine ⟨fun e => e ▸ ⟨rfl, hlt, hn.1⟩, fun ⟨e, _⟩ => Int.ofNat_inj.mp e⟩
  · -- Any other key has what it had, and its object was not at the front of the list.
    have hne : k = q → q ≠ p := fun e e' => hk (e' ▸ e.symm)
    rw [hp.used, hu, List.mem_cons, not_or]
    refine ⟨fun ⟨e, h, _, h'⟩ => ⟨e, h, h'⟩, fun ⟨e, h, h'⟩ => ⟨e, h, hne e, h'⟩⟩

theorem put (hp : Pooled maxNum self) (p : UserPtr) : Pooled maxNum (self.put p).2 := by
  by_cases hc : self.CheckedOut p
  · obtain ⟨hlt, hnot⟩ := hp.checkedOut_ptr.mp hc
    rw [put_taken hc]
    refine ⟨List.nodup_append.mpr ⟨hp.nodup, List.nodup_singleton p, ?_⟩, fun q hq => ?_, fun k q => ?_⟩
    · intro a ha b hb e
      exact hnot (List.mem_singleton.mp hb ▸ e ▸ ha)
    · rcases List.mem_append.mp hq with hq | hq
      · exact hp.unused q hq
      · exact List.mem_singleton.mp hq ▸ hlt
    · simp only [StdMap.ptr_erase, StdMap.ptr_subscript]
      split <;> rename_i hk
      · -- The key of the object that is returned.
        refine ⟨nofun, fun ⟨e, _, h⟩ => ?_⟩
        have hq : q = p := Int.ofNat_inj.mp (e.symm.trans hk.symm)
        exact absurd (List.mem_append_right _ (List.mem_singleton.mpr hq)) h
      · have hne : k = q → q ≠ p := fun e e' => hk (e' ▸ e.symm)
        rw [hp.used, List.mem_append, List.mem_singleton, not_or]
        refine ⟨fun ⟨e, h, h'⟩ => ⟨e, h, h', hne e⟩, fun ⟨e, h, h', _⟩ => ⟨e, h, h'⟩⟩
  · rw [put_refused hc]
    refine ⟨hp.nodup, hp.unused, fun k q => ?_⟩
    simp only [StdMap.ptr_subscript]
    exact hp.used k q

theorem call (hp : Pooled maxNum self) (c : Call) : Pooled maxNum (self.call c) := by
  cases c with
  | get => exact hp.get
  | put user => exact hp.put user

/-- What `Get` returns. -/
theorem get_eq_none (hp : Pooled maxNum self) : self.get.1 = none ↔ ∀ p < maxNum, self.CheckedOut p := by
  rcases hu : self.unusedUserList with _ | ⟨p, rest⟩
  · rw [get_nil hu]
    refine ⟨fun _ p h => hp.checkedOut_ptr.mpr ⟨h, ?_⟩, fun _ => rfl⟩
    rw [hu]
    exact List.not_mem_nil
  · have hmem : p ∈ self.unusedUserList := hu ▸ List.mem_cons_self
    rw [get_cons hu]
    refine ⟨nofun, fun h => ?_⟩
    exact absurd hmem (hp.checkedOut_ptr.mp (h p (hp.unused p hmem))).2

theorem of_get (hp : Pooled maxNum self) {p : UserPtr} (h : self.get.1 = some p) :
    p < maxNum ∧ ¬ self.CheckedOut p := by
  rcases hu : self.unusedUserList with _ | ⟨q, rest⟩
  · rw [get_nil hu] at h
    cases h
  · rw [get_cons hu] at h
    cases h
    have hmem : p ∈ self.unusedUserList := hu ▸ List.mem_cons_self
    refine ⟨hp.unused p hmem, fun hc => ?_⟩
    exact (hp.checkedOut_ptr.mp hc).2 hmem

/-- A number is an object exactly if it is on the free list or checked out. -/
theorem mem_or_checkedOut (hp : Pooled maxNum self) (k : Int) :
    (∃ p ∈ self.unusedUserList, k = (p : Int)) ∨ self.CheckedOut k ↔ ∃ p < maxNum, k = (p : Int) := by
  rw [hp.checkedOut]
  refine ⟨?_, fun ⟨p, h, e⟩ => ?_⟩
  · rintro (⟨p, h, e⟩ | ⟨p, e, h, _⟩)
    · exact ⟨p, hp.unused p h, e⟩
    · exact ⟨p, h, e⟩
  · by_cases hu : p ∈ self.unusedUserList
    · exact .inl ⟨p, hu, e⟩
    · exact .inr ⟨p, e, h, hu⟩

end Pooled

theorem Pooled.foldl (hp : Pooled maxNum self) (calls : List Call) : Pooled maxNum (calls.foldl UserResourceManager.call self) := by
  induction calls generalizing self with
  | nil => exact hp
  | cons c calls ih => exact ih (hp.call c)

theorem after_pooled (maxNum : Nat) (calls : List Call) : Pooled maxNum (after maxNum calls) :=
  (init_pooled maxNum).foldl calls

/-- After any calls, the free list has no object twice and none that is checked out, and together they
are the objects; `Get` returns `NULL` exactly if all are checked out and else one that is not, and
`Put` accepts what is checked out. -/
theorem pool_sound (maxNum : Nat) (calls : List Call) :
    let self := after maxNum calls
    self.unusedUserList.Nodup ∧ (∀ p ∈ self.unusedUserList, ¬ self.CheckedOut p) ∧
      (∀ k : Int, (∃ p ∈ self.unusedUserList, k = (p : Int)) ∨ self.CheckedOut k ↔ ∃ p < maxNum, k = (p : Int)) ∧
      (self.get.1 = none ↔ ∀ p < maxNum, self.CheckedOut p) ∧
      (∀ p, self.get.1 = some p → p < maxNum ∧ ¬ self.CheckedOut p) ∧
      ∀ user : UserPtr, (self.put user).1 = true ↔ self.CheckedOut user := by
  have hp := after_pooled maxNum calls
  refine ⟨hp.nodup, fun p hm hc => (hp.checkedOut_ptr.mp hc).2 hm, hp.mem_or_checkedOut, hp.get_eq_none, ?_,
    Pooled.put_eq_true⟩
  intro p h
  exact hp.of_get h

end Miku.Common.UserResourceManager
