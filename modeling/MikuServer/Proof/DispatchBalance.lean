import Mathlib.Algebra.Order.BigOperators.Group.List
import MikuServer.Proof.Dispatchers

/-!
# The dispatchers share the load

`LoadObject` takes the first of the dispatchers that have the fewest items
(`sizeAt_loadDispatcherID_le`), whose vector is then no longer than the share of
what is loaded at that time, rounded up. Nothing else makes a vector longer, so
that no vector is ever longer than the share of what was loaded at once
(`length_le_share`), whatever is unloaded.
-/

namespace Miku.ZzmCommon.Dispatchers

/-- The number of items of all dispatchers. -/
def total (self : Dispatchers) : Nat := (self.vects.map List.length).sum

variable {self self' : Dispatchers}

/-- The first place of the smallest value, among `id` and those of the list. -/
theorem foldl_min_le (f : Nat → Nat) (is : List Nat) (id : Nat) :
    f (is.foldl (fun id i => if f id > f i then i else id) id) ≤ f id ∧
      ∀ i ∈ is, f (is.foldl (fun id i => if f id > f i then i else id) id) ≤ f i := by
  induction is generalizing id with
  | nil => exact ⟨le_rfl, nofun⟩
  | cons i is ih =>
    rw [List.foldl_cons, List.forall_mem_cons]
    split <;> rename_i h
    · exact ⟨(ih i).1.trans (Nat.le_of_lt h), (ih i).1, (ih i).2⟩
    · exact ⟨(ih id).1, (ih id).1.trans (Nat.le_of_not_lt h), (ih id).2⟩

theorem sizeAt_loadDispatcherID_le {i : Nat} (hi : i < self.dispatchers.length) :
    self.sizeAt self.loadDispatcherID ≤ self.sizeAt i := by
  obtain ⟨h0, h⟩ := foldl_min_le self.sizeAt (List.range' 1 (self.dispatchers.length - 1)) 0
  rcases Nat.eq_zero_or_pos i with rfl | hpos
  · exact h0
  · exact h i (List.mem_range'_1.mpr (by omega))

theorem length_le_total {vect : List DispatchItem} (h : vect ∈ self.vects) : vect.length ≤ self.total :=
  List.single_le_sum (fun _ _ => Nat.zero_le _) _ (List.mem_map_of_mem h)

/-- `size()` is the length, as long as that is an `unsigned int`. -/
theorem sizeAt_eq {i : Nat} {vect : List DispatchItem} (hi : self.vects[i]? = some vect) (h : self.total < 2 ^ 32) :
    self.sizeAt i = vect.length := by
  have hle := length_le_total (List.mem_of_getElem? hi)
  rw [getElem?_vects] at hi
  obtain ⟨d, hd, rfl⟩ := Option.map_eq_some_iff.mp hi
  rw [sizeAt, hd, Option.map_some, Option.getD_some]
  exact Nat.mod_eq_of_lt (by omega)

/-- The vector that takes the next item is no longer than any other. -/
theorem length_le_of_loaded (h : self.total < 2 ^ 32) {vect : List DispatchItem}
    (hv : self.vects[self.loadDispatcherID]? = some vect) {w : List DispatchItem} (hw : w ∈ self.vects) :
    vect.length ≤ w.length := by
  obtain ⟨i, hi⟩ := List.mem_iff_getElem?.mp hw
  have hlt := (List.getElem?_eq_some_iff.mp hi).1
  rw [length_vects] at hlt
  rw [← sizeAt_eq hv h, ← sizeAt_eq hi h]
  exact sizeAt_loadDispatcherID_le hlt

/-- One vector is another one. -/
theorem total_set {i : Nat} {vect w : List DispatchItem} (hi : self.vects[i]? = some vect)
    (hv : self'.vects = self.vects.set i w) : self'.total + vect.length = self.total + w.length := by
  obtain ⟨hlt, rfl⟩ := List.getElem?_eq_some_iff.mp hi
  have hset (w : List DispatchItem) : ((self.vects.set i w).map List.length).sum =
      ((self.vects.map List.length).take i).sum + w.length + ((self.vects.map List.length).drop (i + 1)).sum := by
    rw [List.map_set, List.sum_set, if_pos (by rwa [List.length_map])]
  have hself := hset self.vects[i]
  rw [List.set_getElem_self] at hself
  rw [total, total, hv, hset w, hself]
  omega

/-- A call makes one vector longer by an item, or shorter, or leaves them. -/
theorem step_vects {c : Call} (h : self.step c = some self') :
    self'.vects = self.vects ∨
    (∃ vect x, self.vects[self.loadDispatcherID]? = some vect ∧
      self'.vects = self.vects.set self.loadDispatcherID (vect ++ [x])) ∨
    ∃ (i : Nat) (vect : List DispatchItem) (x : DispatchItem), self.vects[i]? = some vect ∧
      self'.vects = self.vects.set i (vect.erase x) := by
  cases c with
  | load client value =>
    cases client with
    | none =>
      cases h
      exact .inl rfl
    | some client =>
      obtain ⟨r, hload, rfl⟩ := Option.map_eq_some_iff.mp h
      obtain ⟨vect, hi, hv⟩ := loadObject_inside hload
      exact .inr (.inl ⟨vect, ⟨client, value⟩, hi, hv⟩)
  | unLoad client value =>
    cases client with
    | none =>
      cases h
      exact .inl rfl
    | some client =>
      by_cases hout : self.dispatchers.length ≤ self.dispatchID client ∨ self.dispatchID client < 0
      · rw [Dispatchers.step, unLoadObject_outside hout] at h
        cases h
        exact .inl rfl
      · obtain ⟨vect, t, hi, hun, -, hv⟩ := unLoadObject_inside value hout
        rw [Dispatchers.step, hun] at h
        cases h
        exact .inr (.inr ⟨_, vect, ⟨client, value⟩, hi, hv⟩)

/-- No vector is longer than its share of `n` items, rounded up. -/
def Shared (self : Dispatchers) (n : Nat) : Prop :=
  ∀ vect ∈ self.vects, self.vects.length * vect.length < n + self.vects.length

theorem Shared.step {n : Nat} (hs : self.Shared n) (hmax : n < 2 ^ 32) (ht : self.total ≤ n)
    (ht' : self'.total ≤ n) {c : Call} (h : self.step c = some self') : self'.Shared n := by
  rcases step_vects h with hv | ⟨vect, x, hi, hv⟩ | ⟨i, vect, x, hi, hv⟩
  · unfold Shared
    rwa [hv]
  · have hshare : self.vects.length * vect.length ≤ self.total := by
      have := List.card_nsmul_le_sum (self.vects.map List.length) vect.length (List.forall_mem_map.mpr fun w hw =>
        length_le_of_loaded (by omega) hi hw)
      rwa [List.length_map] at this
    have htotal := total_set hi hv
    rw [List.length_append, List.length_singleton] at htotal
    intro w hw
    rw [hv, List.length_set]
    rw [hv] at hw
    rcases List.mem_or_eq_of_mem_set hw with hw | rfl
    · exact hs w hw
    · rw [List.length_append, List.length_singleton, Nat.mul_add, Nat.mul_one]
      omega
  · intro w hw
    rw [hv, List.length_set]
    rw [hv] at hw
    rcases List.mem_or_eq_of_mem_set hw with hw | rfl
    · exact hs w hw
    · have hle := Nat.mul_le_mul_left self.vects.length (List.length_erase_le (a := x) (l := vect))
      have hvect := hs vect (List.mem_of_getElem? hi)
      omega

theorem shared_init {uiCount : Nat} (hinit : new.init uiCount = some self) (n : Nat) : self.Shared n := by
  obtain ⟨k, hk, rfl⟩ := init_eq hinit
  intro vect hv
  simp only [vects, List.map_map] at hv ⊢
  obtain ⟨i, -, rfl⟩ := List.mem_map.mp hv
  rw [List.length_map, List.length_range, Function.comp_apply, Dispatcher.new, List.length_nil]
  omega

/-- In every run no dispatcher has more items than its share, rounded up, of the most that were loaded at once. -/
theorem length_le_share {uiCount n : Nat} (hinit : new.init uiCount = some self) (hmax : n < 2 ^ 32)
    {calls : List Call} (hpeak : Always step (fun s => s.total ≤ n) self calls) (h : calls.foldlM step self = some self')
    {vect : List DispatchItem} (hv : vect ∈ self'.vects) :
    self'.vects.length * vect.length < n + self'.vects.length := by
  have hshared : self.Shared n := shared_init hinit n
  have hinv := Always.keep (fun s c s' hs ht ht' hstep => Shared.step hs hmax ht ht' hstep) hshared hpeak h
  exact hinv vect hv

/-- Three clients on two dispatchers, of which two are loaded at once. -/
theorem length_le_share_two :
    let d : Dispatchers := ⟨[.new 0, .new 1], fun _ => -1⟩
    let calls := [Call.load (some 1) 1, .load (some 2) 1, .unLoad (some 1) 1, .load (some 3) 1]
    ∃ t, calls.foldlM step d = some t ∧ ∃ vect ∈ t.vects, vect = [⟨3, 1⟩] ∧
      t.vects.length * vect.length < 2 + t.vects.length := by
  intro d calls
  have hpeak : Always step (fun s => s.total ≤ 2) d calls :=
    ⟨by decide, _, rfl, by decide, _, rfl, by decide, _, rfl, by decide, _, rfl, show total _ ≤ 2 by decide⟩
  have hv : [⟨3, 1⟩] ∈ vects ⟨[⟨0, [⟨3, 1⟩]⟩, ⟨1, [⟨2, 1⟩]⟩], fun _ => -1⟩ := List.mem_cons_self
  have hinit : new.init 2 = some d := rfl
  exact ⟨_, rfl, _, hv, rfl, length_le_share hinit (by decide) hpeak rfl hv⟩

end Miku.ZzmCommon.Dispatchers
