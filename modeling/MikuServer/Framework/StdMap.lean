import Mathlib.Data.Finset.Card
import Mathlib.Data.List.Basic
import Mathlib.Data.List.ReduceOption
import Mathlib.Data.List.Nodup
import Mathlib.Order.Compare
import Std.Data.ExtTreeMap

/-!
# `std::map`

A `std::map<int, T>` is an ordered map with integer keys (`find?`, `assign`,
`erase`). `operator[]` inserts the value `T()` under a key that is not there, so
reading changes the map (`subscript`). For a map of pointers that value is
`NULL`: `ptr` is the pointer that is found, and is the same for a key that is
absent and for one whose value is `NULL`. `values` are a map's values in the
order of their keys, and `ptrs` those that are not `NULL`. `size` is the number of
its `keys`.
-/

namespace Miku

def StdMap (α : Type) : Type := Std.ExtTreeMap Int α compare

namespace StdMap

variable {α : Type}

def empty : StdMap α := (∅ : Std.ExtTreeMap Int α compare)

def find? (m : StdMap α) (k : Int) : Option α := Std.ExtTreeMap.get? m k

/-- `m[k] = v`. -/
def assign (m : StdMap α) (k : Int) (v : α) : StdMap α := Std.ExtTreeMap.insert m k v

def erase (m : StdMap α) (k : Int) : StdMap α := Std.ExtTreeMap.erase m k

/-- The map after `m[k]` is read; `z` is the value `T()`. -/
def subscript (m : StdMap α) (k : Int) (z : α) : StdMap α := Std.ExtTreeMap.insertIfNew m k z

def toList (m : StdMap α) : List (Int × α) := Std.ExtTreeMap.toList m

/-- The pointer that `m[k]` is. -/
def ptr (m : StdMap (Option α)) (k : Int) : Option α := (m.find? k).join

/-- What is stored, in the order of the keys. -/
def values (m : StdMap α) : List α := m.toList.map Prod.snd

/-- The pointers that are stored. -/
def ptrs (m : StdMap (Option α)) : List α := m.values.reduceOption

theorem ext {m m' : StdMap α} (h : ∀ k, m.find? k = m'.find? k) : m = m' := by
  refine Std.ExtTreeMap.ext_getElem? fun k => ?_
  exact h k

@[simp] theorem find?_empty (k : Int) : (empty : StdMap α).find? k = none :=
  Std.ExtTreeMap.getElem?_empty

theorem find?_assign (m : StdMap α) (k : Int) (v : α) (j : Int) :
    (m.assign k v).find? j = if k = j then some v else m.find? j := by
  have h := Std.ExtTreeMap.getElem?_insert (t := m) (a := j) (k := k) (v := v)
  simp only [Std.LawfulEqCmp.compare_eq_iff_eq] at h
  exact h

theorem find?_erase (m : StdMap α) (k j : Int) : (m.erase k).find? j = if k = j then none else m.find? j := by
  have h := Std.ExtTreeMap.getElem?_erase (t := m) (a := j) (k := k)
  simp only [Std.LawfulEqCmp.compare_eq_iff_eq] at h
  exact h

theorem getElem?_insertIfNew (m : Std.ExtTreeMap Int α compare) (k : Int) (z : α) (j : Int) :
    (m.insertIfNew k z)[j]? = if k = j ∧ m[k]? = none then some z else m[j]? := by
  rw [Std.ExtTreeMap.getElem?_insertIfNew]
  simp only [Std.LawfulEqCmp.compare_eq_iff_eq, Std.ExtTreeMap.mem_iff_isSome_getElem?,
    Option.not_isSome_iff_eq_none]

theorem find?_subscript (m : StdMap α) (k : Int) (z : α) (j : Int) :
    (m.subscript k z).find? j = if k = j ∧ m.find? k = none then some z else m.find? j :=
  getElem?_insertIfNew m k z j

theorem mem_toList {m : StdMap α} {k : Int} {v : α} : (k, v) ∈ m.toList ↔ m.find? k = some v :=
  Std.ExtTreeMap.mem_toList_iff_getElem?_eq_some

theorem toList_sorted (m : StdMap α) : m.toList.Pairwise fun a b => a.1 < b.1 :=
  (Std.ExtTreeMap.ordered_keys_toList (t := m)).imp Int.compare_eq_lt.mp

/-! ## Pointers -/

variable {m : StdMap (Option α)}

theorem ptr_eq_some {k : Int} {p : α} : m.ptr k = some p ↔ m.find? k = some (some p) := by
  rw [ptr, Option.join_eq_some_iff]

@[simp] theorem ptr_empty (k : Int) : (empty : StdMap (Option α)).ptr k = none := by
  rw [ptr, find?_empty]
  rfl

@[simp] theorem ptr_subscript (m : StdMap (Option α)) (k j : Int) : (m.subscript k none).ptr j = m.ptr j := by
  rw [ptr, find?_subscript]
  split <;> rename_i h
  · rw [ptr, ← h.1, h.2]
    rfl
  · rfl

theorem ptr_assign (m : StdMap (Option α)) (k : Int) (v : Option α) (j : Int) :
    (m.assign k v).ptr j = if k = j then v else m.ptr j := by
  rw [ptr, find?_assign]
  split <;> rfl

theorem ptr_erase (m : StdMap (Option α)) (k j : Int) : (m.erase k).ptr j = if k = j then none else m.ptr j := by
  rw [ptr, find?_erase]
  split <;> rfl

theorem ptr_of_erase {m : StdMap (Option α)} {k j : Int} {p : α} (h : (m.erase k).ptr j = some p) : m.ptr j = some p := by
  rw [ptr_erase] at h
  split at h
  · cases h
  · exact h

/-- Reading a key that is there changes nothing. -/
theorem subscript_of_find? {m : StdMap α} {k : Int} {v z : α} (h : m.find? k = some v) : m.subscript k z = m := by
  refine ext fun j => ?_
  rw [find?_subscript, if_neg]
  simp [h]

theorem subscript_of_ptr {k : Int} {p : α} (h : m.ptr k = some p) : m.subscript k none = m :=
  subscript_of_find? (ptr_eq_some.mp h)

theorem assign_subscript (m : StdMap α) (k : Int) (z v : α) : (m.subscript k z).assign k v = m.assign k v := by
  refine ext fun j => ?_
  rw [find?_assign, find?_assign, find?_subscript]
  split <;> simp_all

/-! ## Values -/

theorem mem_values {m : StdMap α} {v : α} : v ∈ m.values ↔ ∃ k, m.find? k = some v := by
  simp only [values, List.mem_map, Prod.exists, mem_toList, exists_eq_right]

theorem mem_ptrs {p : α} : p ∈ m.ptrs ↔ ∃ k, m.ptr k = some p := by
  simp only [ptrs, List.reduceOption_mem_iff, mem_values, ptr_eq_some]

theorem toList_eq_nil {m : StdMap α} : m.toList = [] ↔ ∀ k, m.find? k = none := by
  simp only [List.eq_nil_iff_forall_not_mem, Prod.forall, mem_toList, Option.eq_none_iff_forall_ne_some]

theorem values_eq_nil {m : StdMap α} : m.values = [] ↔ ∀ k, m.find? k = none := by
  rw [values, List.map_eq_nil_iff, toList_eq_nil]

/-- The first value is that of the least key. -/
theorem head?_values {m : StdMap α} {v : α} :
    m.values.head? = some v ↔ ∃ k, m.find? k = some v ∧ ∀ j w, m.find? j = some w → k ≤ j := by
  have hs := m.toList_sorted
  rw [values, List.head?_map, Option.map_eq_some_iff]
  refine ⟨fun ⟨(k, w), h, e⟩ => ?_, fun ⟨k, hk, hmin⟩ => ?_⟩
  · obtain ⟨l, hl⟩ := List.head?_eq_some_iff.mp h
    rw [hl, List.pairwise_cons] at hs
    cases e
    refine ⟨k, mem_toList.mp (hl ▸ List.mem_cons_self), fun j w hj => ?_⟩
    have hm : (j, w) ∈ m.toList := mem_toList.mpr hj
    rw [hl, List.mem_cons] at hm
    rcases hm with e | hm
    · cases e
      exact Int.le_refl k
    · exact Int.le_of_lt (hs.1 _ hm)
  · rcases hl : m.toList with _ | ⟨⟨k', w⟩, l⟩
    · have := mem_toList.mpr hk
      rw [hl] at this
      cases this
    · have hk' : m.find? k' = some w := mem_toList.mp (hl ▸ List.mem_cons_self)
      have hm : (k, v) ∈ m.toList := mem_toList.mpr hk
      rw [hl] at hs hm
      refine ⟨(k', w), rfl, ?_⟩
      rcases List.mem_cons.mp hm with e | hm
      · exact congrArg Prod.snd e.symm
      · have h1 := (List.pairwise_cons.mp hs).1 _ hm
        have h2 := hmin k' w hk'
        dsimp only at h1
        omega

/-! ## Keys -/

/-- `size()`. -/
def size (m : StdMap α) : Nat := m.toList.length

def keys (m : StdMap α) : Finset Int := (m.toList.map Prod.fst).toFinset

theorem mem_keys {m : StdMap α} {k : Int} : k ∈ m.keys ↔ ∃ v, m.find? k = some v := by
  simp only [keys, List.mem_toFinset, List.mem_map, Prod.exists, mem_toList, exists_and_right, exists_eq_right]

theorem card_keys (m : StdMap α) : m.keys.card = m.size := by
  have hs : (m.toList.map Prod.fst).Pairwise (· < ·) := List.pairwise_map.mpr m.toList_sorted
  have hn : (m.toList.map Prod.fst).Nodup := hs.imp Int.ne_of_lt
  rw [keys, List.toFinset_card_of_nodup hn, List.length_map, size]

theorem keys_eq_empty {m : StdMap α} : m.keys = ∅ ↔ ∀ k, m.find? k = none := by
  simp only [Finset.eq_empty_iff_forall_notMem, mem_keys, not_exists, Option.eq_none_iff_forall_ne_some]

@[simp] theorem keys_empty : (empty : StdMap α).keys = ∅ := keys_eq_empty.mpr find?_empty

theorem keys_assign (m : StdMap α) (k : Int) (v : α) : (m.assign k v).keys = insert k m.keys := by
  ext j
  rw [Finset.mem_insert, mem_keys, mem_keys, find?_assign]
  split <;> rename_i h
  · exact ⟨fun _ => .inl h.symm, fun _ => ⟨v, rfl⟩⟩
  · exact ⟨.inr, fun hj => hj.resolve_left fun e => h e.symm⟩

theorem keys_subscript (m : StdMap α) (k : Int) (z : α) : (m.subscript k z).keys = insert k m.keys := by
  ext j
  rw [Finset.mem_insert, mem_keys, mem_keys, find?_subscript]
  split <;> rename_i h
  · exact ⟨fun _ => .inl h.1.symm, fun _ => ⟨z, rfl⟩⟩
  · refine ⟨.inr, fun hj => hj.elim (fun e => ?_) id⟩
    subst e
    exact Option.ne_none_iff_exists'.mp fun hn => h ⟨rfl, hn⟩

theorem keys_erase (m : StdMap α) (k : Int) : (m.erase k).keys = m.keys.erase k := by
  ext j
  rw [Finset.mem_erase, mem_keys, mem_keys, find?_erase]
  split <;> rename_i h
  · exact ⟨nofun, fun hj => absurd h.symm hj.1⟩
  · exact ⟨fun hj => ⟨fun e => h e.symm, hj⟩, And.right⟩

theorem keys_assign_subscript (m : StdMap α) (k : Int) (z v : α) :
    ((m.subscript k z).assign k v).keys = insert k m.keys := by
  rw [assign_subscript, keys_assign]

theorem keys_erase_subscript (m : StdMap α) (k : Int) (z : α) :
    ((m.subscript k z).erase k).keys = m.keys.erase k := by
  rw [keys_erase, keys_subscript, Finset.erase_insert_eq_erase]

theorem erase_keys {m : StdMap α} {k : Int} (h : m.find? k = none) : m.keys.erase k = m.keys := by
  refine Finset.erase_eq_of_notMem fun hk => ?_
  obtain ⟨v, hv⟩ := mem_keys.mp hk
  rw [h] at hv
  cases hv

/-- Reading under a key that is there changes nothing. -/
theorem subscript_of_mem {m : StdMap α} {k : Int} (h : k ∈ m.keys) (z : α) : m.subscript k z = m := by
  obtain ⟨v, hv⟩ := mem_keys.mp h
  exact subscript_of_find? hv

/-! ## The pointers that two maps have -/

/-- The entries that are not `NULL`. -/
def pairs (m : StdMap (Option α)) : List (Int × α) := m.toList.filterMap fun e => e.2.map (e.1, ·)

theorem mem_pairs {k : Int} {p : α} : (k, p) ∈ m.pairs ↔ m.ptr k = some p := by
  simp only [pairs, List.mem_filterMap, Prod.exists, mem_toList, Option.map_eq_some_iff, Prod.mk.injEq, ptr_eq_some]
  constructor
  · rintro ⟨j, v, hj, q, rfl, rfl, rfl⟩
    exact hj
  · exact fun h => ⟨k, some p, h, p, rfl, rfl, rfl⟩

theorem pairs_sorted (m : StdMap (Option α)) : m.pairs.Pairwise fun a b => a.1 < b.1 := by
  refine m.toList_sorted.filterMap _ fun a b hab c hc d hd => ?_
  obtain ⟨p, -, rfl⟩ := Option.map_eq_some_iff.mp hc
  obtain ⟨q, -, rfl⟩ := Option.map_eq_some_iff.mp hd
  exact hab

theorem nodup_pairs (m : StdMap (Option α)) : m.pairs.Nodup :=
  m.pairs_sorted.imp fun {a b} h e => by
    rw [e] at h
    exact Int.lt_irrefl _ h

theorem map_pairs (m : StdMap (Option α)) : m.pairs.map Prod.snd = m.ptrs := by
  rw [ptrs, values, List.reduceOption, pairs, List.filterMap_map, List.map_filterMap]
  congr 1
  funext ⟨k, v⟩
  cases v <;> rfl

theorem pairs_congr {m m' : StdMap (Option α)} (h : ∀ k, m.ptr k = m'.ptr k) : m.pairs = m'.pairs := by
  refine List.Perm.eq_of_pairwise (fun a b _ _ hab hba => ?_) m.pairs_sorted m'.pairs_sorted ?_
  · exact absurd hba (Int.lt_asymm hab)
  · rw [List.perm_ext_iff_of_nodup m.nodup_pairs m'.nodup_pairs]
    rintro ⟨k, p⟩
    rw [mem_pairs, mem_pairs, h]

theorem ptrs_perm {m m' : StdMap (Option α)} (h : ∀ k, m.ptr k = m'.ptr k) : m.ptrs.Perm m'.ptrs := by
  rw [← map_pairs, ← map_pairs, pairs_congr h]

/-- `m` has the pointers of `m'`, and `p` for `k`. -/
theorem ptrs_perm_cons {m m' : StdMap (Option α)} {k : Int} {p : α} (hk : m.ptr k = some p)
    (h : ∀ j, m'.ptr j = if k = j then none else m.ptr j) : m.ptrs.Perm (p :: m'.ptrs) := by
  have hnew : (k, p) ∉ m'.pairs := by
    rw [mem_pairs, h, if_pos rfl]
    exact nofun
  rw [← map_pairs, ← map_pairs]
  show (m.pairs.map Prod.snd).Perm (((k, p) :: m'.pairs).map Prod.snd)
  apply List.Perm.map
  rw [List.perm_ext_iff_of_nodup m.nodup_pairs (List.nodup_cons.mpr ⟨hnew, m'.nodup_pairs⟩)]
  rintro ⟨j, q⟩
  rw [List.mem_cons, mem_pairs, mem_pairs, h, Prod.mk.injEq]
  by_cases hj : k = j
  · subst hj
    simp [hk, eq_comm]
  · simp [hj, Ne.symm hj]

end StdMap

end Miku
