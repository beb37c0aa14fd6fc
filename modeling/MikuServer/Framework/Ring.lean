import Mathlib.Data.List.Rotate

/-!
# Rings of slots

The elements of an array of `n` slots used as a ring: `used` of them from slot
`start` on, wrapping around at the end (`ring`). `ring_set_end` adds an element
after the last, and `ring_drop` removes elements from the front.

`ring_append` adds several elements, however they were written, and
`ring_of_le` and `ring_of_ge` are a ring in one piece and in two.
-/

namespace Miku

variable {α : Type}

/-- The `used` elements from slot `start`. -/
def ring (slots : List α) (start used : Nat) : List α := (slots.rotate start).take used

theorem add_mod_eq {a b n : Nat} (ha : a < n) (hb : b ≤ n) :
    (a + b) % n = if a + b < n then a + b else a + b - n := by
  split
  · exact Nat.mod_eq_of_lt ‹_›
  · rw [Nat.mod_eq_sub_mod (by omega), Nat.mod_eq_of_lt (by omega)]

/-- Different distances from `start` are different slots. -/
theorem slot_inj {n start i j : Nat} (hs : start < n) (hi : i < n) (hj : j < n)
    (h : (start + i) % n = (start + j) % n) : i = j := by
  rw [add_mod_eq hs hi.le, add_mod_eq hs hj.le] at h
  split at h <;> split at h <;> omega

variable {slots : List α} {start used : Nat}

theorem length_ring (hu : used ≤ slots.length) : (ring slots start used).length = used := by
  rw [ring, List.length_take, List.length_rotate, min_eq_left hu]

@[simp] theorem ring_zero : ring slots start 0 = [] := by
  rw [ring, List.take_zero]

theorem getElem?_ring (hu : used ≤ slots.length) {i : Nat} (hi : i < used) :
    (ring slots start used)[i]? = slots[(start + i) % slots.length]? := by
  rw [ring, List.getElem?_take_of_lt hi, List.getElem?_rotate (by omega), Nat.add_comm]

/-- Two rings with the same elements. -/
theorem ring_ext {slots' : List α} {start' : Nat} (hl : used ≤ slots.length) (hl' : used ≤ slots'.length)
    (h : ∀ i < used, slots[(start + i) % slots.length]? = slots'[(start' + i) % slots'.length]?) :
    ring slots start used = ring slots' start' used := by
  apply List.ext_getElem?
  intro i
  by_cases hi : i < used
  · rw [getElem?_ring hl hi, getElem?_ring hl' hi, h i hi]
  · rw [List.getElem?_eq_none (by rw [length_ring hl]; omega), List.getElem?_eq_none (by rw [length_ring hl']; omega)]

/-- An element after the last one. -/
theorem ring_set_end (hs : start < slots.length) (hu : used < slots.length) (u : α) :
    ring (slots.set ((start + used) % slots.length) u) start (used + 1) = ring slots start used ++ [u] := by
  apply List.ext_getElem?
  intro i
  have hl : (ring slots start used).length = used := length_ring hu.le
  rcases Nat.lt_trichotomy i used with hi | rfl | hi
  · rw [List.getElem?_append_left (by omega), getElem?_ring (by rw [List.length_set]; omega) (by omega),
      getElem?_ring hu.le hi, List.length_set, List.getElem?_set_ne]
    intro h
    have := slot_inj hs hu (by omega) h
    omega
  · rw [getElem?_ring (by rw [List.length_set]; omega) (by omega), List.length_set,
      List.getElem?_set_self (Nat.mod_lt _ (by omega)), List.getElem?_append_right (by omega), hl, Nat.sub_self]
    rfl
  · rw [List.getElem?_eq_none, List.getElem?_eq_none]
    · rw [List.length_append, hl, List.length_singleton]; omega
    · rw [length_ring (by rw [List.length_set]; omega)]; omega

/-- Without the first `k` elements. -/
theorem ring_drop (hu : used ≤ slots.length) {k : Nat} (hk : k ≤ used) :
    ring slots ((start + k) % slots.length) (used - k) = (ring slots start used).drop k := by
  apply List.ext_getElem?
  intro i
  by_cases hi : i < used - k
  · rw [List.getElem?_drop, getElem?_ring (by omega) hi, getElem?_ring hu (by omega), Nat.mod_add_mod,
      Nat.add_assoc]
  · rw [List.getElem?_eq_none, List.getElem?_eq_none]
    · rw [List.length_drop, length_ring hu]; omega
    · rw [length_ring (by omega)]; omega

/-! ## Elements in pieces -/

theorem mod_of_lt_two_mul {a n : Nat} (h : a < 2 * n) : a % n = if a < n then a else a - n := by
  split
  · exact Nat.mod_eq_of_lt ‹_›
  · rw [Nat.mod_eq_sub_mod (by omega), Nat.mod_eq_of_lt (by omega)]

theorem ring_mod : ring slots (start % slots.length) used = ring slots start used := by
  rw [ring, List.rotate_mod, ring]

theorem take_ring {k : Nat} (hk : k ≤ used) : (ring slots start used).take k = ring slots start k := by
  rw [ring, List.take_take, min_eq_left hk, ring]

theorem drop_ring (hu : used ≤ slots.length) {k : Nat} (hk : k ≤ used) :
    ring slots (start + k) (used - k) = (ring slots start used).drop k := by
  rw [← ring_drop hu hk, ring_mod]

/-- A ring that does not wrap around. -/
theorem ring_of_le (h : start + used ≤ slots.length) : ring slots start used = (slots.drop start).take used := by
  rw [ring, List.rotate_eq_drop_append_take (by omega), List.take_append_of_le_length]
  rw [List.length_drop]
  omega

/-- A ring that reaches the end of the slots. -/
theorem ring_of_ge (hs : start ≤ slots.length) (hw : slots.length ≤ start + used) (hu : used ≤ slots.length) :
    ring slots start used = slots.drop start ++ slots.take (start + used - slots.length) := by
  rw [ring, List.rotate_eq_drop_append_take hs, List.take_append, List.length_drop,
    List.take_of_length_le (by rw [List.length_drop]; omega), List.take_take]
  congr 2
  omega

/-- Elements after the last one: those that were there are kept, and the new ones are in the slots
that follow. -/
theorem ring_append {slots' d : List α} (hl : slots'.length = slots.length) (hu : used + d.length ≤ slots.length)
    (hold : ∀ i < used, slots'[(start + i) % slots.length]? = slots[(start + i) % slots.length]?)
    (hnew : ∀ i < d.length, slots'[(start + used + i) % slots.length]? = d[i]?) :
    ring slots' start (used + d.length) = ring slots start used ++ d := by
  have hr : (ring slots start used).length = used := length_ring (by omega)
  apply List.ext_getElem?
  intro i
  by_cases hi : i < used + d.length
  · rw [getElem?_ring (by omega) hi, hl]
    by_cases hu' : i < used
    · rw [List.getElem?_append_left (by omega), getElem?_ring (by omega) hu', hold i hu']
    · rw [List.getElem?_append_right (by omega), hr, ← hnew (i - used) (by omega),
        show start + used + (i - used) = start + i by omega]
  · rw [List.getElem?_eq_none (by rw [length_ring (by omega)]; omega), List.getElem?_eq_none]
    rw [List.length_append, hr]
    omega

end Miku
