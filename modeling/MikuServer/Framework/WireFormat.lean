import Mathlib.Algebra.Order.BigOperators.Group.List
import Mathlib.Algebra.Ring.Nat
import Mathlib.Tactic.SplitIfs

/-!
# Sizes in the wire format of protocol buffers

A message is a sequence of fields. Each has a tag, of one byte for the numbers
1, …, 15, and then an integer as a varint, of seven bits a byte, or a length
and as many bytes (`stringSize`, also of a message in a message).

`fieldsSize_le` bounds a message by its number of fields, and `sum_filterMap`
is for the elements of a repeated field.
-/

namespace Miku.WireFormat

/-- `CodedOutputStream::VarintSize32`. -/
def varintSize32 (v : Nat) : Nat :=
  if v < 2 ^ 7 then 1 else if v < 2 ^ 14 then 2 else if v < 2 ^ 21 then 3 else if v < 2 ^ 28 then 4 else 5

/-- `WireFormatLite::Int32Size`: a negative number is extended to 64 bits. -/
def int32Size (v : Int) : Nat := if v < 0 then 10 else varintSize32 v.toNat

/-- A length, and as many bytes. -/
def stringSize (length : Nat) : Nat := varintSize32 length + length

/-- Fields with numbers up to 15, of these sizes. -/
def fieldsSize (sizes : List Nat) : Nat := (sizes.map (1 + ·)).sum

theorem varintSize32_pos (v : Nat) : 1 ≤ varintSize32 v := by
  unfold varintSize32
  split_ifs <;> omega

theorem varintSize32_le (v : Nat) : varintSize32 v ≤ 5 := by
  unfold varintSize32
  split_ifs <;> omega

theorem varintSize32_of_lt {v : Nat} (h : v < 2 ^ 7) : varintSize32 v = 1 := if_pos h

theorem varintSize32_le_two {v : Nat} (h : v < 2 ^ 14) : varintSize32 v ≤ 2 := by
  unfold varintSize32
  split_ifs
  · omega
  · exact Nat.le_refl 2

theorem int32Size_le (v : Int) : int32Size v ≤ 10 := by
  have := varintSize32_le v.toNat
  unfold int32Size
  split <;> omega

theorem int32Size_pos (v : Int) : 1 ≤ int32Size v := by
  have := varintSize32_pos v.toNat
  unfold int32Size
  split <;> omega

theorem stringSize_of_lt {n : Nat} (h : n < 2 ^ 7) : stringSize n = 1 + n := by rw [stringSize, varintSize32_of_lt h]

@[simp] theorem fieldsSize_nil : fieldsSize [] = 0 := rfl

@[simp] theorem fieldsSize_cons (n : Nat) (sizes : List Nat) : fieldsSize (n :: sizes) = 1 + n + fieldsSize sizes := rfl

theorem fieldsSize_append (sizes sizes' : List Nat) :
    fieldsSize (sizes ++ sizes') = fieldsSize sizes + fieldsSize sizes' := by
  rw [fieldsSize, List.map_append, List.sum_append, ← fieldsSize, ← fieldsSize]

theorem lt_stringSize (n : Nat) : n < stringSize n := by
  have := varintSize32_pos n
  unfold stringSize
  omega

/-- Fields of at least `n` bytes. -/
theorem le_fieldsSize {sizes : List Nat} {n : Nat} (h : ∀ k ∈ sizes, n ≤ k) :
    sizes.length * (1 + n) ≤ fieldsSize sizes := by
  induction sizes with
  | nil => exact Nat.le_of_eq (Nat.zero_mul _)
  | cons k sizes ih =>
    rw [List.forall_mem_cons] at h
    have hle := ih h.2
    rw [fieldsSize_cons, List.length_cons, Nat.succ_mul]
    omega

/-- Fields of at most `n` bytes. -/
theorem fieldsSize_le {sizes : List Nat} {n : Nat} (h : ∀ k ∈ sizes, k ≤ n) :
    fieldsSize sizes ≤ sizes.length * (1 + n) := by
  induction sizes with
  | nil => exact Nat.zero_le _
  | cons k sizes ih =>
    rw [List.forall_mem_cons] at h
    have hle := ih h.2
    rw [fieldsSize_cons, List.length_cons, Nat.succ_mul]
    omega

/-- The elements that `f` has a value for. -/
theorem sum_filterMap {α β : Type} (f : α → Option β) (size : β → Nat) (l : List α) :
    ((l.filterMap f).map size).sum = (l.map fun a => ((f a).map size).getD 0).sum := by
  induction l with
  | nil => rfl
  | cons a l ih =>
    rw [List.filterMap_cons, List.map_cons, List.sum_cons, ← ih]
    cases f a with
    | none => exact (Nat.zero_add _).symm
    | some b => rfl

end Miku.WireFormat
