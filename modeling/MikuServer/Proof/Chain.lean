import MikuServer.Impl.CircleList

/-!
# Chains of slots

The slots in use are a row of chains (`IsChain`), each a message: `splitChains`
cuts the row, and `payload` is the message. `AddBuffer` copies every part of a
long message from the message's start, so what is queued is not the message but
`stored` of it (`stored_eq_iff` says when the two are the same).
-/

namespace Miku

/-! ## Chains -/

/-- The slots of one message: full ones with a child, then one without. -/
inductive IsChain : List UnitStruct → Prop
  | last {u : UnitStruct} (child : u.hasChild = false) (nonneg : 0 ≤ u.len) (le : u.len ≤ maxSizePerBuff) :
      IsChain [u]
  | cons {u v : UnitStruct} {us : List UnitStruct} (child : u.hasChild = true) (len : u.len = maxSizePerBuff)
      (pos : 0 < v.len) (tail : IsChain (v :: us)) : IsChain (u :: v :: us)

/-- The bytes in a slot. -/
def UnitStruct.bytes (u : UnitStruct) : List Byte := u.buff.take u.len.toNat

/-- The bytes in a chain. -/
def payload (c : List UnitStruct) : List Byte := c.flatMap UnitStruct.bytes

/-- The slots of a row of chains, cut after each slot without a child. -/
def splitChains : List UnitStruct → List (List UnitStruct)
  | [] => []
  | u :: us =>
    if u.hasChild then
      match splitChains us with
      | [] => [[u]]
      | c :: cs => (u :: c) :: cs
    else [u] :: splitChains us

theorem splitChains_append {c : List UnitStruct} (h : IsChain c) (us : List UnitStruct) :
    splitChains (c ++ us) = c :: splitChains us := by
  induction h with
  | last child _ _ => simp [splitChains, child]
  | cons child _ _ _ ih =>
    rw [List.cons_append, splitChains, if_pos child, ih]

/-- Cutting a row of chains gives the chains. -/
theorem splitChains_flatten {cs : List (List UnitStruct)} (h : ∀ c ∈ cs, IsChain c) :
    splitChains cs.flatten = cs := by
  induction cs with
  | nil => rfl
  | cons c cs ih =>
    rw [List.flatten_cons, splitChains_append (h c List.mem_cons_self),
      ih fun d hd => h d (List.mem_cons_of_mem _ hd)]

theorem IsChain.length_pos {c : List UnitStruct} (h : IsChain c) : 0 < c.length := by
  cases h <;> simp

/-- The slots a message of `len` bytes takes. -/
def slotsFor (len : Nat) : Nat := max 1 ((len + (maxSizePerBuff - 1)) / maxSizePerBuff)

theorem slotsFor_pos (len : Nat) : 0 < slotsFor len := by
  rw [slotsFor]
  omega

theorem slotsFor_of_le {len : Nat} (h : len ≤ maxSizePerBuff) : slotsFor len = 1 := by
  have hM : maxSizePerBuff = 4096 := rfl
  rw [hM] at h
  rw [slotsFor, hM]
  omega

theorem length_bytes {u : UnitStruct} (hb : u.buff.length = maxSizePerBuff) (hl : u.len ≤ maxSizePerBuff) :
    u.bytes.length = u.len.toNat := by
  rw [UnitStruct.bytes, List.length_take, min_eq_left]
  rw [hb]
  omega

theorem payload_cons (u : UnitStruct) (us : List UnitStruct) : payload (u :: us) = u.bytes ++ payload us := rfl

theorem payload_singleton (u : UnitStruct) : payload [u] = u.bytes := by
  rw [payload_cons]
  exact List.append_nil _

/-- A chain is as long as its message needs, and its slots' lengths add up to the message's. -/
theorem IsChain.length_payload {c : List UnitStruct} (h : IsChain c)
    (hb : ∀ u ∈ c, u.buff.length = maxSizePerBuff) :
    (c.map UnitStruct.len).sum = (payload c).length ∧ c.length = slotsFor (payload c).length ∧
      (∀ u ∈ c.head?, 0 < u.len → 0 < (payload c).length) := by
  have hM : maxSizePerBuff = 4096 := rfl
  induction h with
  | last child nonneg le =>
    rw [payload_singleton, length_bytes (hb _ List.mem_cons_self) le]
    simp only [List.map_cons, List.map_nil, List.sum_cons, List.sum_nil, List.length_singleton, slotsFor, hM,
      List.head?_cons, Option.mem_some_iff, forall_eq']
    rw [hM] at le
    refine ⟨?_, ?_, fun _ => ?_⟩ <;> omega
  | @cons u v us child len pos tail ih =>
    obtain ⟨h1, h2, h3⟩ := ih fun w hw => hb w (List.mem_cons_of_mem _ hw)
    have hp := h3 v (by simp) pos
    rw [payload_cons, List.length_append, length_bytes (hb _ List.mem_cons_self) len.le, List.map_cons,
      List.sum_cons, h1, List.length_cons, h2, len]
    simp only [slotsFor, hM]
    refine ⟨?_, ?_, fun _ _ _ => ?_⟩ <;> omega

/-! ## What is stored of a message -/

/-- The first 0x1000 bytes again and again, as many bytes as the message has. -/
def stored (m : List Byte) : List Byte :=
  (List.replicate (m.length / maxSizePerBuff) (m.take maxSizePerBuff)).flatten ++
    m.take (m.length % maxSizePerBuff)

/-- Every byte is the one at its place in a slot. -/
def Repeats (m : List Byte) : Prop := ∀ j < m.length, m[j]? = m[j % maxSizePerBuff]?

theorem getElem?_replicate_flatten (t : List Byte) {q r j : Nat} (hr : r ≤ t.length)
    (hj : j < q * t.length + r) :
    ((List.replicate q t).flatten ++ t.take r)[j]? = t[j % t.length]? := by
  induction q generalizing j with
  | zero =>
    rw [Nat.zero_mul, Nat.zero_add] at hj
    rw [List.replicate_zero, List.flatten_nil, List.nil_append, List.getElem?_take_of_lt hj,
      Nat.mod_eq_of_lt (by omega)]
  | succ q ih =>
    rw [List.replicate_succ, List.flatten_cons, List.append_assoc]
    rw [Nat.add_mul, Nat.one_mul] at hj
    by_cases h : j < t.length
    · rw [List.getElem?_append_left h, Nat.mod_eq_of_lt h]
    · rw [List.getElem?_append_right (by omega), ih (by omega), ← Nat.mod_eq_sub_mod (by omega)]

theorem length_replicate_flatten (t : List Byte) (q : Nat) :
    (List.replicate q t).flatten.length = q * t.length := by
  rw [List.length_flatten, List.map_replicate, List.sum_replicate_nat]

theorem length_stored (m : List Byte) : (stored m).length = m.length := by
  have hM : maxSizePerBuff = 4096 := rfl
  rw [stored, List.length_append, length_replicate_flatten, List.length_take, List.length_take, hM]
  by_cases h : m.length < 4096
  · rw [Nat.div_eq_of_lt h]; omega
  · rw [Nat.min_eq_left (by omega)]; omega

theorem getElem?_stored {m : List Byte} {j : Nat} (hj : j < m.length) :
    (stored m)[j]? = m[j % maxSizePerBuff]? := by
  have hM : maxSizePerBuff = 4096 := rfl
  by_cases h : m.length < 4096
  · rw [stored, hM, Nat.div_eq_of_lt h, Nat.mod_eq_of_lt h, Nat.mod_eq_of_lt (by omega), List.take_length]
    rfl
  · have hl : (m.take maxSizePerBuff).length = 4096 := by rw [List.length_take, hM]; omega
    have hr : m.take (m.length % maxSizePerBuff) = (m.take maxSizePerBuff).take (m.length % maxSizePerBuff) := by
      rw [List.take_take, min_eq_left (Nat.mod_lt _ (by omega)).le]
    rw [stored, hr, getElem?_replicate_flatten _ (by rw [hl, hM]; omega) (by rw [hl, hM]; omega), hl, hM,
      List.getElem?_take_of_lt (Nat.mod_lt _ (by omega))]

/-- A message is stored as it is exactly when it repeats. -/
theorem stored_eq_iff {m : List Byte} : stored m = m ↔ Repeats m := by
  constructor
  · intro h j hj
    rw [← getElem?_stored hj, h]
  · intro h
    apply List.ext_getElem?
    intro j
    by_cases hj : j < m.length
    · rw [getElem?_stored hj, ← h j hj]
    · rw [List.getElem?_eq_none (by rw [length_stored]; omega), List.getElem?_eq_none (by omega)]

theorem repeats_of_length_le {m : List Byte} (h : m.length ≤ maxSizePerBuff) : Repeats m := fun j hj => by
  rw [Nat.mod_eq_of_lt (by omega)]

theorem repeats_stored (m : List Byte) : Repeats (stored m) := by
  intro j hj
  rw [length_stored] at hj
  have hmod : j % maxSizePerBuff < m.length := (Nat.mod_le ..).trans_lt hj
  rw [getElem?_stored hj, getElem?_stored hmod, Nat.mod_mod]

/-- The first slot has the message's own bytes. -/
theorem take_stored (m : List Byte) {k : Nat} (hk : k ≤ maxSizePerBuff) : (stored m).take k = m.take k := by
  refine List.ext_getElem? fun j => ?_
  by_cases hj : j < k ∧ j < m.length
  · rw [List.getElem?_take_of_lt hj.1, List.getElem?_take_of_lt hj.1, getElem?_stored hj.2,
      Nat.mod_eq_of_lt (hj.1.trans_le hk)]
  · have hlen := length_stored m
    rw [List.getElem?_eq_none (by rw [List.length_take]; omega), List.getElem?_eq_none (by rw [List.length_take]; omega)]

theorem stored_of_length_le {m : List Byte} (h : m.length ≤ maxSizePerBuff) : stored m = m :=
  stored_eq_iff.mpr (repeats_of_length_le h)

/-- The parts of a long message, as `AddBuffer` copies them. -/
theorem stored_parts {buff : List Byte} {len k : Nat} (hb : len ≤ buff.length) (hl : maxSizePerBuff < len)
    (hk : slotsFor len = k + 1) :
    (List.replicate k (buff.take maxSizePerBuff)).flatten ++
        buff.take (if len % maxSizePerBuff = 0 then maxSizePerBuff else len % maxSizePerBuff) =
      stored (buff.take len) := by
  have hM : maxSizePerBuff = 4096 := rfl
  have ht : (buff.take len).length = len := by rw [List.length_take, min_eq_left hb]
  rw [slotsFor] at hk
  rw [stored, ht, List.take_take, List.take_take, min_eq_left hl.le,
    min_eq_left (show len % maxSizePerBuff ≤ len from Nat.mod_le _ _)]
  split
  · rename_i h0
    rw [show len / maxSizePerBuff = k + 1 by rw [hM] at h0 hk ⊢; omega, h0, List.replicate_succ', List.flatten_append,
      List.flatten_singleton, List.take_zero, List.append_nil]
  · rename_i h0
    rw [show len / maxSizePerBuff = k by rw [hM] at h0 hk ⊢; omega]

end Miku
