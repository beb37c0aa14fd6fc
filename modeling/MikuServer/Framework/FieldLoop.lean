import Mathlib.Tactic.SplitIfs
import MikuServer.Framework.Runtime

/-!
# Messages field by field

A message is read field by field: the tag says which declared field follows, or
that it is one without a declaration (`MessageReader.merge`). The loop stops
where no tag is read, and at the end of a group; only in the first case may the
message end there (`ConsumedEntireMessage`, the second component of the result).

`merge_pieces` is the rule for an input that is written piece by piece, and
`merge_take_none` the one for an input that ends inside of a piece.
-/

namespace Miku.WireFormat

variable {σ : Type}

/-- A declared field of an object of the type `σ`, once its tag is read. -/
structure FieldReader (σ : Type) where
  wireType : Nat
  repeated : Bool
  read : σ → List Byte → Option (σ × List Byte)
  wireType_lt : wireType < 8
  read_le {s s' : σ} {input rest : List Byte} : read s input = some (s', rest) → rest.length ≤ input.length

/-- The declared fields, from the number 1 on, and what is done with another one. -/
structure MessageReader (σ : Type) where
  fields : List (FieldReader σ)
  unknown : σ → Nat → List Byte → Option (σ × List Byte)
  length_fields : fields.length < 16
  unknown_le {s s' : σ} {tag : Nat} {input rest : List Byte} :
    unknown s tag input = some (s', rest) → rest.length ≤ input.length

namespace MessageReader

section

variable (R : MessageReader σ)

/-- The place of the declared field with this tag. -/
def declared (tag : Nat) : Option Nat :=
  match tag / 8 with
  | 0 => none
  | n + 1 =>
    match R.fields[n]? with
    | none => none
    | some f => if tag % 8 = f.wireType then some n else none

/-- The declared field at the place `n`. -/
def readAt (n : Nat) (s : σ) (input : List Byte) : Option (σ × List Byte) :=
  R.fields[n]?.bind fun f => f.read s input

end

section

variable [Runtime] (R : MessageReader σ)

/-- `merge`, in at most `fuel` turns. -/
def mergeFuel : Nat → σ → List Byte → Option (σ × Bool)
  | 0, _, _ => none
  | fuel + 1, s, input =>
    match Runtime.readTag input with
    | none => some (s, Runtime.consumedEntireMessage input)
    | some (tag, rest) =>
      match R.declared tag with
      | some n => (R.readAt n s rest).bind fun r => mergeFuel fuel r.1 r.2
      | none =>
        if tag % 8 = 4 then some (s, false) else (R.unknown s tag rest).bind fun r => mergeFuel fuel r.1 r.2

/-- Reads fields into `s` until there is no other. -/
def merge (s : σ) (input : List Byte) : Option (σ × Bool) := R.mergeFuel (input.length + 1) s input

end

variable {R : MessageReader σ}

theorem readAt_le {n : Nat} {s s' : σ} {input rest : List Byte} (h : R.readAt n s input = some (s', rest)) :
    rest.length ≤ input.length := by
  obtain ⟨f, -, hr⟩ := Option.bind_eq_some_iff.mp h
  exact f.read_le hr

theorem declared_makeTag {n : Nat} {f : FieldReader σ} (h : R.fields[n]? = some f) :
    R.declared (makeTag (n + 1) f.wireType) = some n := by
  unfold declared
  rw [makeTag_div f.wireType_lt, makeTag_mod f.wireType_lt]
  simp only [h, if_true]

/-- The tag of a declared field is one byte. -/
theorem makeTag_lt {n : Nat} {f : FieldReader σ} (h : R.fields[n]? = some f) :
    makeTag (n + 1) f.wireType ≠ 0 ∧ makeTag (n + 1) f.wireType < 128 := by
  have hn := (List.getElem?_eq_some_iff.mp h).1
  have := R.length_fields
  have := f.wireType_lt
  unfold makeTag
  omega

variable [Runtime]

/-- No tag is read. -/
theorem merge_of_readTag_none {s : σ} {input : List Byte} (h : Runtime.readTag input = none) :
    R.merge s input = some (s, Runtime.consumedEntireMessage input) := by
  rw [merge, mergeFuel, h]

section

variable [Runtime.Documented]

/-- More turns than bytes are enough. -/
theorem mergeFuel_eq {fuel : Nat} {s : σ} {input : List Byte} (h : input.length < fuel) :
    R.mergeFuel fuel s input = R.merge s input := by
  suffices H : ∀ n (s : σ) (input : List Byte) (fuel fuel' : Nat), input.length ≤ n → input.length < fuel →
      input.length < fuel' → R.mergeFuel fuel s input = R.mergeFuel fuel' s input from
    H _ s input fuel _ (Nat.le_refl _) h (Nat.lt_succ_self _)
  intro n
  induction n with
  | zero =>
    intro s input fuel fuel' hn h h'
    obtain rfl := List.eq_nil_of_length_eq_zero (Nat.le_zero.mp hn)
    obtain ⟨k, rfl⟩ := Nat.exists_eq_succ_of_ne_zero (Nat.pos_iff_ne_zero.mp h)
    obtain ⟨k', rfl⟩ := Nat.exists_eq_succ_of_ne_zero (Nat.pos_iff_ne_zero.mp h')
    simp only [mergeFuel, Runtime.Documented.readTag_nil]
  | succ n ih =>
    intro s input fuel fuel' hn h h'
    obtain ⟨k, rfl⟩ := Nat.exists_eq_succ_of_ne_zero (Nat.pos_iff_ne_zero.mp (Nat.zero_lt_of_lt h))
    obtain ⟨k', rfl⟩ := Nat.exists_eq_succ_of_ne_zero (Nat.pos_iff_ne_zero.mp (Nat.zero_lt_of_lt h'))
    rcases ht : Runtime.readTag input with _ | ⟨tag, rest⟩
    · simp only [mergeFuel, ht]
    · have hlt := Runtime.readTag_lt ht
      have go (s' : σ) (rest' : List Byte) (hle : rest'.length ≤ rest.length) :
          R.mergeFuel k s' rest' = R.mergeFuel k' s' rest' :=
        ih s' rest' k k' (by omega) (by omega) (by omega)
      simp only [mergeFuel, ht]
      split
      · refine Option.bind_congr fun r hr => go r.1 r.2 (readAt_le hr)
      · split
        · rfl
        · exact Option.bind_congr fun r hr => go r.1 r.2 (R.unknown_le hr)

@[simp] theorem merge_nil (s : σ) : R.merge s [] = some (s, true) := by
  rw [merge_of_readTag_none Runtime.Documented.readTag_nil, Runtime.Documented.consumedEntireMessage_nil]

/-- The turn of a tag. -/
theorem merge_of_readTag {s : σ} {input rest : List Byte} {tag : Nat} (h : Runtime.readTag input = some (tag, rest)) :
    R.merge s input =
      match R.declared tag with
      | some n => (R.readAt n s rest).bind fun r => R.merge r.1 r.2
      | none => if tag % 8 = 4 then some (s, false) else (R.unknown s tag rest).bind fun r => R.merge r.1 r.2 := by
  have hlt := Runtime.readTag_lt h
  have go {s' : σ} {rest' : List Byte} (hle : rest'.length ≤ rest.length) :
      R.mergeFuel input.length s' rest' = R.merge s' rest' := mergeFuel_eq (by omega)
  rw [merge, mergeFuel, h]
  dsimp only
  split
  · exact Option.bind_congr fun r hr => go (readAt_le hr)
  · split
    · rfl
    · exact Option.bind_congr fun r hr => go (R.unknown_le hr)

/-- What each turn keeps, the loop keeps. -/
theorem merge_inv {P : σ → Prop} {s s' : σ} {input : List Byte} {atEnd : Bool} (h : R.merge s input = some (s', atEnd))
    (hread : ∀ {n s s' input rest}, P s → R.readAt n s input = some (s', rest) → P s')
    (hunknown : ∀ {tag s s' input rest}, P s → tag ≠ 0 → tag < 2 ^ 32 → R.declared tag = none →
      R.unknown s tag input = some (s', rest) → P s') (hs : P s) : P s' := by
  induction hn : input.length using Nat.strongRecOn generalizing s input with
  | ind k ih =>
    subst hn
    rcases ht : Runtime.readTag input with _ | ⟨tag, rest⟩
    · rw [merge_of_readTag_none ht] at h
      cases h
      exact hs
    · obtain ⟨h0, h1, hlt⟩ := Runtime.readTag_spec ht
      rw [merge_of_readTag ht] at h
      rcases hd : R.declared tag with _ | n
      · rw [hd] at h
        dsimp only at h
        split_ifs at h with h4
        · cases h
          exact hs
        · obtain ⟨r, hr, h⟩ := Option.bind_eq_some_iff.mp h
          have hle := R.unknown_le hr
          exact ih r.2.length (by omega) h (hunknown hs h0 h1 hd hr) rfl
      · rw [hd] at h
        obtain ⟨r, hr, h⟩ := Option.bind_eq_some_iff.mp h
        have hle := readAt_le hr
        exact ih r.2.length (by omega) h (hread hs hr) rfl

end

/-! ## Pieces -/

/-- `bytes` is read from any state as `apply`, whatever follows. -/
structure IsPiece (R : MessageReader σ) (bytes : List Byte) (apply : σ → σ) : Prop where
  merge_append (s : σ) (rest : List Byte) : R.merge s (bytes ++ rest) = R.merge (apply s) rest

theorem IsPiece.append {bytes bytes' : List Byte} {apply apply' : σ → σ} (h : IsPiece R bytes apply)
    (h' : IsPiece R bytes' apply') : IsPiece R (bytes ++ bytes') fun s => apply' (apply s) where
  merge_append s rest := by rw [List.append_assoc, h.merge_append, h'.merge_append]

theorem isPiece_nil : IsPiece R [] fun s => s where
  merge_append _ _ := rfl

/-- One piece for each element. -/
theorem isPiece_flatMap {α : Type} {l : List α} {bytes : α → List Byte} {apply : α → σ → σ}
    (h : ∀ a ∈ l, IsPiece R (bytes a) (apply a)) : IsPiece R (l.flatMap bytes) fun s => l.foldl (fun s a => apply a s) s := by
  induction l with
  | nil => exact isPiece_nil
  | cons a l ih =>
    rw [List.flatMap_cons]
    exact (h a List.mem_cons_self).append (ih fun b hb => h b (List.mem_cons_of_mem _ hb))

variable [Runtime.Documented]

/-- A declared field with its tag. -/
theorem isPiece_field {n : Nat} {f : FieldReader σ} {payload : List Byte} {apply : σ → σ}
    (hf : R.fields[n]? = some f)
    (h : ∀ s rest, f.read s (payload ++ rest) = some (apply s, rest)) :
    IsPiece R (Runtime.writeTag (makeTag (n + 1) f.wireType) ++ payload) apply where
  merge_append s rest := by
    obtain ⟨h0, hlt⟩ := makeTag_lt hf
    rw [List.append_assoc, merge_of_readTag (Runtime.Documented.readTag_write _ h0 (Nat.lt_trans hlt (by decide))),
      declared_makeTag hf]
    simp only [readAt, hf, Option.bind_some, h s rest]

/-- A field without a declaration. -/
theorem isPiece_unknown {tag : Nat} {payload : List Byte} {apply : σ → σ} (h0 : tag ≠ 0) (h1 : tag < 2 ^ 32)
    (hd : R.declared tag = none) (hw : tag % 8 ≠ 4)
    (h : ∀ s rest, R.unknown s tag (payload ++ rest) = some (apply s, rest)) :
    IsPiece R (Runtime.writeTag tag ++ payload) apply where
  merge_append s rest := by
    rw [List.append_assoc, merge_of_readTag (Runtime.Documented.readTag_write _ h0 h1), hd]
    simp only [if_neg hw, h s rest, Option.bind_some]

/-- An input that is a piece. -/
theorem IsPiece.merge_eq {bytes : List Byte} {apply : σ → σ} (h : IsPiece R bytes apply) (s : σ) :
    R.merge s bytes = some (apply s, true) := by
  have := h.merge_append s []
  rwa [List.append_nil, merge_nil] at this

/-- An input that ends inside of a declared field. -/
theorem merge_take_none {n : Nat} {f : FieldReader σ} {payload : List Byte} (hf : R.fields[n]? = some f)
    (h : ∀ s k, k < payload.length → f.read s (payload.take k) = none) (s : σ) {k : Nat} (hk : 1 ≤ k)
    (hk' : k < (Runtime.writeTag (makeTag (n + 1) f.wireType) ++ payload).length) :
    R.merge s ((Runtime.writeTag (makeTag (n + 1) f.wireType) ++ payload).take k) = none := by
  obtain ⟨h0, hlt⟩ := makeTag_lt hf
  have hone : (Runtime.writeTag (makeTag (n + 1) f.wireType)).length = 1 := Runtime.Documented.length_writeTag hlt
  rw [List.length_append, hone] at hk'
  rw [List.take_append, List.take_of_length_le (by omega), hone,
    merge_of_readTag (Runtime.Documented.readTag_write _ h0 (Nat.lt_trans hlt (by decide))), declared_makeTag hf]
  simp only [readAt, hf, Option.bind_some, h s (k - 1) (by omega), Option.bind_none]

end MessageReader

end Miku.WireFormat
