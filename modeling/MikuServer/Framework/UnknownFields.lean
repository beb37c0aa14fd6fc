import MikuServer.Framework.CodedStream
import MikuServer.Framework.Runtime

/-!
# Fields without a declaration

A message keeps the fields that it has no declaration for
(`UnknownFieldSet`), and writes them after its own. `skipField` reads one, once
its tag is read; a group is read up to the tag that ends it, in groups that are
at most `depth` deep.

`skipField_write` reads what `body` writes, and `skipField_fits` says that what
it reads can be written.
-/

namespace Miku.WireFormat

namespace UnknownField

mutual

/-- What is written after the tag. -/
def body : UnknownField → List Byte
  | .varint _ value => writeVarint value
  | .fixed64 _ value => value
  | .lengthDelimited _ data => writeBytes data
  | .group number fields => writeAll fields ++ writeVarint (makeTag number 4)
  | .fixed32 _ value => value

/-- `WireFormat::SerializeUnknownFieldsToArray`. -/
def writeAll : List UnknownField → List Byte
  | [] => []
  | u :: us => writeVarint u.tag ++ body u ++ writeAll us

end

end UnknownField

open UnknownField

/-- `CodedInputStream::ReadTag`, if it is not 0. -/
def readTag (input : List Byte) : Option (Nat × List Byte) :=
  (readVarint32 input).bind fun r => if r.1 = 0 then none else some r

/-- `WireFormat::SkipField` of a field that is not a group. -/
def skipScalar (tag : Nat) (input : List Byte) : Option (UnknownField × List Byte) :=
  match tag % 8 with
  | 0 => (readVarint64 input).map fun r => (.varint (tag / 8) r.1, r.2)
  | 1 => (readRaw 8 input).map fun r => (.fixed64 (tag / 8) r.1, r.2)
  | 2 => (readBytes input).map fun r => (.lengthDelimited (tag / 8) r.1, r.2)
  | 5 => (readRaw 4 input).map fun r => (.fixed32 (tag / 8) r.1, r.2)
  | _ => none

/-- `WireFormat::SkipMessage`, up to the tag that ends the group `number`. -/
def skipGroup : Nat → Nat → Nat → List Byte → Option (List UnknownField × List Byte)
  | 0, _, _, _ => none
  | fuel + 1, depth, number, input =>
    (readTag input).bind fun t =>
      if t.1 % 8 = 4 then if t.1 = makeTag number 4 then some ([], t.2) else none
      else if t.1 % 8 = 3 then
        if depth = 0 then none
        else
          (skipGroup fuel (depth - 1) (t.1 / 8) t.2).bind fun g =>
            (skipGroup fuel depth number g.2).map fun r => (.group (t.1 / 8) g.1 :: r.1, r.2)
      else
        (skipScalar t.1 t.2).bind fun f => (skipGroup fuel depth number f.2).map fun r => (f.1 :: r.1, r.2)

/-- `WireFormat::SkipField`. -/
def skipField (depth tag : Nat) (input : List Byte) : Option (UnknownField × List Byte) :=
  if tag % 8 = 3 then
    if depth = 0 then none
    else (skipGroup input.length (depth - 1) (tag / 8) input).map fun g => (.group (tag / 8) g.1, g.2)
  else skipScalar tag input

/-! ## Tags -/

theorem readTag_write {tag : Nat} (h : tag ≠ 0) (h' : tag < 2 ^ 32) (rest : List Byte) :
    readTag (writeVarint tag ++ rest) = some (tag, rest) := by
  rw [readTag, readVarint32_write h', Option.bind_some, if_neg h]

theorem readTag_spec {tag : Nat} {input rest : List Byte} (h : readTag input = some (tag, rest)) :
    tag ≠ 0 ∧ tag < 2 ^ 32 ∧ rest.length < input.length := by
  obtain ⟨r, hr, h⟩ := Option.bind_eq_some_iff.mp h
  split_ifs at h with h0
  cases h
  exact ⟨h0, readVarint32_bound hr, readVarint32_lt hr⟩

/-! ## Reading what was written -/

theorem skipScalar_write {depth : Nat} {u : UnknownField} (h : Fits depth u) (hg : u.wireType ≠ 3)
    (rest : List Byte) : skipScalar u.tag (body u ++ rest) = some (u, rest) := by
  have hmod := tag_mod u
  have hdiv := tag_div u
  cases u with
  | varint number value =>
    rw [skipScalar, hmod, hdiv]
    simp only [wireType, body, readVarint64_write h.2.2, Option.map_some, UnknownField.number]
  | fixed64 number value =>
    have hr := readRaw_append value rest
    rw [h.2] at hr
    rw [skipScalar, hmod, hdiv]
    simp only [wireType, body, hr, Option.map_some, UnknownField.number]
  | lengthDelimited number data =>
    rw [skipScalar, hmod, hdiv]
    simp only [wireType, body, readBytes_write h.2, Option.map_some, UnknownField.number]
  | group number fields => exact absurd rfl hg
  | fixed32 number value =>
    have hr := readRaw_append value rest
    rw [h.2] at hr
    rw [skipScalar, hmod, hdiv]
    simp only [wireType, body, hr, Option.map_some, UnknownField.number]

mutual

/-- A group is read as it was written. -/
theorem skipGroup_body (u : UnknownField) {depth fuel : Nat} (h : Fits depth u) (hg : u.wireType = 3)
    (hf : (body u).length ≤ fuel) (rest : List Byte) :
    ∃ fields, u = .group u.number fields ∧ depth ≠ 0 ∧
      skipGroup fuel (depth - 1) u.number (body u ++ rest) = some (fields, rest) := by
  match u with
  | .group number fields =>
    simp only [body] at hf ⊢
    rw [List.append_assoc]
    exact ⟨fields, rfl, h.2.1, skipGroup_writeAll fields h.2.2 h.1 (by simpa using hf) rest⟩

/-- The fields of a group, and the tag that ends it. -/
theorem skipGroup_writeAll (us : List UnknownField) {depth fuel number : Nat} (h : FitsAll depth us)
    (hn : number < 2 ^ 29) (hf : (writeAll us).length + (writeVarint (makeTag number 4)).length ≤ fuel)
    (rest : List Byte) :
    skipGroup fuel depth number (writeAll us ++ (writeVarint (makeTag number 4) ++ rest)) = some (us, rest) := by
  have hpos := length_writeVarint_pos (makeTag number 4)
  cases fuel with
  | zero => omega
  | succ fuel =>
    match us with
    | [] =>
      have hlt : makeTag number 4 ≠ 0 ∧ makeTag number 4 < 2 ^ 32 := by
        unfold makeTag
        omega
      have ht := readTag_write hlt.1 hlt.2 rest
      have hmod : makeTag number 4 % 8 = 4 := makeTag_mod (by decide)
      rw [writeAll, List.nil_append, skipGroup, ht, Option.bind_some]
      simp only [hmod, if_true]
    | u :: us =>
      have hu : 1 ≤ (writeVarint u.tag).length := length_writeVarint_pos u.tag
      have htag := tag_of_fits h.1
      have hmod := tag_mod u
      have hdiv := tag_div u
      simp only [writeAll, List.length_append] at hf
      rw [writeAll, List.append_assoc, List.append_assoc, skipGroup, readTag_write htag.1 htag.2, Option.bind_some]
      simp only [hmod, hdiv, if_neg (wireType_ne_endGroup u)]
      have hrest := skipGroup_writeAll us h.2 hn (show _ ≤ fuel by omega) rest
      by_cases hg : u.wireType = 3
      · obtain ⟨fields, hu, hd, hs⟩ := skipGroup_body u h.1 hg (show _ ≤ fuel by omega)
          (writeAll us ++ (writeVarint (makeTag number 4) ++ rest))
        rw [if_pos hg, if_neg hd, hs, Option.bind_some, hrest, Option.map_some, ← hu]
      · rw [if_neg hg, skipScalar_write h.1 hg, Option.bind_some, hrest, Option.map_some]

end

theorem skipField_write {depth : Nat} {u : UnknownField} (h : Fits depth u) (rest : List Byte) :
    skipField depth u.tag (body u ++ rest) = some (u, rest) := by
  have hmod := tag_mod u
  have hdiv := tag_div u
  rw [skipField, hmod, hdiv]
  by_cases hg : u.wireType = 3
  · obtain ⟨fields, hu, hd, hs⟩ := skipGroup_body u h hg
      (show _ ≤ (body u ++ rest).length by rw [List.length_append]; omega) rest
    rw [if_pos hg, if_neg hd, hs, Option.map_some, ← hu]
  · rw [if_neg hg, skipScalar_write h hg]

/-! ## What is read -/

theorem skipScalar_le {tag : Nat} {input rest : List Byte} {u : UnknownField}
    (h : skipScalar tag input = some (u, rest)) : rest.length ≤ input.length := by
  unfold skipScalar at h
  split at h
  · obtain ⟨r, hr, he⟩ := Option.map_eq_some_iff.mp h
    cases he
    exact Nat.le_of_lt (readVarint64_lt hr)
  · obtain ⟨r, hr, he⟩ := Option.map_eq_some_iff.mp h
    cases he
    exact readRaw_le hr
  · obtain ⟨r, hr, he⟩ := Option.map_eq_some_iff.mp h
    cases he
    exact Nat.le_of_lt (readBytes_spec hr).1
  · obtain ⟨r, hr, he⟩ := Option.map_eq_some_iff.mp h
    cases he
    exact readRaw_le hr
  · cases h

theorem skipScalar_fits {tag depth : Nat} {input rest : List Byte} {u : UnknownField} (ht : tag ≠ 0)
    (ht' : tag < 2 ^ 32) (h : skipScalar tag input = some (u, rest)) : Fits depth u ∧ u.tag = tag := by
  have hdm := Nat.div_add_mod tag 8
  have htag (w : Nat) (hw : tag % 8 = w) : makeTag (tag / 8) w = tag := by
    unfold makeTag
    omega
  unfold skipScalar at h
  split at h
  case h_1 hw =>
    obtain ⟨r, hr, he⟩ := Option.map_eq_some_iff.mp h
    cases he
    exact ⟨⟨by omega, by omega, readVarint64_bound hr⟩, htag 0 hw⟩
  case h_2 hw =>
    obtain ⟨r, hr, he⟩ := Option.map_eq_some_iff.mp h
    cases he
    exact ⟨⟨by omega, (readRaw_eq hr).1⟩, htag 1 hw⟩
  case h_3 hw =>
    obtain ⟨r, hr, he⟩ := Option.map_eq_some_iff.mp h
    cases he
    exact ⟨⟨by omega, (readBytes_spec hr).2⟩, htag 2 hw⟩
  case h_4 hw =>
    obtain ⟨r, hr, he⟩ := Option.map_eq_some_iff.mp h
    cases he
    exact ⟨⟨by omega, (readRaw_eq hr).1⟩, htag 5 hw⟩
  case h_5 => cases h

theorem skipGroup_spec {fuel depth number : Nat} {input rest : List Byte} {us : List UnknownField}
    (h : skipGroup fuel depth number input = some (us, rest)) : FitsAll depth us ∧ rest.length ≤ input.length := by
  induction fuel generalizing depth number input us rest with
  | zero => cases h
  | succ fuel ih =>
    rw [skipGroup] at h
    obtain ⟨⟨t, input'⟩, ht, h⟩ := Option.bind_eq_some_iff.mp h
    obtain ⟨ht0, ht1, hlt⟩ := readTag_spec ht
    dsimp only at h
    split_ifs at h with h4 hend h3 hd
    · cases h
      exact ⟨trivial, Nat.le_of_lt hlt⟩
    · obtain ⟨⟨fields, input₁⟩, hg, h⟩ := Option.bind_eq_some_iff.mp h
      obtain ⟨⟨us', rest'⟩, hr, he⟩ := Option.map_eq_some_iff.mp h
      cases he
      obtain ⟨hfit, hle⟩ := ih hg
      obtain ⟨hfits, hle'⟩ := ih hr
      exact ⟨⟨⟨by omega, hd, hfit⟩, hfits⟩, by dsimp only at *; omega⟩
    · obtain ⟨⟨u, input₁⟩, hs, h⟩ := Option.bind_eq_some_iff.mp h
      obtain ⟨⟨us', rest'⟩, hr, he⟩ := Option.map_eq_some_iff.mp h
      cases he
      have hle := skipScalar_le hs
      obtain ⟨hfits, hle'⟩ := ih hr
      exact ⟨⟨(skipScalar_fits ht0 ht1 hs).1, hfits⟩, by dsimp only at *; omega⟩

theorem skipField_le {depth tag : Nat} {input rest : List Byte} {u : UnknownField}
    (h : skipField depth tag input = some (u, rest)) : rest.length ≤ input.length := by
  rw [skipField] at h
  split_ifs at h with h3 hd
  · obtain ⟨g, hg, he⟩ := Option.map_eq_some_iff.mp h
    cases he
    exact (skipGroup_spec hg).2
  · exact skipScalar_le h

/-- What `skipField` reads, `body` can write. -/
theorem skipField_fits {depth tag : Nat} {input rest : List Byte} {u : UnknownField} (ht : tag ≠ 0)
    (ht' : tag < 2 ^ 32) (h : skipField depth tag input = some (u, rest)) : Fits depth u ∧ u.tag = tag := by
  rw [skipField] at h
  split_ifs at h with h3 hd
  · obtain ⟨g, hg, he⟩ := Option.map_eq_some_iff.mp h
    cases he
    refine ⟨⟨by omega, hd, (skipGroup_spec hg).1⟩, ?_⟩
    simp only [UnknownField.tag, UnknownField.number, wireType, makeTag]
    omega
  · exact skipScalar_fits ht ht' h

end Miku.WireFormat
