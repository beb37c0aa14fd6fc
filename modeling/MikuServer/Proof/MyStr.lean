import MikuServer.Impl.MyStr

/-!
# What the fields of a string are

`MemStr` finds the first place of a marker. What is copied out is the field, but
`GetField` and `GetFieldLeft` write no NUL after it, so the destination is the field
only if one is there already; and `GetFieldRight` writes it, past a destination that
the field fills.
-/

namespace Miku.ZzmCommon.MyStr

/-- The text between the first start marker and the next end marker. -/
def Between (source start stop text : List Byte) : Prop :=
  ∃ i j, FirstAt start source i ∧ FirstAt stop (source.drop (i + start.length)) j ∧
    text = (source.drop (i + start.length)).take j

/-- The text before the first marker. -/
def Before (source marker text : List Byte) : Prop := ∃ i, FirstAt marker source i ∧ text = source.take i

/-- The text after the first marker. -/
def After (source marker text : List Byte) : Prop :=
  ∃ i, FirstAt marker source i ∧ text = source.drop (i + marker.length)

/-- The call writes nothing past the destination, and if it succeeds, the destination is the field as a C string. -/
def Extracts (field : List Byte → Prop) (call : Option (ReturnCode × List Byte)) : Prop :=
  ∃ ret dst, call = some (ret, dst) ∧ (ret = .success → ∃ text, field text ∧ readStr dst = some text)

variable {dst text : List Byte}

/-! ## Searching -/

theorem toInt_cint_length (s : CString) {n : Nat} (h : n ≤ s.bytes.length) : (cint n).toInt = n := by
  have hfits := s.fits
  exact toInt_cint (by omega) (by omega)

theorem memStr_cStr (s p : List Byte) : memStr (cStr s) (cStr p) s.length p.length =
    some ((List.range (s.length + 1 - p.length)).find? fun i => (s.drop i).take p.length = p) := by
  have hn : ((s.length : Int) - p.length + 1).toNat = s.length + 1 - p.length := by omega
  have hmem (i : Nat) (hi : i ∈ List.range (s.length + 1 - p.length)) :
      memEq ((cStr s).drop i) (cStr p) p.length = some (decide ((s.drop i).take p.length = p)) := by
    rw [List.mem_range] at hi
    rw [drop_cStr (by omega), memEq, if_pos, Int.toNat_natCast, cStr, cStr]
    · rw [List.take_append_of_le_length (by rw [List.length_drop]; omega), List.take_left]
    · simp only [cStr, List.length_append, List.length_drop, List.length_singleton]
      omega
  rw [memStr, hn]
  generalize List.range (s.length + 1 - p.length) = places at hmem
  induction places with
  | nil => rfl
  | cons i places ih =>
    rw [List.findM?, hmem i List.mem_cons_self, List.find?_cons]
    rcases decide ((s.drop i).take p.length = p) with _ | _
    · exact ih fun j hj => hmem j (List.mem_cons_of_mem i hj)
    · rfl

/-- The first place where the marker occurs is found, and nothing if there is none. -/
theorem memStr_exact (s p : List Byte) : ∃ r, memStr (cStr s) (cStr p) s.length p.length = some r ∧
    ∀ i, r = some i ↔ FirstAt p s i := ⟨_, memStr_cStr s p, find?_firstAt p s⟩

theorem myStrStr_cStr (s p : CString) :
    myStrStr (cStr s.bytes) (cStr p.bytes) = memStr (cStr s.bytes) (cStr p.bytes) s.bytes.length p.bytes.length := by
  rw [myStrStr, strlen_cStr s.noNul, strlen_cStr p.noNul]
  simp only [Option.bind_eq_bind, Option.bind_some, toInt_cint_length s le_rfl, toInt_cint_length p le_rfl]

theorem myStrStr_some {s p : CString} {i : Nat} (h : FirstAt p.bytes s.bytes i) :
    myStrStr (cStr s.bytes) (cStr p.bytes) = some (some i) := by
  obtain ⟨r, hr, hfirst⟩ := memStr_exact s.bytes p.bytes
  rw [myStrStr_cStr, hr, (hfirst i).mpr h]

theorem myStrStr_none {s p : CString} (h : ∀ i, ¬FirstAt p.bytes s.bytes i) :
    myStrStr (cStr s.bytes) (cStr p.bytes) = some none := by
  obtain ⟨r, hr, hfirst⟩ := memStr_exact s.bytes p.bytes
  rw [myStrStr_cStr, hr, Option.some_inj, Option.eq_none_iff_forall_ne_some]
  exact fun i hi => h i ((hfirst i).mp hi)

/-! ## Copying -/

/-- A function that looks for a field and copies it, if it is not longer than the destination. -/
structure Copies (field : List Byte → Prop) (dst : List Byte) (copy : List Byte → Option (List Byte))
    (call : Option (ReturnCode × List Byte)) : Prop where
  unique : ∀ text text', field text → field text' → text = text'
  found : ∀ text, field text → call =
    if dst.length < text.length then some (.failed, dst) else (copy text).map (.success, ·)
  missing : (∀ text, ¬field text) → call = some (.failed, dst)

/-- The copy is right, if there is one. -/
theorem Copies.copied_iff {field : List Byte → Prop} {copy : List Byte → Option (List Byte)}
    {call : Option (ReturnCode × List Byte)} (h : Copies field dst copy call) :
    Extracts field call ↔
      ∀ text, field text → text.length ≤ dst.length → ∃ d, copy text = some d ∧ readStr d = some text := by
  constructor
  · rintro ⟨ret, d, hcall, hret⟩ text hfield hle
    rw [h.found text hfield, if_neg (by omega)] at hcall
    obtain ⟨d', hcopy, he⟩ := Option.map_eq_some_iff.mp hcall
    cases he
    obtain ⟨text', hfield', hread⟩ := hret rfl
    rw [h.unique text text' hfield hfield']
    exact ⟨d, h.unique text text' hfield hfield' ▸ hcopy, hread⟩
  · intro hcopy
    by_cases hf : ∃ text, field text
    · obtain ⟨text, hfield⟩ := hf
      rw [h.found text hfield]
      split
      · exact ⟨.failed, dst, rfl, nofun⟩
      · obtain ⟨d, hd, hread⟩ := hcopy text hfield (by omega)
        exact ⟨.success, d, by rw [hd]; rfl, fun _ => ⟨text, hfield, hread⟩⟩
    · rw [h.missing fun text hfield => hf ⟨text, hfield⟩]
      exact ⟨.failed, dst, rfl, nofun⟩

/-- The bytes of a field, with no NUL after them. -/
def bare (dst text : List Byte) : Option (List Byte) := some (text ++ dst.drop text.length)

theorem bare_iff (h : 0 ∉ text) (dst : List Byte) :
    (∃ d, bare dst text = some d ∧ readStr d = some text) ↔ dst[text.length]? = some 0 := by
  have hread : readStr (text ++ dst.drop text.length) = some text ↔ dst[text.length]? = some 0 := by
    rw [readStr_append_iff h, List.getElem?_drop, Nat.add_zero]
  rw [← hread]
  refine ⟨fun ⟨d, hd, hr⟩ => ?_, fun hr => ⟨_, rfl, hr⟩⟩
  cases hd
  exact hr

/-- A string and the NUL are copied if they fit. -/
theorem strcpy_iff (h : 0 ∉ text) (hle : text.length ≤ dst.length) :
    (∃ d, strcpy dst (cStr text) = some d ∧ readStr d = some text) ↔ text.length ≠ dst.length := by
  constructor
  · rintro ⟨d, hd, -⟩ heq
    rw [strcpy_eq_none h heq.ge] at hd
    cases hd
  · intro hne
    refine ⟨_, strcpy_cStr h (by omega), ?_⟩
    rw [cStr, List.append_assoc, readStr_append_iff h]
    rfl

variable {source start stop marker : CString}

theorem Between.noNul (h : Between source.bytes start.bytes stop.bytes text) : 0 ∉ text := by
  obtain ⟨i, j, -, -, rfl⟩ := h
  exact fun h0 => source.noNul (List.mem_of_mem_drop (List.mem_of_mem_take h0))

theorem Before.noNul (h : Before source.bytes marker.bytes text) : 0 ∉ text := by
  obtain ⟨i, -, rfl⟩ := h
  exact fun h0 => source.noNul (List.mem_of_mem_take h0)

theorem After.noNul (h : After source.bytes marker.bytes text) : 0 ∉ text := by
  obtain ⟨i, -, rfl⟩ := h
  exact fun h0 => source.noNul (List.mem_of_mem_drop h0)

theorem getFieldLeft_copies (source marker : CString) (dst : List Byte) :
    Copies (Before source.bytes marker.bytes) dst (bare dst)
      (getFieldLeft (cStr source.bytes) dst dst.length (cStr marker.bytes)) where
  unique := by
    rintro _ _ ⟨i, hi, rfl⟩ ⟨j, hj, rfl⟩
    rw [hi.unique hj]
  found := by
    rintro text ⟨i, hi, rfl⟩
    have hle := hi.le
    have hlen : (source.bytes.take i).length = i := by
      rw [List.length_take]
      omega
    rw [getFieldLeft, myStrStr_some hi]
    simp only [Option.bind_eq_bind, Option.bind_some, toInt_cint_length source (show i ≤ source.bytes.length by omega), hlen]
    by_cases hlt : dst.length < i
    · rw [if_pos (by omega), if_pos hlt]
    · rw [if_neg (by omega), if_neg hlt, strncpy_cStr source.noNul (by omega) (by omega), bare, hlen]
      rfl
  missing h := by
    rw [getFieldLeft, myStrStr_none fun i hi => h _ ⟨i, hi, rfl⟩]
    rfl

theorem getField_copies (source start stop : CString) (dst : List Byte) :
    Copies (Between source.bytes start.bytes stop.bytes) dst (bare dst)
      (getField (cStr source.bytes) dst dst.length (cStr start.bytes) (cStr stop.bytes)) where
  unique := by
    rintro _ _ ⟨i, j, hi, hj, rfl⟩ ⟨i', j', hi', hj', rfl⟩
    obtain rfl := hi.unique hi'
    rw [hj.unique hj']
  found := by
    rintro text ⟨i, j, hi, hj, rfl⟩
    obtain ⟨rest, hrest⟩ := source.exists_drop (i + start.bytes.length)
    rw [← hrest] at hj ⊢
    have hle := hj.le
    have hlen : (rest.bytes.take j).length = j := by
      rw [List.length_take]
      omega
    rw [getField, myStrStr_some hi]
    simp only [Option.bind_eq_bind, Option.bind_some, strlen_cStr start.noNul, drop_cStr hi.le, ← hrest,
      myStrStr_some hj, toInt_cint_length rest (show j ≤ rest.bytes.length by omega), hlen]
    by_cases hlt : dst.length < j
    · rw [if_pos (by omega), if_pos hlt]
    · rw [if_neg (by omega), if_neg hlt, strncpy_cStr rest.noNul (by omega) (by omega), bare, hlen]
      rfl
  missing h := by
    rw [getField]
    by_cases hf : ∃ i, FirstAt start.bytes source.bytes i
    · obtain ⟨i, hi⟩ := hf
      obtain ⟨rest, hrest⟩ := source.exists_drop (i + start.bytes.length)
      have hstop : myStrStr (cStr rest.bytes) (cStr stop.bytes) = some none :=
        myStrStr_none fun j hj => h _ ⟨i, j, hi, hrest ▸ hj, rfl⟩
      rw [myStrStr_some hi]
      simp only [Option.bind_eq_bind, Option.bind_some, strlen_cStr start.noNul, drop_cStr hi.le, ← hrest, hstop]
    · rw [myStrStr_none fun i hi => hf ⟨i, hi⟩]
      rfl

theorem getFieldRight_copies (source marker : CString) (dst : List Byte) :
    Copies (After source.bytes marker.bytes) dst (fun text => strcpy dst (cStr text))
      (getFieldRight (cStr source.bytes) dst dst.length (cStr marker.bytes)) where
  unique := by
    rintro _ _ ⟨i, hi, rfl⟩ ⟨j, hj, rfl⟩
    rw [hi.unique hj]
  found := by
    rintro text ⟨i, hi, rfl⟩
    have hle := hi.le
    have hcount : (source.bytes.length : Int) - i - marker.bytes.length =
        (source.bytes.length - (i + marker.bytes.length) : Nat) := by omega
    rw [getFieldRight, myStrStr_some hi]
    simp only [Option.bind_eq_bind, Option.bind_some, strlen_cStr source.noNul, strlen_cStr marker.noNul, hcount,
      toInt_cint_length source (Nat.sub_le ..), drop_cStr hle, List.length_drop]
    by_cases hlt : dst.length < source.bytes.length - (i + marker.bytes.length)
    · rw [if_pos (by omega), if_pos hlt]
    · rw [if_neg (by omega), if_neg hlt]
      cases strcpy dst (cStr (source.bytes.drop (i + marker.bytes.length))) <;> rfl
  missing h := by
    rw [getFieldRight, myStrStr_none fun i hi => h _ ⟨i, hi, rfl⟩]
    rfl

/-! ## The fields -/

/-- `MemStr` finds the first marker. The text between two markers and the text before one are right exactly if the
destination has a NUL after them, and the text after one exactly if it does not fill the destination. -/
theorem extracts_iff (source start stop marker : CString) (dst : List Byte) :
    (∃ r, memStr (cStr source.bytes) (cStr marker.bytes) source.bytes.length marker.bytes.length = some r ∧
      ∀ i, r = some i ↔ FirstAt marker.bytes source.bytes i) ∧
    (Extracts (Between source.bytes start.bytes stop.bytes)
      (getField (cStr source.bytes) dst dst.length (cStr start.bytes) (cStr stop.bytes)) ↔
        ∀ text, Between source.bytes start.bytes stop.bytes text → text.length ≤ dst.length → dst[text.length]? = some 0) ∧
    (Extracts (Before source.bytes marker.bytes)
      (getFieldLeft (cStr source.bytes) dst dst.length (cStr marker.bytes)) ↔
        ∀ text, Before source.bytes marker.bytes text → text.length ≤ dst.length → dst[text.length]? = some 0) ∧
    (Extracts (After source.bytes marker.bytes)
      (getFieldRight (cStr source.bytes) dst dst.length (cStr marker.bytes)) ↔
        ∀ text, After source.bytes marker.bytes text → text.length ≠ dst.length) := by
  refine ⟨memStr_exact .., ?_, ?_, ?_⟩
  · rw [(getField_copies ..).copied_iff]
    exact forall₂_congr fun text h => imp_congr_right fun _ => bare_iff h.noNul dst
  · rw [(getFieldLeft_copies ..).copied_iff]
    exact forall₂_congr fun text h => imp_congr_right fun _ => bare_iff h.noNul dst
  · rw [(getFieldRight_copies ..).copied_iff]
    refine forall₂_congr fun text h => ⟨fun hc heq => ?_, fun hne hle => (strcpy_iff h.noNul hle).mpr hne⟩
    exact (strcpy_iff h.noNul heq.le).mp (hc heq.le) heq

/-- `12` between `=` and `;` of `a=12;`, in a destination of four bytes `x`; and after the `=` of `a=12`, in one of
two bytes. -/
theorem not_extracts_12 :
    ¬Extracts (Between [97, 61, 49, 50, 59] [61] [59])
      (getField (cStr [97, 61, 49, 50, 59]) [120, 120, 120, 120] 4 (cStr [61]) (cStr [59])) ∧
    ¬Extracts (After [97, 61, 49, 50] [61]) (getFieldRight (cStr [97, 61, 49, 50]) [120, 120] 2 (cStr [61])) := by
  have hfield : getField (cStr [97, 61, 49, 50, 59]) [120, 120, 120, 120] 4 (cStr [61]) (cStr [59]) =
      some (.success, [49, 50, 120, 120]) := by decide
  have hright : getFieldRight (cStr [97, 61, 49, 50]) [120, 120] 2 (cStr [61]) = none := by decide
  constructor
  · rintro ⟨ret, dst, hcall, hret⟩
    cases hfield.symm.trans hcall
    obtain ⟨text, -, hread⟩ := hret rfl
    cases hread
  · rintro ⟨ret, dst, hcall, -⟩
    cases hright.symm.trans hcall

end Miku.ZzmCommon.MyStr
