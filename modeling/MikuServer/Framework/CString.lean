import MikuServer.Framework.Mem

/-!
# C strings

A block of memory has a C string up to its first NUL (`readStr`). A function of the C
library has no value where it leaves a block that it reads or writes; `strncpy`
writes no NUL after a string that has as many bytes as it copies.

`FirstAt p s i` says that `i` is the first place where `p` occurs in `s`, and
`find?_firstAt` that a search from the front finds it.
-/

namespace Miku

def strlen (p : List Byte) : Option Nat := p.findIdx? (· = 0)

/-- The C string that a block begins with. -/
def readStr (p : List Byte) : Option (List Byte) := (strlen p).map fun n => p.take n

def strcpy (dst src : List Byte) : Option (List Byte) := do
  let n ← strlen src
  memcpy dst 0 src (n + 1)

/-- `strncpy(dst, src, n)`, which fills up with NULs where `src` is shorter. -/
def strncpy (dst src : List Byte) (n : Int) : Option (List Byte) :=
  if (strlen src).isNone ∧ src.length < n then none
  else memcpy dst 0 (src.takeWhile (· ≠ 0) ++ List.replicate n.toNat 0) n

/-- `memcmp(a, b, n) == 0`. -/
def memEq (a b : List Byte) (n : Int) : Option Bool :=
  if 0 ≤ n ∧ n ≤ a.length ∧ n ≤ b.length then some (a.take n.toNat = b.take n.toNat) else none

/-- A string whose length is an `int`. -/
structure CString where
  bytes : List Byte
  noNul : 0 ∉ bytes
  fits : bytes.length < 2 ^ 31

/-- The string behind a pointer into `s`. -/
theorem CString.exists_drop (s : CString) (i : Nat) : ∃ rest : CString, rest.bytes = s.bytes.drop i := by
  refine ⟨⟨s.bytes.drop i, fun h => s.noNul (List.mem_of_mem_drop h), ?_⟩, rfl⟩
  have hfits := s.fits
  rw [List.length_drop]
  omega

/-! ## Strings in blocks -/

variable {s dst : List Byte}

theorem strlen_append (h : 0 ∉ s) (rest : List Byte) :
    strlen (s ++ rest) = (strlen rest).map (· + s.length) := by
  have hnone : s.findIdx? (· = 0) = none := by
    rw [List.findIdx?_eq_none_iff]
    intro b hb
    exact decide_eq_false fun e => h (e ▸ hb)
  rw [strlen, List.findIdx?_append, hnone, Option.none_or, strlen]

theorem strlen_cStr (h : 0 ∉ s) : strlen (cStr s) = some s.length := by
  rw [cStr, strlen_append h]
  simp [strlen]

/-- What is behind a pointer into a string. -/
theorem drop_cStr {i : Nat} (h : i ≤ s.length) : (cStr s).drop i = cStr (s.drop i) := by
  rw [cStr, List.drop_append_of_le_length h, cStr]

/-- A block has the string `s` exactly if a NUL comes after its bytes. -/
theorem readStr_append_iff (h : 0 ∉ s) (rest : List Byte) : readStr (s ++ rest) = some s ↔ rest[0]? = some 0 := by
  rw [readStr, strlen_append h, Option.map_map]
  rcases rest with _ | ⟨b, rest⟩
  · simp [strlen]
  by_cases hb : b = 0
  · subst hb
    have hz : strlen (0 :: rest) = some 0 := rfl
    rw [hz, Option.map_some, Function.comp_apply, Nat.zero_add, List.take_left]
    exact iff_of_true rfl rfl
  · refine iff_of_false (fun hs => ?_) (by simpa using hb)
    obtain ⟨n, hn, hs⟩ := Option.map_eq_some_iff.mp hs
    rw [strlen, List.findIdx?_cons] at hn
    simp only [hb, decide_false] at hn
    obtain ⟨m, -, rfl⟩ := Option.map_eq_some_iff.mp hn
    have hlen := congrArg List.length hs
    simp only [Function.comp_apply, List.length_take, List.length_append, List.length_cons] at hlen
    omega

/-! ## Copies of strings -/

theorem strcpy_cStr (h : 0 ∉ s) (hd : s.length < dst.length) :
    strcpy dst (cStr s) = some (cStr s ++ dst.drop (s.length + 1)) := by
  have hl : (cStr s).length = s.length + 1 := List.length_append
  have hcopy : memcpy dst 0 (cStr s) (s.length + 1 : Nat) =
      some ((cStr s).take (s.length + 1) ++ dst.drop (s.length + 1)) := memcpy_front rfl hd (Nat.le_of_eq hl.symm)
  rw [List.take_of_length_le (Nat.le_of_eq hl)] at hcopy
  rw [strcpy, strlen_cStr h]
  exact hcopy

/-- The NUL is written past the block. -/
theorem strcpy_eq_none (h : 0 ∉ s) (hd : dst.length ≤ s.length) : strcpy dst (cStr s) = none := by
  rw [strcpy, strlen_cStr h]
  have hnone : memcpy dst 0 (cStr s) (s.length + 1 : Nat) = none := by
    rw [memcpy, if_neg]
    omega
  exact hnone

/-- No more than the string has, and no NUL. -/
theorem strncpy_cStr (h : 0 ∉ s) {n : Nat} (hn : n ≤ s.length) (hd : n ≤ dst.length) :
    strncpy dst (cStr s) n = some (s.take n ++ dst.drop n) := by
  have htext : (cStr s).takeWhile (· ≠ 0) = s := by
    have hall (b : Byte) (hb : b ∈ s) : decide (b ≠ 0) = true := decide_eq_true fun e => h (e ▸ hb)
    rw [cStr, List.takeWhile_append_of_pos hall]
    simp
  rw [strncpy, strlen_cStr h, if_neg (by simp), htext, Int.toNat_natCast]
  have hcopy : memcpy dst 0 (s ++ List.replicate n 0) n = some ((s ++ List.replicate n 0).take n ++ dst.drop n) :=
    memcpy_front rfl hd (by rw [List.length_append]; omega)
  rwa [List.take_append_of_le_length hn] at hcopy

/-! ## Searching -/

structure FirstAt {α : Type} (p s : List α) (i : Nat) : Prop where
  here : p <+: s.drop i
  first : ∀ j < i, ¬p <+: s.drop j

theorem FirstAt.le {α : Type} {p s : List α} {i : Nat} (h : FirstAt p s i) : i + p.length ≤ s.length := by
  have hlen := h.here.length_le
  rw [List.length_drop] at hlen
  rcases Nat.eq_zero_or_pos i with rfl | hi
  · omega
  by_contra hlt
  -- Only the empty list occurs past the end, and it occurs first at the front.
  obtain rfl : p = [] := List.eq_nil_of_length_eq_zero (by omega)
  exact h.first 0 hi List.nil_prefix

theorem FirstAt.unique {α : Type} {p s : List α} {i j : Nat} (h : FirstAt p s i) (h' : FirstAt p s j) : i = j := by
  rcases Nat.lt_trichotomy i j with hlt | rfl | hlt
  · exact absurd h.here (h'.first i hlt)
  · rfl
  · exact absurd h'.here (h.first j hlt)

theorem find?_firstAt {α : Type} [DecidableEq α] (p s : List α) (i : Nat) :
    (List.range (s.length + 1 - p.length)).find? (fun i => (s.drop i).take p.length = p) = some i ↔ FirstAt p s i := by
  have hprefix (j : Nat) : p <+: s.drop j ↔ (s.drop j).take p.length = p := by
    rw [List.prefix_iff_eq_take, eq_comm]
  rw [List.find?_range_eq_some]
  simp only [decide_eq_true_eq, Bool.not_eq_eq_eq_not, Bool.not_true, decide_eq_false_iff_not, ← hprefix, List.mem_range]
  refine ⟨fun ⟨h1, _, h2⟩ => ⟨h1, h2⟩, fun h => ⟨h.here, ?_, h.first⟩⟩
  have hle := h.le
  omega

end Miku
