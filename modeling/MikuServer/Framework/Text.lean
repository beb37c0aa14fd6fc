import Mathlib.Data.List.TakeWhile
import MikuServer.Framework.Mem

/-!
# Input streams of text

A stream is the text that is left of it. `getline` says beside the line whether the
stream ended before a newline did; `readWord` and `readInt` are `>>` into a
`std::string` and into an `int`, which read nothing where only white space is left.
An `int` is the longest decimal number that follows, or the bound that it is past,
or 0 if there is no number.

A `Word` is read back from a text in which white space follows it (`readWord_word`),
and so is a `Number` (`readInt_number`).
-/

namespace Miku

/-- `isspace`. -/
def isSpace (c : Char) : Bool := c ∈ [' ', '\t', '\n', '\x0b', '\x0c', '\r']

/-- `std::getline`: the line, what is left, and `eof()`. -/
def getline (text : List Char) : Option (List Char × List Char × Bool) :=
  match text with
  | [] => none
  | _ => some (text.takeWhile (· ≠ '\n'), (text.dropWhile (· ≠ '\n')).tail, (text.dropWhile (· ≠ '\n')).isEmpty)

def readWord (text : List Char) : Option (List Char × List Char) :=
  match text.dropWhile isSpace with
  | [] => none
  | c :: rest => some ((c :: rest).takeWhile (!isSpace ·), (c :: rest).dropWhile (!isSpace ·))

def decimal (digits : List Char) : Nat := digits.foldl (fun n c => 10 * n + (c.toNat - '0'.toNat)) 0

def readInt (text : List Char) : Option Int :=
  match text.dropWhile isSpace with
  | [] => none
  | c :: rest =>
    let (minus, digits) := if c = '-' then (true, rest) else if c = '+' then (false, rest) else (false, c :: rest)
    let value : Int := decimal (digits.takeWhile Char.isDigit)
    some (max (-2 ^ 31) (min intMax (if minus then -value else value)))

/-- Characters without white space. -/
structure Word where
  chars : List Char
  ne : chars ≠ []
  noSpace : ∀ c ∈ chars, isSpace c = false

/-- A decimal number that is an `int`. -/
structure Number where
  minus : Bool
  digits : List Char
  ne : digits ≠ []
  isDigit : ∀ c ∈ digits, c.isDigit = true
  range : (if minus then (decimal digits : Int) ≤ 2 ^ 31 else decimal digits < 2 ^ 31)

namespace Number

def value (n : Number) : Int := if n.minus then -decimal n.digits else decimal n.digits

def chars (n : Number) : List Char := if n.minus then '-' :: n.digits else n.digits

end Number

/-! ## Lines -/

variable {α : Type} {p : α → Bool} {front rest : List α}

/-- What comes before the first element that does not satisfy `p`. -/
theorem takeWhile_front (h : ∀ a ∈ front, p a = true) (hr : ∀ a ∈ rest.head?, p a = false) :
    (front ++ rest).takeWhile p = front := by
  rw [List.takeWhile_append_of_pos h]
  rcases rest with _ | ⟨a, rest⟩
  · exact List.append_nil _
  · rw [List.takeWhile_cons_of_neg (by simp [hr a rfl]), List.append_nil]

theorem dropWhile_front (h : ∀ a ∈ front, p a = true) (hr : ∀ a ∈ rest.head?, p a = false) :
    (front ++ rest).dropWhile p = rest := by
  rw [List.dropWhile_append_of_pos h]
  rcases rest with _ | ⟨a, rest⟩
  · rfl
  · rw [List.dropWhile_cons_of_neg (by simp [hr a rfl])]

theorem getline_newline {line : List Char} (h : '\n' ∉ line) (rest : List Char) :
    getline (line ++ '\n' :: rest) = some (line, rest, false) := by
  have hall : ∀ c ∈ line, decide (c ≠ '\n') = true := fun c hc => decide_eq_true fun e => h (e ▸ hc)
  have hstop : ∀ c ∈ ('\n' :: rest).head?, decide (c ≠ '\n') = false := by
    rintro c ⟨⟩
    rfl
  have hne : line ++ '\n' :: rest ≠ [] := List.append_ne_nil_of_right_ne_nil _ (List.cons_ne_nil _ _)
  rw [getline]
  · rw [takeWhile_front hall hstop, dropWhile_front hall hstop]
    rfl
  · exact hne

/-- The last line, where no newline follows it. -/
theorem getline_end {line : List Char} (h : '\n' ∉ line) (hne : line ≠ []) : getline line = some (line, [], true) := by
  have hall : ∀ c ∈ line, decide (c ≠ '\n') = true := fun c hc => decide_eq_true fun e => h (e ▸ hc)
  have hfront : (line ++ []).takeWhile (· ≠ '\n') = line := takeWhile_front hall nofun
  have hback : (line ++ []).dropWhile (· ≠ '\n') = [] := dropWhile_front hall nofun
  rw [List.append_nil] at hfront hback
  rw [getline]
  · rw [hfront, hback]
    rfl
  · exact hne

/-! ## Words and numbers -/

variable {spaces text : List Char}

theorem readWord_spaces (h : ∀ c ∈ spaces, isSpace c = true) : readWord spaces = none := by
  rw [readWord, List.dropWhile_eq_nil_iff.mpr h]

theorem readWord_word (h : ∀ c ∈ spaces, isSpace c = true) (w : Word) (hr : ∀ c ∈ text.head?, isSpace c = true) :
    readWord (spaces ++ (w.chars ++ text)) = some (w.chars, text) := by
  obtain ⟨chars, hne, hw⟩ := w
  obtain ⟨c, chars, rfl⟩ := List.exists_cons_of_ne_nil hne
  have hhead : ∀ a ∈ (c :: chars ++ text).head?, isSpace a = false := by
    rintro a ⟨⟩
    exact hw c List.mem_cons_self
  have hall : ∀ a ∈ c :: chars, (!isSpace a) = true := fun a ha => by rw [hw a ha]; rfl
  have hstop : ∀ a ∈ text.head?, (!isSpace a) = false := fun a ha => by rw [hr a ha]; rfl
  rw [readWord, dropWhile_front h hhead]
  show some ((c :: chars ++ text).takeWhile (!isSpace ·), (c :: chars ++ text).dropWhile (!isSpace ·)) = _
  rw [takeWhile_front hall hstop, dropWhile_front hall hstop]

theorem isSpace_of_isDigit {c : Char} (h : c.isDigit = true) : isSpace c = false := by
  by_contra hs
  simp only [Bool.not_eq_false, isSpace, decide_eq_true_eq, List.mem_cons, List.not_mem_nil, or_false] at hs
  rcases hs with rfl | rfl | rfl | rfl | rfl | rfl <;> cases h

theorem isDigit_of_isSpace {c : Char} (h : isSpace c = true) : c.isDigit = false := by
  by_contra hd
  rw [Bool.not_eq_false] at hd
  rw [isSpace_of_isDigit hd] at h
  cases h

theorem Number.noSpace (n : Number) : ∀ c ∈ n.chars, isSpace c = false := by
  intro c hc
  rw [chars] at hc
  split at hc
  · rcases List.mem_cons.mp hc with rfl | hc
    · rfl
    · exact isSpace_of_isDigit (n.isDigit c hc)
  · exact isSpace_of_isDigit (n.isDigit c hc)

theorem newline_not_mem (h : ∀ c ∈ text, isSpace c = false) : '\n' ∉ text := by
  intro hmem
  cases h _ hmem

theorem readInt_number (h : ∀ c ∈ spaces, isSpace c = true) (n : Number) (hr : ∀ c ∈ text.head?, isSpace c = true) :
    readInt (spaces ++ (n.chars ++ text)) = some n.value := by
  obtain ⟨minus, digits, hne, hd, hrange⟩ := n
  have hdigits : (digits ++ text).takeWhile Char.isDigit = digits :=
    takeWhile_front hd fun c hc => isDigit_of_isSpace (hr c hc)
  cases minus with
  | true =>
    have hhead : ∀ a ∈ ('-' :: digits ++ text).head?, isSpace a = false := by
      rintro a ⟨⟩
      rfl
    rw [readInt, Number.chars, if_pos rfl, dropWhile_front h hhead]
    simp only [List.cons_append, if_true, hdigits, Number.value, Option.some_inj, intMax]
    simp only [if_true] at hrange
    omega
  | false =>
    obtain ⟨c, digits, rfl⟩ := List.exists_cons_of_ne_nil hne
    have hc := hd c List.mem_cons_self
    have hhead : ∀ a ∈ (c :: digits ++ text).head?, isSpace a = false := by
      rintro a ⟨⟩
      exact isSpace_of_isDigit hc
    have hminus : c ≠ '-' := by
      rintro rfl
      cases hc
    have hplus : c ≠ '+' := by
      rintro rfl
      cases hc
    rw [readInt, Number.chars, if_neg Bool.false_ne_true, dropWhile_front h hhead]
    simp only [List.cons_append, if_neg hminus, if_neg hplus] at hdigits ⊢
    rw [hdigits]
    simp only [Number.value, Bool.false_eq_true, if_false, Option.some_inj, intMax] at hrange ⊢
    omega

end Miku
