import MikuServer.Framework.Loop
import MikuServer.Impl.BaseLog

/-!
# The rotation of the log

`concat n dir` is what the files `n`, …, 1 have, the oldest first. Moving a file
to the next index where there is none does not change it (`concat_rename`), and
removing the file `n` takes away what is at its front (`concat_remove`). So after
every call it is the end of what there was and has been written since
(`Inv.step`), and a whole rotation moves each file but the last (`rotate_ok`).
-/

namespace Miku.Common.LogFiles

/-- What the files `n`, …, 1 have. -/
def concat (dir : LogDir) : Nat → List Byte
  | 0 => []
  | n + 1 => (dir (n + 1)).getD [] ++ concat dir n

variable {dir dir' : LogDir} {n i : Nat}

theorem concat_congr (h : ∀ j, 1 ≤ j → j ≤ n → dir j = dir' j) : concat dir n = concat dir' n := by
  induction n with
  | zero => rfl
  | succ n ih =>
    rw [concat, concat, h (n + 1) (by omega) (by omega), ih fun j h1 hj => h j h1 (by omega)]

/-- A file that is not one of those. -/
theorem concat_update_of_lt (h : n < i) (c : Option (List Byte)) : concat (Function.update dir i c) n = concat dir n :=
  concat_congr fun j _ hj => Function.update_of_ne (by omega) _ _

/-- Two neighbouring files that have the same together. -/
theorem concat_congr_pair (h1 : 2 ≤ i) (hn : i ≤ n) (h : ∀ j, j ≠ i → j ≠ i - 1 → dir j = dir' j)
    (hp : (dir i).getD [] ++ (dir (i - 1)).getD [] = (dir' i).getD [] ++ (dir' (i - 1)).getD []) :
    concat dir n = concat dir' n := by
  induction n with
  | zero => omega
  | succ n ih =>
    rcases Nat.lt_or_ge i (n + 1) with hlt | hge
    · rw [concat, concat, h (n + 1) (by omega) (by omega), ih (by omega)]
    · obtain rfl : i = n + 1 := by omega
      obtain ⟨k, rfl⟩ : ∃ k, n = k + 1 := ⟨n - 1, by omega⟩
      rw [Nat.add_sub_cancel] at h hp
      have hrest : concat dir k = concat dir' k := concat_congr fun j _ hj => h j (by omega) (by omega)
      rw [concat, concat, concat, concat, hrest, ← List.append_assoc, hp, List.append_assoc]

/-- `rename`, where there is no file with the new name. -/
theorem concat_rename (h1 : 2 ≤ i) (hn : i ≤ n) (hi : dir i = none) (c : List Byte) (hc : dir (i - 1) = some c) :
    concat (Function.update (Function.update dir i (some c)) (i - 1) none) n = concat dir n := by
  have hne : i ≠ i - 1 := by omega
  refine (concat_congr_pair h1 hn (fun j hj hj' => ?_) ?_).symm
  · rw [Function.update_of_ne hj', Function.update_of_ne hj]
  · rw [Function.update_self, Function.update_of_ne hne, Function.update_self, hi, hc]
    simp

/-- `remove` of the last file. -/
theorem concat_remove (hn : 0 < n) : concat dir n = (dir n).getD [] ++ concat (Function.update dir n none) n := by
  obtain ⟨k, rfl⟩ : ∃ k, n = k + 1 := ⟨n - 1, by omega⟩
  rw [concat, concat, Function.update_self, concat_update_of_lt (Nat.lt_succ_self k)]
  rfl

/-- Bytes at the end of the first file. -/
theorem concat_append (hn : 0 < n) (c : List Byte) :
    concat (Function.update dir 1 (some ((dir 1).getD [] ++ c))) n = concat dir n ++ c := by
  induction n with
  | zero => omega
  | succ n ih =>
    rcases Nat.eq_zero_or_pos n with rfl | h0
    · rw [concat, concat, Function.update_self]
      simp [concat]
    · rw [concat, concat, ih h0, Function.update_of_ne (by omega), List.append_assoc]

/-! ## Runs -/

/-- The bytes that a step writes. -/
def writes (self : LogFiles) : Event → List Byte
  | .next =>
    match self.place with
    | .fwrite (line :: _) => line
    | _ => []
  | _ => []

/-- What the place says of the files: in a rotation there is no file with the index that the next
is moved to, and the file that is written to is there. -/
def AtPlace (n : Nat) (dir : LogDir) : FilePlace → Prop
  | .idle => True
  | .fopen _ => True
  | .fwrite _ => dir 1 ≠ none
  | .remove i => 2 ≤ i ∧ i ≤ n ∧ (i < n → dir i = none)
  | .rename i => 2 ≤ i ∧ i ≤ n ∧ dir i = none

/-- The files 1, …, `n` have the end of `all`. -/
structure Kept (n : Nat) (all : List Byte) (dir : LogDir) (place : FilePlace) : Prop where
  names : ∀ i, dir i ≠ none → 1 ≤ i ∧ i ≤ n
  place : AtPlace n dir place
  suffix : concat dir n <:+ all

namespace Kept

variable {all line c : List Byte} {place : FilePlace} {lines : List (List Byte)}

/-- Another place, and the same files. -/
theorem at_place (hk : Kept n all dir place) {place' : FilePlace} (h : AtPlace n dir place') : Kept n all dir place' :=
  ⟨hk.names, h, hk.suffix⟩

/-- A turn of the loop of `RefleshLogFile` begins. -/
theorem refleshFrom (hk : Kept n all dir place) (hi : i ≤ n) (h : i < n → dir i = none) :
    Kept n all dir (refleshFrom i) := by
  rw [LogFiles.refleshFrom]
  split
  · exact hk.at_place ⟨by omega, hi, h⟩
  · exact hk.at_place trivial

/-- The file 1 has `line` more than it had. -/
theorem append (hk : Kept n all dir place) (hn : 2 ≤ n) (line : List Byte) (lines : List (List Byte)) :
    Kept n (all ++ line) (Function.update dir 1 (some ((dir 1).getD [] ++ line))) (.fwrite lines) where
  names i hi := by
    by_cases h1 : i = 1
    · omega
    · rw [Function.update_of_ne h1] at hi
      exact hk.names i hi
  place := by
    show Function.update dir 1 _ 1 ≠ none
    rw [Function.update_self]
    exact Option.some_ne_none _
  suffix := by
    obtain ⟨front, hf⟩ := hk.suffix
    exact ⟨front, by rw [concat_append (by omega), ← hf, List.append_assoc]⟩

theorem remove (hk : Kept n all dir (.remove i)) : Kept n all (Function.update dir i none) (.rename i) := by
  obtain ⟨h2, hle, hnone⟩ := hk.place
  refine ⟨fun j hj => ?_, ⟨h2, hle, Function.update_self ..⟩, ?_⟩
  · by_cases hji : j = i
    · omega
    · rw [Function.update_of_ne hji] at hj
      exact hk.names j hj
  · rcases Nat.lt_or_ge i n with hlt | hge
    · have hsame : Function.update dir i none = dir := by rw [← hnone hlt, Function.update_eq_self]
      rw [hsame]
      exact hk.suffix
    · obtain rfl : i = n := by omega
      have hfront : concat dir i = (dir i).getD [] ++ concat (Function.update dir i none) i :=
        concat_remove (by omega)
      exact (hfront ▸ List.suffix_append ..).trans hk.suffix

theorem rename (hk : Kept n all dir (.rename i)) (hc : dir (i - 1) = some c) :
    Kept n all (Function.update (Function.update dir i (some c)) (i - 1) none) (LogFiles.refleshFrom (i - 1)) := by
  obtain ⟨h2, hle, hnone⟩ := hk.place
  have hk' : Kept n all (Function.update (Function.update dir i (some c)) (i - 1) none) .idle := by
    refine ⟨fun j hj => ?_, trivial, ?_⟩
    · by_cases hji : j = i
      · omega
      · by_cases hji' : j = i - 1
        · omega
        · rw [Function.update_of_ne hji', Function.update_of_ne hji] at hj
          exact hk.names j hj
    · rw [concat_rename h2 hle hnone c hc]
      exact hk.suffix
  exact hk'.refleshFrom (by omega) fun _ => Function.update_self ..

theorem rename_none (hk : Kept n all dir (.rename i)) (hc : dir (i - 1) = none) :
    Kept n all dir (LogFiles.refleshFrom (i - 1)) := by
  obtain ⟨-, hle, -⟩ := hk.place
  exact hk.refleshFrom (by omega) fun _ => hc

end Kept

/-- The files, and what has been written to them. -/
structure History where
  files : LogFiles
  written : List Byte

namespace History

def start (uiLogNum : Nat) (dir : LogDir) : History := ⟨⟨uiLogNum, false, dir, .idle⟩, []⟩

def step (s : History) (e : Event) : Option History := do
  let files ← s.files.step e
  some ⟨files, s.written ++ s.files.writes e⟩

def Inv (n : Nat) (initial : List Byte) (s : History) : Prop :=
  s.files.uiLogNum = n ∧ Kept n (initial ++ s.written) s.files.dir s.files.place

variable {s t : History} {initial : List Byte}

theorem start_inv (n : Nat) {dir : LogDir} (h : ∀ i, dir i ≠ none → 1 ≤ i ∧ i ≤ n) :
    Inv n (concat dir n) (start n dir) :=
  ⟨rfl, h, trivial, [], (List.append_nil _).symm⟩

/-- A call that changes the files. -/
theorem Inv.next (hn : 2 ≤ n) (hi : Inv n initial s) (h : s.step .next = some t) : Inv n initial t := by
  obtain ⟨hnum, hk⟩ := hi
  obtain ⟨⟨num, running, dir, place⟩, written⟩ := s
  simp only at hnum hk
  subst hnum
  simp only [History.step, LogFiles.step, Option.bind_eq_bind, Option.bind_eq_some_iff] at h
  obtain ⟨files, h, e⟩ := h
  cases e
  cases place with
  | idle => cases h
  | fopen lines =>
    cases h
    have hk' := hk.append hn [] lines
    rw [List.append_nil] at hk'
    exact ⟨rfl, by simpa only [writes, List.append_nil] using hk'⟩
  | fwrite lines =>
    obtain ⟨content, hc⟩ := Option.ne_none_iff_exists'.mp hk.place
    cases lines with
    | nil =>
      simp only [LogFiles.next, hc, Option.bind_eq_bind, Option.bind_some, Option.some_inj, closeFilePtr,
        refleshLogFile] at h
      split at h
      · cases h
        refine ⟨rfl, ?_⟩
        simp only [writes, List.append_nil]
        exact hk.refleshFrom le_rfl fun hlt => absurd hlt (Nat.lt_irrefl _)
      · cases h
        refine ⟨rfl, ?_⟩
        simp only [writes, List.append_nil]
        exact hk.at_place trivial
    | cons line lines =>
      simp only [LogFiles.next, hc, Option.bind_eq_bind, Option.bind_some, Option.some_inj] at h
      cases h
      have hk' := hk.append hn line lines
      rw [hc, Option.getD_some, List.append_assoc] at hk'
      exact ⟨rfl, hk'⟩
  | remove i =>
    cases h
    refine ⟨rfl, ?_⟩
    simp only [writes, List.append_nil]
    exact hk.remove
  | rename i =>
    simp only [LogFiles.next] at h
    split at h <;> rename_i hc <;> cases h <;> refine ⟨rfl, ?_⟩ <;> simp only [writes, List.append_nil]
    · exact hk.rename_none hc
    · exact hk.rename hc

theorem Inv.step (hn : 2 ≤ n) (hi : Inv n initial s) {e : Event} (h : s.step e = some t) : Inv n initial t := by
  cases e with
  | next => exact hi.next hn h
  | init =>
    obtain ⟨hnum, hk⟩ := hi
    simp only [History.step, LogFiles.step, Option.bind_eq_bind, Option.bind_eq_some_iff] at h
    obtain ⟨files, h, e⟩ := h
    cases e
    split at h
    · cases h
      simp only [Inv, writes, List.append_nil, LogFiles.init]
      split
      · exact ⟨hnum, hk⟩
      · refine ⟨hnum, ?_⟩
        show Kept n _ s.files.dir (refleshFrom s.files.uiLogNum)
        rw [hnum]
        exact hk.refleshFrom le_rfl fun hlt => absurd hlt (Nat.lt_irrefl _)
    · cases h
  | writeLogToDisk vect =>
    obtain ⟨hnum, hk⟩ := hi
    simp only [History.step, LogFiles.step, Option.bind_eq_bind, Option.bind_eq_some_iff] at h
    obtain ⟨files, h, e⟩ := h
    cases e
    split at h
    · cases h
      simp only [Inv, writes, List.append_nil, LogFiles.writeLogToDisk]
      split
      · exact ⟨hnum, hk⟩
      · exact ⟨hnum, hk.at_place trivial⟩
    · cases h

end History

/-! ## A whole rotation -/

/-- Each file but the last has the next index. -/
def moved (dir : LogDir) (i : Nat) : LogDir := fun j => if j = 1 then none else if j ≤ i then dir (j - 1) else dir j

variable {files : LogFiles}

/-- A turn of the loop of `RefleshLogFile`. -/
theorem turn_ok (h2 : 2 ≤ i) (hp : files.place = .remove i) :
    ∃ dir', [Event.next, .next].foldlM step files = some { files with dir := dir', place := refleshFrom (i - 1) } ∧
      dir' = fun j => if j = i then files.dir (i - 1) else if j = i - 1 then none else files.dir j := by
  have hne : i - 1 ≠ i := by omega
  have hold : Function.update files.dir i none (i - 1) = files.dir (i - 1) := Function.update_of_ne hne ..
  refine ⟨_, ?_, rfl⟩
  rcases hc : files.dir (i - 1) with _ | content
  · have hdir : Function.update files.dir i none =
        fun j => if j = i then none else if j = i - 1 then none else files.dir j := by
      funext j
      rw [Function.update_apply]
      split
      · rfl
      · split <;> rename_i hj
        · rw [hj, hc]
        · rfl
    simp [step, next, hp, hold, hc, ← hdir]
  · have hdir : Function.update (Function.update (Function.update files.dir i none) i (some content)) (i - 1) none =
        fun j => if j = i then some content else if j = i - 1 then none else files.dir j := by
      funext j
      simp only [Function.update_apply]
      split <;> split <;> first | rfl | omega
    simp [step, next, hp, hold, hc, ← hdir]

/-- The turns from `i` on. -/
theorem rotate_ok (h2 : 2 ≤ i) (hp : files.place = .remove i) :
    (List.replicate (2 * (i - 1)) Event.next).foldlM step files =
      some { files with dir := moved files.dir i, place := .idle } := by
  induction i generalizing files with
  | zero => omega
  | succ i ih =>
    obtain ⟨dir', hturn, hdir⟩ := turn_ok h2 hp
    rw [Nat.add_sub_cancel] at hturn hdir ⊢
    rw [show 2 * i = 2 + 2 * (i - 1) by omega, List.replicate_add, List.foldlM_append]
    show ([Event.next, .next].foldlM step files >>= _) = _
    rw [hturn, Option.bind_eq_bind, Option.bind_some]
    rcases Nat.lt_or_ge i 2 with h1 | h1
    · obtain rfl : i = 1 := by omega
      have hmoved : dir' = moved files.dir 2 := by
        funext j
        simp only [hdir, moved]
        rcases Nat.lt_or_ge 2 j with hj | hj
        · rw [if_neg (by omega), if_neg (by omega), if_neg (by omega), if_neg (by omega)]
        · obtain rfl | rfl | rfl : j = 0 ∨ j = 1 ∨ j = 2 := by omega
          · rfl
          · rfl
          · rfl
      rw [hmoved]
      rfl
    · have hfrom : refleshFrom i = .remove i := if_pos h1
      have hmoved : moved dir' i = moved files.dir (i + 1) := by
        funext j
        simp only [moved, hdir]
        split
        · rfl
        · split
          · rw [if_neg (by omega), if_neg (by omega), if_pos (by omega)]
          · split
            · subst j
              rw [if_pos le_rfl, Nat.add_sub_cancel]
            · rw [if_neg (by omega), if_neg (by omega)]
      rw [hfrom, ih h1 rfl, hmoved]

/-- A rotation takes away what the last file has. -/
theorem concat_moved (hn : 0 < n) (dir : LogDir) : concat dir n = (dir n).getD [] ++ concat (moved dir n) n := by
  have hshift : ∀ k, k < n → concat (moved dir n) (k + 1) = concat dir k := by
    intro k
    induction k with
    | zero =>
      intro _
      rfl
    | succ k ih =>
      intro hk
      have hmoved : moved dir n (k + 1 + 1) = dir (k + 1) := by
        rw [moved, if_neg (by omega), if_pos (by omega), Nat.add_sub_cancel]
      rw [concat, ih (by omega), hmoved, concat]
  obtain ⟨k, rfl⟩ : ∃ k, n = k + 1 := ⟨n - 1, by omega⟩
  rw [hshift k (Nat.lt_succ_self k), concat]

/-- In every state that is reached the files have the end of what there was at first and has been
written since, there are none but the files 1, …, `n`, and a rotation that begins there takes away what
the file `n` has and nothing else. -/
theorem log_run {n : Nat} (hn : 2 ≤ n) {dir : LogDir} (hd : ∀ i, dir i ≠ none → 1 ≤ i ∧ i ≤ n) (es : List Event)
    {s : History} (h : es.foldlM History.step (.start n dir) = some s) :
    concat s.files.dir n <:+ concat dir n ++ s.written ∧ (∀ i, s.files.dir i ≠ none → 1 ≤ i ∧ i ≤ n) ∧
      (s.files.place = .remove n → ∃ files, (List.replicate (2 * (n - 1)) Event.next).foldlM step s.files = some files ∧
        files.place = .idle ∧ concat s.files.dir n = (s.files.dir n).getD [] ++ concat files.dir n) := by
  have hi : History.Inv n (concat dir n) s :=
    foldlM_inv (fun _ _ _ hi ht => hi.step hn ht) (History.start_inv n hd) h
  refine ⟨hi.2.suffix, hi.2.names, fun hp => ⟨_, rotate_ok hn hp, rfl, ?_⟩⟩
  exact concat_moved (by omega) s.files.dir

/-- Two files, of which the older is removed at once; then a line is written. -/
theorem log_run_example :
    ∃ s, [Event.init, .next, .next, .writeLogToDisk [[3]], .next, .next, .next].foldlM History.step
        (.start 2 fun i => if i = 1 then some [2] else if i = 2 then some [1] else none) = some s ∧
      concat s.files.dir 2 <:+ concat (fun i => if i = 1 then some [2] else if i = 2 then some [1] else none) 2 ++ s.written ∧
      (∀ i, s.files.dir i ≠ none → 1 ≤ i ∧ i ≤ 2) ∧
      (s.files.place = .remove 2 → ∃ files, (List.replicate (2 * (2 - 1)) Event.next).foldlM step s.files = some files ∧
        files.place = .idle ∧ concat s.files.dir 2 = (s.files.dir 2).getD [] ++ concat files.dir 2) := by
  refine ⟨_, rfl, log_run (by decide) (fun i hi => ?_)
    [.init, .next, .next, .writeLogToDisk [[3]], .next, .next, .next] rfl⟩
  split at hi
  · omega
  · split at hi
    · omega
    · exact absurd rfl hi

end Miku.Common.LogFiles
