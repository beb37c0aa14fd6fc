import Mathlib.Data.List.Basic
import MikuServer.Impl.ServerConfig

/-!
# The lines of a configuration

A `Line` sets a member, is blank or is a comment. A text of lines that all end with a
newline is read to its end, so each member has the value of the last line that names
it (`getConfig_lines`). A last line without a newline is not read
(`getConfig_lines_append`), since the loop is left where `getline` reaches the end
of the file.
-/

namespace Miku.Common

/-- White space within a line. -/
structure Spaces where
  chars : List Char
  blank : ∀ c ∈ chars, isSpace c = true ∧ c ≠ '\n'

/-- A line that `GetConfig` is meant for. -/
inductive Line (keys : ConfigKeys)
  | str (name : List Char) (m : StrMember) (known : keys.str.lookup name = some m) (lead sep : Spaces)
    (sep_ne : sep.chars ≠ []) (value : Word) (trail : Spaces)
  | int (name : List Char) (m : IntMember) (known : keys.int.lookup name = some m) (lead sep : Spaces)
    (sep_ne : sep.chars ≠ []) (value : Number) (trail : Spaces)
  | blank (spaces : Spaces)
  | comment (text : List Char) (h : '\n' ∉ text)

namespace Line

variable {keys : ConfigKeys}

def text : Line keys → List Char
  | str name _ _ lead sep _ value trail => lead.chars ++ (name ++ (sep.chars ++ (value.chars ++ trail.chars)))
  | int name _ _ lead sep _ value trail => lead.chars ++ (name ++ (sep.chars ++ (value.chars ++ trail.chars)))
  | blank spaces => spaces.chars
  | comment text _ => '#' :: text

def withNewline (l : Line keys) : List Char := l.text ++ ['\n']

/-- The value that the line gives to `m`. -/
def strValue (m : StrMember) : Line keys → Option (List Char)
  | str _ m' _ _ _ _ value _ => if m' = m then some value.chars else none
  | _ => none

def intValue (m : IntMember) : Line keys → Option Int
  | int _ m' _ _ _ _ value _ => if m' = m then some value.value else none
  | _ => none

end Line

section

variable {keys : ConfigKeys}

/-- The value of the last line that names `m`, or the one that it had. -/
def strAfter (self : Config) (lines : List (Line keys)) (m : StrMember) : List Char :=
  (lines.reverse.findSome? (Line.strValue m)).getD (self.str m)

def intAfter (self : Config) (lines : List (Line keys)) (m : IntMember) : Int :=
  (lines.reverse.findSome? (Line.intValue m)).getD (self.int m)

/-- The text of lines, with or without a newline after the last one. -/
def textOf (lines : List (Line keys)) (newline : Bool) : List Char :=
  let text := lines.flatMap Line.withNewline
  if newline then text else text.dropLast

end

/-- Every member has the value of the last line that names it, or else the one that it had, and a newline after
the text makes no difference. -/
def Honours (server : Server) (self : Config) (lines : List (Line server.configKeys)) (newline : Bool) : Prop :=
  ∃ ret c, server.getConfig self (textOf lines newline) = some (ret, c) ∧
    (∀ m, c.str m = strAfter self lines m) ∧ (∀ m, c.int m = intAfter self lines m) ∧
    server.getConfig self (textOf lines newline ++ ['\n']) = some (ret, c)

/-- The line gives its member the value that it has after the lines before. -/
def Line.Repeats {keys : ConfigKeys} (self : Config) (before : List (Line keys)) : Line keys → Prop
  | str _ m _ _ _ _ value _ => strAfter self before m = value.chars
  | int _ m _ _ _ _ value _ => intAfter self before m = value.value
  | _ => True

/-! ## One line -/

namespace Spaces

theorem isSpace (s : Spaces) : ∀ c ∈ s.chars, Miku.isSpace c = true := fun c hc => (s.blank c hc).1

theorem head? (s : Spaces) : ∀ c ∈ s.chars.head?, Miku.isSpace c = true := fun c hc =>
  s.isSpace c (List.mem_of_mem_head? hc)

end Spaces

section

variable {keys : ConfigKeys} {self : Config} {name : List Char}

namespace ConfigKeys

theorem mem_of_lookup {β : Type} {table : List (List Char × β)} {m : β} (h : table.lookup name = some m) :
    (name, m) ∈ table := by
  obtain ⟨l₁, l₂, rfl, -⟩ := List.lookup_eq_some_iff.mp h
  exact List.mem_append_right _ List.mem_cons_self

theorem isName_str {m : StrMember} (h : keys.str.lookup name = some m) : IsName name :=
  keys.str_name _ (mem_of_lookup h)

theorem isName_int {m : IntMember} (h : keys.int.lookup name = some m) : IsName name :=
  keys.int_name _ (mem_of_lookup h)

/-- What is no name is none that is known. -/
theorem lookup_eq_none (h : ¬IsName name) : keys.str.lookup name = none ∧ keys.int.lookup name = none :=
  ⟨Option.eq_none_iff_forall_ne_some.mpr fun _ hm => h (isName_str hm),
    Option.eq_none_iff_forall_ne_some.mpr fun _ hm => h (isName_int hm)⟩

/-- The first word of a line that is a name. -/
theorem readLine_name (hn : IsName name) (lead sep : Spaces) (hne : sep.chars ≠ []) (rest : List Char) :
    (lead.chars ++ (name ++ (sep.chars ++ rest))).all (· ∈ [' ', '#']) = false ∧
      readWord (lead.chars ++ (name ++ (sep.chars ++ rest))) = some (name, sep.chars ++ rest) := by
  constructor
  · obtain ⟨c, chars, rfl⟩ := List.exists_cons_of_ne_nil hn.1
    obtain ⟨hs, hc⟩ := hn.2 c List.mem_cons_self
    rw [List.all_eq_false]
    refine ⟨c, by simp, ?_⟩
    have hblank : c ≠ ' ' := by
      rintro rfl
      cases hs
    simp [hblank, hc]
  · refine readWord_word lead.isSpace ⟨name, hn.1, fun c hc => (hn.2 c hc).1⟩ ?_
    obtain ⟨c, chars, he⟩ := List.exists_cons_of_ne_nil hne
    rw [he]
    rintro _ ⟨⟩
    exact sep.isSpace c (he ▸ List.mem_cons_self)

/-- A line whose first word is no name. -/
theorem readLine_other {line : List Char} (h : ¬IsName ((readWord line).getD ([], [])).1) :
    keys.readLine self line = some self := by
  obtain ⟨hstr, hint⟩ := keys.lookup_eq_none h
  rw [readLine]
  split
  · rfl
  · simp only [hstr, hint]

end ConfigKeys

namespace Line

/-- What the line sets. -/
def apply (self : Config) : Line keys → Config
  | str _ m _ _ _ _ value _ => self.setStr m value.chars
  | int _ m _ _ _ _ value _ => self.setInt m value.value
  | _ => self

theorem readLine_text (self : Config) (l : Line keys) : keys.readLine self l.text = some (l.apply self) := by
  cases l with
  | str name m known lead sep sep_ne value trail =>
    obtain ⟨hall, hword⟩ := ConfigKeys.readLine_name (ConfigKeys.isName_str known) lead sep sep_ne (value.chars ++ trail.chars)
    have hvalue := readWord_word sep.isSpace value trail.head?
    rw [text, ConfigKeys.readLine, hall, hword]
    simp only [Bool.false_eq_true, if_false, Option.getD_some, known, hvalue, apply]
  | int name m known lead sep sep_ne value trail =>
    obtain ⟨hall, hword⟩ := ConfigKeys.readLine_name (ConfigKeys.isName_int known) lead sep sep_ne (value.chars ++ trail.chars)
    have hvalue := readInt_number sep.isSpace value trail.head?
    have hstr := keys.disjoint _ (ConfigKeys.mem_of_lookup known)
    rw [text, ConfigKeys.readLine, hall, hword]
    simp only [Bool.false_eq_true, if_false, Option.getD_some, hstr, known, hvalue, Option.map_some, apply]
  | blank spaces =>
    refine ConfigKeys.readLine_other ?_
    rw [text, readWord_spaces spaces.isSpace]
    exact fun h => h.1 rfl
  | comment rest h =>
    refine ConfigKeys.readLine_other fun hn => ?_
    exact (hn.2 '#' (List.mem_cons_self)).2 rfl

theorem newline_not_mem_spaces (s : Spaces) : '\n' ∉ s.chars := fun h => (s.blank _ h).2 rfl

theorem newline_not_mem_setting (hn : IsName name) (lead sep trail : Spaces) {value : List Char}
    (hv : ∀ c ∈ value, isSpace c = false) :
    '\n' ∉ lead.chars ++ (name ++ (sep.chars ++ (value ++ trail.chars))) := by
  have hname : '\n' ∉ name := Miku.newline_not_mem fun c hc => (hn.2 c hc).1
  simp only [List.mem_append, not_or]
  exact ⟨newline_not_mem_spaces lead, hname, newline_not_mem_spaces sep, Miku.newline_not_mem hv,
    newline_not_mem_spaces trail⟩

theorem newline_not_mem (l : Line keys) : '\n' ∉ l.text := by
  cases l with
  | str name m known lead sep sep_ne value trail =>
    exact newline_not_mem_setting (ConfigKeys.isName_str known) lead sep trail value.noSpace
  | int name m known lead sep sep_ne value trail =>
    exact newline_not_mem_setting (ConfigKeys.isName_int known) lead sep trail value.noSpace
  | blank spaces => exact newline_not_mem_spaces spaces
  | comment rest h =>
    rw [text, List.mem_cons, not_or]
    exact ⟨by decide, h⟩

theorem apply_str (self : Config) (l : Line keys) (m : StrMember) :
    (l.apply self).str m = (l.strValue m).getD (self.str m) := by
  cases l with
  | str name m' =>
    simp only [apply, Config.setStr, strValue, Function.update_apply, eq_comm (a := m)]
    split <;> rfl
  | int | blank | comment => rfl

theorem apply_int (self : Config) (l : Line keys) (m : IntMember) :
    (l.apply self).int m = (l.intValue m).getD (self.int m) := by
  cases l with
  | int name m' =>
    simp only [apply, Config.setInt, intValue, Function.update_apply, eq_comm (a := m)]
    split <;> rfl
  | str | blank | comment => rfl

end Line

/-! ## All lines -/

/-- What the lines set. -/
def settings (self : Config) (lines : List (Line keys)) : Config := lines.foldl Line.apply self

theorem settings_concat (self : Config) (lines : List (Line keys)) (l : Line keys) :
    settings self (lines ++ [l]) = l.apply (settings self lines) := List.foldl_concat ..

theorem settings_str (self : Config) (lines : List (Line keys)) (m : StrMember) :
    (settings self lines).str m = strAfter self lines m := by
  induction lines using List.reverseRecOn with
  | nil => rfl
  | append_singleton lines l ih =>
    rw [settings_concat, l.apply_str, ih, strAfter, strAfter, List.reverse_concat, List.findSome?_cons]
    cases l.strValue m <;> rfl

theorem settings_int (self : Config) (lines : List (Line keys)) (m : IntMember) :
    (settings self lines).int m = intAfter self lines m := by
  induction lines using List.reverseRecOn with
  | nil => rfl
  | append_singleton lines l ih =>
    rw [settings_concat, l.apply_int, ih, intAfter, intAfter, List.reverse_concat, List.findSome?_cons]
    cases l.intValue m <;> rfl

/-- Lines that end with a newline are read one after the other. -/
theorem doWhile_lines (self : Config) (lines : List (Line keys)) (rest : List Char) (fuel : Nat) :
    doWhile keys.turn (lines.length + fuel) (lines.flatMap Line.withNewline ++ rest, self) =
      doWhile keys.turn fuel (rest, settings self lines) := by
  induction lines generalizing self with
  | nil => simp [settings]
  | cons l lines ih =>
    have hturn : keys.turn ((l :: lines).flatMap Line.withNewline ++ rest, self) =
        some ((lines.flatMap Line.withNewline ++ rest, l.apply self), true) := by
      have htext : (l :: lines).flatMap Line.withNewline ++ rest =
          l.text ++ '\n' :: (lines.flatMap Line.withNewline ++ rest) := by
        simp only [List.flatMap_cons, Line.withNewline, List.append_assoc, List.cons_append, List.nil_append]
      rw [ConfigKeys.turn, htext, getline_newline l.newline_not_mem]
      simp only [Bool.false_eq_true, if_false, l.readLine_text, Option.map_some]
    rw [List.length_cons, Nat.add_right_comm, doWhile_next hturn, ih]
    rfl

theorem length_lines_le (lines : List (Line keys)) :
    lines.length ≤ (lines.flatMap Line.withNewline).length := by
  induction lines with
  | nil => exact Nat.le_refl 0
  | cons l lines ih =>
    simp only [List.flatMap_cons, Line.withNewline, List.length_append, List.length_cons, List.length_nil] at ih ⊢
    omega

namespace ConfigKeys

/-- What comes after the last newline is not read. -/
theorem getConfig_lines_append (self : Config) (lines : List (Line keys)) {rest : List Char} (h : '\n' ∉ rest) :
    keys.getConfig self (lines.flatMap Line.withNewline ++ rest) =
      some (decide ((settings self lines).int .serverPort ≠ 0), settings self lines) := by
  obtain ⟨fuel, hfuel⟩ := Nat.exists_eq_add_of_le (length_lines_le lines)
  have hlen : (lines.flatMap Line.withNewline ++ rest).length + 1 =
      lines.length + (fuel + rest.length + 1) := by
    rw [List.length_append]
    omega
  have hturn : keys.turn (rest, settings self lines) =
      some (([], settings self lines), false) := by
    rcases rest with _ | ⟨c, rest⟩
    · rfl
    · rw [turn, getline_end h (List.cons_ne_nil c rest)]
      rfl
  rw [getConfig, hlen, doWhile_lines, doWhile_stop hturn]
  rfl

theorem getConfig_lines (self : Config) (lines : List (Line keys)) :
    keys.getConfig self (lines.flatMap Line.withNewline) =
      some (decide ((settings self lines).int .serverPort ≠ 0), settings self lines) := by
  have h := getConfig_lines_append self lines (List.not_mem_nil (a := '\n'))
  rwa [List.append_nil] at h

end ConfigKeys

/-! ## The last line -/

theorem flatMap_concat (lines : List (Line keys)) (l : Line keys) :
    (lines ++ [l]).flatMap Line.withNewline = (lines.flatMap Line.withNewline ++ l.text) ++ ['\n'] := by
  rw [List.flatMap_append, List.flatMap_singleton, Line.withNewline, List.append_assoc]

/-- The last line is cut off before its newline. -/
theorem textOf_concat (lines : List (Line keys)) (l : Line keys) :
    textOf (lines ++ [l]) false = lines.flatMap Line.withNewline ++ l.text := by
  show ((lines ++ [l]).flatMap Line.withNewline).dropLast = _
  rw [flatMap_concat, List.dropLast_concat]

/-- An empty line. -/
def empty : Line keys := .blank ⟨[], nofun⟩

theorem textOf_newline (lines : List (Line keys)) :
    textOf lines true ++ ['\n'] = (lines ++ [empty]).flatMap Line.withNewline := by
  rw [flatMap_concat]
  exact congrArg (· ++ ['\n']) (List.append_nil _).symm

theorem repeats_iff (self : Config) (lines : List (Line keys)) (l : Line keys) :
    l.Repeats self lines ↔ l.apply (settings self lines) = settings self lines := by
  cases l with
  | str name m known lead sep sep_ne value trail =>
    rw [Line.Repeats, ← settings_str, Line.apply, Config.setStr, Config.ext_iff]
    rw [and_iff_left rfl, Function.update_eq_self_iff, eq_comm]
  | int name m known lead sep sep_ne value trail =>
    rw [Line.Repeats, ← settings_int, Line.apply, Config.setInt, Config.ext_iff]
    rw [and_iff_right rfl, Function.update_eq_self_iff, eq_comm]
  | blank | comment => exact iff_of_true trivial rfl

end

variable {server : Server} {self : Config} {lines : List (Line server.configKeys)}

theorem getConfig_eq (server : Server) : server.getConfig = server.configKeys.getConfig := by
  cases server <;> rfl

/-- What is read of the text, and of the text and a newline. -/
theorem honours_of_settings {newline : Bool} {read read' : List (Line server.configKeys)}
    (h : server.configKeys.getConfig self (textOf lines newline) =
      some (decide ((settings self read).int .serverPort ≠ 0), settings self read))
    (h' : server.configKeys.getConfig self (textOf lines newline ++ ['\n']) =
      some (decide ((settings self read').int .serverPort ≠ 0), settings self read'))
    (hread : settings self read' = settings self lines) :
    Honours server self lines newline ↔ settings self read = settings self lines := by
  rw [← getConfig_eq] at h h'
  constructor
  · rintro ⟨ret, c, hc, hstr, hint, -⟩
    cases h.symm.trans hc
    refine Config.ext (funext fun m => ?_) (funext fun m => ?_)
    · rw [hstr, settings_str]
    · rw [hint, settings_int]
  · intro heq
    rw [hread, ← heq] at h'
    refine ⟨_, _, h, fun m => ?_, fun m => ?_, h'⟩
    · rw [heq, settings_str]
    · rw [heq, settings_int]

/-- A text is honoured exactly if it ends with a newline, or its last line sets nothing that the lines before it
leave otherwise. -/
theorem honours_iff (server : Server) (self : Config) (lines : List (Line server.configKeys)) (newline : Bool) :
    Honours server self lines newline ↔
      newline = true ∨ ∀ l ∈ lines.getLast?, l.Repeats self lines.dropLast := by
  cases newline with
  | true =>
    have h := server.configKeys.getConfig_lines self lines
    have h' := server.configKeys.getConfig_lines self (lines ++ [empty])
    rw [← textOf_newline] at h'
    rw [honours_of_settings h h' (settings_concat ..)]
    exact iff_of_true rfl (.inl rfl)
  | false =>
    rcases lines.eq_nil_or_concat' with rfl | ⟨lines, l, rfl⟩
    · have h := server.configKeys.getConfig_lines self []
      have h' := server.configKeys.getConfig_lines self [empty]
      rw [honours_of_settings h h' rfl]
      exact iff_of_true rfl (.inr nofun)
    · have h := server.configKeys.getConfig_lines_append self lines l.newline_not_mem
      have h' := server.configKeys.getConfig_lines self (lines ++ [l])
      rw [flatMap_concat] at h'
      rw [← textOf_concat] at h h'
      rw [honours_of_settings h h' rfl, settings_concat, eq_comm, ← repeats_iff]
      simp

/-- `port 5560` is the whole text of the room server's configuration. -/
theorem not_honours_port : ¬Honours .room ⟨fun _ => [], fun _ => 0⟩
    [.int "port".toList .serverPort rfl ⟨[], nofun⟩ ⟨[' '], List.forall_mem_singleton.mpr ⟨rfl, by decide⟩⟩
      (by decide) ⟨false, "5560".toList, by decide, List.all_eq_true.mp rfl, by decide⟩ ⟨[], nofun⟩] false := by
  rintro ⟨ret, c, h, -, hint, -⟩
  have hread : Server.room.getConfig ⟨fun _ => [], fun _ => 0⟩ "port 5560".toList =
      some (false, ⟨fun _ => [], fun _ => 0⟩) := rfl
  cases hread.symm.trans h
  exact absurd (hint .serverPort) (by decide)

end Miku.Common
