import MikuServer.Framework.Loop
import MikuServer.Impl.BaseLog

/-!
# The lines of the log

A channel is `Idle` or a vector of it is written to disk (`Flushing`): the lines
that were pushed are those that have been written, those of this vector that are
left, and those of the other. The writer keeps that of both channels
(`Inv.writer`), and the destructor writes both vectors of the normal one
(`Inv.destructor`), so no line of it is lost. The lines that wait in the user
log when the thread has ended stay where they are (`complete_step`).
-/

namespace Miku.Common

@[simp] theorem Half.other_other (half : Half) : half.other.other = half := by
  cases half <;> rfl

namespace LogChannel

variable {c : LogChannel} {half : Half} {line : LogLine} {i : Nat}

@[simp] theorem vect_setVect_self (c : LogChannel) (half : Half) (lines : List LogLine) :
    (c.setVect half lines).vect half = lines := by
  cases half <;> rfl

@[simp] theorem vect_setVect_other (c : LogChannel) (half : Half) (lines : List LogLine) :
    (c.setVect half lines).vect half.other = c.vect half.other := by
  cases half <;> rfl

@[simp] theorem setVect_pushed (c : LogChannel) (half : Half) (lines : List LogLine) :
    (c.setVect half lines).pushed = c.pushed := by
  cases half <;> rfl

@[simp] theorem setVect_written (c : LogChannel) (half : Half) (lines : List LogLine) :
    (c.setVect half lines).written = c.written := by
  cases half <;> rfl

@[simp] theorem setVect_active (c : LogChannel) (half : Half) (lines : List LogLine) :
    (c.setVect half lines).active = c.active := by
  cases half <;> rfl

/-- The lines that wait to be written. -/
def waiting (c : LogChannel) : List LogLine := c.vect c.active

/-- No vector is being written. -/
structure Idle (c : LogChannel) : Prop where
  other : c.vect c.active.other = []
  lines : c.written ++ c.waiting = c.pushed

/-- The lines of `half` from the `i`-th on, and those of the other vector, are not written. -/
structure Flushing (c : LogChannel) (half : Half) (i : Nat) : Prop where
  le : i ≤ (c.vect half).length
  lines : c.written ++ (c.vect half).drop i ++ c.vect half.other = c.pushed

theorem vect_pushBack (c : LogChannel) (line : LogLine) :
    (c.pushBack line).waiting = c.waiting ++ [line] ∧ (c.pushBack line).vect c.active.other = c.vect c.active.other := by
  rcases h : c.active with _ | _ <;> simp [pushBack, waiting, h, setVect, vect, Half.other]

theorem pushBack_active (c : LogChannel) (line : LogLine) : (c.pushBack line).active = c.active :=
  setVect_active ..

theorem pushBack_written (c : LogChannel) (line : LogLine) : (c.pushBack line).written = c.written :=
  setVect_written ..

theorem Idle.pushBack (h : c.Idle) (line : LogLine) : (c.pushBack line).Idle := by
  obtain ⟨hw, ho⟩ := c.vect_pushBack line
  refine ⟨?_, ?_⟩
  · rw [pushBack_active, ho, h.other]
  · rw [hw, pushBack_written, ← List.append_assoc, h.lines]
    rfl

theorem Flushing.pushBack (h : c.Flushing c.active.other i) (line : LogLine) :
    (c.pushBack line).Flushing (c.pushBack line).active.other i := by
  obtain ⟨hw, ho⟩ := c.vect_pushBack line
  have hl := h.lines
  rw [Half.other_other] at hl
  refine ⟨?_, ?_⟩
  · rw [pushBack_active, ho]
    exact h.le
  · rw [Half.other_other]
    show _ ++ _ ++ (c.pushBack line).waiting = _
    rw [hw, pushBack_active, ho, pushBack_written, ← List.append_assoc, waiting, hl]
    rfl

/-- `GetLogVect` gives no vector, or the one that was active. -/
theorem getLogVect_none (h : c.getLogVect.1 = none) : c.getLogVect.2 = c := by
  rw [getLogVect] at h ⊢
  split
  · rfl
  · rename_i hc
    rw [if_neg hc] at h
    cases h

theorem Idle.getLogVect_some (h : c.Idle) (hg : c.getLogVect.1 = some half) :
    c.getLogVect.2.active.other = half ∧ c.getLogVect.2.Flushing half 0 := by
  have hl := h.lines
  rw [getLogVect] at hg ⊢
  split at hg
  · cases hg
  · rename_i hc
    cases hg
    rw [if_neg hc]
    refine ⟨Half.other_other _, Nat.zero_le _, ?_⟩
    show c.written ++ (c.vect c.active).drop 0 ++ c.vect c.active.other = c.pushed
    rw [h.other, List.drop_zero, List.append_nil]
    exact hl

/-- A line is written, or the vector is cleared. -/
theorem Flushing.writeTurn (h : c.Flushing half i) :
    ((c.writeTurn half i).2 = true ∧ (c.writeTurn half i).1.Flushing half (i + 1) ∧
      (c.writeTurn half i).1.active = c.active ∧ (c.writeTurn half i).1.vect = c.vect) ∨
    ((c.writeTurn half i).2 = false ∧ (c.writeTurn half i).1.active = c.active ∧
      (c.writeTurn half i).1.vect half = [] ∧ (c.writeTurn half i).1.vect half.other = c.vect half.other ∧
      (c.writeTurn half i).1.written ++ (c.writeTurn half i).1.vect half.other = (c.writeTurn half i).1.pushed) := by
  have hl := h.lines
  rw [LogChannel.writeTurn]
  rcases hi : (c.vect half)[i]? with _ | line
  · right
    have hlen := List.getElem?_eq_none_iff.mp hi
    rw [List.drop_eq_nil_of_le hlen, List.append_nil] at hl
    simp [hl]
  · left
    have hlt : i < (c.vect half).length := (List.getElem?_eq_some_iff.mp hi).1
    have hline : (c.vect half).drop i = line :: (c.vect half).drop (i + 1) := by
      rw [List.drop_eq_getElem_cons hlt, (List.getElem?_eq_some_iff.mp hi).2]
    refine ⟨rfl, ⟨hlt, ?_⟩, rfl, rfl⟩
    rw [hline] at hl
    show c.written ++ [line] ++ (c.vect half).drop (i + 1) ++ c.vect half.other = c.pushed
    rw [← hl]
    simp

/-- What the writer does with the channel: nothing, or it writes a vector. -/
def At (c : LogChannel) : Option (Half × Nat) → Prop
  | none => c.Idle
  | some (half, i) => c.active.other = half ∧ c.Flushing half i

theorem At.pushBack {place : Option (Half × Nat)} (h : c.At place) (line : LogLine) : (c.pushBack line).At place := by
  cases place with
  | none => exact Idle.pushBack h line
  | some p =>
    obtain ⟨half, i⟩ := p
    obtain ⟨ho, h⟩ := h
    subst ho
    have h' := h.pushBack line
    rw [pushBack_active] at h'
    exact ⟨by rw [pushBack_active], h'⟩

theorem Idle.written_eq_iff (h : c.Idle) : c.written = c.pushed ↔ c.waiting = [] := by
  rw [← h.lines]
  simp

/-- All the lines that wait are in one of the vectors. -/
theorem Idle.flushing (h : c.Idle) : c.Flushing .one 0 := by
  obtain ⟨ho, hl⟩ := h
  refine ⟨Nat.zero_le _, ?_⟩
  rw [List.drop_zero, ← hl, waiting]
  cases ha : c.active with
  | one =>
    rw [ha] at ho
    rw [ho, List.append_nil]
  | two =>
    rw [ha] at ho
    rw [show c.vect .one = [] from ho, List.append_nil]
    rfl

theorem Idle.getLogVect (h : c.Idle) : c.getLogVect.2.At (c.getLogVect.1.map fun half => (half, 0)) := by
  rcases hg : c.getLogVect.1 with _ | half
  · rw [getLogVect_none hg]
    exact h
  · exact h.getLogVect_some hg

theorem At.writeTurn (h : c.At (some (half, i))) :
    (c.writeTurn half i).1.At (if (c.writeTurn half i).2 then some (half, i + 1) else none) := by
  obtain ⟨ho, h⟩ := h
  rcases h.writeTurn with ⟨hm, hf, ha, -⟩ | ⟨hm, ha, hv, ho', hl⟩
  · rw [hm, if_pos rfl]
    exact ⟨by rw [ha, ho], hf⟩
  · rw [hm, if_neg Bool.false_ne_true]
    have hact : (c.writeTurn half i).1.active = half.other := by rw [ha, ← ho, Half.other_other]
    refine ⟨by rw [hact, Half.other_other, hv], ?_⟩
    rw [waiting, hact]
    exact hl

end LogChannel

/-- The vector of a channel that the writer is writing. -/
def WriterPlace.writing (user : Bool) : WriterPlace → Option (Half × Nat)
  | .write u half i => if u = user then some (half, i) else Option.none
  | .none => Option.none
  | .loop => Option.none
  | .getLogVect _ => Option.none
  | .ended => Option.none

namespace BaseLog

/-- The writer has ended, or was never made. -/
def NoWriter (s : BaseLog) : Prop := s.writer = .none ∨ s.writer = .ended

/-- The lines that have been pushed are written or in a vector. -/
def Inv (s : BaseLog) : Prop :=
  match s.destructor with
  | .none => (s.running = true ∨ s.writer = .none) ∧ ∀ user, (s.channel user).At (s.writer.writing user)
  | .wait => ∀ user, (s.channel user).At (s.writer.writing user)
  | .write half i => s.NoWriter ∧ s.user.Idle ∧ s.log.Flushing half i ∧ (half = .two → s.log.vect1 = [])
  | .ended => s.NoWriter ∧ s.user.Idle ∧ s.log.written = s.log.pushed

variable {s t : BaseLog} {es : List Event}

theorem new_inv : Inv new := by
  refine ⟨.inr rfl, fun user => ?_⟩
  cases user <;> exact ⟨rfl, rfl⟩

theorem channel_setChannel (s : BaseLog) (user : Bool) (c : LogChannel) (v : Bool) :
    (s.setChannel user c).channel v = if v = user then c else s.channel v := by
  cases user <;> cases v <;> rfl

theorem setChannel_destructor (s : BaseLog) (user : Bool) (c : LogChannel) :
    (s.setChannel user c).destructor = s.destructor ∧ (s.setChannel user c).running = s.running := by
  cases user <;> exact ⟨rfl, rfl⟩

theorem afterChannel_writing (user v : Bool) : (afterChannel user).writing v = none := by
  cases user <;> rfl

/-- A step of the writer on one channel. -/
theorem setChannel_at (h : ∀ v, (s.channel v).At (s.writer.writing v)) {user : Bool} {c : LogChannel}
    {place : WriterPlace} {p : Option (Half × Nat)} (hc : c.At p)
    (hp : ∀ v, place.writing v = if v = user then p else none) (hw : ∀ v, v ≠ user → s.writer.writing v = none) (v : Bool) :
    ({ s.setChannel user c with writer := place }.channel v).At (place.writing v) := by
  have hch : { s.setChannel user c with writer := place }.channel v = if v = user then c else s.channel v :=
    channel_setChannel s user c v
  rw [hch, hp]
  split <;> rename_i hv
  · exact hc
  · have h := h v
    rwa [hw v hv] at h

theorem write_writing (user v : Bool) (half : Half) (i : Nat) :
    (WriterPlace.write user half i).writing v = if v = user then some (half, i) else none := by
  cases user <;> cases v <;> rfl

theorem writerStep_getLogVect {user : Bool} (hw : s.writer = .getLogVect user) :
    s.writerStep = some { s.setChannel user (s.channel user).getLogVect.2 with
      writer := ((s.channel user).getLogVect.1.map fun half => .write user half 0).getD (afterChannel user) } := by
  rw [writerStep, hw]

theorem writerStep_write {user : Bool} {half : Half} {i : Nat} (hw : s.writer = .write user half i) :
    s.writerStep = some { s.setChannel user ((s.channel user).writeTurn half i).1 with
      writer := if ((s.channel user).writeTurn half i).2 then .write user half (i + 1) else afterChannel user } := by
  rw [writerStep, hw]

/-- The channels, while the writer may run. -/
theorem writerStep_channels (h : ∀ user, (s.channel user).At (s.writer.writing user)) (hs : s.writerStep = some t) :
    (∀ user, (t.channel user).At (t.writer.writing user)) ∧ t.destructor = s.destructor ∧ t.running = s.running := by
  rcases hw : s.writer with _ | _ | user | ⟨user, half, i⟩ | _
  · rw [writerStep, hw] at hs
    cases hs
  · rw [writerStep, hw] at hs
    cases hs
    refine ⟨fun user => ?_, rfl, rfl⟩
    have h := h user
    rw [hw] at h
    have hwriting : WriterPlace.writing user (if s.running then .getLogVect false else .ended) = none := by
      split <;> rfl
    show (s.channel user).At (WriterPlace.writing user (if s.running then .getLogVect false else .ended))
    rw [hwriting]
    exact h
  · rw [writerStep_getLogVect hw, Option.some_inj] at hs
    subst hs
    refine ⟨?_, setChannel_destructor ..⟩
    have hidle : (s.channel user).Idle := by
      have h := h user
      rwa [hw] at h
    refine setChannel_at h hidle.getLogVect (fun v => ?_) (fun v _ => by rw [hw]; rfl)
    rcases (s.channel user).getLogVect.1 with _ | half
    · rw [Option.map_none, Option.map_none, Option.getD_none, afterChannel_writing, ite_self]
    · exact write_writing ..
  · rw [writerStep_write hw, Option.some_inj] at hs
    subst hs
    refine ⟨?_, setChannel_destructor ..⟩
    have hat : (s.channel user).At (some (half, i)) := by
      have h := h user
      rwa [hw, write_writing, if_pos rfl] at h
    refine setChannel_at h hat.writeTurn (fun v => ?_) (fun v hv => by rw [hw, write_writing, if_neg hv])
    split
    · exact write_writing ..
    · rw [afterChannel_writing, ite_self]
  · rw [writerStep, hw] at hs
    cases hs

/-- The writer writes nothing when it has ended. -/
theorem NoWriter.writing (h : s.NoWriter) (user : Bool) : s.writer.writing user = none := by
  rcases h with h | h <;> rw [h] <;> rfl

theorem NoWriter.writerStep (h : s.NoWriter) : s.writerStep = none := by
  rcases h with h | h <;> rw [BaseLog.writerStep, h]

theorem destructorStep_write {half : Half} {i : Nat} (hd : s.destructor = .write half i) :
    s.destructorStep = some { s with
      log := (s.log.writeTurn half i).1
      destructor :=
        if (s.log.writeTurn half i).2 then .write half (i + 1)
        else if half = .one then .write .two 0 else .ended } := by
  rw [destructorStep, hd]
  cases half <;> rfl

theorem destructorStep_wait (hd : s.destructor = .wait) (hs : s.destructorStep = some t) :
    s.NoWriter ∧ t = { s with destructor := .write .one 0 } := by
  rw [destructorStep, hd] at hs
  dsimp only at hs
  split at hs
  · rename_i hw
    cases hs
    exact ⟨hw, rfl⟩
  · cases hs

/-- The destructor writes what is left of the normal log. -/
theorem destructorStep_inv (h : s.Inv) (hs : s.destructorStep = some t) : t.Inv := by
  rcases hd : s.destructor with _ | _ | ⟨half, i⟩ | _ <;> rw [Inv, hd] at h
  · rw [destructorStep, hd] at hs
    cases hs
    exact h.2
  · obtain ⟨hw, rfl⟩ := destructorStep_wait hd hs
    have hlog := h false
    have huser := h true
    rw [hw.writing] at hlog huser
    exact ⟨hw, huser, hlog.flushing, nofun⟩
  · rw [destructorStep_write hd, Option.some_inj] at hs
    subst hs
    obtain ⟨hw, huser, hf, hone⟩ := h
    rcases hf.writeTurn with ⟨hm, hf', -, hv⟩ | ⟨hm, -, hv, ho, hl⟩
    · rw [hm, if_pos rfl]
      refine ⟨hw, huser, hf', fun h2 => ?_⟩
      exact (congrFun hv .one).trans (hone h2)
    · rw [hm, if_neg Bool.false_ne_true]
      cases half with
      | one =>
        refine ⟨hw, huser, ⟨Nat.zero_le _, ?_⟩, fun _ => hv⟩
        rw [List.drop_zero]
        show _ ++ _ ++ (s.log.writeTurn .one i).1.vect .one = _
        rw [hv, List.append_nil]
        exact hl
      | two =>
        refine ⟨hw, huser, ?_⟩
        have hnil : (s.log.writeTurn .two i).1.vect Half.two.other = [] := ho.trans (hone rfl)
        rw [hnil, List.append_nil] at hl
        exact hl
  · rw [destructorStep, hd] at hs
    cases hs

theorem writerStep_inv (h : s.Inv) (hs : s.writerStep = some t) : t.Inv := by
  rcases hd : s.destructor with _ | _ | ⟨half, i⟩ | _ <;> rw [Inv, hd] at h
  · obtain ⟨hr, h⟩ := h
    obtain ⟨h', he, hr'⟩ := writerStep_channels h hs
    rw [Inv, he, hd]
    refine ⟨.inl ?_, h'⟩
    rcases hr with hr | hw
    · exact hr'.trans hr
    · rw [NoWriter.writerStep (.inl hw)] at hs
      cases hs
  · obtain ⟨h', he, -⟩ := writerStep_channels h hs
    rw [Inv, he, hd]
    exact h'
  · rw [h.1.writerStep] at hs
    cases hs
  · rw [h.1.writerStep] at hs
    cases hs

/-- A line is pushed to one of the channels. -/
theorem pushBack_inv (h : s.Inv) (hd : s.destructor = .none) (user : Bool) (line : LogLine) :
    (s.setChannel user ((s.channel user).pushBack line)).Inv := by
  obtain ⟨hd', hr⟩ := setChannel_destructor s user ((s.channel user).pushBack line)
  have hw : (s.setChannel user ((s.channel user).pushBack line)).writer = s.writer := by
    cases user <;> rfl
  rw [Inv, hd] at h
  rw [Inv, hd', hd]
  dsimp only
  rw [hr, hw]
  refine ⟨h.1, fun v => ?_⟩
  rw [channel_setChannel]
  split <;> rename_i hv
  · subst hv
    exact (h.2 v).pushBack line
  · exact h.2 v

/-- A caller pushes while there is no destructor. -/
theorem step_writeLog {line : LogLine} (hs : s.step (.writeLog line) = some t) :
    s.destructor = .none ∧ t = s.setChannel false ((s.channel false).pushBack line) := by
  rw [step] at hs
  split at hs
  · cases hs
  · rename_i hd
    cases hs
    exact ⟨Decidable.not_not.mp hd, rfl⟩

theorem step_writeUserlog {line : LogLine} (hs : s.step (.writeUserlog line) = some t) :
    s.destructor = .none ∧ t = s.setChannel true ((s.channel true).pushBack line) := by
  rw [step] at hs
  split at hs
  · cases hs
  · rename_i hd
    cases hs
    exact ⟨Decidable.not_not.mp hd, rfl⟩

/-- `InitLog` makes the thread once. -/
theorem step_init (hs : s.step .init = some t) :
    s.destructor = .none ∧ (t = s ∨ s.running ≠ true ∧ t = { s with running := true, writer := .loop }) := by
  rw [step] at hs
  split at hs
  · cases hs
  · rename_i hd
    refine ⟨Decidable.not_not.mp hd, ?_⟩
    split at hs <;> rename_i hr <;> cases hs
    · exact .inl rfl
    · exact .inr ⟨hr, rfl⟩

theorem step_inv (h : s.Inv) {e : Event} (hs : s.step e = some t) : t.Inv := by
  cases e with
  | writer => exact writerStep_inv h hs
  | destructor => exact destructorStep_inv h hs
  | init =>
    obtain ⟨hd, rfl | ⟨hr, rfl⟩⟩ := step_init hs
    · exact h
    · rw [Inv, hd] at h
      obtain ⟨hw, h⟩ := h
      rw [Inv, hd]
      refine ⟨.inl rfl, fun user => ?_⟩
      have h := h user
      rwa [hw.resolve_left hr] at h
  | writeLog line =>
    obtain ⟨hd, rfl⟩ := step_writeLog hs
    exact pushBack_inv h hd false line
  | writeUserlog line =>
    obtain ⟨hd, rfl⟩ := step_writeUserlog hs
    exact pushBack_inv h hd true line

/-! ## Runs -/

/-- When `MWaitThread` returns in the destructor, no line waits in the user log. -/
def NoUserLines (s : BaseLog) (e : Event) : Prop := e = .destructor → s.destructor = .wait → s.user.waiting = []

/-- Once the thread has ended, the user log has been written to the end. -/
def UserComplete (s : BaseLog) : Prop :=
  s.destructor ≠ .none → s.destructor ≠ .wait → s.user.written = s.user.pushed

/-- While callers or the writer may run, there is nothing to say. -/
theorem userComplete_of_running (h : s.destructor = .none ∨ s.destructor = .wait) : UserComplete s := by
  intro h1 h2
  rcases h with h | h
  · exact absurd h h1
  · exact absurd h h2

/-- The destructor leaves the user log as it finds it. -/
theorem complete_step (h : s.Inv) {e : Event} (hs : s.step e = some t) :
    UserComplete t ↔ UserComplete s ∧ NoUserLines s e := by
  have hcaller (he : e ≠ .destructor) (hd : s.destructor = .none ∨ s.destructor = .wait)
      (ht : t.destructor = s.destructor) : UserComplete t ↔ UserComplete s ∧ NoUserLines s e :=
    iff_of_true (userComplete_of_running (ht ▸ hd)) ⟨userComplete_of_running hd, fun h => absurd h he⟩
  cases e with
  | init =>
    obtain ⟨hd, rfl | ⟨hr, rfl⟩⟩ := step_init hs
    · exact hcaller (by decide) (.inl hd) rfl
    · exact hcaller (by decide) (.inl hd) rfl
  | writeLog line =>
    obtain ⟨hd, rfl⟩ := step_writeLog hs
    exact hcaller nofun (.inl hd) rfl
  | writeUserlog line =>
    obtain ⟨hd, rfl⟩ := step_writeUserlog hs
    exact hcaller nofun (.inl hd) rfl
  | writer =>
    rcases hd : s.destructor with _ | _ | ⟨half, i⟩ | _ <;> rw [Inv, hd] at h
    · exact hcaller nofun (.inl hd) (writerStep_channels h.2 hs).2.1
    · exact hcaller nofun (.inr hd) (writerStep_channels h hs).2.1
    · rw [step, h.1.writerStep] at hs
      cases hs
    · rw [step, h.1.writerStep] at hs
      cases hs
  | destructor =>
    rw [step] at hs
    rcases hd : s.destructor with _ | _ | ⟨half, i⟩ | _ <;> rw [Inv, hd] at h
    · rw [destructorStep, hd] at hs
      cases hs
      refine iff_of_true (userComplete_of_running (.inr rfl)) ⟨userComplete_of_running (.inl hd), fun _ h => ?_⟩
      rw [hd] at h
      cases h
    · obtain ⟨hw, rfl⟩ := destructorStep_wait hd hs
      have huser := h true
      rw [hw.writing] at huser
      have huser : s.user.written = s.user.pushed ↔ s.user.waiting = [] := LogChannel.Idle.written_eq_iff huser
      rw [and_iff_right (userComplete_of_running (.inr hd))]
      refine ⟨fun hc _ _ => huser.mp (hc nofun nofun), fun hc _ _ => huser.mpr (hc rfl hd)⟩
    · rw [destructorStep_write hd, Option.some_inj] at hs
      subst hs
      have hplace (p : DestructorPlace) (hp : p = .none ∨ p = .wait) :
          (if (s.log.writeTurn half i).2 then DestructorPlace.write half (i + 1)
            else if half = .one then .write .two 0 else .ended) ≠ p := by
        rcases hp with rfl | rfl
        · split
          · exact nofun
          · split <;> exact nofun
        · split
          · exact nofun
          · split <;> exact nofun
      have hend : NoUserLines s .destructor := by
        intro _ h
        rw [hd] at h
        cases h
      rw [and_iff_left hend]
      refine ⟨fun hc _ _ => hc (hplace _ (.inl rfl)) (hplace _ (.inr rfl)), fun hc _ _ => ?_⟩
      exact hc (by rw [hd]; exact nofun) (by rw [hd]; exact nofun)
    · rw [destructorStep, hd] at hs
      cases hs

/-- When the destructor has returned, both channels have been written, each line once and in the order
in which they were pushed, exactly if no user line waited when the thread had ended. -/
theorem complete_iff (es : List Event) (h : es.foldlM step new = some t) (hd : t.destructor = .ended) :
    t.log.written = t.log.pushed ∧ t.user.written = t.user.pushed ↔
      ∀ x ∈ runSteps step new es, NoUserLines x.1 x.2 := by
  have hi : t.Inv := foldlM_inv (fun _ _ _ hi ht => step_inv hi ht) new_inv h
  have hrun := foldlM_iff_steps (P := UserComplete) (C := NoUserLines) (fun _ _ _ hi ht => step_inv hi ht)
    (fun _ _ _ hi ht => complete_step hi ht) new_inv h
  rw [Inv, hd] at hi
  have hall := hrun.trans (and_iff_right (userComplete_of_running (.inl rfl)))
  rw [and_iff_right hi.2.2, ← hall]
  refine ⟨fun hc _ _ => hc, fun hc => hc ?_ ?_⟩
  · rw [hd]
    exact nofun
  · rw [hd]
    exact nofun

/-- A line of each channel that the writer still finds. -/
theorem complete_iff_example :
    let es : List Event := [.init, .writeLog [1], .writeUserlog [2]] ++ List.replicate 7 .writer ++
      [.writeLog [3], .destructor, .writer] ++ List.replicate 4 .destructor
    ∃ t, es.foldlM step new = some t ∧ (t.log.written = t.log.pushed ∧ t.user.written = t.user.pushed ↔
      ∀ x ∈ runSteps step new es, NoUserLines x.1 x.2) :=
  ⟨_, rfl, complete_iff _ rfl rfl⟩

/-- A line that is pushed to the user log while the writer sleeps for the last time. -/
theorem user_line_lost :
    ∃ t, [Event.init, .writer, .writer, .writer, .writeUserlog [1], .destructor, .writer, .destructor, .destructor,
      .destructor].foldlM step new = some t ∧ t.destructor = .ended ∧ ¬ t.user.written = t.user.pushed :=
  ⟨_, rfl, rfl, by decide⟩

end BaseLog

end Miku.Common
