import Mathlib.Data.Option.Basic
import Mathlib.Data.List.Basic
import Mathlib.Data.List.Induction
import Mathlib.Logic.Relation

/-!
# Loops

`doWhile body` is a `do … while` loop: `body` gives the state after one turn and
whether the loop goes on, and has no value where the turn leaves its memory.
The loop has no value if a turn has none, or if `fuel` turns do not end it.

`doWhile_inv` is the invariant rule, and `isSome_doWhile_iff` says that a loop
whose measure decreases has a value exactly when every turn it begins (`heads`)
has one. `run_inv`, `reaches_inv` and `always_iff` are the rules for runs: of
steps that are functions, that are relations, and whose turns may fail.
`history_inv` is the rule for a state and the events before it, and `progress` for
what enough steps lead to.
-/

namespace Miku

variable {σ τ : Type}

def doWhile (body : σ → Option (σ × Bool)) : Nat → σ → Option σ
  | 0, _ => none
  | fuel + 1, s =>
    match body s with
    | none => none
    | some (s', false) => some s'
    | some (s', true) => doWhile body fuel s'

/-- The states in which a turn begins. -/
def heads (body : σ → Option (σ × Bool)) : Nat → σ → List σ
  | 0, _ => []
  | fuel + 1, s =>
    s :: match body s with
      | some (s', true) => heads body fuel s'
      | _ => []

variable {body : σ → Option (σ × Bool)}

theorem doWhile_none {s : σ} (h : body s = none) (fuel : Nat) : doWhile body fuel s = none := by
  cases fuel with
  | zero => rfl
  | succ n => simp only [doWhile, h]

theorem doWhile_stop {s s' : σ} (h : body s = some (s', false)) (fuel : Nat) :
    doWhile body (fuel + 1) s = some s' := by
  simp only [doWhile, h]

theorem doWhile_next {s s' : σ} (h : body s = some (s', true)) (fuel : Nat) :
    doWhile body (fuel + 1) s = doWhile body fuel s' := by
  simp only [doWhile, h]

/-- What every turn keeps, the loop keeps. -/
theorem doWhile_inv {P : σ → Prop} (step : ∀ s s' b, P s → body s = some (s', b) → P s') {fuel : Nat}
    {s s' : σ} (hs : P s) (h : doWhile body fuel s = some s') : P s' := by
  induction fuel generalizing s with
  | zero => cases h
  | succ n ih =>
    rcases hb : body s with _ | ⟨t, _ | _⟩
    · rw [doWhile_none hb] at h; cases h
    · rw [doWhile_stop hb] at h; cases h; exact step s _ _ hs hb
    · rw [doWhile_next hb] at h; exact ih (step s _ _ hs hb) h

/-- Two results that are both absent, or both there and related. -/
def OptRel (R : σ → τ → Prop) : Option σ → Option τ → Prop
  | none, none => True
  | some s, some t => R s t
  | _, _ => False

theorem OptRel.imp {R R' : σ → τ → Prop} (h : ∀ s t, R s t → R' s t) {a : Option σ} {b : Option τ}
    (hr : OptRel R a b) : OptRel R' a b := by
  rcases a with _ | s <;> rcases b with _ | t
  · trivial
  · exact hr
  · exact hr
  · exact h s t hr

theorem OptRel.of_some {R : σ → τ → Prop} {a : σ} {b : Option τ} (h : OptRel R (some a) b) :
    ∃ t, b = some t ∧ R a t := by
  rcases b with _ | t
  · exact h.elim
  · exact ⟨t, rfl, h⟩

theorem OptRel.of_none {R : σ → τ → Prop} {b : Option τ} (h : OptRel R none b) : b = none := by
  rcases b with _ | t
  · rfl
  · exact h.elim

theorem isSome_bind_some (g : σ → τ) (a : Option σ) : (a.bind fun s => some (g s)).isSome = a.isSome := by
  cases a <;> rfl

/-- A result that is made into another one afterwards. -/
theorem optRel_bind {υ : Type} {R : σ → υ → Prop} {g : τ → υ} {a : Option σ} {b : Option τ}
    (h : OptRel (fun s t => R s (g t)) a b) : OptRel R a (b.bind fun t => some (g t)) := by
  rcases a with _ | s <;> rcases b with _ | t <;> exact h

/-- Where a turn has a value exactly if it meets `C`, a loop that ends has one exactly
if all of its turns do. -/
theorem isSome_doWhile_iff {P C : σ → Prop} (μ : σ → Nat)
    (step : ∀ s s', P s → body s = some (s', true) → P s' ∧ μ s' < μ s)
    (ok : ∀ s, P s → ((body s).isSome ↔ C s)) {fuel : Nat} {s : σ} (hs : P s) (hf : μ s < fuel) :
    (doWhile body fuel s).isSome ↔ ∀ t ∈ heads body fuel s, C t := by
  induction fuel generalizing s with
  | zero => omega
  | succ n ih =>
    have hok := ok s hs
    rcases hb : body s with _ | ⟨t, _ | _⟩ <;> rw [hb] at hok
    · simp [doWhile_none hb, heads, hb, ← hok]
    · simp [doWhile_stop hb, heads, hb, ← hok]
    · obtain ⟨ht, hm⟩ := step s t hs hb
      rw [doWhile_next hb, ih ht (by omega)]
      simp [heads, hb, ← hok]

/-- The turns of a loop begin in states that satisfy what every turn keeps. -/
theorem heads_inv {P : σ → Prop} (step : ∀ s s', P s → body s = some (s', true) → P s') {fuel : Nat} {s : σ}
    (hs : P s) : ∀ t ∈ heads body fuel s, P t := by
  induction fuel generalizing s with
  | zero => simp [heads]
  | succ n ih =>
    intro t ht
    simp only [heads, List.mem_cons] at ht
    rcases ht with rfl | ht
    · exact hs
    · rcases hb : body s with _ | ⟨t', _ | _⟩ <;> rw [hb] at ht
      · cases ht
      · cases ht
      · exact ih (step s _ hs hb) t ht

/-! ## Runs -/

variable {ω : Type}

/-- Steps that have a value and keep `P` wherever it holds make runs that do. -/
theorem run_inv {step : σ → ω → Option σ} {P : σ → Prop} {Q : ω → Prop}
    (ok : ∀ s o, P s → Q o → ∃ s', step s o = some s' ∧ P s') {os : List ω} (ho : ∀ o ∈ os, Q o) {s : σ} (hs : P s) :
    ∃ s', os.foldlM step s = some s' ∧ P s' := by
  induction os generalizing s with
  | nil => exact ⟨s, rfl, hs⟩
  | cons o os ih =>
    obtain ⟨s₁, h1, h2⟩ := ok s o hs (ho o List.mem_cons_self)
    obtain ⟨s', e1, e2⟩ := ih (fun p hp => ho p (List.mem_cons_of_mem _ hp)) h2
    refine ⟨s', ?_, e2⟩
    rw [List.foldlM_cons, h1]
    exact e1

/-- What every step that has a value keeps, a run that has one keeps. -/
theorem foldlM_inv {step : σ → ω → Option σ} {P : σ → Prop} (keep : ∀ s o s', P s → step s o = some s' → P s')
    {os : List ω} {s s' : σ} (hs : P s) (h : os.foldlM step s = some s') : P s' := by
  induction os generalizing s with
  | nil =>
    cases h
    exact hs
  | cons o os ih =>
    rw [List.foldlM_cons] at h
    obtain ⟨t, h1, h2⟩ := Option.bind_eq_some_iff.mp h
    exact ih (keep s o t hs h1) h2

/-- What every step keeps, every state that is reached keeps. -/
theorem reaches_inv {Step : σ → σ → Prop} {P : σ → Prop} (keep : ∀ s s', P s → Step s s' → P s') {s s' : σ}
    (hs : P s) (h : Relation.ReflTransGen Step s s') : P s' := by
  induction h with
  | refl => exact hs
  | tail _ hstep ih => exact keep _ _ ih hstep

/-- Every step of a run has a value, and `P` holds in every state. -/
def Always (step : σ → ω → Option σ) (P : σ → Prop) : σ → List ω → Prop
  | s, [] => P s
  | s, o :: os => P s ∧ ∃ s', step s o = some s' ∧ Always step P s' os

/-- Steps that have a value and keep `P` wherever it holds. -/
theorem always_inv {step : σ → ω → Option σ} {P P' : σ → Prop} (ok : ∀ s o, P s → ∃ s', step s o = some s' ∧ P s')
    (imp : ∀ s, P s → P' s) (os : List ω) {s : σ} (hs : P s) : Always step P' s os := by
  induction os generalizing s with
  | nil => exact imp s hs
  | cons o os ih =>
    obtain ⟨s', h1, h2⟩ := ok s o hs
    exact ⟨imp s hs, s', h1, ih h2⟩

/-- The last state of a run that has one. -/
theorem Always.last {σ ω : Type} {step : σ → ω → Option σ} {P : σ → Prop} {os : List ω} {s t : σ}
    (h : Always step P s os) (ht : os.foldlM step s = some t) : P t := by
  induction os generalizing s with
  | nil =>
    cases ht
    exact h
  | cons o os ih =>
    obtain ⟨-, s', hs', h⟩ := h
    rw [List.foldlM_cons, hs'] at ht
    exact ih h ht

theorem Always.head {σ ω : Type} {step : σ → ω → Option σ} {P : σ → Prop} {os : List ω} {s : σ}
    (h : Always step P s os) : P s := by
  cases os
  · exact h
  · exact h.1

/-- What the steps between states with `P` keep, a run keeps in which `P` always holds. -/
theorem Always.keep {σ ω : Type} {step : σ → ω → Option σ} {P I : σ → Prop}
    (keep : ∀ s o s', I s → P s → P s' → step s o = some s' → I s') {os : List ω} {s t : σ} (hs : I s)
    (h : Always step P s os) (ht : os.foldlM step s = some t) : I t := by
  induction os generalizing s with
  | nil =>
    cases ht
    exact hs
  | cons o os ih =>
    obtain ⟨hp, s', hs', h⟩ := h
    rw [List.foldlM_cons, hs'] at ht
    exact ih (keep s o s' hs hp h.head hs') h ht

/-- What `turns` says of every step of a run. -/
def runTurns (step : σ → ω → Option σ) (turns : σ → ω → List τ) : σ → List ω → List τ
  | _, [] => []
  | s, o :: os =>
    turns s o ++
      match step s o with
      | none => []
      | some s' => runTurns step turns s' os

/-- Where a step has a value exactly if its turns meet `C`, a run does exactly if all of its do. -/
theorem always_iff {step : σ → ω → Option σ} {turns : σ → ω → List τ} {P P' : σ → Prop} {Q : ω → Prop}
    {C : τ → Prop} (keep : ∀ s o s', P s → Q o → step s o = some s' → P s') (imp : ∀ s, P s → P' s)
    (ok : ∀ s o, P s → Q o → ((step s o).isSome ↔ ∀ t ∈ turns s o, C t)) {os : List ω} (ho : ∀ o ∈ os, Q o)
    {s : σ} (hs : P s) : Always step P' s os ↔ ∀ t ∈ runTurns step turns s os, C t := by
  induction os generalizing s with
  | nil => exact ⟨fun _ => nofun, fun _ => imp s hs⟩
  | cons o os ih =>
    have hq := ho o List.mem_cons_self
    have hok := ok s o hs hq
    have ih (s' : σ) (h : step s o = some s') :=
      ih (fun p hp => ho p (List.mem_cons_of_mem _ hp)) (keep s o s' hs hq h)
    simp only [Always, runTurns, List.forall_mem_append, ← hok]
    rcases he : step s o with _ | s'
    · exact ⟨fun ⟨_, _, h, _⟩ => (by cases h), fun ⟨h, _⟩ => (by cases h)⟩
    · refine ⟨fun ⟨_, s₁, h, ha⟩ => ⟨rfl, ?_⟩, fun ⟨_, h⟩ => ⟨imp s hs, s', rfl, (ih s' he).mpr h⟩⟩
      cases h
      exact (ih s' he).mp ha

/-- The steps of a run, each with the state before it. -/
def runSteps (step : σ → ω → Option σ) : σ → List ω → List (σ × ω) := runTurns step fun s o => [(s, o)]

theorem runSteps_cons {step : σ → ω → Option σ} {s s' : σ} {o : ω} (h : step s o = some s') (os : List ω) :
    runSteps step s (o :: os) = (s, o) :: runSteps step s' os := by
  simp [runSteps, runTurns, h]

/-- Where a step keeps `P` exactly if it meets `C`, `P` holds in every state of a run
exactly if all of its steps do. -/
theorem always_iff_steps {step : σ → ω → Option σ} {I P : σ → Prop} {C : σ → ω → Prop}
    (keep : ∀ s o s', I s → step s o = some s' → I s')
    (ok : ∀ s o s', I s → P s → step s o = some s' → (P s' ↔ C s o)) {os : List ω} {s t : σ} (hi : I s) (hs : P s)
    (h : os.foldlM step s = some t) : Always step P s os ↔ ∀ x ∈ runSteps step s os, C x.1 x.2 := by
  induction os generalizing s with
  | nil => exact ⟨fun _ => nofun, fun _ => hs⟩
  | cons o os ih =>
    rw [List.foldlM_cons] at h
    obtain ⟨s', h1, h2⟩ := Option.bind_eq_some_iff.mp h
    have hstep := ok s o s' hi hs h1
    rw [runSteps_cons h1, List.forall_mem_cons, Always, ← hstep]
    refine ⟨fun ⟨_, s₁, e, ha⟩ => ?_, fun ⟨hp, hall⟩ => ⟨hs, s', h1, (ih (keep s o s' hi h1) hp h2).mpr hall⟩⟩
    cases h1.symm.trans e
    have hp : P s' := by
      cases os
      · exact ha
      · exact ha.1
    exact ⟨hp, (ih (keep s o s' hi h1) hp h2).mp ha⟩

/-- Where a step that meets `C` has a value and keeps `P`, a run whose steps all do has values, and
`P'` holds in every state. -/
theorem always_of_steps {step : σ → ω → Option σ} {P P' : σ → Prop} {Q : ω → Prop} {C : σ → ω → Prop}
    (ok : ∀ s o, P s → Q o → C s o → ∃ s', step s o = some s' ∧ P s') (imp : ∀ s, P s → P' s) {os : List ω} {s : σ}
    (ho : ∀ o ∈ os, Q o) (hs : P s) (h : ∀ x ∈ runSteps step s os, C x.1 x.2) : Always step P' s os := by
  induction os generalizing s with
  | nil => exact imp s hs
  | cons o os ih =>
    have hfirst : (s, o) ∈ runSteps step s (o :: os) := by simp [runSteps, runTurns]
    obtain ⟨s', h1, h2⟩ := ok s o hs (ho o List.mem_cons_self) (h _ hfirst)
    rw [runSteps_cons h1, List.forall_mem_cons] at h
    exact ⟨imp s hs, s', h1, ih (fun p hp => ho p (List.mem_cons_of_mem _ hp)) h2 h.2⟩

theorem runSteps_last (step : σ → ω → Option σ) (s : σ) (o : ω) : runSteps step s [o] = [(s, o)] := by
  rcases h : step s o with _ | s' <;> simp [runSteps, runTurns, h]

/-- What every step that meets `C` keeps, and what it says of the step. -/
theorem runSteps_inv {step : σ → ω → Option σ} {I : σ → Prop} {C D : σ → ω → Prop}
    (keep : ∀ s o s', I s → C s o → step s o = some s' → I s') (imp : ∀ s o, I s → C s o → D s o) {os : List ω} {s : σ}
    (hs : I s) (h : ∀ x ∈ runSteps step s os, C x.1 x.2) : ∀ x ∈ runSteps step s os, D x.1 x.2 := by
  induction os generalizing s with
  | nil => exact nofun
  | cons o os ih =>
    rcases he : step s o with _ | s'
    · have hone : runSteps step s (o :: os) = [(s, o)] := by simp [runSteps, runTurns, he]
      rw [hone] at h ⊢
      simpa using imp s o hs (by simpa using h)
    · rw [runSteps_cons he, List.forall_mem_cons] at h ⊢
      exact ⟨imp s o hs h.1, ih (keep s o s' hs h.1 he) h.2⟩

/-- What the steps that have a value keep, and what it says of them, in a run that has one. -/
theorem runSteps_of_inv {step : σ → ω → Option σ} {I : σ → Prop} {D : σ → ω → Prop}
    (keep : ∀ s o s', I s → step s o = some s' → I s') (imp : ∀ s o s', I s → step s o = some s' → D s o)
    {os : List ω} {s t : σ} (hs : I s) (ht : os.foldlM step s = some t) : ∀ x ∈ runSteps step s os, D x.1 x.2 := by
  induction os generalizing s with
  | nil => exact nofun
  | cons o os ih =>
    rw [List.foldlM_cons] at ht
    obtain ⟨s', h1, h2⟩ := Option.bind_eq_some_iff.mp ht
    rw [runSteps_cons h1, List.forall_mem_cons]
    exact ⟨imp s o s' hs h1, ih (keep s o s' hs h1) h2⟩

/-- What every step that meets `C` keeps, the run keeps. -/
theorem foldlM_inv_of_steps {step : σ → ω → Option σ} {I : σ → Prop} {C : σ → ω → Prop}
    (keep : ∀ s o s', I s → C s o → step s o = some s' → I s') {os : List ω} {s t : σ} (hs : I s)
    (h : ∀ x ∈ runSteps step s os, C x.1 x.2) (ht : os.foldlM step s = some t) : I t := by
  induction os generalizing s with
  | nil =>
    cases ht
    exact hs
  | cons o os ih =>
    rw [List.foldlM_cons] at ht
    obtain ⟨s', h1, h2⟩ := Option.bind_eq_some_iff.mp ht
    rw [runSteps_cons h1, List.forall_mem_cons] at h
    exact ih (keep s o s' hs h.1 h1) h.2 h2

/-- Where `P` holds after a step exactly if it did before and the step meets `C`, it holds after
a run exactly if it did before and every step of the run meets `C`. -/
theorem foldlM_iff_steps {step : σ → ω → Option σ} {I P : σ → Prop} {C : σ → ω → Prop}
    (keep : ∀ s o s', I s → step s o = some s' → I s')
    (ok : ∀ s o s', I s → step s o = some s' → (P s' ↔ P s ∧ C s o)) {os : List ω} {s t : σ} (hs : I s)
    (ht : os.foldlM step s = some t) : P t ↔ P s ∧ ∀ x ∈ runSteps step s os, C x.1 x.2 := by
  induction os generalizing s with
  | nil =>
    cases ht
    exact (and_iff_left (List.forall_mem_nil _)).symm
  | cons o os ih =>
    rw [List.foldlM_cons] at ht
    obtain ⟨s', h1, h2⟩ := Option.bind_eq_some_iff.mp ht
    rw [runSteps_cons h1, List.forall_mem_cons, ← and_assoc, ← ok s o s' hs h1]
    exact ih (keep s o s' hs h1) h2

theorem runSteps_append {step : σ → ω → Option σ} {os : List ω} {s t : σ} (h : os.foldlM step s = some t)
    (os' : List ω) : runSteps step s (os ++ os') = runSteps step s os ++ runSteps step t os' := by
  induction os generalizing s with
  | nil =>
    cases h
    rfl
  | cons o os ih =>
    rw [List.foldlM_cons] at h
    obtain ⟨s', h1, h2⟩ := Option.bind_eq_some_iff.mp h
    rw [List.cons_append, runSteps_cons h1, runSteps_cons h1, ih h2, List.cons_append]

/-- The step after a run. -/
theorem mem_runSteps_append {step : σ → ω → Option σ} {os : List ω} {s t : σ} (h : os.foldlM step s = some t)
    (o : ω) (os' : List ω) : (t, o) ∈ runSteps step s (os ++ o :: os') := by
  rw [runSteps_append h]
  exact List.mem_append_right _ (List.mem_append_left _ List.mem_cons_self)

theorem snd_mem_of_runSteps {step : σ → ω → Option σ} {os : List ω} {s : σ} {x : σ × ω}
    (h : x ∈ runSteps step s os) : x.2 ∈ os := by
  induction os generalizing s with
  | nil => cases h
  | cons o os ih =>
    rcases he : step s o with _ | s'
    · simp [runSteps, runTurns, he] at h
      simp [h]
    · rw [runSteps_cons he, List.mem_cons] at h
      rcases h with rfl | h
      · exact List.mem_cons_self
      · exact List.mem_cons_of_mem _ (ih h)

/-- What holds of the events so far and the state, from the start on, and is kept by every step of a run. -/
theorem history_inv {step : σ → ω → Option σ} {P : List ω → σ → Prop} {s₀ : σ} (start : P [] s₀)
    (keep : ∀ os s o s', os.foldlM step s₀ = some s → P os s → step s o = some s' → P (os ++ [o]) s') {os : List ω}
    {s : σ} (h : os.foldlM step s₀ = some s) : P os s := by
  induction os using List.reverseRecOn generalizing s with
  | nil =>
    cases h
    exact start
  | append_singleton os o ih =>
    rw [List.foldlM_append] at h
    obtain ⟨t, ht, h⟩ := Option.bind_eq_some_iff.mp h
    obtain ⟨s', hs, hnil⟩ := Option.bind_eq_some_iff.mp h
    cases hnil
    exact keep os t o _ ht (ih ht) hs

/-- Where no step raises `μ`, and each step of `p` lowers it, unless `Q` holds then, more steps of `p` than `μ` lead
to `Q`. -/
theorem progress {step : σ → ω → Option σ} {I Q : σ → Prop} {C : ω → Prop} {μ : σ → Nat} {p : ω → Bool}
    (done : ∀ s o s', C o → Q s → step s o = some s' → Q s')
    (keep : ∀ s o s', C o → I s → step s o = some s' → Q s' ∨ I s' ∧ μ s' + (if p o then 1 else 0) ≤ μ s)
    {os : List ω} (ho : ∀ o ∈ os, C o) {s t : σ} (hs : I s) (hp : μ s < os.countP p) (h : os.foldlM step s = some t) :
    Q t := by
  induction os generalizing s with
  | nil => cases hp
  | cons o os ih =>
    rw [List.foldlM_cons] at h
    obtain ⟨s', h1, h2⟩ := Option.bind_eq_some_iff.mp h
    rw [List.forall_mem_cons] at ho
    rcases keep s o s' ho.1 hs h1 with hq | ⟨hi, hμ⟩
    · exact foldlM_inv_of_steps (C := fun _ o => C o) (fun s o s' hq hc => done s o s' hc hq) hq
        (fun x hx => ho.2 _ (snd_mem_of_runSteps hx)) h2
    · refine ih ho.2 hi ?_ h2
      rw [List.countP_cons] at hp
      omega

end Miku
