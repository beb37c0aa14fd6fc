import Mathlib.Data.Option.Basic
import Mathlib.Logic.Function.Basic

/-!
# Actions that may block or fault

What a thread runs on a shared state (`Act`) is done with a value, or waits for
a lock that is never released, with what it did before, or leaves the defined
behaviour of the language. `wp x Q B F` says that `x` is done in a state of `Q`,
or blocked in one of `B`, or faults and `F` holds. Its rules follow the
constructors: `wp_pure`, `wp_bind`, `wp_zoom` (an action on a part of the
state), `wp_mono`; `Safe` is the case of an action that does not fault, and `Keeps`
that of an invariant, whose rules need no state.

`whileSome` is a `do … while` loop over the pointers that a function returns
until it returns `NULL`.
-/

namespace Miku

inductive Outcome (σ α : Type) where
  | done (a : α) (s : σ)
  | blocked (s : σ)
  | fault

def Act (σ α : Type) : Type := σ → Outcome σ α

namespace Act

variable {σ τ α β : Type}

protected def pure (a : α) : Act σ α := fun s => .done a s

protected def bind (x : Act σ α) (f : α → Act σ β) : Act σ β := fun s =>
  match x s with
  | .done a s' => f a s'
  | .blocked s' => .blocked s'
  | .fault => .fault

instance : Monad (Act σ) where
  pure := Act.pure
  bind := Act.bind

/-- A step that is always done. -/
def ofFun (f : σ → α × σ) : Act σ α := fun s => .done (f s).1 (f s).2

def read (f : σ → α) : Act σ α := fun s => .done (f s) s

def modify (f : σ → σ) : Act σ Unit := fun s => .done () (f s)

def fault : Act σ α := fun _ => .fault

/-- The dereference of a pointer. -/
def deref (p : Option α) : Act σ α :=
  match p with
  | some a => pure a
  | none => fault

/-- An action on a part of the state. -/
def zoom (get : τ → σ) (set : τ → σ → τ) (x : Act σ α) : Act τ α := fun t =>
  match x (get t) with
  | .done a s => .done a (set t s)
  | .blocked s => .blocked (set t s)
  | .fault => .fault

/-- `do { b = body(p, b); p = next(); } while (p);`, of at most `fuel` turns. -/
def whileSome (body : α → β → Act σ β) (next : Act σ (Option α)) : Nat → α → β → Act σ β
  | 0, _, _ => fault
  | fuel + 1, p, b => do
    let b ← body p b
    match ← next with
    | some p => whileSome body next fuel p b
    | none => pure b

/-- The state after an action that is done. -/
def after (x : Act σ α) (s : σ) : Option σ :=
  match x s with
  | .done _ s' => some s'
  | _ => none

/-! ## Evaluation -/

variable {x : Act σ α} {f : α → Act σ β} {s s' : σ} {a : α}

@[simp] theorem pure_apply (a : α) (s : σ) : (pure a : Act σ α) s = .done a s := rfl

theorem bind_done (h : x s = .done a s') : (x >>= f) s = f a s' := by
  show Act.bind x f s = _
  rw [Act.bind, h]

theorem bind_blocked (h : x s = .blocked s') : (x >>= f) s = .blocked s' := by
  show Act.bind x f s = _
  rw [Act.bind, h]

theorem bind_fault (h : x s = .fault) : (x >>= f) s = .fault := by
  show Act.bind x f s = _
  rw [Act.bind, h]

theorem bind_eq_done {b : β} {t : σ} : (x >>= f) s = .done b t ↔ ∃ a s', x s = .done a s' ∧ f a s' = .done b t := by
  rcases h : x s with ⟨a, s'⟩ | s' | _
  · rw [bind_done h]
    exact ⟨fun hf => ⟨a, s', rfl, hf⟩, fun ⟨_, _, e, hf⟩ => by cases e; exact hf⟩
  · rw [bind_blocked h]
    exact iff_of_false nofun nofun
  · rw [bind_fault h]
    exact iff_of_false nofun nofun

/-- An action on a part of the state, one part after the other. -/
theorem zoom_bind_done {get : τ → σ} {set : τ → σ → τ} {t t' : τ} {b : β} (hget : ∀ t s, get (set t s) = s)
    (hset : ∀ t s s', set (set t s) s' = set t s') (h : zoom get set (x >>= f) t = .done b t') :
    ∃ a t₁, zoom get set x t = .done a t₁ ∧ zoom get set (f a) t₁ = .done b t' := by
  unfold zoom at h ⊢
  rcases hx : x (get t) with ⟨a, s₁⟩ | s₁ | _
  · rw [bind_done hx] at h
    refine ⟨a, set t s₁, rfl, ?_⟩
    rw [hget]
    rcases hf : f a s₁ with ⟨b', s₂⟩ | s₂ | _ <;> rw [hf] at h
    · cases h
      exact congrArg (Outcome.done _) (hset t s₁ s₂)
    · cases h
    · cases h
  · rw [bind_blocked hx] at h
    cases h
  · rw [bind_fault hx] at h
    cases h

@[simp] theorem ofFun_bind (g : σ → α × σ) (s : σ) : (ofFun g >>= f) s = f (g s).1 (g s).2 := rfl

@[simp] theorem read_bind (g : σ → α) (s : σ) : (read g >>= f) s = f (g s) s := rfl

/-! ## Weakest preconditions -/

def wp (x : Act σ α) (Q : α → σ → Prop) (B : σ → Prop) (F : Prop) (s : σ) : Prop :=
  match x s with
  | .done a s' => Q a s'
  | .blocked s' => B s'
  | .fault => F

variable {Q Q' : α → σ → Prop} {B B' : σ → Prop} {F : Prop}

theorem wp_done (h : x s = .done a s') : wp x Q B F s ↔ Q a s' := by rw [wp, h]

theorem wp_blocked (h : x s = .blocked s') : wp x Q B F s ↔ B s' := by rw [wp, h]

theorem wp_fault (h : x s = .fault) : wp x Q B F s ↔ F := by rw [wp, h]

@[simp] theorem wp_pure (a : α) : wp (pure a) Q B F s ↔ Q a s := Iff.rfl

@[simp] theorem wp_bind {R : β → σ → Prop} (x : Act σ α) (f : α → Act σ β) :
    wp (x >>= f) R B F s ↔ wp x (fun a => wp (f a) R B F) B F s := by
  rcases h : x s with ⟨a, s'⟩ | s' | _
  · rw [wp_done h, wp, bind_done h]; rfl
  · rw [wp_blocked h, wp_blocked (bind_blocked h)]
  · rw [wp_fault h, wp_fault (bind_fault h)]

@[simp] theorem wp_ofFun (g : σ → α × σ) : wp (ofFun g) Q B F s ↔ Q (g s).1 (g s).2 := Iff.rfl

@[simp] theorem wp_read (g : σ → α) : wp (read g) Q B F s ↔ Q (g s) s := Iff.rfl

@[simp] theorem wp_modify {Q : Unit → σ → Prop} (g : σ → σ) : wp (modify g) Q B F s ↔ Q () (g s) := Iff.rfl

@[simp] theorem wp_fail : wp (fault : Act σ α) Q B F s ↔ F := Iff.rfl

@[simp] theorem wp_zoom {get : τ → σ} {set : τ → σ → τ} {x : Act σ α} {Q : α → τ → Prop} {B : τ → Prop} {t : τ} :
    wp (zoom get set x) Q B F t ↔ wp x (fun a s => Q a (set t s)) (fun s => B (set t s)) F (get t) := by
  rcases h : x (get t) with ⟨a, s'⟩ | s' | _ <;> simp only [wp, zoom, h]

theorem wp_mono (h : wp x Q B F s) (hq : ∀ a s', Q a s' → Q' a s') (hb : ∀ s', B s' → B' s') :
    wp x Q' B' F s := by
  unfold wp at h ⊢
  split <;> simp_all

/-- `x` is done, in a state of `Q`. -/
theorem wp_total : wp x Q (fun _ => False) False s ↔ ∃ a s', x s = .done a s' ∧ Q a s' := by
  rcases h : x s with ⟨a, s'⟩ | s' | _
  · rw [wp_done h]
    simp only [Outcome.done.injEq, and_assoc, exists_and_left, exists_eq_left']
  · rw [wp_blocked h]
    simp
  · rw [wp_fault h]
    simp

theorem wp_total_unit {x : Act σ Unit} {P : σ → Prop} :
    wp x (fun _ => P) (fun _ => False) False s ↔ ∃ s', x s = .done () s' ∧ P s' :=
  wp_total.trans ⟨fun ⟨_, h⟩ => h, fun h => ⟨(), h⟩⟩

/-- `x` does not fault. -/
def Safe (x : Act σ α) (s : σ) : Prop := wp x (fun _ _ => True) (fun _ => True) False s

theorem safe_iff : Safe x s ↔ x s ≠ .fault := by
  rw [Safe, wp]
  split <;> rename_i h <;> simp [h]

/-! ## Invariants -/

/-- Whatever `x` does, it keeps `I`. -/
def Keeps (I : σ → Prop) (x : Act σ α) : Prop := ∀ s, I s → wp x (fun _ => I) I True s

variable {I : σ → Prop}

theorem keeps_pure (a : α) : Keeps I (pure a) := fun _ h => h

theorem keeps_bind (hx : Keeps I x) (hf : ∀ a, Keeps I (f a)) : Keeps I (x >>= f) := fun s hs => by
  rw [wp_bind]
  exact wp_mono (hx s hs) (fun a t ht => hf a t ht) fun _ ht => ht

theorem keeps_read (g : σ → α) : Keeps I (read g) := fun _ h => h

theorem keeps_ofFun {g : σ → α × σ} (h : ∀ s, I s → I (g s).2) : Keeps I (ofFun g) := h

theorem keeps_modify {g : σ → σ} (h : ∀ s, I s → I (g s)) : Keeps I (modify g) := h

theorem keeps_deref (p : Option α) : Keeps I (deref p) := fun s h => by
  cases p with
  | none => trivial
  | some a => exact h

/-- An action on a part of the state that `I` is not about. -/
theorem keeps_zoom {I : τ → Prop} {get : τ → σ} {set : τ → σ → τ} (h : ∀ t s, I t → I (set t s)) (x : Act σ α) :
    Keeps I (zoom get set x) := fun t ht => by
  unfold wp zoom
  rcases x (get t) with ⟨a, s'⟩ | s' | _
  · exact h t s' ht
  · exact h t s' ht
  · trivial

theorem keeps_whileSome {body : α → β → Act σ β} {next : Act σ (Option α)} (hbody : ∀ p b, Keeps I (body p b))
    (hnext : Keeps I next) (fuel : Nat) (p : α) (b : β) : Keeps I (whileSome body next fuel p b) := by
  induction fuel generalizing p b with
  | zero => exact fun _ _ => trivial
  | succ fuel ih =>
    refine keeps_bind (hbody p b) fun b => keeps_bind hnext fun q => ?_
    cases q with
    | none => exact keeps_pure b
    | some p => exact ih p b

end Act

end Miku
