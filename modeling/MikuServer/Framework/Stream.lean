import MikuServer.Framework.Loop

/-!
# Frames in a stream

A receiver keeps the bytes it has not used (the residue), adds each read to
them, and takes frames off the front while there is one (`drain`). `size w` is
the length of the frame at the front of `w`, if it is all there.

`Framing size G`: on the frames `G`, `size` sees the first frame as soon as
anything follows it, and never part of one. `drain_ok` is one read of a stream of
such frames, `feed_ok` all of them: however the stream is cut, the frames taken
are its frames, except that one `size` does not see by itself may be left at the
end.

`doWhile_drain` is for a loop that takes a frame a turn: it is `drain`, and what
it does with the frames it takes.
-/

namespace Miku

variable {α : Type}

/-- The frames at the front of `w`, and what is left. -/
def drain (size : List α → Option Nat) : Nat → List α → List (List α) × List α
  | 0, w => ([], w)
  | fuel + 1, w =>
    match size w with
    | none => ([], w)
    | some n => (w.take n :: (drain size fuel (w.drop n)).1, (drain size fuel (w.drop n)).2)

/-- The frames taken after each read, and the residue after the last. -/
def feed (size : List α → Option Nat) (r : List α) : List (List α) → List (List α × List (List α)) × List α
  | [] => ([], r)
  | x :: xs =>
    let d := drain size ((r ++ x).length + 1) (r ++ x)
    ((x, d.1) :: (feed size d.2 xs).1, (feed size d.2 xs).2)

/-- The frames that `feed` takes. -/
def taken (ts : List (List α × List (List α))) : List (List α) := ts.flatMap Prod.snd

structure Framing (size : List α → Option Nat) (G : List α → Prop) : Prop where
  nil : size [] = none
  ne_nil : ∀ f, G f → f ≠ []
  front : ∀ f x, G f → x ≠ [] → size (f ++ x) = some f.length
  whole : ∀ f, G f → size f = none ∨ size f = some f.length
  part : ∀ f p, G f → p <+: f → p ≠ f → size p = none

/-- The frames to come are `hs`, and `r` is the part of them that is there. -/
def Pending (size : List α → Option Nat) (hs : List (List α)) (r : List α) : Prop :=
  r = [] ∨ ∃ h hs', hs = h :: hs' ∧ r <+: h ∧ (r = h → size h = none)

/-- The front of a stream of frames. -/
def Streams (G : List α → Prop) (w : List α) : Prop := ∃ hs : List (List α), (∀ f ∈ hs, G f) ∧ w <+: hs.flatten

variable {size : List α → Option Nat} {G : List α → Prop}

theorem prefix_append_cases {w f t : List α} (h : w <+: f ++ t) :
    (w <+: f ∧ w ≠ f) ∨ ∃ x, w = f ++ x ∧ x <+: t := by
  obtain ⟨y, hy⟩ := h
  rcases List.append_eq_append_iff.mp hy with ⟨z, rfl, rfl⟩ | ⟨z, rfl, rfl⟩
  · rcases z with _ | ⟨a, z⟩
    · exact .inr ⟨[], by rw [List.append_nil, List.append_nil], List.nil_prefix⟩
    · refine .inl ⟨List.prefix_append _ _, fun h => ?_⟩
      have := congrArg List.length h
      simp at this
  · exact .inr ⟨z, rfl, List.prefix_append _ _⟩

/-- The frame that `size` sees is the stream's first. -/
theorem Framing.first (F : Framing size G) {hs : List (List α)} (hG : ∀ f ∈ hs, G f) {w : List α}
    (hw : w <+: hs.flatten) :
    (size w = none ∧ Pending size hs w) ∨
    ∃ f hs' x, hs = f :: hs' ∧ w = f ++ x ∧ x <+: hs'.flatten ∧ size w = some f.length := by
  rcases hs with _ | ⟨f, hs⟩
  · rw [List.flatten_nil, List.prefix_nil] at hw
    subst hw
    exact .inl ⟨F.nil, .inl rfl⟩
  have hf := hG f List.mem_cons_self
  rcases prefix_append_cases hw with ⟨hp, hne⟩ | ⟨x, rfl, hx⟩
  · exact .inl ⟨F.part f w hf hp hne, .inr ⟨f, hs, rfl, hp, fun h => absurd h hne⟩⟩
  by_cases hnil : x = []
  · subst hnil
    rw [List.append_nil]
    rcases F.whole f hf with h | h
    · exact .inl ⟨h, .inr ⟨f, hs, rfl, List.prefix_rfl, fun _ => h⟩⟩
    · exact .inr ⟨f, hs, [], rfl, (List.append_nil f).symm, hx, h⟩
  · exact .inr ⟨f, hs, x, rfl, rfl, hx, F.front f x hf hnil⟩

theorem drain_none {w : List α} (h : size w = none) (fuel : Nat) : drain size fuel w = ([], w) := by
  cases fuel with
  | zero => rfl
  | succ n => simp only [drain, h]

theorem drain_some {f x : List α} (h : size (f ++ x) = some f.length) (fuel : Nat) :
    drain size (fuel + 1) (f ++ x) = (f :: (drain size fuel x).1, (drain size fuel x).2) := by
  simp only [drain, h, List.take_left, List.drop_left]

/-- One read of a stream: the frames taken are its first, and the last of all is
one that `size` sees by itself. -/
theorem drain_ok (F : Framing size G) {fuel : Nat} {w : List α} {hs : List (List α)} (hG : ∀ f ∈ hs, G f)
    (hw : w <+: hs.flatten) (hf : w.length < fuel) :
    ∃ hs', hs = (drain size fuel w).1 ++ hs' ∧ (drain size fuel w).1.flatten ++ (drain size fuel w).2 = w ∧
      Pending size hs' (drain size fuel w).2 ∧ (hs' = [] → ∀ f ∈ hs.getLast?, size f = some f.length) := by
  induction fuel generalizing w hs with
  | zero => omega
  | succ n ih =>
    rcases F.first hG hw with ⟨h, hp⟩ | ⟨f, hs, x, rfl, rfl, hx, h⟩
    · rw [drain_none h]
      exact ⟨hs, rfl, rfl, hp, fun he f hf => by rw [he] at hf; cases hf⟩
    · have hpos := List.length_pos_of_ne_nil (F.ne_nil f (hG f List.mem_cons_self))
      rw [List.length_append] at hf
      obtain ⟨hs', e1, e2, e3, e4⟩ := ih (fun g hg => hG g (List.mem_cons_of_mem _ hg)) hx (by omega)
      rw [drain_some h]
      refine ⟨hs', ?_, ?_, e3, fun he g hg => ?_⟩
      · rw [List.cons_append, ← e1]
      · rw [List.flatten_cons, List.append_assoc, e2]
      · rcases hs with _ | ⟨k, hs⟩
        · rw [List.flatten_nil, List.prefix_nil] at hx
          rw [List.getLast?_singleton, Option.mem_some_iff] at hg
          rw [hx, List.append_nil] at h
          exact hg ▸ h
        · exact e4 he g (by rwa [List.getLast?_cons_cons] at hg)

/-- The bytes left are those of the frames that were not taken. -/
theorem rest_eq {d : List (List α) × List α} {w y : List α} {hs' : List (List α)} (hw : d.1.flatten ++ d.2 = w)
    (h : w ++ y = (d.1 ++ hs').flatten) : d.2 ++ y = hs'.flatten := by
  rw [← hw, List.append_assoc, List.flatten_append] at h
  exact List.append_cancel_left h

/-- A whole stream, however it is cut: its frames are taken, but for a last one
that `size` does not see by itself. -/
theorem feed_ok (F : Framing size G) {reads : List (List α)} {r : List α} {hs : List (List α)}
    (hG : ∀ f ∈ hs, G f) (h : r ++ reads.flatten = hs.flatten) (hp : Pending size hs r) :
    ((∀ f ∈ hs.getLast?, size f = some f.length) ∧ taken (feed size r reads).1 = hs ∧
      (feed size r reads).2 = []) ∨
    ∃ gs f, hs = gs ++ [f] ∧ size f = none ∧ taken (feed size r reads).1 = gs ∧ (feed size r reads).2 = f := by
  induction reads generalizing r hs with
  | nil =>
    rw [List.flatten_nil, List.append_nil] at h
    rcases hp with rfl | ⟨f, hs, rfl, hpre, hst⟩
    · left
      rcases hs with _ | ⟨f, hs⟩
      · exact ⟨nofun, rfl, rfl⟩
      · have := F.ne_nil f (hG f List.mem_cons_self)
        simp [this] at h
    · right
      rw [List.flatten_cons] at h
      have hr : r = f := hpre.eq_of_length_le (by rw [h, List.length_append]; omega)
      have hnil : hs = [] := by
        rcases hs with _ | ⟨g, hs⟩
        · rfl
        · have := F.ne_nil g (hG g (by simp))
          rw [hr] at h
          simp [this] at h
      subst hnil
      exact ⟨[], f, rfl, hst hr, rfl, hr⟩
  | cons x xs ih =>
    rw [List.flatten_cons, ← List.append_assoc] at h
    obtain ⟨hs', e1, e2, e3, e4⟩ := drain_ok F hG (h ▸ List.prefix_append _ _) (Nat.lt_succ_self (r ++ x).length)
    obtain ⟨d, hd⟩ : ∃ d, drain size ((r ++ x).length + 1) (r ++ x) = d := ⟨_, rfl⟩
    rw [hd] at e1 e2 e3
    subst e1
    have hh := rest_eq e2 h
    simp only [feed, taken, hd, List.flatMap_cons]
    rcases ih (fun f hf => hG f (List.mem_append_right _ hf)) hh e3 with ⟨h0, h1, h2⟩ | ⟨gs, f, rfl, h0, h1, h2⟩
    · refine .inl ⟨fun f hf => ?_, by rw [← h1, taken], h2⟩
      rcases hs' with _ | ⟨g, hs'⟩
      · exact e4 rfl f hf
      · rw [List.getLast?_append_of_ne_nil _ (List.cons_ne_nil _ _)] at hf
        exact h0 f hf
    · exact .inr ⟨d.1 ++ gs, f, by rw [List.append_assoc], h0, by rw [← h1, taken], h2⟩

theorem Pending.length_lt {hs : List (List α)} {r : List α} {n : Nat} (h : Pending size hs r)
    (hb : ∀ f ∈ hs, f.length ≤ n ∧ (size f = none → f.length < n)) (hn : 0 < n) : r.length < n := by
  rcases h with rfl | ⟨f, hs, rfl, hp, hst⟩
  · exact hn
  · obtain ⟨h1, h2⟩ := hb f List.mem_cons_self
    have := hp.length_le
    rcases Nat.lt_or_ge r.length f.length with hl | hl
    · omega
    · have := h2 (hst (hp.eq_of_length_le hl))
      omega

/-! ## Loops that take frames -/

variable {σ ε : Type}

/-- A turn that takes a frame, and does `emit` with it. `V s w a`: the state has the
bytes `w` to use, and `a` is what was done so far. `C` is what a turn needs of the
state it begins in. -/
structure Takes (size : List α → Option Nat) (G : List α → Prop) (body : σ → Option (σ × Bool))
    (V : σ → List α → ε → Prop) (C : σ → Prop) (emit : ε → List α → Option ε) : Prop where
  stop : ∀ s w a, V s w a → Streams G w → C s → size w = none → ∃ s', body s = some (s', false) ∧ V s' w a
  next : ∀ s f x a, V s (f ++ x) a → G f → C s → size (f ++ x) = some f.length →
    OptRel (fun a' s' => s'.2 = true ∧ V s'.1 x a') (emit a f) (body s)

/-- A loop of such turns takes the frames that are there. -/
theorem doWhile_drain (F : Framing size G) {body : σ → Option (σ × Bool)} {V : σ → List α → ε → Prop}
    {C : σ → Prop} {emit : ε → List α → Option ε} (T : Takes size G body V C emit) {fuel : Nat} {w : List α}
    {hs : List (List α)} (hG : ∀ f ∈ hs, G f) (hw : w <+: hs.flatten) (hf : w.length < fuel) {s : σ} {a : ε}
    (hV : V s w a) (hC : ∀ t ∈ heads body fuel s, C t) :
    OptRel (fun a' s' => V s' (drain size fuel w).2 a') ((drain size fuel w).1.foldlM emit a)
      (doWhile body fuel s) := by
  induction fuel generalizing w hs s a with
  | zero => omega
  | succ n ih =>
    have hs0 : C s := hC s (by simp [heads])
    rcases F.first hG hw with ⟨h, hp⟩ | ⟨f, hs, x, rfl, rfl, hx, h⟩
    · obtain ⟨s', e1, e2⟩ := T.stop s w a hV ⟨hs, hG, hw⟩ hs0 h
      rw [drain_none h, doWhile_stop e1]
      exact e2
    · have hpos := List.length_pos_of_ne_nil (F.ne_nil f (hG f List.mem_cons_self))
      have hn := T.next s f x a hV (hG f List.mem_cons_self) hs0 h
      rw [drain_some h, List.foldlM_cons]
      rcases he : emit a f with _ | a' <;> rcases hb : body s with _ | ⟨s', b⟩ <;> rw [he, hb] at hn
      · rw [doWhile_none hb]
        trivial
      · exact hn.elim
      · exact hn.elim
      · obtain ⟨hbt, hV'⟩ := hn
        simp only at hbt
        subst hbt
        rw [List.length_append] at hf
        rw [doWhile_next hb]
        refine ih (fun g hg => hG g (List.mem_cons_of_mem _ hg)) hx (by omega) hV' fun t ht => hC t ?_
        simp only [heads, hb, List.mem_cons]
        exact .inr ht

/-- A run of calls that each take the frames of what they read. -/
theorem run_feed (F : Framing size G) {ω τ : Type} (deal : σ → ω → Option σ) (read : ω → List α)
    (emit : List α → ε → List α → Option ε) (turns : σ → ω → List τ) {V : σ → List α → ε → Prop} {Q : ω → Prop}
    {C : τ → Prop}
    (call : ∀ s r a o hs, V s r a → Q o → (∀ t ∈ turns s o, C t) → (∀ f ∈ hs, G f) → Pending size hs r →
      r ++ read o <+: hs.flatten →
      OptRel (fun a' s' => V s' (drain size ((r ++ read o).length + 1) (r ++ read o)).2 a')
        ((drain size ((r ++ read o).length + 1) (r ++ read o)).1.foldlM (emit (read o)) a) (deal s o))
    {ops : List ω} (hQ : ∀ o ∈ ops, Q o) {s : σ} (hC : ∀ t ∈ runTurns deal turns s ops, C t)
    {r : List α} {hs : List (List α)} (hG : ∀ f ∈ hs, G f) (h : r ++ (ops.map read).flatten = hs.flatten)
    (hp : Pending size hs r) {a : ε} (hV : V s r a) :
    OptRel (fun a' s' => V s' (feed size r (ops.map read)).2 a')
      ((feed size r (ops.map read)).1.foldlM (fun a t => t.2.foldlM (emit t.1) a) a) (ops.foldlM deal s) := by
  induction ops generalizing s r hs a with
  | nil => exact hV
  | cons o os ih =>
    rw [List.map_cons, List.flatten_cons, ← List.append_assoc] at h
    have hpre : r ++ read o <+: hs.flatten := h ▸ List.prefix_append _ _
    obtain ⟨hs', e1, e2, e3, -⟩ := drain_ok F hG hpre (Nat.lt_succ_self (r ++ read o).length)
    have hc := call s r a o hs hV (hQ o List.mem_cons_self)
      (fun t ht => hC t (List.mem_append_left _ ht)) hG hp hpre
    obtain ⟨d, hd⟩ : ∃ d, drain size ((r ++ read o).length + 1) (r ++ read o) = d := ⟨_, rfl⟩
    rw [hd] at e1 e2 e3 hc
    subst e1
    have hh := rest_eq e2 h
    simp only [List.map_cons, feed, hd, List.foldlM_cons]
    rcases he : d.1.foldlM (emit (read o)) a with _ | a' <;> rcases hb : deal s o with _ | s' <;> rw [he, hb] at hc
    · trivial
    · exact hc.elim
    · exact hc.elim
    · refine ih (fun y hy => hQ y (List.mem_cons_of_mem _ hy)) (fun t ht => hC t ?_)
        (fun f hf => hG f (List.mem_append_right _ hf)) hh e3 hc
      simp only [runTurns, hb]
      exact List.mem_append_right _ ht

/-- Steps that always have a value. -/
theorem foldlM_feed_some {β : Type} (g : ε → β → ε) (e : List α → List α → β) (ts : List (List α × List (List α)))
    (a : ε) : ts.foldlM (fun a t => t.2.foldlM (fun a f => some (g a (e t.1 f))) a) a =
      some ((ts.flatMap fun t => t.2.map (e t.1)).foldl g a) := by
  induction ts generalizing a with
  | nil => rfl
  | cons t ts ih =>
    have h : t.2.foldlM (fun a f => some (g a (e t.1 f))) a = some ((t.2.map (e t.1)).foldl g a) := by
      rw [List.foldl_map]
      exact List.foldlM_pure
    rw [List.foldlM_cons, h, List.flatMap_cons, List.foldl_append]
    exact ih _

/-- Steps that each add to a log. -/
theorem foldlM_log {β : Type} (g : α → β) (fs : List α) (log : List β) :
    fs.foldlM (fun log f => some (log ++ [g f])) log = some (log ++ fs.map g) := by
  induction fs generalizing log with
  | nil => simp
  | cons f fs ih =>
    rw [List.foldlM_cons, Option.bind_eq_bind, Option.bind_some, ih]
    simp

/-- What is made of each frame is the frame, if it is so for all of them together. -/
theorem flatMap_eq_taken {e : List α → List α → List α} {ts : List (List α × List (List α))} :
    (ts.flatMap fun t => t.2.map (e t.1)) = taken ts ↔ ∀ t ∈ ts, ∀ f ∈ t.2, e t.1 f = f := by
  induction ts with
  | nil => simp [taken]
  | cons t ts ih =>
    rw [taken, List.flatMap_cons, List.flatMap_cons, List.forall_mem_cons]
    have h1 : t.2.map (e t.1) = t.2 ↔ ∀ f ∈ t.2, e t.1 f = f := by
      rw [← List.map_inj_left, List.map_id']
    rw [← h1, ← ih]
    refine ⟨fun h => List.append_inj h (by rw [List.length_map]), fun h => ?_⟩
    rw [h.1, h.2, taken]

theorem foldlM_taken (emit : ε → List α → Option ε) (ts : List (List α × List (List α))) (a : ε) :
    ts.foldlM (fun a t => t.2.foldlM emit a) a = (taken ts).foldlM emit a := by
  induction ts generalizing a with
  | nil => rfl
  | cons t ts ih =>
    rw [taken, List.flatMap_cons, List.foldlM_append, List.foldlM_cons]
    exact congrArg _ (funext ih)

/-! ## Several senders -/

section Senders

variable {κ : Type} [DecidableEq κ]

/-- What `k` has sent of `l`, in its order. -/
def ofSender (k : κ) (l : List (κ × α)) : List α := l.filterMap fun p => if p.1 = k then some p.2 else none

theorem ofSender_append (k : κ) (l l' : List (κ × α)) : ofSender k (l ++ l') = ofSender k l ++ ofSender k l' :=
  List.filterMap_append

theorem ofSender_self (k : κ) (l : List α) : ofSender k (l.map fun a => (k, a)) = l := by
  rw [ofSender, List.filterMap_map, Function.comp_def]
  simp

theorem ofSender_of_ne {k k' : κ} (h : k' ≠ k) (l : List α) : ofSender k (l.map fun a => (k', a)) = [] := by
  rw [ofSender, List.filterMap_map]
  exact List.filterMap_eq_nil_iff.mpr fun a _ => if_neg h

end Senders

end Miku
