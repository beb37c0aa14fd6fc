import MikuServer.Framework.Loop
import MikuServer.Impl.AcceptThreads

/-!
# Every connection gets to its worker, and a silent one is closed

Of the contexts that `do_accept` was given, the i-th goes to the worker `(i + 1) %
m_iThreadCount`. A worker adds its share in this order, each context once, and as
long as it has not added all of it the worker or `do_accept` can go on: no byte
that would wake it is lost, if none is sent to a worker that has no pipe (`added_share`).

`CheckTimeOut` comes to a context of `m_list` that has no state before it has looked at
more contexts than `m_list` had, and gives it back (`silent_released`).
-/

namespace Miku.ZzmCommon

/-- The elements of a list that are dealt to the `k`-th of `n`, the first going to 1. -/
def share {α : Type} (n k : Nat) (l : List α) : List α :=
  (l.zipIdx.filter fun x => (x.2 + 1) % n = k).map Prod.fst

theorem share_append {α : Type} (n k : Nat) (l : List α) (a : α) :
    share n k (l ++ [a]) = share n k l ++ if (l.length + 1) % n = k then [a] else [] := by
  rw [share, List.zipIdx_append, List.filter_append, List.map_append, share]
  split <;> simp [*]

theorem share_of_append {α : Type} (n k : Nat) (l l' : List α) : share n k l <+: share n k (l ++ l') := by
  rw [share, share, List.zipIdx_append, List.filter_append, List.map_append]
  exact List.prefix_append _ _

namespace AcceptThreads

variable {iTimeout : Int} {s s' : AcceptThreads} {es : List AcceptEvent} {e : AcceptEvent} {c p : ContextPtr}

/-! ## What the steps do -/

theorem accept_cases {fd : Int} {p : Option ContextPtr} {now : BitVec 64} (hs : s.accept fd p now = some s') :
    s.accepting = .idle ∧ (p = none ∧ s' = s ∨ ∃ q, p = some q ∧
      s' = { s.setContext q ⟨fd, false, now⟩ with list := s.list ++ [q], accepting := .listed q }) := by
  unfold accept at hs
  split at hs
  case isTrue => cases hs
  case isFalse hidle =>
    refine ⟨not_not.mp hidle, ?_⟩
    rcases p with _ | q <;> cases hs
    · exact .inl ⟨rfl, rfl⟩
    · exact .inr ⟨q, rfl, rfl⟩

theorem acceptStep_cases (hs : s.acceptStep = some s') :
    (∃ p, s.accepting = .listed p ∧ ∃ i, i = (s.iIndex + 1) % threadCount ∧
      s' = { s.setInfo i { s.threadInfo i with list := (s.threadInfo i).list ++ [p] } with
        iIndex := i, accepting := .handed }) ∨
    s.accepting = .handed ∧ (¬ (s.threadInfo s.iIndex).worker.HasPipe ∧ s' = { s with accepting := .idle } ∨
      (s.threadInfo s.iIndex).worker.HasPipe ∧ s' = { s.setInfo s.iIndex
        { s.threadInfo s.iIndex with pipe := (s.threadInfo s.iIndex).pipe + 1 } with accepting := .idle }) := by
  unfold acceptStep at hs
  split at hs
  case h_1 => cases hs
  case h_2 p hp =>
    split at hs <;> cases hs
    exact .inl ⟨p, hp, _, rfl, rfl⟩
  case h_3 hp =>
    dsimp only at hs
    split at hs <;> rename_i hpipe
    · cases hs
      exact .inr ⟨hp, .inl ⟨hpipe, rfl⟩⟩
    · split at hs <;> cases hs
      exact .inr ⟨hp, .inr ⟨not_not.mp hpipe, rfl⟩⟩

theorem makeWorkers_cases (hs : s.makeWorkers = some s') : s' = { s with started := true } := by
  rw [makeWorkers] at hs
  split at hs <;> cases hs
  rfl

theorem makePipe_cases {k : Nat} {fails : Bool} (hs : s.makePipe k fails = some s') :
    (s.threadInfo k).worker = .starting ∧
      ∃ place, s' = s.setInfo k { s.threadInfo k with worker := place } := by
  rw [makePipe] at hs
  split at hs <;> cases hs
  rename_i h
  exact ⟨h.2.2, _, rfl⟩

/-- A worker reads a byte, or adds what its list has. -/
theorem worker_cases {k : Nat} (hs : s.readPipe k = some s' ∨ s.addEvents k = some s') :
    ∃ info, s' = s.setInfo k info ∧ info.added ++ info.list = (s.threadInfo k).added ++ (s.threadInfo k).list ∧
      (info.list = [] ∨ info.worker = .reading) ∧ info.worker.HasPipe := by
  rcases hs with hs | hs
  · rw [readPipe] at hs
    split at hs <;> cases hs
    exact ⟨_, rfl, rfl, .inr rfl, .inr rfl⟩
  · rw [addEvents] at hs
    split at hs <;> cases hs
    exact ⟨_, rfl, List.append_nil _, .inl rfl, .inl rfl⟩

theorem take_cases (hs : s.take = some s') :
    s.checking = none ∧ ∃ p l, s.list = p :: l ∧ s' = { s with list := l ++ [p], checking := some p } := by
  rw [take] at hs
  split at hs <;> cases hs
  next p l hnone hlist => exact ⟨hnone, p, l, hlist, rfl⟩

theorem check_cases {now : BitVec 64} {sendFails : Bool} (hs : s.check iTimeout now sendFails = some s') :
    ∃ p, s.checking = some p ∧
      (s' = { s with checking := none }.releaseContext p ∨
        bDel (s.context p) iTimeout now sendFails = false ∧ s' = { s with checking := none }) := by
  obtain ⟨p, hp, rfl⟩ := Option.map_eq_some_iff.mp hs
  refine ⟨p, hp, ?_⟩
  dsimp only
  split
  case isTrue => exact .inl rfl
  case isFalse hdel => exact .inr ⟨Bool.eq_false_iff.mpr hdel, rfl⟩

theorem updateState_cases (s : AcceptThreads) (p : ContextPtr) (bState bUpdateTime : Bool) (now : BitVec 64) :
    s.updateState p bState bUpdateTime now = s ∨ (s.context p).bState ≠ bState ∧
      ∃ context, s.updateState p bState bUpdateTime now = s.setContext p context := by
  unfold updateState
  dsimp only
  split
  case isTrue => exact .inl rfl
  case isFalse h => exact .inr ⟨h, _, rfl⟩

/-! ## What the workers are given -/

/-- The context that `do_accept` was given. -/
def given : AcceptEvent → List ContextPtr
  | .accept _ (some p) _ => [p]
  | _ => []

/-- What it was given in a run. -/
def accepted (es : List AcceptEvent) : List ContextPtr := es.flatMap given

/-- What `do_accept` has not put in the list of a worker. -/
def pending (s : AcceptThreads) : List ContextPtr :=
  match s.accepting with
  | .listed p => [p]
  | _ => []

/-- The workers have, or have added, what was dealt to them. -/
def Dealt (es : List AcceptEvent) (s : AcceptThreads) : Prop :=
  ∃ l, accepted es = l ++ s.pending ∧ s.iIndex = l.length % threadCount ∧
    ∀ k, (s.threadInfo k).added ++ (s.threadInfo k).list = share threadCount k l

theorem dealt_start : Dealt [] start := ⟨[], rfl, rfl, fun _ => rfl⟩

theorem accepted_append (es : List AcceptEvent) (e : AcceptEvent) : accepted (es ++ [e]) = accepted es ++ given e := by
  simp [accepted]

/-- A step that gives no worker anything. -/
theorem Dealt.other (h : Dealt es s) (hg : given e = [])
    (ht : ∀ k, (s'.threadInfo k).added ++ (s'.threadInfo k).list = (s.threadInfo k).added ++ (s.threadInfo k).list)
    (hi : s'.iIndex = s.iIndex) (ha : s'.pending = s.pending) : Dealt (es ++ [e]) s' := by
  obtain ⟨l, hl, hidx, hk⟩ := h
  refine ⟨l, ?_, hi.trans hidx, fun k => (ht k).trans (hk k)⟩
  rw [accepted_append, hg, List.append_nil, ha, hl]

theorem held_setInfo {k : Nat} {info : ThreadInfo}
    (h : info.added ++ info.list = (s.threadInfo k).added ++ (s.threadInfo k).list) (j : Nat) :
    ((s.setInfo k info).threadInfo j).added ++ ((s.setInfo k info).threadInfo j).list =
      (s.threadInfo j).added ++ (s.threadInfo j).list := by
  by_cases hjk : j = k
  · subst hjk
    simpa [setInfo] using h
  · simp [setInfo, hjk]

theorem Dealt.accept (h : Dealt es s) {fd : Int} {p : Option ContextPtr} {now : BitVec 64}
    (hs : s.accept fd p now = some s') : Dealt (es ++ [.accept fd p now]) s' := by
  obtain ⟨hidle, ⟨rfl, rfl⟩ | ⟨p, rfl, rfl⟩⟩ := accept_cases hs
  · exact h.other rfl (fun _ => rfl) rfl rfl
  · obtain ⟨l, hl, hidx, hk⟩ := h
    refine ⟨l, ?_, hidx, hk⟩
    rw [accepted_append, hl, pending, hidle, List.append_nil]
    rfl

/-- `do_accept` hands a context to the next worker. -/
theorem Dealt.handed (h : Dealt es s) (hp : s.accepting = .listed p) {i : Nat} (hi : i = (s.iIndex + 1) % threadCount) :
    Dealt (es ++ [.accepting]) { s.setInfo i { s.threadInfo i with list := (s.threadInfo i).list ++ [p] } with
      iIndex := i, accepting := .handed } := by
  obtain ⟨l, hl, hidx, hk⟩ := h
  have hlen : i = (l.length + 1) % threadCount := by
    rw [hi, hidx, Nat.mod_add_mod]
  refine ⟨l ++ [p], ?_, ?_, fun k => ?_⟩
  · rw [accepted_append, hl, pending, hp]
    simp [given, pending]
  · rw [List.length_append]
    exact hlen
  · rw [share_append, ← hk k, ← hlen]
    by_cases hki : k = i
    · subst hki
      simp [setInfo]
    · simp [setInfo, hki, Ne.symm hki]

theorem Dealt.step (h : Dealt es s) (hs : s.step iTimeout e = some s') : Dealt (es ++ [e]) s' := by
  have other (hg : given e = []) (ht : s'.threadInfo = s.threadInfo) (hi : s'.iIndex = s.iIndex)
      (ha : s'.accepting = s.accepting) : Dealt (es ++ [e]) s' := by
    refine h.other hg (fun k => by rw [ht]) hi ?_
    rw [pending, pending, ha]
  cases e with
  | accept fd p now => exact h.accept hs
  | makeWorkers =>
    obtain rfl := makeWorkers_cases hs
    exact other rfl rfl rfl rfl
  | makePipe k fails =>
    obtain ⟨-, place, rfl⟩ := makePipe_cases hs
    exact h.other rfl (held_setInfo (s := s) (by rfl)) rfl rfl
  | accepting =>
    rcases acceptStep_cases hs with ⟨p, hp, i, hi, rfl⟩ | ⟨hp, ⟨-, rfl⟩ | ⟨-, rfl⟩⟩
    · exact h.handed hp hi
    · exact h.other rfl (fun _ => rfl) rfl (by rw [pending, pending, hp])
    · exact h.other rfl (held_setInfo (s := s) (by rfl)) rfl (by rw [pending, pending, hp])
  | readPipe k =>
    obtain ⟨info, rfl, ht, -⟩ := worker_cases (.inl hs)
    exact h.other rfl (held_setInfo ht) rfl rfl
  | addEvents k =>
    obtain ⟨info, rfl, ht, -⟩ := worker_cases (.inr hs)
    exact h.other rfl (held_setInfo ht) rfl rfl
  | take =>
    obtain ⟨-, p, l, -, rfl⟩ := take_cases hs
    exact other rfl rfl rfl rfl
  | check now sendFails =>
    obtain ⟨p, -, rfl | ⟨-, rfl⟩⟩ := check_cases hs <;> exact other rfl rfl rfl rfl
  | release p =>
    cases hs
    exact other rfl rfl rfl rfl
  | updateState p bState bUpdateTime now =>
    cases hs
    rcases updateState_cases s p bState bUpdateTime now with he | ⟨-, context, he⟩ <;> rw [he] at other ⊢ <;>
      exact other rfl rfl rfl rfl
  | closeConn p =>
    cases hs
    exact other rfl rfl rfl rfl

/-! ## What wakes them -/

/-- Whether the worker `k` has read a byte, can read one, or is about to be sent one. -/
def Awake (s : AcceptThreads) (k : Nat) : Prop :=
  0 < (s.threadInfo k).pipe ∨ (s.threadInfo k).worker = .reading ∨ s.accepting = .handed ∧ s.iIndex = k

/-- Who has something is awake, and only a pipe has bytes. -/
structure Woken (s : AcceptThreads) : Prop where
  awake (k : Nat) : (s.threadInfo k).list ≠ [] → s.Awake k
  piped (k : Nat) : 0 < (s.threadInfo k).pipe → (s.threadInfo k).worker.HasPipe

/-- The byte that `do_accept` sends goes to a worker that has its pipe. -/
def Reaches (s : AcceptThreads) : AcceptEvent → Prop
  | .accepting => s.accepting = .handed → (s.threadInfo s.iIndex).worker.HasPipe
  | _ => True

instance (s : AcceptThreads) : (e : AcceptEvent) → Decidable (s.Reaches e)
  | .accepting => inferInstanceAs (Decidable (_ → _))
  | .accept .. | .makeWorkers | .makePipe .. | .readPipe _ | .addEvents _ | .take | .check .. | .release _
  | .updateState .. | .closeConn _ => isTrue trivial

theorem woken_start : Woken start := ⟨fun _ h => (h rfl).elim, fun _ h => (Nat.lt_irrefl 0 h).elim⟩

/-- A step that the workers and `do_accept` have no part in. -/
theorem Woken.other (h : Woken s) (ht : s'.threadInfo = s.threadInfo) (hi : s'.iIndex = s.iIndex)
    (ha : s'.accepting = s.accepting ∨ s.accepting = .idle) : Woken s' := by
  refine ⟨fun k hne => ?_, fun k => ht ▸ h.piped k⟩
  rw [Awake, ht, hi]
  rcases h.awake k (ht ▸ hne) with hpipe | hread | ⟨hh, hk⟩
  · exact .inl hpipe
  · exact .inr (.inl hread)
  · rcases ha with ha | ha
    · exact .inr (.inr ⟨ha.trans hh, hk⟩)
    · cases ha.symm.trans hh

/-- A step that changes one worker. -/
theorem Woken.changed (h : Woken s) {k : Nat} {info : ThreadInfo}
    (ht : s'.threadInfo = Function.update s.threadInfo k info)
    (hne : info.list ≠ [] → 0 < info.pipe ∨ info.worker = .reading ∨ s'.accepting = .handed ∧ s'.iIndex = k)
    (hpipe : 0 < info.pipe → info.worker.HasPipe)
    (hi : ∀ j, j ≠ k → s.accepting = .handed ∧ s.iIndex = j → s'.accepting = .handed ∧ s'.iIndex = j) : Woken s' := by
  have hself : s'.threadInfo k = info := by rw [ht, Function.update_self]
  have hother (j : Nat) (hj : j ≠ k) : s'.threadInfo j = s.threadInfo j := by
    rw [ht, Function.update_of_ne hj]
  refine ⟨fun j => ?_, fun j => ?_⟩
  · rw [Awake]
    by_cases hj : j = k
    · subst hj
      rw [hself]
      exact hne
    · rw [hother j hj]
      exact fun h' => (h.awake j h').imp_right (Or.imp_right (hi j hj))
  · by_cases hj : j = k
    · subst hj
      rw [hself]
      exact hpipe
    · rw [hother j hj]
      exact h.piped j

theorem Woken.step (h : Woken s) (hr : s.Reaches e) (hs : s.step iTimeout e = some s') : Woken s' := by
  cases e with
  | accept fd p now =>
    obtain ⟨hidle, ⟨-, rfl⟩ | ⟨p, -, rfl⟩⟩ := accept_cases hs
    · exact h
    · exact h.other rfl rfl (.inr hidle)
  | makeWorkers =>
    obtain rfl := makeWorkers_cases hs
    exact h.other rfl rfl (.inl rfl)
  | makePipe k fails =>
    obtain ⟨hstart, place, rfl⟩ := makePipe_cases hs
    have hno : ¬ 0 < (s.threadInfo k).pipe := fun hpipe => by
      rcases h.piped k hpipe with hw | hw <;> cases hstart.symm.trans hw
    refine h.changed rfl (fun hne => .inr (.inr ?_)) (fun hpipe => absurd hpipe hno) fun _ _ hh => hh
    rcases h.awake k hne with hpipe | hread | hh
    · exact absurd hpipe hno
    · cases hstart.symm.trans hread
    · exact hh
  | accepting =>
    rcases acceptStep_cases hs with ⟨p, hp, i, -, rfl⟩ | ⟨hp, ⟨hno, -⟩ | ⟨hpipe, rfl⟩⟩
    · exact h.changed rfl (fun _ => .inr (.inr ⟨rfl, rfl⟩)) (h.piped i) fun _ _ hh => by cases hp.symm.trans hh.1
    · exact absurd (hr hp) hno
    · exact h.changed rfl (fun _ => .inl (Nat.succ_pos _)) (fun _ => hpipe) fun _ hj hh => absurd hh.2.symm hj
  | readPipe k =>
    obtain ⟨info, rfl, -, hne, hpipe⟩ := worker_cases (.inl hs)
    exact h.changed rfl (fun hl => .inr (.inl (hne.resolve_left hl))) (fun _ => hpipe) fun _ _ hh => hh
  | addEvents k =>
    obtain ⟨info, rfl, -, hne, hpipe⟩ := worker_cases (.inr hs)
    exact h.changed rfl (fun hl => .inr (.inl (hne.resolve_left hl))) (fun _ => hpipe) fun _ _ hh => hh
  | take =>
    obtain ⟨-, p, l, -, rfl⟩ := take_cases hs
    exact h.other rfl rfl (.inl rfl)
  | check now sendFails =>
    obtain ⟨p, -, rfl | ⟨-, rfl⟩⟩ := check_cases hs <;> exact h.other rfl rfl (.inl rfl)
  | release p =>
    cases hs
    exact h.other rfl rfl (.inl rfl)
  | updateState p bState bUpdateTime now =>
    cases hs
    rcases updateState_cases s p bState bUpdateTime now with he | ⟨-, context, he⟩ <;> rw [he]
    · exact h
    · exact h.other rfl rfl (.inl rfl)
  | closeConn p =>
    cases hs
    exact h.other rfl rfl (.inl rfl)

/-- Who has something to add, or is about to get it, can go on. -/
theorem Woken.enabled (h : Woken s) {k : Nat} (hne : (s.threadInfo k).list ≠ [] ∨ s.pending ≠ []) :
    ∃ e ∈ [AcceptEvent.readPipe k, .addEvents k, .accepting, .makeWorkers], (s.step iTimeout e).isSome := by
  by_cases hread : (s.threadInfo k).worker = .reading
  · exact ⟨.addEvents k, by simp, by simp [AcceptThreads.step, addEvents, hread]⟩
  by_cases hpipe : 0 < (s.threadInfo k).pipe
  · have hwait : (s.threadInfo k).worker = .waiting := (h.piped k hpipe).resolve_right hread
    exact ⟨.readPipe k, by simp, by simp [AcceptThreads.step, readPipe, hwait, hpipe]⟩
  rcases ha : s.accepting with _ | p | _
  · rcases hne with hne | hne
    · rcases h.awake k hne with h | h | ⟨h, -⟩
      · exact absurd h hpipe
      · exact absurd h hread
      · rw [ha] at h
        cases h
    · rw [pending, ha] at hne
      exact absurd rfl hne
  · -- Before `Start` has made the workers, it can go on.
    rcases hs : s.started with _ | _
    · exact ⟨.makeWorkers, by simp, by simp [AcceptThreads.step, makeWorkers, hs]⟩
    · exact ⟨.accepting, by simp, by simp [AcceptThreads.step, acceptStep, ha, hs]⟩
  · -- The pipe of the worker is empty, so there is room for the byte.
    refine ⟨.accepting, by simp, ?_⟩
    rw [AcceptThreads.step, acceptStep, ha]
    rcases hne with hne | hne
    · rcases h.awake k hne with h | h | ⟨-, rfl⟩
      · exact absurd h hpipe
      · exact absurd h hread
      · have hroom : (s.threadInfo s.iIndex).pipe < pipeSize := by
          have : 0 < pipeSize := by decide
          omega
        by_cases hhas : (s.threadInfo s.iIndex).worker.HasPipe <;> simp [hhas, hroom]
    · rw [pending, ha] at hne
      exact absurd rfl hne

/-- A worker adds its share of the contexts in the order in which they came; and if every byte was sent to a worker
that had its pipe, the worker can go on, or `do_accept` or `Start` can, while something of it is missing. -/
theorem added_share (h : es.foldlM (step iTimeout) start = some s) (k : Nat) :
    (s.threadInfo k).added <+: share threadCount k (accepted es) ∧
      ((∀ x ∈ runSteps (step iTimeout) start es, x.1.Reaches x.2) →
        (s.threadInfo k).added ≠ share threadCount k (accepted es) →
          ∃ e ∈ [AcceptEvent.readPipe k, .addEvents k, .accepting, .makeWorkers], (s.step iTimeout e).isSome) := by
  obtain ⟨l, hl, -, hk⟩ : Dealt es s :=
    history_inv (P := Dealt) dealt_start (fun _ _ _ _ _ hd hs => hd.step hs) h
  refine ⟨?_, fun hr hne => ?_⟩
  · rw [hl]
    have hown : (s.threadInfo k).added <+: share threadCount k l := hk k ▸ List.prefix_append _ _
    exact hown.trans (share_of_append _ _ _ _)
  · have hw : Woken s := foldlM_inv_of_steps (fun _ _ _ hw hr hs => hw.step hr hs) woken_start hr h
    refine hw.enabled ?_
    by_contra hnone
    rw [not_or, not_not, not_not] at hnone
    rw [hl, hnone.2, List.append_nil, ← hk k, hnone.1, List.append_nil] at hne
    exact hne rfl

/-- `Start` makes the workers, and all of them their pipes. -/
def makeAll : List AcceptEvent := .makeWorkers :: (List.range threadCount).map fun k => .makePipe k false

/-- Two connections, the first of which has been added. -/
def twoAccepted : List AcceptEvent :=
  makeAll ++
    [.accept 7 (some 1) 10, .accepting, .accepting, .readPipe 1, .addEvents 1, .accept 8 (some 2) 20, .accepting]

theorem added_share_twoAccepted :
    ∃ s, twoAccepted.foldlM (step 100) start = some s ∧ (s.threadInfo 2).added <+: share threadCount 2 [1, 2] ∧
      ((s.threadInfo 2).added ≠ share threadCount 2 [1, 2] →
        ∃ e ∈ [AcceptEvent.readPipe 2, .addEvents 2, .accepting, .makeWorkers], (s.step 100 e).isSome) := by
  have h := added_share (rfl : twoAccepted.foldlM (step 100) start = some _) 2
  exact ⟨_, rfl, h.1, h.2 (by decide)⟩

/-- The first connection comes before its worker has a pipe, and is never added. -/
example :
    ∃ s, [AcceptEvent.makeWorkers, .accept 7 (some 1) 10, .accepting, .accepting, .makePipe 1 false].foldlM (step 100)
        start = some s ∧ (s.threadInfo 1).list = [1] ∧ s.accepting = .idle ∧
      s.step 100 (.readPipe 1) = none ∧ s.step 100 (.addEvents 1) = none :=
  ⟨_, rfl, rfl, rfl, rfl, rfl⟩

/-! ## What the time-out thread closes -/

theorem idxOf_erase_le (h : p ≠ c) (l : List ContextPtr) : (l.erase p).idxOf c ≤ l.idxOf c := by
  induction l with
  | nil => rfl
  | cons a l ih =>
    rw [List.erase_cons]
    split
    case isTrue ha =>
      rw [List.idxOf_cons_ne _ (beq_iff_eq.mp ha ▸ h)]
      exact Nat.le_succ _
    case isFalse =>
      by_cases hac : a = c
      · rw [List.idxOf_cons_eq _ hac, List.idxOf_cons_eq _ hac]
      · rw [List.idxOf_cons_ne _ hac, List.idxOf_cons_ne _ hac]
        exact Nat.succ_le_succ ih

/-- What happens while nobody sets the state of a context and `m_pRes` does not give it out again, and its time is
over whenever `CheckTimeOut` looks at the clock. `since` is its `m_dStateTime`. -/
def Silent (iTimeout : Int) (c : ContextPtr) (since : BitVec 64) : AcceptEvent → Prop
  | .accept _ p _ => p ≠ some c
  | .updateState p bState _ _ => p = c → bState = false
  | .check now _ => BitVec.ofInt 64 iTimeout < now - since
  | _ => True

def isCheck : AcceptEvent → Bool
  | .check _ _ => true
  | _ => false

/-- A context that waits for `CheckTimeOut` and has no state. -/
structure Waits (c : ContextPtr) (since : BitVec 64) (s : AcceptThreads) : Prop where
  listed : c ∈ s.list
  bState : (s.context c).bState = false
  time : (s.context c).dStateTime = since

/-- How many contexts `CheckTimeOut` looks at before this one. -/
def ahead (c : ContextPtr) (s : AcceptThreads) : Nat :=
  match s.checking with
  | none => s.list.idxOf c
  | some p => if p = c then 0 else s.list.idxOf c + 1

variable {since : BitVec 64}

theorem ahead_le_length (h : Waits c since s) : ahead c s ≤ s.list.length := by
  have hlt := List.idxOf_lt_length_of_mem h.listed
  unfold ahead
  split
  · omega
  · split <;> omega

/-- A step that leaves `m_list` as it was, up to what comes last. -/
theorem Waits.same (h : Waits c since s) {l : List ContextPtr} (hl : s'.list = s.list ++ l)
    (hc : s'.context c = s.context c ∨ s'.context c = { s.context c with sock := invalidSocket })
    (hp : s'.checking = s.checking) : Waits c since s' ∧ ahead c s' = ahead c s := by
  refine ⟨⟨hl ▸ List.mem_append_left l h.listed, ?_, ?_⟩, ?_⟩
  · rcases hc with hc | hc <;> rw [hc] <;> exact h.bState
  · rcases hc with hc | hc <;> rw [hc] <;> exact h.time
  · rw [ahead, ahead, hp, hl, List.idxOf_append_of_mem h.listed]

theorem Waits.release (h : Waits c since s) (hpc : p ≠ c) :
    Waits c since (s.releaseContext p) ∧ ahead c (s.releaseContext p) ≤ ahead c s := by
  refine ⟨⟨(List.mem_erase_of_ne hpc.symm).mpr h.listed, h.bState, h.time⟩, ?_⟩
  have hle := idxOf_erase_le hpc s.list
  rw [ahead, ahead]
  simp only [releaseContext]
  split
  · exact hle
  · split
    · rfl
    · exact Nat.succ_le_succ hle

/-- `CheckTimeOut` moves the front of `m_list` to its end. -/
theorem Waits.take (h : Waits c since s) (hs : s.take = some s') : Waits c since s' ∧ ahead c s' = ahead c s := by
  obtain ⟨hnone, p, l, hlist, rfl⟩ := take_cases hs
  have hmem := h.listed
  rw [hlist, List.mem_cons] at hmem
  refine ⟨⟨?_, h.bState, h.time⟩, ?_⟩
  · simpa [or_comm] using hmem
  · rw [ahead, ahead, hnone, hlist]
    by_cases hpc : p = c
    · simp [hpc]
    · have hl : c ∈ l := hmem.resolve_left (Ne.symm hpc)
      simp only [if_neg hpc, List.idxOf_cons_ne _ hpc, List.idxOf_append_of_mem hl]

/-- What it has taken it gives back, or there is one fewer before the context. -/
theorem Waits.check (h : Waits c since s) {now : BitVec 64} {sendFails : Bool}
    (ho : BitVec.ofInt 64 iTimeout < now - since) (hs : s.check iTimeout now sendFails = some s') :
    s'.released = s.released ++ [c] ∨ Waits c since s' ∧ ahead c s' + 1 ≤ ahead c s := by
  obtain ⟨p, hp, hs⟩ := check_cases hs
  by_cases hpc : p = c
  · subst hpc
    rcases hs with rfl | ⟨hdel, rfl⟩
    · exact .inl rfl
    · rw [bDel] at hdel
      split at hdel
      · cases hdel
      · rw [if_pos ⟨h.bState, h.time ▸ ho⟩] at hdel
        cases hdel
  · right
    have hw : Waits c since { s with checking := none } := ⟨h.listed, h.bState, h.time⟩
    have ha : ahead c { s with checking := none } + 1 = ahead c s := by
      simp only [ahead, hp, if_neg hpc]
    rcases hs with rfl | ⟨-, rfl⟩
    · obtain ⟨hw', ha'⟩ := hw.release hpc
      exact ⟨hw', by omega⟩
    · exact ⟨hw, by omega⟩

theorem Waits.step (h : Waits c since s) (ho : Silent iTimeout c since e) (hs : s.step iTimeout e = some s') :
    s'.released = s.released ++ [c] ∨ Waits c since s' ∧ ahead c s' + (if isCheck e then 1 else 0) ≤ ahead c s := by
  have same {l : List ContextPtr} (hl : s'.list = s.list ++ l)
      (hc : s'.context c = s.context c ∨ s'.context c = { s.context c with sock := invalidSocket })
      (hp : s'.checking = s.checking) (he : isCheck e = false) :
      s'.released = s.released ++ [c] ∨
        Waits c since s' ∧ ahead c s' + (if isCheck e then 1 else 0) ≤ ahead c s := by
    obtain ⟨hw, ha⟩ := h.same hl hc hp
    exact .inr ⟨hw, by simp [he, ha]⟩
  cases e with
  | accept fd p now =>
    obtain ⟨-, ⟨rfl, rfl⟩ | ⟨p, rfl, rfl⟩⟩ := accept_cases hs
    · exact same (List.append_nil _).symm (.inl rfl) rfl rfl
    · have hpc : c ≠ p := fun hpc => ho (congrArg some hpc.symm)
      exact same rfl (.inl (Function.update_of_ne hpc _ _)) rfl rfl
  | accepting =>
    rcases acceptStep_cases hs with ⟨p, -, i, -, rfl⟩ | ⟨-, ⟨-, rfl⟩ | ⟨-, rfl⟩⟩ <;>
      exact same (List.append_nil _).symm (.inl rfl) rfl rfl
  | makeWorkers =>
    obtain rfl := makeWorkers_cases hs
    exact same (List.append_nil _).symm (.inl rfl) rfl rfl
  | makePipe k fails =>
    obtain ⟨-, place, rfl⟩ := makePipe_cases hs
    exact same (List.append_nil _).symm (.inl rfl) rfl rfl
  | readPipe k =>
    obtain ⟨info, rfl, -⟩ := worker_cases (.inl hs)
    exact same (List.append_nil _).symm (.inl rfl) rfl rfl
  | addEvents k =>
    obtain ⟨info, rfl, -⟩ := worker_cases (.inr hs)
    exact same (List.append_nil _).symm (.inl rfl) rfl rfl
  | take =>
    obtain ⟨hw, ha⟩ := h.take hs
    exact .inr ⟨hw, by simp [isCheck, ha]⟩
  | check now sendFails => exact h.check ho hs
  | release p =>
    cases hs
    by_cases hpc : p = c
    · left
      rw [← hpc]
      rfl
    · right
      exact h.release hpc
  | updateState p bState bUpdateTime now =>
    cases hs
    rcases updateState_cases s p bState bUpdateTime now with he | ⟨hne, context, he⟩ <;> rw [he] at same ⊢
    · exact same (List.append_nil _).symm (.inl rfl) rfl rfl
    · have hpc : c ≠ p := by
        rintro rfl
        rw [h.bState, ho rfl] at hne
        exact hne rfl
      exact same (List.append_nil _).symm (.inl (Function.update_of_ne hpc _ _)) rfl rfl
  | closeConn p =>
    cases hs
    by_cases hpc : c = p
    · subst hpc
      exact same (List.append_nil _).symm (.inr (Function.update_self ..)) rfl rfl
    · exact same (List.append_nil _).symm (.inl (Function.update_of_ne hpc _ _)) rfl rfl

/-- What was given back stays so. -/
theorem released_step (hs : s.step iTimeout e = some s') : ∃ l, s'.released = s.released ++ l := by
  have same (h : s'.released = s.released) : ∃ l, s'.released = s.released ++ l := ⟨[], h.trans (List.append_nil _).symm⟩
  cases e with
  | accept fd p now =>
    obtain ⟨-, ⟨-, rfl⟩ | ⟨p, -, rfl⟩⟩ := accept_cases hs <;> exact same rfl
  | makeWorkers =>
    obtain rfl := makeWorkers_cases hs
    exact same rfl
  | makePipe k fails =>
    obtain ⟨-, place, rfl⟩ := makePipe_cases hs
    exact same rfl
  | accepting =>
    rcases acceptStep_cases hs with ⟨p, -, i, -, rfl⟩ | ⟨-, ⟨-, rfl⟩ | ⟨-, rfl⟩⟩ <;> exact same rfl
  | readPipe k =>
    obtain ⟨info, rfl, -⟩ := worker_cases (.inl hs)
    exact same rfl
  | addEvents k =>
    obtain ⟨info, rfl, -⟩ := worker_cases (.inr hs)
    exact same rfl
  | take =>
    obtain ⟨-, p, l, -, rfl⟩ := take_cases hs
    exact same rfl
  | check now sendFails =>
    obtain ⟨p, -, rfl | ⟨-, rfl⟩⟩ := check_cases hs
    · exact ⟨[p], rfl⟩
    · exact same rfl
  | release p =>
    cases hs
    exact ⟨[p], rfl⟩
  | updateState p bState bUpdateTime now =>
    cases hs
    rcases updateState_cases s p bState bUpdateTime now with he | ⟨-, context, he⟩ <;> rw [he] at same ⊢ <;>
      exact same rfl
  | closeConn p =>
    cases hs
    exact same rfl

/-- The context was given back between the two. -/
def GivenBack (c : ContextPtr) (s t : AcceptThreads) : Prop := ∃ l, t.released = s.released ++ l ∧ c ∈ l

theorem GivenBack.step {t t' : AcceptThreads} (h : GivenBack c s t) (hs : t.step iTimeout e = some t') :
    GivenBack c s t' := by
  obtain ⟨l, hl, hc⟩ := h
  obtain ⟨l', hl'⟩ := released_step hs
  exact ⟨l ++ l', by rw [hl', hl, List.append_assoc], List.mem_append_left _ hc⟩

/-- A connection that has no state for too long is given back before `CheckTimeOut` has looked at more contexts than
`m_list` has, whatever is accepted, handled and closed in between. -/
theorem silent_released {t : AcceptThreads} (hc : c ∈ s.list) (hb : (s.context c).bState = false)
    (ho : ∀ e ∈ es, Silent iTimeout c (s.context c).dStateTime e) (hn : s.list.length < es.countP isCheck)
    (h : es.foldlM (step iTimeout) s = some t) : GivenBack c s t := by
  have hw : Waits c (s.context c).dStateTime s := ⟨hc, hb, rfl⟩
  refine progress (I := fun u => Waits c (s.context c).dStateTime u ∧ ∃ l, u.released = s.released ++ l) (μ := ahead c)
    (fun _ _ _ _ hq hs => hq.step hs) (fun u _ u' ho ⟨hw, l, hl⟩ hs => ?_) ho ⟨hw, [], (List.append_nil _).symm⟩
    (Nat.lt_of_le_of_lt (ahead_le_length hw) hn) h
  rcases hw.step ho hs with hback | ⟨hw', ha⟩
  · exact .inl ⟨l ++ [c], by rw [hback, hl, List.append_assoc], List.mem_append_right _ List.mem_cons_self⟩
  · obtain ⟨l', hl'⟩ := released_step hs
    exact .inr ⟨⟨hw', l ++ l', by rw [hl', hl, List.append_assoc]⟩, ha⟩

/-- The second of two connections has a state. -/
def oneSilent : AcceptThreads :=
  ((twoAccepted ++ [AcceptEvent.updateState 2 true true 30]).foldlM (step 100) start).getD start

def threeChecks : List AcceptEvent :=
  [.take, .check 200 false, .take, .check 210 false, .take, .check 220 false]

theorem silent_threeChecks : ∀ e ∈ threeChecks, Silent 100 1 (oneSilent.context 1).dStateTime e := by
  simp only [threeChecks, List.forall_mem_cons, List.not_mem_nil, false_implies, implies_true, and_true, Silent, true_and]
  decide

theorem silent_released_threeChecks :
    ∃ t, threeChecks.foldlM (step 100) oneSilent = some t ∧ GivenBack 1 oneSilent t :=
  ⟨_, rfl, silent_released (by decide) rfl silent_threeChecks (by decide) rfl⟩

end AcceptThreads

end Miku.ZzmCommon
