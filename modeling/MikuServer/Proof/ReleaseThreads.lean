import MikuServer.Framework.Loop
import MikuServer.Framework.Threads
import MikuServer.Impl.ReleaseThreads

/-!
# Releasing a gate's connection

`ReleaseUserInfo` joins the connection's thread while it has the mutex of the
`ClientInfoList`. The two threads wait for each other exactly if the one is at
the join and the other at the mutex in `GetUserByHashkey` (`deadlock_iff`), and
then neither goes on (`no_step`). They never do as long as a command that is
running when `is_started_` is set has no `GetUserByHashkey` left (`released`).
-/

namespace Miku.RoomServer.ReleaseThreads

variable {s s' : ReleaseThreads} {x : ReleaseEvent} {t t' : ReleaseThread} {m : Mutex}

/-- The mutex that a thread locks next. -/
def next (s : ReleaseThreads) : ReleaseThread → Option Mutex
  | .event => if s.event = .lock then some .clientList else none
  | .worker =>
    match s.worker with
    | some (.lock m :: _) => some m
    | _ => none

/-- `t` waits for a mutex that `t'` has, or for the end of `t'`. -/
def Waits (s : ReleaseThreads) (t t' : ReleaseThread) : Prop :=
  t ≠ t' ∧ ((∃ m, s.next t = some m ∧ s.owner m = some t') ∨
    (t = .event ∧ s.event = .join ∧ t' = .worker ∧ s.worker ≠ none))

/-- When `is_started_` is set, the rest of the turn of `DealWithDataThread` has no `GetUserByHashkey`. -/
def Allowed (s : ReleaseThreads) : ReleaseEvent → Prop
  | .event => s.event = .stop → ∀ actions ∈ s.worker, .lock .clientList ∉ actions
  | _ => True

instance (s : ReleaseThreads) (x : ReleaseEvent) : Decidable (Allowed s x) :=
  match x with
  | .event => inferInstanceAs (Decidable (s.event = .stop → ∀ actions ∈ s.worker, .lock .clientList ∉ actions))
  | .errorRead | .turn _ | .worker => isTrue trivial

/-- The event thread has the mutex of the `ClientInfoList` from `lock` to `unlock`, and no other. -/
structure Inv (s : ReleaseThreads) : Prop where
  has : s.event ≠ .idle → s.event ≠ .lock → s.owner .clientList = some .event
  owner {m : Mutex} : s.owner m = some .event → m = .clientList ∧ s.event ≠ .idle ∧ s.event ≠ .lock

theorem inv_start : Inv start where
  has h := absurd rfl h
  owner h := by cases h

/-- After `lock`, the event thread has the mutex. -/
theorem Inv.holds (hi : Inv s) {e : ReleasePlace} (he : s.event = e) (hn : e ≠ .idle ∧ e ≠ .lock) :
    s.owner .clientList = some .event := by
  subst he
  exact hi.has hn.1 hn.2

theorem Inv.goes (hi : Inv s) (ho : s.owner .clientList = some .event) {e : ReleasePlace} (hn : e ≠ .idle ∧ e ≠ .lock)
    (started : Bool) : Inv { s with event := e, isStarted := started } where
  has _ _ := ho
  owner hm := ⟨(hi.owner hm).1, hn⟩

/-! ## A deadlock -/

theorem waits_irrefl (t : ReleaseThread) : ¬ Waits s t t := fun h => h.1 rfl

/-- The worker waits for the event thread only at the mutex of the `ClientInfoList`. -/
theorem Inv.waits_worker (hi : Inv s) : Waits s .worker .event ↔
    s.next .worker = some .clientList ∧ s.owner .clientList = some .event := by
  refine ⟨fun ⟨_, h⟩ => ?_, fun h => ⟨nofun, .inl ⟨_, h⟩⟩⟩
  rcases h with ⟨m, hn, ho⟩ | ⟨ht, -⟩
  · obtain ⟨rfl, -⟩ := hi.owner ho
    exact ⟨hn, ho⟩
  · cases ht

/-- The threads wait for each other exactly at the join and in `GetUserByHashkey`. -/
theorem Inv.deadlock_iff (hi : Inv s) :
    Deadlock (Waits s) ↔ s.event = .join ∧ s.next .worker = some .clientList := by
  have htwo (k : ReleaseThread) : k = .event ∨ k = .worker := by cases k <;> simp
  rw [deadlock_iff_two waits_irrefl htwo, hi.waits_worker]
  refine ⟨fun ⟨he, hn, ho⟩ => ⟨?_, hn⟩, fun ⟨he, hn⟩ => ⟨?_, hn, hi.holds he (by decide)⟩⟩
  · obtain ⟨-, -, hlock⟩ := hi.owner ho
    rcases he.2 with ⟨m, hm, -⟩ | ⟨-, hj, -⟩
    · simp [next, hlock] at hm
    · exact hj
  · refine ⟨nofun, .inr ⟨rfl, he, rfl, fun hw => ?_⟩⟩
    simp [next, hw] at hn

/-- Neither thread goes on, and none begins. -/
theorem Inv.no_step (hi : Inv s) (h : Deadlock (Waits s)) (x : ReleaseEvent) : s.step x = none := by
  obtain ⟨he, hn⟩ := hi.deadlock_iff.mp h
  have ho : s.owner .clientList = some .event := hi.holds he (by decide)
  obtain ⟨actions, hw⟩ : ∃ actions, s.worker = some (.lock .clientList :: actions) := by
    rw [next] at hn
    split at hn
    · cases hn
      exact ⟨_, ‹_›⟩
    · cases hn
  cases x with
  | errorRead => simp [step, he]
  | event => simp [step, releaseUserInfo, he, hw]
  | turn calls => simp [step, hw]
  | worker => simp [step, hw, lock, ho]

/-! ## Runs -/

theorem lock_eq (h : s.lock t m = some s') :
    s.owner m = none ∧ s' = { s with owner := Function.update s.owner m (some t) } := by
  rw [lock] at h
  split at h <;> rename_i ho
  · cases h
    exact ⟨ho, rfl⟩
  · cases h

theorem unlock_eq (h : s.unlock t m = some s') :
    s.owner m = some t ∧ s' = { s with owner := Function.update s.owner m none } := by
  obtain ⟨ho, h⟩ := Option.ite_none_right_eq_some.mp h
  cases h
  exact ⟨ho, rfl⟩

/-- A step of the event thread. -/
theorem Inv.event (hi : Inv s) (h : s.releaseUserInfo = some s') : Inv s' ∧ s'.worker = s.worker ∧
    (s'.event = .join → s'.isStarted = false ∧ s.event = .stop) := by
  rw [releaseUserInfo] at h
  split at h <;> rename_i he
  · cases h
  · obtain ⟨s₁, h1, h⟩ := Option.map_eq_some_iff.mp h
    obtain ⟨-, rfl⟩ := lock_eq h1
    cases h
    refine ⟨⟨fun _ _ => by simp, fun {m} ho => ?_⟩, rfl, nofun⟩
    by_cases hm : m = .clientList
    · exact ⟨hm, nofun, nofun⟩
    · simp only [Function.update_of_ne hm] at ho
      exact absurd he (hi.owner ho).2.2
  · cases h
    exact ⟨hi.goes (hi.holds he (by decide)) (by decide) false, rfl, fun _ => ⟨rfl, he⟩⟩
  · obtain ⟨-, h⟩ := Option.ite_none_right_eq_some.mp h
    cases h
    exact ⟨hi.goes (hi.holds he (by decide)) (by decide) s.isStarted, rfl, nofun⟩
  · cases h
    exact ⟨hi.goes (hi.holds he (by decide)) (by decide) s.isStarted, rfl, nofun⟩
  · obtain ⟨s₁, h1, h⟩ := Option.map_eq_some_iff.mp h
    obtain ⟨-, rfl⟩ := unlock_eq h1
    cases h
    refine ⟨⟨fun hn => absurd rfl hn, fun {m} ho => ?_⟩, rfl, nofun⟩
    by_cases hm : m = .clientList
    · simp [hm] at ho
    · simp only [Function.update_of_ne hm] at ho
      exact absurd (hi.owner ho).1 hm

/-- A mutex that the worker locks, or gives back, is not one that the event thread has. -/
theorem Inv.update (hi : Inv s) {o : Option ReleaseThread} (hm : s.owner m ≠ some .event) (ho : o ≠ some .event)
    (actions : Option (List Action)) : Inv { s with owner := Function.update s.owner m o, worker := actions } := by
  refine ⟨fun h1 h2 => ?_, fun {m'} hm' => ?_⟩
  · have hc := hi.has h1 h2
    show Function.update s.owner m o .clientList = _
    have hne : .clientList ≠ m := fun he => hm (by rw [← he, hc])
    rw [Function.update_of_ne hne, hc]
  · have hm' : Function.update s.owner m o m' = some .event := hm'
    rw [Function.update_apply] at hm'
    split at hm'
    · exact absurd hm' ho
    · exact hi.owner hm'

/-- At the join, `is_started_` is false and no `GetUserByHashkey` is left. -/
structure Safe (s : ReleaseThreads) : Prop extends Inv s where
  stopped : s.event = .join → s.isStarted = false
  left : s.event = .join → ∀ actions ∈ s.worker, .lock .clientList ∉ actions

theorem Safe.step (hi : Safe s) (ha : Allowed s x) (h : s.step x = some s') : Safe s' := by
  cases x with
  | errorRead =>
    obtain ⟨he, h⟩ := Option.ite_none_right_eq_some.mp h
    cases h
    exact ⟨⟨fun _ hn => absurd rfl hn, fun hm => absurd he (hi.owner hm).2.1⟩, nofun, nofun⟩
  | event =>
    obtain ⟨hinv, hworker, hjoin⟩ := hi.toInv.event h
    refine ⟨hinv, fun he => (hjoin he).1, fun he actions hw => ?_⟩
    rw [hworker] at hw
    exact ha (hjoin he).2 actions hw
  | turn calls =>
    obtain ⟨-, h⟩ := Option.ite_none_right_eq_some.mp h
    cases h
    refine ⟨⟨hi.has, hi.owner⟩, hi.stopped, fun he actions hw => ?_⟩
    simp [dealWithData, hi.stopped he] at hw
  | worker =>
    rw [ReleaseThreads.step] at h
    split at h
    · rename_i m actions hw
      obtain ⟨s₁, h1, h⟩ := Option.map_eq_some_iff.mp h
      obtain ⟨ho, rfl⟩ := lock_eq h1
      cases h
      refine ⟨hi.toInv.update (by simp [ho]) (by simp) (some actions), hi.stopped, fun he actions' hw' => ?_⟩
      cases hw'
      exact fun hm => hi.left he _ hw (List.mem_cons_of_mem _ hm)
    · rename_i m actions hw
      obtain ⟨s₁, h1, h⟩ := Option.map_eq_some_iff.mp h
      obtain ⟨ho, rfl⟩ := unlock_eq h1
      cases h
      refine ⟨hi.toInv.update (o := none) (by simp [ho]) nofun (some actions), hi.stopped, fun he actions' hw' => ?_⟩
      cases hw'
      exact fun hm => hi.left he _ hw (List.mem_cons_of_mem _ hm)
    · cases h

theorem safe_start : Safe start where
  toInv := inv_start
  stopped := nofun
  left := nofun

theorem Safe.not_deadlock (hi : Safe s) : ¬ Deadlock (Waits s) := fun h => by
  obtain ⟨he, hn⟩ := hi.toInv.deadlock_iff.mp h
  rw [next] at hn
  split at hn
  · rename_i m actions hw
    cases hn
    exact hi.left he _ hw List.mem_cons_self
  · cases hn

/-- In a run where no `GetUserByHashkey` is left whenever `is_started_` is set, the threads never wait for
each other. -/
theorem released {xs : List ReleaseEvent} (ha : ∀ x ∈ runSteps step start xs, Allowed x.1 x.2)
    (ht : xs.foldlM step start = some s) : ¬ Deadlock (Waits s) :=
  (foldlM_inv_of_steps (fun _ _ _ hi ha h => Safe.step hi ha h) safe_start ha ht).not_deadlock

/-- `UserSendMsgRQ` with a public text, in room 7 with one user. -/
def sendMsg : List Call := [.roomManager, .userInfoList 7, .sendData] ++ sendDataToRoomAllUser 7 1

/-- The connection ends when the command is done with `GetUserByHashkey`. -/
def endsLate : List ReleaseEvent :=
  .turn sendMsg :: List.replicate 13 .worker ++ [.errorRead, .event, .event] ++ List.replicate 3 .worker ++
    [.turn [], .event, .event, .event]

/-- The connection ends before `GetUserByHashkey`. -/
def endsEarly : List ReleaseEvent := .turn sendMsg :: .errorRead :: .event :: .event :: List.replicate 11 .worker

theorem released_late : ∃ s, s ∈ endsLate.foldlM step start ∧ s.event = .idle ∧ s.worker = none ∧
    ¬ Deadlock (Waits s) := by
  obtain ⟨s, hs, he, hw⟩ : ∃ s, endsLate.foldlM step start = some s ∧ s.event = .idle ∧ s.worker = none :=
    ⟨_, rfl, rfl, rfl⟩
  have ha : ∀ x ∈ runSteps step start endsLate, Allowed x.1 x.2 := by decide +kernel
  exact ⟨s, hs, he, hw, released ha hs⟩

theorem deadlock_sendMsg : ∃ s, s ∈ endsEarly.foldlM step start ∧ Deadlock (Waits s) := by
  obtain ⟨s, hs, he, hn, ho⟩ : ∃ s, endsEarly.foldlM step start = some s ∧ s.event = .join ∧
      s.next .worker = some .clientList ∧ s.owner .clientList = some .event := ⟨_, rfl, rfl, rfl, rfl⟩
  have hjoin : Waits s .event .worker := ⟨nofun, .inr ⟨rfl, he, rfl, fun hw => by simp [next, hw] at hn⟩⟩
  have hlock : Waits s .worker .event := ⟨nofun, .inl ⟨_, hn, ho⟩⟩
  exact ⟨s, hs, .event, .head hjoin (.single hlock)⟩

end Miku.RoomServer.ReleaseThreads
