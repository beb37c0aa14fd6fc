import MikuServer.Impl.SocketEvent
import MikuServer.Proof.BufVector

/-!
# No bytes are left behind

While the worker that has found the buffer empty holds the lock, bytes that are
added have a thread that has yet to take it (`Inv.wake`). So once every thread has
come to the end of `SendTcpData`, the write event is added while there are bytes
to send (`woken_run`).
-/

namespace Miku.ZzmCommon

/-- The thread holds the lock. -/
def SenderPlace.Inside : SenderPlace → Prop
  | .idle | .added => False
  | .locked | .eventAdded | .unlock => True

/-- The thread will set `m_bSending` if it has to. -/
def SenderPlace.Pending : SenderPlace → Prop
  | .added | .locked | .eventAdded => True
  | .idle | .unlock => False

/-- The worker has found the buffer empty. -/
def WorkerPlace.Empty : WorkerPlace → Prop
  | .got _ iSize => iSize < 1
  | .eventDeleted => True
  | .idle | .turn _ | .unlock => False

namespace SendThreads

variable {ι : Type} {s s' : SendThreads ι}

/-- Where bytes are to be sent, `m_bSending` is true and the write event is added. -/
def Woken (s : SendThreads ι) : Prop :=
  s.context.sendvectbuf.unread ≠ [] → s.context.bSending = true ∧ s.context.writeAdded = true

structure Inv (s : SendThreads ι) : Prop where
  holds : s.context.sendvectbuf.Holds s.context.sendvectbuf.unread
  opened : invalidSocket ≠ s.context.sock ∧ s.context.bUse = true
  worker : s.worker ≠ .idle → s.locked = true ∧ ∀ i, ¬ (s.sender i).Inside
  sender : ∀ i, (s.sender i).Inside → s.locked = true ∧ ∀ j, (s.sender j).Inside → j = i
  sending : s.context.bSending = true → s.context.writeAdded = true ∨ s.worker = .eventDeleted
  eventAdded : ∀ i, s.sender i = .eventAdded → s.context.writeAdded = true
  unlock : ∀ i, s.sender i = .unlock → s.context.bSending = true
  wake : s.context.sendvectbuf.unread ≠ [] →
    s.context.bSending = true ∧ ¬ s.worker.Empty ∨ ∃ i, (s.sender i).Pending

theorem inv_start {sock : Int} (h : sock ≠ invalidSocket) : Inv (start sock : SendThreads ι) where
  holds := CBufVect.releaseBuf_holds .new
  opened := ⟨h.symm, rfl⟩
  worker h := absurd rfl h
  sender _ h := h.elim
  sending h := (Bool.false_ne_true h).elim
  eventAdded _ h := nomatch h
  unlock _ h := nomatch h
  wake h := absurd rfl h

theorem Inv.woken (hi : Inv s) (h : ∀ i, s.sender i = .idle) : s.Woken := by
  intro hne
  rcases hi.wake hne with ⟨hsending, hempty⟩ | ⟨i, hpending⟩
  · refine ⟨hsending, (hi.sending hsending).resolve_right fun hw => hempty ?_⟩
    rw [hw]
    trivial
  · rw [h i] at hpending
    exact hpending.elim

/-- Outside the worker's sections nobody but the thread that holds the lock is in one. -/
theorem Inv.worker_idle (hi : Inv s) {i : ι} (h : (s.sender i).Inside) : s.worker = .idle := by
  by_contra hne
  exact (hi.worker hne).2 i h

theorem Inv.worker_idle_of_unlocked (hi : Inv s) (h : s.locked = false) :
    s.worker = .idle ∧ ∀ i, ¬ (s.sender i).Inside := by
  refine ⟨?_, fun i hin => ?_⟩
  · by_contra hne
    rw [(hi.worker hne).1] at h
    cases h
  · rw [(hi.sender i hin).1] at h
    cases h

/-! ## `do_write` -/

/-- The worker goes on in `do_write`; no thread is in its section. -/
theorem Inv.workerGoTo (hi : Inv s) (hw : s.worker ≠ .idle) {c : CSocketContext} {w : WorkerPlace}
    (hholds : c.sendvectbuf.Holds c.sendvectbuf.unread) (hopened : c.sock = s.context.sock ∧ c.bUse = s.context.bUse)
    (hsending : c.bSending = true → c.writeAdded = true ∨ w = .eventDeleted)
    (hwake : c.sendvectbuf.unread ≠ [] → c.bSending = true ∧ ¬ w.Empty ∨ ∃ i, (s.sender i).Pending) :
    Inv { s with context := c, worker := w } := by
  have hnone := (hi.worker hw).2
  refine ⟨hholds, ?_, fun _ => hi.worker hw, fun i h => absurd h (hnone i), hsending, fun i h => ?_, fun i h => ?_, hwake⟩
  · rw [hopened.1, hopened.2]
    exact hi.opened
  · refine absurd ?_ (hnone i)
    rw [show s.sender i = .eventAdded from h]
    trivial
  · refine absurd ?_ (hnone i)
    rw [show s.sender i = .unlock from h]
    trivial

theorem Inv.wake_of (hi : Inv s) {w : WorkerPlace} (hw : ¬ w.Empty)
    (hne : s.context.sendvectbuf.unread ≠ []) : s.context.bSending = true ∧ ¬ w.Empty ∨ ∃ i, (s.sender i).Pending :=
  (hi.wake hne).imp (fun h => ⟨h.1, hw⟩) id

theorem Inv.workerStep (hi : Inv s) {iSend : Int} (hs : s.workerStep iSend = some s') : Inv s' := by
  have hadded (h : s.worker ≠ .eventDeleted) (hsending : s.context.bSending = true) : s.context.writeAdded = true :=
    (hi.sending hsending).resolve_right h
  rw [SendThreads.workerStep] at hs
  rcases hw : s.worker with _ | (_ | iCount) | ⟨iCount, iSize⟩ | _ | _ <;> rw [hw] at hs hadded
  · cases hs
  · cases hs
    exact hi.workerGoTo (by rw [hw]; nofun) hi.holds ⟨rfl, rfl⟩ (fun h => .inl (hadded nofun h)) (hi.wake_of id)
  · cases hs
    refine hi.workerGoTo (by rw [hw]; nofun) hi.holds ⟨rfl, rfl⟩ (fun h => .inl (hadded nofun h)) fun hne => ?_
    -- `GetBuf` gives bytes where there are some.
    exact hi.wake_of (mt hi.holds.getBuf_lt_one.mp hne) hne
  · dsimp only at hs
    split at hs <;> rename_i hsize
    · cases hs
      refine hi.workerGoTo (by rw [hw]; nofun) hi.holds ⟨rfl, rfl⟩ (fun _ => .inr rfl) fun hne => .inr ?_
      refine (hi.wake hne).resolve_left fun h => h.2 ?_
      rw [hw]
      exact hsize
    · split at hs
      · cases hs
      · split at hs <;> rename_i hpos
        · cases hs
          obtain ⟨k, hholds⟩ := hi.holds.delBuf (Int.le_of_lt hpos)
          have hunread := hholds.unread_eq
          refine hi.workerGoTo (by rw [hw]; nofun) (hunread.symm ▸ hholds) ⟨rfl, rfl⟩ (fun h => .inl (hadded nofun h))
            fun hne => hi.wake_of id fun h => hne ?_
          show (s.context.sendvectbuf.delBuf iSend).unread = []
          rw [hunread, h, List.drop_nil]
        · cases hs
          exact hi.workerGoTo (by rw [hw]; nofun) hi.holds ⟨rfl, rfl⟩ (fun h => .inl (hadded nofun h)) (hi.wake_of id)
  · cases hs
    refine hi.workerGoTo (by rw [hw]; nofun) hi.holds ⟨rfl, rfl⟩ nofun fun hne => .inr ?_
    refine (hi.wake hne).resolve_left fun h => h.2 ?_
    rw [hw]
    trivial
  · cases hs
    have hne : s.worker ≠ .idle := by
      rw [hw]
      nofun
    have hnone := (hi.worker hne).2
    exact ⟨hi.holds, hi.opened, fun h => absurd rfl h, fun i h => absurd h (hnone i),
      fun h => .inl (hadded nofun h), hi.eventAdded, hi.unlock, hi.wake_of id⟩

theorem Inv.doWrite (hi : Inv s) (h : s.locked = false) : Inv { s with locked := true, worker := .turn 5 } := by
  obtain ⟨hw, hnone⟩ := hi.worker_idle_of_unlocked h
  refine ⟨hi.holds, hi.opened, fun _ => ⟨rfl, hnone⟩, fun i h => absurd h (hnone i), fun h => .inl ?_, hi.eventAdded,
    hi.unlock, hi.wake_of id⟩
  refine (hi.sending h).resolve_right ?_
  rw [hw]
  nofun

/-! ## `SendTcpData` -/

variable [DecidableEq ι] {i : ι}

theorem goTo_sender (s : SendThreads ι) (i : ι) (place : SenderPlace) (j : ι) :
    (s.goTo i place).sender j = if j = i then place else s.sender j :=
  Function.update_apply ..

theorem sender_of_goTo {p q : SenderPlace} {j : ι} (h : (s.goTo i p).sender j = q) (hne : p ≠ q) : s.sender j = q := by
  rw [goTo_sender] at h
  split at h
  · exact absurd h hne
  · exact h

theorem inside_of_goTo {p : SenderPlace} (hp : ¬ p.Inside) {j : ι} (h : ((s.goTo i p).sender j).Inside) :
    j ≠ i ∧ (s.sender j).Inside := by
  rw [goTo_sender] at h
  split at h
  · exact absurd h hp
  · exact ⟨‹_›, h⟩

/-- A thread that has something to do still. -/
theorem goTo_pending {p : SenderPlace} (hp : p.Pending) : ∃ j, ((s.goTo i p).sender j).Pending :=
  ⟨i, by rwa [goTo_sender, if_pos rfl]⟩

/-- A thread goes on in its section; the worker is idle. -/
theorem Inv.goTo_inside (hi : Inv s) (h : (s.sender i).Inside) {p : SenderPlace} (hp : p.Inside) {c : CSocketContext}
    (hbuf : c.sendvectbuf = s.context.sendvectbuf) (hopened : c.sock = s.context.sock ∧ c.bUse = s.context.bUse)
    (hsending : c.bSending = true → c.writeAdded = true) (heventAdded : p = .eventAdded → c.writeAdded = true)
    (hunlock : p = .unlock → c.bSending = true) : Inv { s.goTo i p with context := c } := by
  obtain ⟨hlocked, honly⟩ := hi.sender i h
  have hw := hi.worker_idle h
  have hat {q : SenderPlace} (hq : q.Inside) {j : ι} (hj : (s.goTo i p).sender j = q) : p = q := by
    rw [goTo_sender] at hj
    split at hj
    · exact hj
    · rename_i hne
      exact absurd (honly j (hj ▸ hq)) hne
  refine ⟨hbuf ▸ hi.holds, ?_, fun hne => absurd hw hne, fun j hj => ⟨hlocked, fun k hk => ?_⟩,
    fun hc => .inl (hsending hc), fun j hj => heventAdded (hat trivial hj), fun j hj => hunlock (hat trivial hj), fun _ => ?_⟩
  · rw [hopened.1, hopened.2]
    exact hi.opened
  · have heq {k : ι} (hk : ((s.goTo i p).sender k).Inside) : k = i := by
      rw [goTo_sender] at hk
      split at hk
      · assumption
      · exact honly k hk
    exact (heq hk).trans (heq hj).symm
  · cases p with
    | idle => exact hp.elim
    | added => exact hp.elim
    | locked => exact .inr (goTo_pending trivial)
    | eventAdded => exact .inr (goTo_pending trivial)
    | unlock =>
      refine .inl ⟨hunlock rfl, ?_⟩
      show ¬ s.worker.Empty
      rw [hw]
      exact id

theorem Inv.sendTcpData (hi : Inv s) {bRunning : Bool} {apSendBuff : List Byte} {aiSendLen : Int}
    (hs : s.sendTcpData i bRunning apSendBuff aiSendLen = some s') : Inv s' := by
  rw [SendThreads.sendTcpData] at hs
  split at hs <;> rename_i hidle
  · cases hs
  split at hs
  · cases hs
    exact hi
  split at hs <;> rename_i hlen
  · cases hs
  obtain ⟨v, hv, hholds⟩ := CBufVect.addBuf_ok hi.holds (Nat.lt_succ_self apSendBuff.length)
  rw [not_not.mp hlen, hv] at hs
  cases hs
  have hinside {j : ι} (hj : ((s.goTo i .added).sender j).Inside) : (s.sender j).Inside := (inside_of_goTo id hj).2
  refine ⟨hholds.unread_eq.symm ▸ hholds, hi.opened, fun hne => ⟨(hi.worker hne).1, fun j hj => ?_⟩, fun j hj => ?_,
    hi.sending, fun j hj => hi.eventAdded j (sender_of_goTo hj nofun), fun j hj => hi.unlock j (sender_of_goTo hj nofun),
    fun _ => .inr (goTo_pending trivial)⟩
  · exact (hi.worker hne).2 j (hinside hj)
  · obtain ⟨hlocked, honly⟩ := hi.sender j (hinside hj)
    exact ⟨hlocked, fun k hk => honly k (hinside hk)⟩

theorem Inv.senderStep (hi : Inv s) (hs : s.senderStep i = some s') : Inv s' := by
  rw [SendThreads.senderStep] at hs
  rcases hp : s.sender i with _ | _ | _ | _ | _ <;> rw [hp] at hs
  · cases hs
  · dsimp only at hs
    split at hs <;> rename_i hfree
    · cases hs
    · cases hs
      obtain ⟨hw, hnone⟩ := hi.worker_idle_of_unlocked (eq_false_of_ne_true hfree)
      have hself {j : ι} (hj : ((s.goTo i .locked).sender j).Inside) : j = i := by
        rw [goTo_sender] at hj
        split at hj
        · assumption
        · exact absurd hj (hnone j)
      exact ⟨hi.holds, hi.opened, fun hne => absurd hw hne, fun j hj => ⟨rfl, fun k hk => (hself hk).trans (hself hj).symm⟩,
        hi.sending, fun j hj => hi.eventAdded j (sender_of_goTo hj nofun), fun j hj => hi.unlock j (sender_of_goTo hj nofun),
        fun _ => .inr (goTo_pending trivial)⟩
  · have hin : (s.sender i).Inside := by
      rw [hp]
      trivial
    dsimp only at hs
    split at hs <;> rename_i hc
    · cases hs
      exact hi.goTo_inside (p := .eventAdded) hin trivial rfl ⟨rfl, rfl⟩ (fun _ => rfl) (fun _ => rfl) nofun
    · cases hs
      -- The socket and the owner are there, so another thread has added the event.
      have hsending : s.context.bSending = true :=
        Bool.of_not_eq_false fun h => hc ⟨h, hi.opened⟩
      refine hi.goTo_inside (p := .unlock) (c := s.context) hin trivial rfl ⟨rfl, rfl⟩ (fun h => ?_) nofun fun _ => hsending
      refine (hi.sending h).resolve_right ?_
      rw [hi.worker_idle hin]
      nofun
  · cases hs
    have hin : (s.sender i).Inside := by
      rw [hp]
      trivial
    exact hi.goTo_inside (p := .unlock) hin trivial rfl ⟨rfl, rfl⟩ (fun _ => hi.eventAdded i hp) nofun fun _ => rfl
  · cases hs
    have hin : (s.sender i).Inside := by
      rw [hp]
      trivial
    obtain ⟨hlocked, honly⟩ := hi.sender i hin
    have hw := hi.worker_idle hin
    have hnone {j : ι} (hj : ((s.goTo i .idle).sender j).Inside) : False := by
      obtain ⟨hne, hj⟩ := inside_of_goTo id hj
      exact hne (honly j hj)
    refine ⟨hi.holds, hi.opened, fun hne => absurd hw hne, fun j hj => (hnone hj).elim, hi.sending,
      fun j hj => hi.eventAdded j (sender_of_goTo hj nofun), fun j hj => hi.unlock j (sender_of_goTo hj nofun), fun _ => ?_⟩
    refine .inl ⟨hi.unlock i hp, ?_⟩
    show ¬ s.worker.Empty
    rw [hw]
    exact id

/-! ## Runs -/

theorem Inv.step (hi : Inv s) {e : SendEvent ι} (hs : s.step e = some s') : Inv s' := by
  cases e with
  | sendTcpData i bRunning apSendBuff aiSendLen => exact hi.sendTcpData hs
  | sender i => exact hi.senderStep hs
  | doWrite =>
    rw [SendThreads.step] at hs
    split at hs <;> rename_i h
    · cases hs
      exact hi.doWrite h.2
    · cases hs
  | worker iSend => exact hi.workerStep hs

/-- `AddBuf` comes to its end. -/
theorem Inv.sendTcpData_isSome (hi : Inv s) {i : ι} (hidle : s.sender i = .idle) (bRunning : Bool) (apSendBuff : List Byte) :
    (s.sendTcpData i bRunning apSendBuff apSendBuff.length).isSome := by
  obtain ⟨v, hv, -⟩ := CBufVect.addBuf_ok hi.holds (Nat.lt_succ_self apSendBuff.length)
  rw [SendThreads.sendTcpData, if_neg (not_not_intro hidle)]
  split
  · rfl
  · rw [if_neg (not_not_intro rfl), hv]
    rfl

/-- In every state that is reached, `AddBuf` comes to its end; and where no thread is in `SendTcpData`, the write
event is added and `m_bSending` is true if there are bytes to send. -/
theorem woken_run {sock : Int} (h : sock ≠ invalidSocket) {es : List (SendEvent ι)}
    (hs : es.foldlM SendThreads.step (start sock) = some s) :
    (∀ i bRunning apSendBuff, s.sender i = .idle →
      (s.sendTcpData i bRunning apSendBuff apSendBuff.length).isSome) ∧
    ((∀ i, s.sender i = .idle) → s.Woken) := by
  have hi : Inv s := foldlM_inv (fun _ _ _ hi hs => hi.step hs) (inv_start h) hs
  exact ⟨fun i bRunning apSendBuff hidle => hi.sendTcpData_isSome hidle bRunning apSendBuff, hi.woken⟩

/-- Two bytes are added after the worker has found the buffer empty, and before it removes the event. -/
theorem woken_run_race :
    let es : List (SendEvent Bool) := [.doWrite, .worker 0] ++ .sendTcpData true true [1, 2] 2 :: [.worker 0, .worker 0,
      .worker 0, .sender true, .sender true, .sender true, .sender true]
    ∃ s, es.foldlM SendThreads.step (start 5) = some s ∧ s.context.sendvectbuf.unread = [1, 2] ∧ s.Woken := by
  obtain ⟨v, hv, hholds⟩ := CBufVect.addBuf_ok (CBufVect.releaseBuf_holds .new) (Nat.lt_succ_self [(1 : Byte), 2].length)
  have hfirst : [SendEvent.doWrite, .worker 0].foldlM SendThreads.step (start 5 : SendThreads Bool) =
      some ⟨.opened 5, true, fun _ => .idle, .got 4 0⟩ := rfl
  have hadd : sendTcpData (⟨.opened 5, true, fun _ => .idle, .got 4 0⟩ : SendThreads Bool) true true [1, 2] 2 =
      some ⟨{ CSocketContext.opened 5 with sendvectbuf := v }, true, Function.update (fun _ => .idle) true .added, .got 4 0⟩ := by
    rw [sendTcpData, if_neg (not_not_intro rfl), if_neg (by decide), if_neg (by decide)]
    exact congrArg (Option.bind · _) hv
  have hlast : ∃ s : SendThreads Bool, [SendEvent.worker 0, .worker 0, .worker 0, .sender true, .sender true, .sender true,
      .sender true].foldlM SendThreads.step
        ⟨{ CSocketContext.opened 5 with sendvectbuf := v }, true, Function.update (fun _ => .idle) true .added, .got 4 0⟩ =
      some s ∧ s.context.sendvectbuf = v ∧ ∀ i, s.sender i = .idle := by
    refine ⟨_, rfl, rfl, fun i => ?_⟩
    cases i <;> rfl
  obtain ⟨s, hs, hbuf, hidle⟩ := hlast
  have hrun : ([.doWrite, .worker 0] ++ .sendTcpData true true [1, 2] 2 :: [.worker 0, .worker 0, .worker 0, .sender true,
      .sender true, .sender true, .sender true] : List (SendEvent Bool)).foldlM SendThreads.step (start 5) = some s := by
    rw [List.foldlM_append, hfirst, Option.bind_eq_bind, Option.bind_some, List.foldlM_cons]
    show (sendTcpData _ true true [1, 2] 2).bind _ = _
    rw [hadd]
    exact hs
  exact ⟨s, hrun, hbuf ▸ hholds.unread_eq, (woken_run (by decide) hrun).2 hidle⟩

end SendThreads

end Miku.ZzmCommon
