import MikuServer.Proof.LoginExchange

/-!
# Login requests and their replies

The center server replies to the login requests that were forwarded to it, in
their order. The pending record of a user is found by the user's id alone, so a
reply may be taken for another request of that user, or find none; and the room
of a request may not be the one that the reply finds. `paired_run` says for which
runs of requests and replies every reply goes to the connection its request came
from, whatever the order of the threads' turns, and `reply_steps` that a reply
that nobody interrupts is handled as `ClientLoginRS::Execute` does.
-/

namespace Miku.RoomServer

open Act

namespace LoginExchange

open Server (loginReplies)

variable {ι : Type}

/-- Where a thread with a request is. -/
def place (s : LoginExchange ι) (i : ι) : LoginPlace := (s.threads.thread i).place

/-- The requests that wait for a reply, or whose reply is being handled and has not erased their record yet. -/
def outstanding (s : LoginExchange ι) : List (GateRoomServerPack × StruUserLoginRQ) :=
  (s.replying.toList.filter (·.place.Open)).map ReplyThread.request ++ s.waiting

/-- What the threads have of the records of the room `r`: those with requests, and the one with a reply (`none`). -/
def hand (s : LoginExchange ι) (r : RoomPtr) : Option ι → Multiset Ptr
  | some i => inHand (s.place i).hand r
  | none => inHand (s.replying.bind fun t => t.place.hand) r

/-- The rooms are calm, no record has two owners, and every request that waits has its own pending record. -/
structure Inv (s : LoginExchange ι) : Prop where
  rooms : Server.Rooms (fun _ => Calm) s.server
  thread (i : ι) : ThreadOk s.server (s.threads.thread i).rq (s.place i)
  apart {i j : ι} {r : RoomPtr} : s.place i = .made r → s.place j = .made r → i = j
  owned (r : RoomPtr) : Miku.Owned (stock (s.server.chatRooms r)) (s.hand r)
  reply : ∀ t ∈ s.replying, t.Ok s.server
  waits : ∀ x ∈ s.waiting, Waits s.server x
  distinct : s.outstanding.Pairwise fun x y => x.2.roomId ≠ y.2.roomId ∨ x.2.userId ≠ y.2.userId

/-- A thread adds its room where there is none, and its user where the user is not pending. At a
reply there is a record for a new user, the user is not in the room or is there with the keys of the
request, and the gate of the request is registered. -/
def Pairs (s : LoginExchange ι) : ExchangeEvent ι → Prop
  | .request i => (s.threads.thread i).Ready s.server
  | .center => ∀ t ∈ s.replying, t.Ready s.server
  | _ => True

instance (s : LoginExchange ι) : (e : ExchangeEvent ι) → Decidable (Pairs s e)
  | .request i => inferInstanceAs (Decidable ((s.threads.thread i).Ready s.server))
  | .center => inferInstanceAs (Decidable (∀ t ∈ s.replying, t.Ready s.server))
  | .connect .. | .disconnect _ | .reply _ => isTrue trivial

variable {s s' : LoginExchange ι} {i : ι}

theorem Inv.outstanding_waits (h : Inv s) : ∀ x ∈ s.outstanding, Waits s.server x := by
  intro x hx
  rcases List.mem_append.mp hx with hx | hx
  · obtain ⟨t, ht, rfl⟩ := List.mem_map.mp hx
    obtain ⟨ht, hopen⟩ := List.mem_filter.mp ht
    exact (h.reply t (Option.mem_toList.mp ht)).waits (of_decide_eq_true hopen)
  · exact h.waits x hx

theorem inv_start (request : ι → GateRoomServerPack × StruUserLoginRQ) : Inv (start request) where
  rooms := Server.rooms_new fun _ => calm_new
  thread _ := trivial
  apart h := by cases h
  owned r := by
    have hhand : (start request).hand r = fun _ => 0 := funext fun o => by cases o <;> rfl
    have hnew : Miku.Owned (stock .new) fun _ : Option ι => (0 : Multiset Ptr) := owned_start owned_new.nodup
    rw [hhand]
    exact hnew
  reply _ ht := by cases ht
  waits _ hx := by cases hx
  distinct := .nil

/-! ## Gates -/

theorem inv_gate (h : Inv s) {t : Server} (hu : t.roomManager.unusedRoomList = s.server.roomManager.unusedRoomList)
    (hr : ∀ j, t.room j = s.server.room j) (hn : t.nextRoom = s.server.nextRoom)
    (hc : t.chatRooms = s.server.chatRooms) : Inv (s.withServer t) := by
  have hg (had : Option (RoomPtr × Ptr)) : Goes s.server t had had none fun _ _ => False :=
    (goes_self h.rooms).congr hu hr hn hc
  refine ⟨(hg none).rooms, fun i => (h.thread i).frame (hg none) fun _ _ => nofun, h.apart, fun r => ?_,
    fun t ht => ?_, fun x hx => (h.waits x hx).frame (hg none) fun _ _ => id, h.distinct⟩
  · show Miku.Owned (stock (t.chatRooms r)) (s.hand r)
    rw [hc]
    exact h.owned r
  · have hok := h.reply t ht
    exact ⟨hok.userId, hok.roomId, hok.place.frame (hg none) fun _ => id,
      fun hopen => (hok.waits hopen).frame (hg none) fun _ _ => id⟩

/-- A gate comes or goes. -/
theorem inv_gates (h : Inv s) {e : Server.Event} (he : (∃ k fd, e = .connect k fd) ∨ ∃ k, e = .disconnect k)
    (hs : (s.server.step e).map s.withServer = some s') :
    Inv s' ∧ loginReplies s'.server.sent = loginReplies s.server.sent := by
  obtain ⟨t, hstep, rfl⟩ := Option.map_eq_some_iff.mp hs
  rcases he with ⟨k, fd, rfl⟩ | ⟨k, rfl⟩
  · refine Server.after_wp (x := Server.addUserInfo k fd)
      (Q := fun t => Inv (s.withServer t) ∧ loginReplies t.sent = loginReplies s.server.sent) ?_ hstep
    rw [Server.addUserInfo, wp_ofFun]
    split
    · exact ⟨inv_gate h rfl (fun _ => rfl) rfl rfl, rfl⟩
    · exact ⟨inv_gate h rfl (fun _ => rfl) rfl rfl, rfl⟩
  · refine Server.after_wp (x := Server.releaseUserInfo k)
      (Q := fun t => Inv (s.withServer t) ∧ loginReplies t.sent = loginReplies s.server.sent) ?_ hstep
    rw [Server.releaseUserInfo, wp_modify]
    split
    · exact ⟨inv_gate h rfl (fun _ => rfl) rfl rfl, rfl⟩
    · exact ⟨inv_gate h rfl (fun _ => rfl) rfl rfl, rfl⟩

/-! ## Steps -/

/-- The user of a request that is forwarded is not pending, so the request is none of those that wait. -/
theorem Inv.forwards_apart (h : Inv s) (hc : Pairs s (.request i)) {x y : GateRoomServerPack × StruUserLoginRQ}
    (hx : x ∈ s.outstanding) (hy : y ∈ forwards (s.threads.thread i)) :
    x.2.roomId ≠ y.2.roomId ∨ x.2.userId ≠ y.2.userId := by
  unfold forwards at hy
  split at hy
  · rename_i r p e
    cases List.mem_singleton.mp hy
    by_cases hid : x.2.roomId = (s.threads.thread i).rq.roomId
    · refine .inr fun hu => ?_
      obtain ⟨r', p', hr', hp', -⟩ := h.outstanding_waits x hx
      have hok := h.thread i
      rw [LoginExchange.place, e] at hok
      rw [Pairs, LoginThread.Ready, e] at hc
      rw [hid] at hr'
      cases Eq.trans (Eq.symm hok) hr'
      rw [hu] at hp'
      cases hp'.symm.trans hc
    · exact .inl hid
  · cases hy

theorem center_spec (h : Inv s) (hc : Pairs s .center) {t : ReplyThread} (ht : t ∈ s.replying)
    {x : Act Server ReplyPlace} (hx : t.next = some x) :
    ∃ place server, x s.server = .done place server ∧ t.TurnOk s.server place server := by
  refine wp_total.mp (t.turn_ok h.rooms (h.reply t ht) (fun r => ?_) (hc t ht) hx)
  have hn := (h.owned r).nodup none
  rw [hand, Option.mem_def.mp ht] at hn
  exact hn

variable [DecidableEq ι]

/-- A step of the thread with the reply has a value, the thread finds the room and the user, and the
reply is sent in the one turn for it, to the gate and the user's key of its request, and in no other.
When the thread is done with a login, the user's record has the keys of the request. No other step
sends a login reply. -/
def Paired (s : LoginExchange ι) : ExchangeEvent ι → Prop
  | .center => ∀ t ∈ s.replying, ∀ x, t.next = some x → ∃ place server, x s.server = .done place server ∧
      place ≠ .missed ∧ t.Answers s.server server ∧
      (place = .finished → t.rs.result = 1 → ∃ r, server.room t.rq.roomId = some r ∧ LoginOnline server r t.request)
  | e => ∀ s', s.step e = some s' → loginReplies s'.server.sent = loginReplies s.server.sent

theorem request_spec (h : Inv s) (hc : Pairs s (.request i)) {threads : LoginThreads ι}
    (hs : s.threads.step i = some threads) :
    ∃ place, (s.threads.thread i).TurnOk s.server place threads.shared ∧
      threads.thread = Function.update s.threads.thread i { s.threads.thread i with place := place } := by
  refine Threads.step_inv (P := fun threads => ∃ place, (s.threads.thread i).TurnOk s.server place threads.shared ∧
    threads.thread = Function.update s.threads.thread i { s.threads.thread i with place := place }) hs fun x hx => ?_
  obtain ⟨y, hy, rfl⟩ := Option.map_eq_some_iff.mp hx
  rw [wp_bind]
  refine wp_mono (LoginThread.turn_ok h.rooms (h.thread i) (fun r => (h.owned r).nodup (some i)) hc hy)
    (fun place sh hturn => ?_) fun _ h => h
  exact ⟨place, hturn, rfl⟩

/-- After a turn of the thread `i` no two threads have made one room: a room that the turn makes is new. -/
theorem Inv.made_apart (h : Inv s) {place : LoginPlace} {server : Server}
    (hturn : (s.threads.thread i).TurnOk s.server place server) {j k : ι} {r : RoomPtr}
    (hj : (Function.update s.threads.thread i { s.threads.thread i with place := place } j).place = .made r)
    (hk : (Function.update s.threads.thread i { s.threads.thread i with place := place } k).place = .made r) :
    j = k := by
  have hmade {j : ι} (he : place = .made r) : (s.threads.thread j).place ≠ .made r := fun e => by
    have hok := h.thread j
    rw [LoginExchange.place, e] at hok
    exact Nat.lt_irrefl _ (Nat.lt_of_lt_of_le hok.1 (hturn.fresh he))
  by_cases hji : j = i <;> by_cases hki : k = i
  · exact hji.trans hki.symm
  · rw [hji, Function.update_self] at hj
    rw [Function.update_of_ne hki] at hk
    exact absurd hk (hmade hj)
  · rw [hki, Function.update_self] at hk
    rw [Function.update_of_ne hji] at hj
    exact absurd hj (hmade hk)
  · rw [Function.update_of_ne hji] at hj
    rw [Function.update_of_ne hki] at hk
    exact h.apart hj hk

theorem inv_request (h : Inv s) (hc : Pairs s (.request i)) (hs : s.step (.request i) = some s') :
    Inv s' ∧ loginReplies s'.server.sent = loginReplies s.server.sent := by
  obtain ⟨threads, hstep, rfl⟩ := Option.map_eq_some_iff.mp hs
  obtain ⟨place, hturn, hthread⟩ := request_spec h hc hstep
  have hg := hturn.goes
  have hself : threads.thread i = { s.threads.thread i with place := place } := by
    rw [hthread, Function.update_self]
  have hother {j : ι} (hj : j ≠ i) : threads.thread j = s.threads.thread j := by
    rw [hthread, Function.update_of_ne hj]
  refine ⟨⟨hg.rooms, fun j => ?_, fun {j k r} hj hk => ?_, fun r => ?_, fun t ht => ?_, fun x hx => ?_, ?_⟩,
    hturn.replies⟩
  · by_cases hj : j = i
    · subst hj
      show ThreadOk threads.shared (threads.thread j).rq (threads.thread j).place
      rw [hself]
      exact hturn.ok
    · show ThreadOk threads.shared (threads.thread j).rq (threads.thread j).place
      rw [hother hj]
      refine (h.thread j).frame hg fun r e e' => hj (h.apart e ?_)
      show (s.threads.thread i).place = _
      unfold LoginPlace.adds at e'
      split at e'
      · cases e'
        assumption
      · cases e'
  · have hj' : (threads.thread j).place = .made r := hj
    have hk' : (threads.thread k).place = .made r := hk
    rw [hthread] at hj' hk'
    exact h.made_apart hturn hj' hk'
  · have hnew := (h.owned r).step (i := some i) (hg.owned r)
    refine (congrArg (Miku.Owned _) (funext fun o => ?_)).mp hnew
    rcases o with _ | j
    · rfl
    · by_cases hj : j = i
      · subst hj
        rw [Function.update_self]
        show _ = inHand (threads.thread j).place.hand r
        rw [hself]
      · rw [Function.update_of_ne (fun e => hj (Option.some.inj e))]
        show _ = inHand (threads.thread j).place.hand r
        rw [hother hj]
        rfl
  · have hok := h.reply t ht
    exact ⟨hok.userId, hok.roomId, hok.place.frame hg fun _ => id,
      fun hopen => (hok.waits hopen).frame hg fun _ _ => id⟩
  · rcases List.mem_append.mp hx with hx | hx
    · exact (h.waits x hx).frame hg fun _ _ => id
    · exact hturn.waits x hx
  · show (_ ++ (s.waiting ++ forwards (s.threads.thread i))).Pairwise _
    rw [← List.append_assoc]
    refine List.pairwise_append.mpr ⟨h.distinct, ?_, fun x hx y hy => ?_⟩
    · unfold forwards
      split
      · exact List.pairwise_singleton ..
      · exact .nil
    · exact h.forwards_apart hc hx hy

/-- The thread takes the reply to the first request that waits. -/
theorem inv_reply (h : Inv s) {rs : StruUserLoginRS} (hs : s.step (.reply rs) = some s') :
    Inv s' ∧ s'.server = s.server := by
  simp only [step] at hs
  split at hs
  · rename_i tmpPackage rq rest hnone hw
    cases hs
    have hout : s.outstanding = (tmpPackage, rq) :: rest := by
      rw [outstanding, hnone, hw]
      rfl
    refine ⟨⟨h.rooms, h.thread, h.apart, fun r => ?_, fun t ht => ?_, fun x hx => ?_, ?_⟩, rfl⟩
    · refine (congrArg (Miku.Owned _) (funext fun o => ?_)).mp (h.owned r)
      rcases o with _ | j
      · show inHand (s.replying.bind _) r = 0
        rw [hnone]
        rfl
      · rfl
    · cases ht
      exact ⟨rfl, rfl, trivial, fun _ => h.waits _ (hw ▸ List.mem_cons_self)⟩
    · exact h.waits x (hw ▸ List.mem_cons_of_mem _ hx)
    · have hdistinct := h.distinct
      rw [hout] at hdistinct
      exact hdistinct
  · cases hs

/-- A turn of the thread with the reply. -/
theorem inv_center_turn (h : Inv s) {t : ReplyThread} (ht : t ∈ s.replying) {place : ReplyPlace} {server : Server}
    (hturn : t.TurnOk s.server place server) :
    Inv { s.withServer server with replying := some { t with place := place } } := by
  have hg := hturn.goes
  have hok := h.reply t ht
  have hrep : s.replying = some t := ht
  have hout : s.outstanding = (if t.place.Open then [t.request] else []) ++ s.waiting := by
    rw [outstanding, hrep]
    by_cases hopen : t.place.Open <;> simp [hopen]
  have hdistinct := hout ▸ h.distinct
  have hleaves {x : GateRoomServerPack × StruUserLoginRQ} (hx : x ∈ s.waiting) {r : RoomPtr}
      (hr : s.server.room x.2.roomId = some r) : ¬ t.leaves r x.2.userId := by
    intro hl
    unfold ReplyThread.leaves at hl
    split at hl
    · rename_i q gs cur p e
      obtain ⟨rfl, hu⟩ := hl
      have hat := hok.place
      rw [e] at hat hdistinct
      rcases List.pairwise_append.mp hdistinct |>.2.2 _ List.mem_cons_self _ hx with hne | hne
      · exact hne (h.rooms.inj hat.1 hr)
      · exact hne (hok.userId ▸ hu)
    · exact hl
  refine ⟨hg.rooms, fun i => (h.thread i).frame hg fun _ _ => nofun, h.apart, fun r => ?_, fun t' ht' => ?_,
    fun x hx => (h.waits x hx).frame hg fun r hr => hleaves hx hr, ?_⟩
  · have hold : s.hand r none = inHand t.place.hand r := by
      rw [hand, hrep]
      rfl
    have hnew := (h.owned r).step (i := none) (hold ▸ hg.owned r)
    refine (congrArg (Miku.Owned _) (funext fun o => ?_)).mp hnew
    rcases o with _ | j
    · rw [Function.update_self]
      rfl
    · rw [Function.update_of_ne (Option.some_ne_none j)]
      rfl
  · cases ht'
    refine ⟨hok.userId, hok.roomId, hturn.at_place, fun hopen => ?_⟩
    obtain ⟨hopen', hno⟩ := hturn.stays hopen
    exact (hok.waits hopen').frame hg fun r _ => hno r _
  · have hout' : outstanding { s.withServer server with replying := some { t with place := place } } =
        (if place.Open then [t.request] else []) ++ s.waiting := by
      show (([{ t with place := place }] : List ReplyThread).filter (·.place.Open)).map ReplyThread.request ++
        s.waiting = _
      by_cases hopen : place.Open
      · simp [hopen, ReplyThread.request]
      · simp [hopen]
    rw [hout']
    split <;> rename_i hopen
    · rw [if_pos (hturn.stays hopen).1] at hdistinct
      exact hdistinct
    · exact (List.pairwise_append.mp hdistinct).2.1

theorem inv_center (h : Inv s) (hc : Pairs s .center) (hs : s.step .center = some s') : Inv s' := by
  simp only [step] at hs
  split at hs
  · cases hs
  rename_i t ht
  split at hs
  · rename_i hnext
    cases hs
    have hhand : t.place.hand = none := by
      unfold ReplyThread.next at hnext
      unfold ReplyPlace.hand
      split
      · rename_i e
        rw [e] at hnext
        cases hnext
      · rfl
    refine ⟨h.rooms, h.thread, h.apart, fun r => ?_, fun _ ht' => (by cases ht'), h.waits, ?_⟩
    · refine (congrArg (Miku.Owned _) (funext fun o => ?_)).mp (h.owned r)
      rcases o with _ | j
      · rw [hand, ht]
        show inHand t.place.hand r = _
        rw [hhand]
        rfl
      · rfl
    · have hdistinct := h.distinct
      rw [outstanding] at hdistinct
      exact (List.pairwise_append.mp hdistinct).2.1
  · rename_i x hx
    obtain ⟨place, server, hdone, hturn⟩ := center_spec h hc ht hx
    rw [hdone] at hs
    cases hs
    exact inv_center_turn h ht hturn

/-! ## Runs -/

theorem inv_step (h : Inv s) {e : ExchangeEvent ι} (hc : Pairs s e) (hs : s.step e = some s') : Inv s' := by
  cases e with
  | connect hashKey userSock => exact (inv_gates h (.inl ⟨_, _, rfl⟩) hs).1
  | disconnect hashKey => exact (inv_gates h (.inr ⟨_, rfl⟩) hs).1
  | request i => exact (inv_request h hc hs).1
  | reply rs => exact (inv_reply h hs).1
  | center => exact inv_center h hc hs

theorem paired_of_inv (h : Inv s) {e : ExchangeEvent ι} (hc : Pairs s e) : Paired s e := by
  cases e with
  | connect hashKey userSock => exact fun s' hs => (inv_gates h (.inl ⟨_, _, rfl⟩) hs).2
  | disconnect hashKey => exact fun s' hs => (inv_gates h (.inr ⟨_, rfl⟩) hs).2
  | request i => exact fun s' hs => (inv_request h hc hs).2
  | reply rs => exact fun s' hs => by rw [(inv_reply h hs).2]
  | center =>
    intro t ht x hx
    obtain ⟨place, server, hdone, hturn⟩ := center_spec h hc ht hx
    refine ⟨place, server, hdone, ?_, hturn.answers, ?_⟩
    · rintro rfl
      exact hturn.at_place
    · rintro rfl
      exact hturn.at_place

/-- Every reply goes to the connection of its request, in a run whose requests and replies do
not meet. -/
theorem paired_run (request : ι → GateRoomServerPack × StruUserLoginRQ) (es : List (ExchangeEvent ι))
    (h : ∀ x ∈ runSteps step (start request) es, Pairs x.1 x.2) :
    ∀ x ∈ runSteps step (start request) es, Paired x.1 x.2 :=
  runSteps_inv (fun _ _ _ hs hc => inv_step hs hc) (fun _ _ hs hc => paired_of_inv hs hc) (inv_start request) h

/-- The users 1 and 2 log in in the room 2, through the gates 5 and 6. -/
def twoUsers (second : Bool) : GateRoomServerPack × StruUserLoginRQ :=
  if second then (⟨[], 8, 6, 0, [], []⟩, ⟨2, 2, []⟩) else (⟨[], 7, 5, 0, [], []⟩, ⟨1, 2, []⟩)

/-- The center server accepts the first request that waits. -/
def accepted : ExchangeEvent Bool := .reply ⟨.userLoginRS, 1, 2, 1, 0, 0, 0, 0, 0, 0, 0, 0, 0, 0, 0⟩

/-- The reply to the first user comes before the second thread has added its user. -/
def twoLogins : List (ExchangeEvent Bool) :=
  [.connect 5 50, .connect 6 60, .request false, .request false, .request false, .request true, .request false,
    .request true, .request false, accepted, .center, .center, .request true] ++
    List.replicate 10 .center ++ accepted :: List.replicate 12 .center

/-- Both replies come to the connections of their requests. -/
theorem paired_run_twoLogins : (∃ t ∈ run (start twoUsers) twoLogins, t.waiting = [] ∧
    (loginReplies t.server.sent).map (fun m => (m.1, m.2.1)) = [(50, 7), (60, 8)]) ∧
    ∀ x ∈ runSteps step (start twoUsers) twoLogins, Paired x.1 x.2 := by
  have hpairs : ∀ x ∈ runSteps step (start twoUsers) twoLogins, Pairs x.1 x.2 := by
    decide +kernel
  have hrun : ∃ t ∈ run (start twoUsers) twoLogins, t.waiting = [] ∧
      (loginReplies t.server.sent).map (fun m => (m.1, m.2.1)) = [(50, 7), (60, 8)] := by
    decide +kernel
  exact ⟨hrun, paired_run twoUsers twoLogins hpairs⟩

/-- The user 1 logs in in the room 2 through the gates 5 and 6. -/
def twoGates (second : Bool) : GateRoomServerPack × StruUserLoginRQ :=
  (if second then ⟨[], 8, 6, 0, [], []⟩ else ⟨[], 7, 5, 0, [], []⟩, ⟨1, 2, []⟩)

/-- There is no reply before both requests are forwarded. -/
def loginTwice : List (ExchangeEvent Bool) :=
  [.connect 5 50, .connect 6 60] ++ List.replicate 5 (.request false) ++ List.replicate 3 (.request true) ++
    accepted :: List.replicate 12 .center ++ [accepted, .center]

/-- The second reply finds no pending user, and nothing is sent. -/
theorem not_paired_twice : ¬ ∀ es, ∀ x ∈ runSteps step (start twoGates) es, Paired x.1 x.2 := by
  intro h
  have hrun : ∃ s ∈ run (start twoGates) loginTwice, ∃ t ∈ s.replying, t.next.isSome ∧ ∃ s' ∈ s.step .center,
      ∃ t' ∈ s'.replying, t'.place = .missed := by
    decide +kernel
  obtain ⟨s, hs, t, ht, hnext, s', hs', t', ht', hmissed⟩ := hrun
  obtain ⟨x, hx⟩ := Option.isSome_iff_exists.mp hnext
  obtain ⟨place, server, hdone, hne, -⟩ := h _ _ (mem_runSteps_append hs .center []) t ht x hx
  have hrep : s.replying = some t := ht
  have hstep : s.step .center = some { s.withServer server with replying := some { t with place := place } } := by
    simp only [step, hrep, hx, hdone]
  cases hstep.symm.trans hs'
  cases ht'
  exact hne hmissed

/-! ## A reply alone -/

/-- The thread with the reply of `t` is at `place`. -/
def replyingAt (s : LoginExchange ι) (t : ReplyThread) (place : ReplyPlace) (server : Server) : LoginExchange ι :=
  { s.withServer server with replying := some { t with place := place } }

variable {t : ReplyThread} {place' place'' : ReplyPlace} {server server' server'' : Server} {x : Act Server ReplyPlace}
  {r : RoomPtr} {gs : Option BaseUserInfo} {p : Ptr}

theorem step_replyingAt (hx : ReplyThread.next { t with place := place' } = some x)
    (h : x server = .done place'' server') :
    (s.replyingAt t place' server).step .center = some (s.replyingAt t place'' server') := by
  have hdone : x (s.replyingAt t place' server).server = .done place'' server' := h
  have hrep : (s.replyingAt t place' server).replying = some { t with place := place' } := rfl
  simp only [step, hrep, hx, hdone]
  rfl

/-- Turns of the thread with the reply, and of no other. -/
def ReplyTurns : LoginExchange ι → LoginExchange ι → Prop := Relation.ReflTransGen fun s s' => s.step .center = some s'

theorem onRoom_bind_done {α β : Type} {x : Act ChatRoom α} {f : α → Act ChatRoom β} {b : β}
    (h : Server.onRoom r (x >>= f) server = .done b server') :
    ∃ a server₁, Server.onRoom r x server = .done a server₁ ∧ Server.onRoom r (f a) server₁ = .done b server' :=
  zoom_bind_done (fun _ _ => Function.update_self ..) (fun _ _ _ => by rw [Function.update_idem]) h

theorem onRoom_pure_done {u : Unit} (h : Server.onRoom r (pure ()) server = .done u server') : server' = server := by
  have hdone : Server.onRoom r (pure ()) server = .done () (server.withRoom r (server.chatRooms r)) := rfl
  rw [hdone, Server.withRoom_self] at h
  cases h
  rfl

theorem remove_steps {cur : Option Ptr}
    (h : Server.onRoom r (ChatRoom.removePreUser t.rs.userId) server = .done () server') :
    ReplyTurns (s.replyingAt t (.remove r gs cur) server) (s.replyingAt t (.mics r gs cur) server') := by
  obtain ⟨found, server₁, hfound, h⟩ := onRoom_bind_done h
  rcases found with _ | p
  · rw [onRoom_pure_done h]
    exact .single (step_replyingAt rfl (bind_done hfound))
  · obtain ⟨_, server₂, herase, h⟩ := onRoom_bind_done h
    obtain ⟨_, server₃, hpush, h⟩ := onRoom_bind_done h
    rw [onRoom_pure_done h]
    refine .head (step_replyingAt rfl (bind_done hfound)) (.head (step_replyingAt rfl (bind_done herase)) ?_)
    exact .single (step_replyingAt rfl (bind_done hpush))

theorem answer_steps {cur : Option Ptr} (h : Server.answerLogin r t.rs p cur server = .done () server') :
    ReplyTurns (s.replyingAt t (.known r p cur) server) (s.replyingAt t .finished server') := by
  obtain ⟨gs, server₁, hreply, h⟩ := bind_eq_done.mp h
  obtain ⟨_, server₂, hannounce, h⟩ := bind_eq_done.mp h
  obtain ⟨_, server₃, hremove, hmics⟩ := bind_eq_done.mp h
  have hend : ReplyTurns (s.replyingAt t (.remove r gs cur) server₂) (s.replyingAt t .finished server') :=
    (remove_steps hremove).trans (.single (step_replyingAt rfl (bind_done hmics)))
  rcases cur with _ | cur
  · cases hannounce
    exact .head (step_replyingAt rfl (bind_done hreply)) hend
  · obtain ⟨online, _, hread, hannounce⟩ := bind_eq_done.mp hannounce
    obtain ⟨sent, server₄, hsend, hlist⟩ := bind_eq_done.mp hannounce
    have hlisted : (s.replyingAt t (.list r gs cur) server₄).step .center =
        some (s.replyingAt t (.remove r gs (some cur)) server₂) :=
      step_replyingAt rfl (bind_done hlist)
    refine .head (step_replyingAt rfl (bind_done hreply)) (.head (step_replyingAt rfl ?_) (.head hlisted hend))
    exact (bind_done hread).trans (bind_done hsend)

/-- A reply that nobody interrupts is handled as `ClientLoginRS::Execute` does. -/
theorem reply_steps (h : Server.clientLoginRS t.rs server = .done () server') : ∃ place,
    ReplyTurns (s.replyingAt t .start server) (s.replyingAt t place server') ∧
      (place = .missed ∨ place = .finished) := by
  obtain ⟨room, server₁, hroom, h⟩ := bind_eq_done.mp h
  rcases room with _ | r
  · cases h
    exact ⟨.missed, .single (step_replyingAt rfl (bind_done hroom)), .inl rfl⟩
  obtain ⟨user, server₂, huser, h⟩ := bind_eq_done.mp h
  rcases user with _ | p
  · cases h
    have hmissed : (s.replyingAt t (.inRoom r) server₁).step .center = some (s.replyingAt t .missed server') :=
      step_replyingAt rfl (bind_done huser)
    exact ⟨.missed, .head (step_replyingAt rfl (bind_done hroom)) (.single hmissed), .inl rfl⟩
  refine ⟨.finished, .head (step_replyingAt rfl (bind_done hroom)) ?_, .inr rfl⟩
  dsimp only at h
  split at h <;> rename_i h1
  · obtain ⟨cur, server₃, hcur, hanswer⟩ := bind_eq_done.mp h
    obtain ⟨new, server₄, hnew, hcur⟩ := bind_eq_done.mp hcur
    have hfound : (s.replyingAt t (.inRoom r) server₁).step .center = some (s.replyingAt t (.found r p) server₂) :=
      step_replyingAt rfl ((bind_done huser).trans (congrArg (Outcome.done · server₂) (if_pos h1)))
    rcases new with _ | q
    · cases hcur
      exact .head hfound (.head (step_replyingAt rfl (bind_done hnew)) (answer_steps hanswer))
    · obtain ⟨_, server₅, hstore, hcur⟩ := bind_eq_done.mp hcur
      obtain ⟨_, server₆, hadd, hcur⟩ := bind_eq_done.mp hcur
      cases hcur
      have hknown : (s.replyingAt t (.took r p q) server₄).step .center =
          some (s.replyingAt t (.known r p (some q)) server₃) :=
        step_replyingAt rfl ((bind_done hstore).trans (bind_done hadd))
      exact .head hfound (.head (step_replyingAt rfl (bind_done hnew)) (.head hknown (answer_steps hanswer)))
  · refine .head (step_replyingAt rfl ((bind_done huser).trans ?_)) (answer_steps h)
    exact congrArg (Outcome.done · server₂) (if_neg h1)

end LoginExchange

end Miku.RoomServer
