import MikuServer.Proof.ConnectionRegistry

/-!
# The descriptors of the users

A user's descriptor is open as long as the user is registered. `noLeak_iff` says
in which runs no other is: those in which every connection is accepted with a
positive descriptor and finds an object in the pool.
-/

namespace Miku.Common

namespace ServerListenner

variable {self : ServerListenner} {p q : UserPtr}

/-- `ErrorRead` of an object that no connection has. -/
theorem errorRead_idle (hs : (self.users p).serverPtr = false) :
    self.errorRead p = self.setUser p fun u => { u with reading := false } := by
  have hp : (self.setUser p fun u => { u with reading := false }).users p = { self.users p with reading := false } := by
    rw [setUser_users, if_pos rfl]
  rw [errorRead, hs, if_neg Bool.false_ne_true, leave, hp]
  simp only [hs, if_neg Bool.false_ne_true]

theorem errorRead_users (hs : (self.users p).serverPtr = true) :
    (self.errorRead p).users q =
      if q = p then { (self.users p).clear with reading := false, processor := false } else self.users q := by
  rw [errorRead_eq p hs, leave_eq p hs, giveBack_users]
  dsimp only
  rw [setUser_users, setUser_users, if_pos rfl]
  split
  · rfl
  · rfl

end ServerListenner

/-- Something that is done to an object that no connection has. -/
theorem Registry.Inv.setUser {n k : Nat} {r : Registry} (hi : Registry.Inv n k r) {p : UserPtr}
    (hp : p ∉ r.live.map Prod.snd) (f : UserInfoEx → UserInfoEx) :
    Registry.Inv n k { r with server := r.server.setUser p f } where
  base := hi.base
  user := hi.user
  same := hi.same
  live {h q} hl := by
    have hq : q ≠ p := fun he => hp (List.mem_map.mpr ⟨_, hl, he⟩)
    show h ≤ k ∧ ((r.server.setUser p f).users q).hashKey = h ∧ ((r.server.setUser p f).users q).serverPtr = true
    rw [ServerListenner.setUser_users, if_neg hq]
    exact hi.live hl
  perm := hi.perm
  usingUser := hi.usingUser

namespace ClientSockets

/-- The descriptors that are open are those of the registered users. -/
def NoLeak (s : ClientSockets) : Prop :=
  ∀ fd, fd ∈ s.opened ↔ ∃ h p, s.server.user h = some p ∧ (s.server.users p).userSock = fd

/-- A connection that is accepted has a positive descriptor, and finds an object in the pool. -/
def Kept (s : ClientSockets) : Event → Prop
  | .accept sock ioctlFails _ _ => 0 ≤ sock → ioctlFails = false → 0 < sock ∧ s.server.unused ≠ []
  | .errorRead _ => True

/-- `live` are the connections; each has a descriptor of its own, which is open. -/
structure Inv (n k : Nat) (live : List (Int × UserPtr)) (s : ClientSockets) : Prop where
  registry : Registry.Inv n k ⟨s.server, live⟩
  serverPtr {p : UserPtr} : (s.server.users p).serverPtr = true → p ∈ live.map Prod.snd
  nonneg : ∀ fd ∈ s.opened, 0 ≤ fd
  opened {p : UserPtr} : p ∈ live.map Prod.snd → (s.server.users p).userSock ∈ s.opened
  distinct {p q : UserPtr} : p ∈ live.map Prod.snd → q ∈ live.map Prod.snd →
    (s.server.users p).userSock = (s.server.users q).userSock → p = q

variable {n k : Nat} {live : List (Int × UserPtr)} {s s' : ClientSockets}

theorem inv_start (of : Server) (countWorker : Int) (n : Nat) : Inv n 0 [] (start of countWorker n) where
  registry := Registry.inv_start of countWorker n
  serverPtr h := absurd h Bool.false_ne_true
  nonneg := List.forall_mem_nil _
  opened h := absurd h List.not_mem_nil
  distinct h := absurd h List.not_mem_nil

theorem Inv.mem_live (hi : Inv n k live s) (p : UserPtr) :
    p ∈ live.map Prod.snd ↔ ∃ h, s.server.user h = some p := by
  simp [hi.registry.user]

theorem Inv.noLeak_live (hi : Inv n k live s) :
    s.NoLeak ↔ ∀ fd ∈ s.opened, ∃ p ∈ live.map Prod.snd, (s.server.users p).userSock = fd := by
  have hreg (fd : Int) : (∃ h p, s.server.user h = some p ∧ (s.server.users p).userSock = fd) ↔
      ∃ p ∈ live.map Prod.snd, (s.server.users p).userSock = fd := by
    simp only [hi.mem_live]
    exact ⟨fun ⟨h, p, hp, e⟩ => ⟨p, ⟨h, hp⟩, e⟩, fun ⟨p, ⟨h, hp⟩, e⟩ => ⟨h, p, hp, e⟩⟩
  simp only [NoLeak, hreg]
  refine forall_congr' fun fd => ⟨Iff.mp, fun h => ⟨h, ?_⟩⟩
  rintro ⟨p, hp, rfl⟩
  exact hi.opened hp

/-- The same connections with the same descriptors. -/
theorem Inv.congr {k' : Nat} (hi : Inv n k live s) (hr : Registry.Inv n k' ⟨s'.server, live⟩)
    (hu : ∀ p, (s'.server.users p).userSock = (s.server.users p).userSock ∧
      (s'.server.users p).serverPtr = (s.server.users p).serverPtr)
    (ho : ∀ fd ∈ s.opened, fd ∈ s'.opened) (hn : ∀ fd ∈ s'.opened, 0 ≤ fd) : Inv n k' live s' where
  registry := hr
  serverPtr {p} h := hi.serverPtr ((hu p).2 ▸ h)
  nonneg := hn
  opened {p} h := (hu p).1 ▸ ho _ (hi.opened h)
  distinct {p q} hp hq e := hi.distinct hp hq (by rw [← (hu p).1, ← (hu q).1, e])

/-! ## Disconnects -/

theorem Inv.errorRead_idle (hi : Inv n k live s) {p : UserPtr} (hs : (s.server.users p).serverPtr = false) :
    Inv n k live (s.errorRead p) ∧ (s.NoLeak → (s.errorRead p).NoLeak) := by
  have hp : p ∉ live.map Prod.snd := fun hp => by
    obtain ⟨⟨h, _⟩, hl, rfl⟩ := List.mem_map.mp hp
    rw [(hi.registry.live hl).2.2] at hs
    cases hs
  have he : s.errorRead p = ⟨s.server.setUser p fun u => { u with reading := false }, s.opened⟩ := by
    simp only [errorRead, ServerListenner.errorRead_idle hs, hs, if_neg Bool.false_ne_true]
  have hu (q : UserPtr) : ((s.errorRead p).server.users q).userSock = (s.server.users q).userSock ∧
      ((s.errorRead p).server.users q).serverPtr = (s.server.users q).serverPtr := by
    rw [he, ServerListenner.setUser_users]
    split <;> rename_i hq
    · rw [hq]
      exact ⟨rfl, rfl⟩
    · exact ⟨rfl, rfl⟩
  have ho : (s.errorRead p).opened = s.opened := by rw [he]
  have hr : Registry.Inv n k ⟨(s.errorRead p).server, live⟩ := by
    rw [he]
    exact hi.registry.setUser hp fun u => { u with reading := false }
  have hi' : Inv n k live (s.errorRead p) := hi.congr hr hu (fun _ h => ho ▸ h) (ho ▸ hi.nonneg)
  refine ⟨hi', fun hleak => hi'.noLeak_live.mpr fun fd hfd => ?_⟩
  obtain ⟨q, hq, e⟩ := hi.noLeak_live.mp hleak fd (ho ▸ hfd)
  exact ⟨q, hq, (hu q).1.trans e⟩

/-- The user's descriptor is closed, and no other. -/
theorem Inv.errorRead_live (hi : Inv n k live s) {h : Int} {p : UserPtr} (hl : (h, p) ∈ live) :
    Inv n k (live.filter (·.2 ≠ p)) (s.errorRead p) ∧ (s.NoLeak → (s.errorRead p).NoLeak) := by
  have hs : (s.server.users p).serverPtr = true := (hi.registry.live hl).2.2
  have hp : p ∈ live.map Prod.snd := List.mem_map.mpr ⟨_, hl, rfl⟩
  have hmem (q : UserPtr) : q ∈ (live.filter (·.2 ≠ p)).map Prod.snd ↔ q ∈ live.map Prod.snd ∧ q ≠ p := by
    rw [hi.registry.map_filter, List.Nodup.mem_erase_iff (List.nodup_append.mp hi.registry.nodup).1, and_comm]
  have hopened : (s.errorRead p).opened = s.opened.filter (· ≠ (s.server.users p).userSock) := by
    simp only [errorRead, hs, if_pos, close]
  have hother {q : UserPtr} (hq : q ≠ p) : (s.errorRead p).server.users q = s.server.users q := by
    show (s.server.errorRead p).users q = _
    rw [ServerListenner.errorRead_users hs, if_neg hq]
  have hi' : Inv n k (live.filter (·.2 ≠ p)) (s.errorRead p) := by
    refine ⟨hi.registry.errorRead hl, fun {q} hq => (hmem q).mpr ?_, fun fd hfd => ?_, fun {q} hq => ?_, fun {q q'} hq hq' e => ?_⟩
    · have hne : q ≠ p := fun e => by
        rw [e] at hq
        change ((s.server.errorRead p).users p).serverPtr = true at hq
        rw [ServerListenner.errorRead_users hs, if_pos rfl] at hq
        exact Bool.false_ne_true hq
      rw [hother hne] at hq
      exact ⟨hi.serverPtr hq, hne⟩
    · rw [hopened] at hfd
      exact hi.nonneg fd (List.mem_of_mem_filter hfd)
    · obtain ⟨hq, hne⟩ := (hmem q).mp hq
      rw [hopened, hother hne, List.mem_filter, decide_eq_true_eq]
      exact ⟨hi.opened hq, fun e => hne (hi.distinct hq hp e)⟩
    · obtain ⟨hq, hne⟩ := (hmem q).mp hq
      obtain ⟨hq', hne'⟩ := (hmem q').mp hq'
      rw [hother hne, hother hne'] at e
      exact hi.distinct hq hq' e
  refine ⟨hi', fun hleak => hi'.noLeak_live.mpr fun fd hfd => ?_⟩
  rw [hopened, List.mem_filter, decide_eq_true_eq] at hfd
  obtain ⟨q, hq, rfl⟩ := hi.noLeak_live.mp hleak fd hfd.1
  have hne : q ≠ p := fun e => hfd.2 (by rw [e])
  exact ⟨q, (hmem q).mpr ⟨hq, hne⟩, by rw [hother hne]⟩

/-! ## Accepts -/

/-- `AcceptAction` of the server has no value where `base_hash_key_` overflows. -/
theorem baseHashKey_lt {server : ServerListenner} {sock uip uport : Int} {x : Option UserPtr × ServerListenner}
    (hc : 0 < sock) (h : server.acceptAction sock uip uport = some x) : server.baseHashKey < 2 ^ 31 - 1 := by
  by_contra hb
  rw [ServerListenner.acceptAction, if_pos hc, ServerListenner.nextHashKey, if_neg hb] at h
  cases h

/-- Nor where the index of the worker has none. -/
theorem hasIndex_of_accepted {server : ServerListenner} {sock uip uport : Int} {x : Option UserPtr × ServerListenner}
    {p : UserPtr} {rest : List UserPtr} (hc : 0 < sock) (hu : server.unused = p :: rest)
    (hn : server.user (server.baseHashKey + 1) = none) (h : server.acceptAction sock uip uport = some x) :
    server.HasIndex := by
  by_contra hi
  cases (ServerListenner.acceptAction_overflow p hc (baseHashKey_lt hc h) hi hu hn).symm.trans h

theorem safeCloseSocket_of_neg (hn : ∀ fd ∈ s.opened, 0 ≤ fd) {sock : Int} (hs : sock < 0) :
    s.safeCloseSocket sock = s := by
  have hfilter : s.opened.filter (· ≠ sock) = s.opened := List.filter_eq_self.mpr fun fd hfd => by
    have hpos := hn fd hfd
    exact decide_eq_true (by omega)
  rw [safeCloseSocket]
  split
  · rw [close, hfilter]
  · rfl

theorem close_fresh {sock : Int} (hf : sock ∉ s.opened) :
    ({ s with opened := sock :: s.opened } : ClientSockets).close sock = s := by
  have hfilter : (sock :: s.opened).filter (· ≠ sock) = s.opened := by
    rw [List.filter_cons_of_neg (by simp), List.filter_eq_self]
    intro fd hfd
    exact decide_eq_true fun e => hf (e ▸ hfd)
  rw [close, hfilter]

/-- What `AcceptAction` does: nothing, as `accept` or `ioctl` fails; or it opens a descriptor that no
user gets; or it opens one for the object `p`. -/
theorem Inv.accept_cases (hi : Inv n k live s) {sock uip uport : Int} {ioctlFails : Bool}
    (hs : s.step (.accept sock ioctlFails uip uport) = some s') :
    (s' = s ∧ (0 ≤ sock → ioctlFails = true)) ∨
    (0 ≤ sock ∧ ioctlFails = false ∧ sock ∉ s.opened) ∧
      ((¬ (0 < sock ∧ s.server.unused ≠ []) ∧ ∃ b, s' = ⟨{ s.server with baseHashKey := b }, sock :: s.opened⟩ ∧
          ∃ k', Registry.Inv n k' ⟨s'.server, live⟩) ∨
        0 < sock ∧ ∃ p rest, s.server.unused = p :: rest ∧
          s' = ⟨s.server.accepted p rest sock uip uport, sock :: s.opened⟩) := by
  rw [step] at hs
  split at hs <;> rename_i hopen
  · cases hs
  by_cases h0 : 0 ≤ sock
  · have hf : sock ∉ s.opened := fun hf => hopen ⟨h0, hf⟩
    cases ioctlFails with
    | true =>
      refine .inl ⟨?_, fun _ => rfl⟩
      have hne : sock ≠ -1 := by omega
      simp only [acceptAction, if_pos h0, if_pos, safeCloseSocket, if_pos hne, close_fresh hf,
        ServerListenner.acceptAction, if_neg (show ¬ (0 : Int) < -1 by decide), Option.bind_eq_bind, Option.bind_some] at hs
      cases hs
      rfl
    | false =>
      refine .inr ⟨⟨h0, rfl, hf⟩, ?_⟩
      simp only [acceptAction, if_pos h0, if_neg Bool.false_ne_true, Option.bind_eq_bind] at hs
      obtain ⟨⟨tmpUser, server⟩, ha, hs⟩ := Option.bind_eq_some_iff.mp hs
      cases hs
      by_cases hc : 0 < sock
      · have hb := baseHashKey_lt hc ha
        rcases hu : s.server.unused with _ | ⟨p, rest⟩
        · rw [ServerListenner.acceptAction_nil hc hb hu] at ha
          cases ha
          exact .inl ⟨fun h => h.2 rfl, _, rfl, _, hi.registry.accept_nil⟩
        · have hindex := hasIndex_of_accepted hc hu hi.registry.user_next ha
          rw [ServerListenner.acceptAction_cons p hc hb hindex hu hi.registry.user_next] at ha
          cases ha
          exact .inr ⟨hc, p, rest, rfl, rfl⟩
      · rw [ServerListenner.acceptAction, if_neg hc] at ha
        cases ha
        exact .inl ⟨fun h => hc h.1, s.server.baseHashKey, rfl, k, hi.registry⟩
  · -- `accept` has failed: nothing is open that was not.
    refine .inl ⟨?_, fun h => absurd h h0⟩
    have hclose := safeCloseSocket_of_neg hi.nonneg (Int.not_le.mp h0)
    rw [acceptAction, if_neg h0] at hs
    cases ioctlFails with
    | true =>
      simp only [if_pos, hclose, ServerListenner.acceptAction, if_neg (show ¬ (0 : Int) < -1 by decide),
        Option.bind_eq_bind, Option.bind_some] at hs
      cases hs
      rfl
    | false =>
      simp only [if_neg Bool.false_ne_true, ServerListenner.acceptAction, if_neg (show ¬ 0 < sock by omega),
        Option.bind_eq_bind, Option.bind_some] at hs
      cases hs
      rfl

/-- A descriptor that no user gets is open from then on. -/
theorem Inv.leaked (hi : Inv n k live s) {k' : Nat} {sock b : Int} (h0 : 0 ≤ sock) (hf : sock ∉ s.opened)
    (hr : Registry.Inv n k' ⟨{ s.server with baseHashKey := b }, live⟩) :
    Inv n k' live ⟨{ s.server with baseHashKey := b }, sock :: s.opened⟩ ∧
      ¬ NoLeak ⟨{ s.server with baseHashKey := b }, sock :: s.opened⟩ := by
  have hi' : Inv n k' live ⟨{ s.server with baseHashKey := b }, sock :: s.opened⟩ :=
    hi.congr hr (fun _ => ⟨rfl, rfl⟩) (fun _ h => List.mem_cons_of_mem _ h) (List.forall_mem_cons.mpr ⟨h0, hi.nonneg⟩)
  refine ⟨hi', fun hleak => ?_⟩
  obtain ⟨p, hp, e⟩ := hi'.noLeak_live.mp hleak sock List.mem_cons_self
  exact hf (e ▸ hi.opened hp)

/-- A descriptor that becomes a new user's. -/
theorem Inv.accepted (hi : Inv n k live s) {p : UserPtr} {rest : List UserPtr} (hu : s.server.unused = p :: rest)
    {sock : Int} (h0 : 0 ≤ sock) (hf : sock ∉ s.opened) (uip uport : Int) :
    Inv n (k + 1) ((s.server.baseHashKey + 1, p) :: live)
        ⟨s.server.accepted p rest sock uip uport, sock :: s.opened⟩ ∧
      (s.NoLeak → NoLeak ⟨s.server.accepted p rest sock uip uport, sock :: s.opened⟩) := by
  have hnew : p ∉ live.map Prod.snd := hi.registry.not_unused (hu ▸ List.mem_cons_self)
  have hself : ((s.server.accepted p rest sock uip uport).users p).userSock = sock := by
    simp [ServerListenner.accepted]
  have hother {q : UserPtr} (hq : q ≠ p) : (s.server.accepted p rest sock uip uport).users q = s.server.users q :=
    Function.update_of_ne hq ..
  have hne {q : UserPtr} (hq : q ∈ live.map Prod.snd) : q ≠ p := fun e => hnew (e ▸ hq)
  have hi' : Inv n (k + 1) ((s.server.baseHashKey + 1, p) :: live)
      ⟨s.server.accepted p rest sock uip uport, sock :: s.opened⟩ := by
    refine ⟨hi.registry.accept_cons hu sock uip uport, fun {q} hq => ?_, List.forall_mem_cons.mpr ⟨h0, hi.nonneg⟩,
      fun {q} hq => ?_, fun {q q'} hq hq' e => ?_⟩
    · rw [List.map_cons, List.mem_cons]
      by_cases hqp : q = p
      · exact .inl hqp
      · rw [hother hqp] at hq
        exact .inr (hi.serverPtr hq)
    · rw [List.map_cons, List.mem_cons] at hq
      rcases hq with rfl | hq
      · rw [hself]
        exact List.mem_cons_self
      · rw [hother (hne hq)]
        exact List.mem_cons_of_mem _ (hi.opened hq)
    · rw [List.map_cons, List.mem_cons] at hq hq'
      rcases hq with rfl | hq <;> rcases hq' with rfl | hq'
      · rfl
      · rw [hself, hother (hne hq')] at e
        exact absurd (hi.opened hq') (e ▸ hf)
      · rw [hself, hother (hne hq)] at e
        exact absurd (hi.opened hq) (e.symm ▸ hf)
      · rw [hother (hne hq), hother (hne hq')] at e
        exact hi.distinct hq hq' e
  refine ⟨hi', fun hleak => hi'.noLeak_live.mpr fun fd hfd => ?_⟩
  rcases List.mem_cons.mp hfd with rfl | hfd
  · exact ⟨p, List.mem_cons_self, hself⟩
  · obtain ⟨q, hq, e⟩ := hi.noLeak_live.mp hleak fd hfd
    exact ⟨q, List.mem_cons_of_mem _ hq, by rw [hother (hne hq), e]⟩

/-! ## Runs -/

/-- What an event does to the descriptors. -/
theorem Inv.step (hi : Inv n k live s) {e : Event} (hs : s.step e = some s') :
    (∃ k' live', Inv n k' live' s') ∧ (s.NoLeak → (s'.NoLeak ↔ s.Kept e)) := by
  cases e with
  | errorRead p =>
    cases hs
    by_cases hp : (s.server.users p).serverPtr = true
    · obtain ⟨⟨h, _⟩, hl, rfl⟩ := List.mem_map.mp (hi.serverPtr hp)
      obtain ⟨hi', hleak⟩ := hi.errorRead_live hl
      exact ⟨⟨_, _, hi'⟩, fun h => iff_of_true (hleak h) trivial⟩
    · obtain ⟨hi', hleak⟩ := hi.errorRead_idle (eq_false_of_ne_true hp)
      exact ⟨⟨_, _, hi'⟩, fun h => iff_of_true (hleak h) trivial⟩
  | accept sock ioctlFails uip uport =>
    rcases hi.accept_cases hs with ⟨rfl, hfail⟩ | ⟨⟨h0, hioctl, hf⟩, hcase⟩
    · refine ⟨⟨_, _, hi⟩, fun h => iff_of_true h fun h0 hno => ?_⟩
      rw [hfail h0] at hno
      cases hno
    · rcases hcase with ⟨hnot, b, rfl, k', hr⟩ | ⟨hpos, p, rest, hu, rfl⟩
      · obtain ⟨hi', hleak⟩ := hi.leaked h0 hf hr
        exact ⟨⟨_, _, hi'⟩, fun _ => iff_of_false hleak fun hkept => hnot (hkept h0 hioctl)⟩
      · obtain ⟨hi', hleak⟩ := hi.accepted hu h0 hf uip uport
        refine ⟨⟨_, _, hi'⟩, fun h => iff_of_true (hleak h) fun _ _ => ⟨hpos, ?_⟩⟩
        rw [hu]
        exact List.cons_ne_nil p rest

/-- After every event the open descriptors are those of the registered users, exactly if each connection
that is accepted has a positive descriptor and finds an object in the pool. -/
theorem noLeak_iff (of : Server) (countWorker : Int) (n : Nat) {es : List Event}
    (h : es.foldlM step (start of countWorker n) = some s) :
    Always step NoLeak (start of countWorker n) es ↔
      ∀ x ∈ runSteps step (start of countWorker n) es, Kept x.1 x.2 := by
  have hi := inv_start of countWorker n
  have hstart : NoLeak (start of countWorker n) := hi.noLeak_live.mpr (List.forall_mem_nil _)
  refine always_iff_steps (I := fun s => ∃ k live, Inv n k live s) ?_ ?_ ⟨0, [], hi⟩ hstart h
  · rintro s o s' ⟨k, live, hi⟩ hs
    exact (hi.step hs).1
  · rintro s o s' ⟨k, live, hi⟩ hleak hs
    exact (hi.step hs).2 hleak

/-- Two users come to a pool of two, one connection fails, and the first leaves and comes again. -/
theorem noLeak_iff_two :
    let es : List Event := [.accept 5 false 1 1, .accept 6 false 1 2, .accept 7 true 1 3, .errorRead 0,
      .accept 5 false 1 4]
    ∃ s, es.foldlM step (start .gate 4 2) = some s ∧
      (Always step NoLeak (start .gate 4 2) es ↔ ∀ x ∈ runSteps step (start .gate 4 2) es, Kept x.1 x.2) :=
  ⟨_, rfl, noLeak_iff .gate 4 2 rfl⟩

/-- The second user of a pool of one. -/
theorem not_noLeak_full : ∃ s, [Event.accept 5 false 1 1, .accept 6 false 1 2].foldlM step (start .gate 4 1) = some s ∧
    s.opened = [6, 5] ∧ ¬ s.NoLeak := by
  have hi := inv_start .gate 4 1
  have hempty : NoLeak (start .gate 4 1) := hi.noLeak_live.mpr (List.forall_mem_nil _)
  obtain ⟨⟨k, live, hi₁⟩, h₁⟩ := hi.step (e := .accept 5 false 1 1) rfl
  have hfirst := (h₁ hempty).mpr fun _ _ => ⟨by decide, List.cons_ne_nil 0 []⟩
  have hsecond := (hi₁.step (e := .accept 6 false 1 2) rfl).2 hfirst
  refine ⟨_, rfl, rfl, fun hleak => ?_⟩
  exact (hsecond.mp hleak (by decide) rfl).2 rfl

end ClientSockets

end Miku.Common
