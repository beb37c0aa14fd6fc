import MikuServer.Framework.Loop
import MikuServer.Impl.ConnectionThreads
import MikuServer.Proof.ConnectionRegistry

/-!
# Objects, sockets and keys in every interleaving

`Inv` says which object has the socket of a connection, and which object a key
can still lead to. It holds in every run (`inv_step`), also where a connection
ends before it is registered.
-/

namespace Miku.Common

/-- The accepting thread has `p`, and has not set its members. -/
def AcceptPlace.Takes (p : UserPtr) : AcceptPlace → Prop
  | .got q .. => q = p
  | _ => False

/-- The members of `p` are set, and its reading is not enabled. -/
def AcceptPlace.Sets (p : UserPtr) : AcceptPlace → Prop
  | .set q => q = p
  | _ => False

theorem AcceptPlace.sets_iff {p : UserPtr} {a : AcceptPlace} : a.Sets p ↔ a = .set p := by
  cases a <;> simp [Sets]

theorem AcceptPlace.takes_iff {p : UserPtr} {a : AcceptPlace} :
    a.Takes p ↔ ∃ s uip uport, a = .got p s uip uport := by
  cases a <;> simp [Takes]

/-- No object has the last key. -/
def AcceptPlace.Taking : AcceptPlace → Prop
  | .accepted .. | .got .. => True
  | _ => False

/-- The last key is not registered. -/
def AcceptPlace.Adding : AcceptPlace → Prop
  | .accepted .. | .got .. | .set _ | .enabled _ => True
  | _ => False

namespace Connections

variable {ι : Type} (t : Connections ι) (p : UserPtr) (h : Int)

def base : Int := t.server.baseHashKey

def u : UserInfoEx := t.server.users p

/-- The object has a socket that is open. -/
def Open : Prop := (t.u p).reading = true ∨ t.accepting.Sets p

/-- The object has a key, until it is given back. -/
def Held : Prop := Open t p ∨ p ∈ t.leaving

/-- The key leads to the object, in the map or with a thread that has looked it up. -/
def Found : Prop := t.server.user h = some p ∨ ∃ i, t.reader i = some (h, p)

/-- The object is in `user_list_` under its key, with the pointer to the server, and in the room and
the center server its processor is initialised. -/
def Registered : Prop :=
  t.server.user (t.u p).hashKey = some p ∧ (t.u p).server = true ∧
    (t.server.userInfoResource.of ≠ .gate → (t.u p).processor = true)

/-- What holds where the accepting thread is. -/
def AtPlace : Prop :=
  match t.accepting with
  | .accepted s .. => t.files s = some (.connection t.base)
  | .got p s .. => t.files s = some (.connection t.base) ∧ (t.u p).reading = false
  | .set p => (t.u p).hashKey = t.base ∧ (t.u p).reading = false
  | .enabled p => (Held t p → (t.u p).hashKey = t.base) ∧ ∀ s, t.files s = some (.connection t.base) → Open t p
  | _ => True

/-- A connection is open on one descriptor, and this is the `user_sock` of the one object that has the key
of the connection; an object that a key leads to is this object as long as the connection is open. -/
structure Inv : Prop where
  file {s h : Int} : t.files s = some (.connection h) → h ≤ t.base
  unique {s s' h : Int} : t.files s = some (.connection h) → t.files s' = some (.connection h) → s = s'
  opened {p : UserPtr} : Open t p →
    t.files (t.u p).userSock = some (.connection (t.u p).hashKey) ∧ (t.u p).serverPtr = true
  held {p : UserPtr} : Held t p → (t.u p).hashKey ≤ t.base ∧ (t.accepting.Taking → (t.u p).hashKey < t.base)
  inj {p q : UserPtr} : Held t p → Held t q → (t.u p).hashKey = (t.u q).hashKey → p = q
  foundKey {h : Int} {p : UserPtr} : Found t p h → h ≤ t.base ∧ (t.accepting.Adding → h < t.base)
  found {s h : Int} {p : UserPtr} : Found t p h → t.files s = some (.connection h) → Open t p ∧ (t.u p).hashKey = h
  pool {p : UserPtr} : p ∈ t.server.unused → ¬ Held t p ∧ ¬ t.accepting.Takes p
  nodup : t.server.unused.Nodup ∧ t.leaving.Nodup
  left {p : UserPtr} : p ∈ t.leaving → ¬ Open t p ∧ ¬ t.accepting.Takes p
  place : AtPlace t
  registered {p : UserPtr} : (t.u p).reading = true → t.accepting = .enabled p ∨ Registered t p

variable {t p} {t' : Connections ι} {q : UserPtr}

theorem inv_start (of : Server) (countWorker : Int) (n : Nat) (files : Int → Bool) :
    Inv (start of countWorker n files : Connections ι) := by
  have hno (p : UserPtr) : ¬ Open (start of countWorker n files : Connections ι) p := by
    simp [Open, start, u, ServerListenner.start, UserInfoEx.new, AcceptPlace.Sets]
  have hheld (p : UserPtr) : ¬ Held (start of countWorker n files : Connections ι) p :=
    not_or.mpr ⟨hno p, List.not_mem_nil⟩
  have hfound (p : UserPtr) (h : Int) : ¬ Found (start of countWorker n files : Connections ι) p h := by
    simp [Found, start, ServerListenner.user, ServerListenner.start]
  have hfile (s h : Int) : (start of countWorker n files : Connections ι).files s ≠ some (.connection h) := by
    simp [start]
  exact {
    file := fun hf => absurd hf (hfile _ _)
    unique := fun hf => absurd hf (hfile _ _)
    opened := fun ho => absurd ho (hno _)
    held := fun hh => absurd hh (hheld _)
    inj := fun hh => absurd hh (hheld _)
    foundKey := fun hf => absurd hf (hfound _ _)
    found := fun hf => absurd hf (hfound _ _)
    pool := fun _ => ⟨hheld _, id⟩
    nodup := ⟨List.nodup_range, List.nodup_nil⟩
    left := fun hl => absurd hl List.not_mem_nil
    place := trivial
    registered := fun hr => absurd (.inl hr) (hno _) }

/-! ## Where the accepting thread is -/

theorem Inv.at_accepted (hi : Inv t) {s uip uport : Int} (ha : t.accepting = .accepted s uip uport) :
    t.files s = some (.connection t.base) := by
  have hplace := hi.place
  rw [AtPlace, ha] at hplace
  exact hplace

theorem Inv.at_got (hi : Inv t) {s uip uport : Int} (ha : t.accepting = .got p s uip uport) :
    t.files s = some (.connection t.base) ∧ (t.u p).reading = false := by
  have hplace := hi.place
  rw [AtPlace, ha] at hplace
  exact hplace

theorem Inv.at_set (hi : Inv t) (ha : t.accepting = .set p) :
    (t.u p).hashKey = t.base ∧ (t.u p).reading = false := by
  have hplace := hi.place
  rw [AtPlace, ha] at hplace
  exact hplace

theorem Inv.at_enabled (hi : Inv t) (ha : t.accepting = .enabled p) : (Held t p → (t.u p).hashKey = t.base) ∧
    ∀ s, t.files s = some (.connection t.base) → Open t p := by
  have hplace := hi.place
  rw [AtPlace, ha] at hplace
  exact hplace

/-- An object whose reading is enabled is not the one that the accepting thread is about to set. -/
theorem Inv.not_takes (hi : Inv t) (hr : (t.u p).reading = true) : ¬ t.accepting.Takes p := fun ht => by
  obtain ⟨s, uip, uport, ha⟩ := AcceptPlace.takes_iff.mp ht
  cases hr.symm.trans (hi.at_got ha).2

theorem Inv.not_sets (hi : Inv t) (hr : (t.u p).reading = true) : ¬ t.accepting.Sets p := fun hs => by
  cases hr.symm.trans (hi.at_set (AcceptPlace.sets_iff.mp hs)).2

/-! ## Steps that leave the objects and the connections as they are -/

/-- The accepting thread stays where it is, or is done with an object whose members are not set or that
is registered. -/
structure Same (t t' : Connections ι) : Prop where
  base : t'.base = t.base
  of : t'.server.userInfoResource.of = t.server.userInfoResource.of
  users (p : UserPtr) : t'.u p = t.u p
  user (j : Int) : t'.server.user j = t.server.user j
  files (s h : Int) : t'.files s = some (.connection h) ↔ t.files s = some (.connection h)
  unused : t'.server.unused = t.server.unused
  leaving : t'.leaving = t.leaving
  found (p : UserPtr) (h : Int) : Found t' p h → Found t p h
  accepting : t'.accepting = t.accepting ∨ t'.accepting = .idle ∧ ∀ p, ¬ t.accepting.Sets p ∧ t.accepting ≠ .enabled p

/-- What the thread is not when it is done, it was before. -/
theorem Same.of_accepting (hs : Same t t') {P : AcceptPlace → Prop} (hidle : ¬ P .idle) (ha : P t'.accepting) :
    P t.accepting := by
  rcases hs.accepting with he | ⟨he, -⟩
  · rwa [he] at ha
  · rw [he] at ha
    exact absurd ha hidle

theorem Inv.same (hi : Inv t) (hs : Same t t') : Inv t' := by
  have hsets (p : UserPtr) : t'.accepting.Sets p ↔ t.accepting.Sets p := by
    rcases hs.accepting with he | ⟨he, hn⟩
    · rw [he]
    · rw [he]
      exact (iff_false_intro (hn p).1).symm
  have htakes (p : UserPtr) : t'.accepting.Takes p → t.accepting.Takes p := hs.of_accepting (P := (·.Takes p)) id
  have htaking : t'.accepting.Taking → t.accepting.Taking := hs.of_accepting id
  have hadding : t'.accepting.Adding → t.accepting.Adding := hs.of_accepting id
  have hopen (p : UserPtr) : Open t' p ↔ Open t p := by rw [Open, Open, hs.users, hsets]
  have hheld (p : UserPtr) : Held t' p ↔ Held t p := by rw [Held, Held, hopen, hs.leaving]
  refine ⟨?_, ?_, ?_, ?_, ?_, ?_, ?_, ?_, ?_, ?_, ?_, ?_⟩
  · intro s h hf
    rw [hs.base]
    exact hi.file ((hs.files s h).mp hf)
  · intro s s' h hf hf'
    exact hi.unique ((hs.files s h).mp hf) ((hs.files s' h).mp hf')
  · intro p ho
    rw [hs.users, hs.files]
    exact hi.opened ((hopen p).mp ho)
  · intro p hh
    rw [hs.users, hs.base]
    exact ⟨(hi.held ((hheld p).mp hh)).1, fun ht => (hi.held ((hheld p).mp hh)).2 (htaking ht)⟩
  · intro p q hp hq he
    rw [hs.users, hs.users] at he
    exact hi.inj ((hheld p).mp hp) ((hheld q).mp hq) he
  · intro h p hf
    rw [hs.base]
    exact ⟨(hi.foundKey (hs.found p h hf)).1, fun ha => (hi.foundKey (hs.found p h hf)).2 (hadding ha)⟩
  · intro s h p hf hc
    rw [hopen, hs.users]
    exact hi.found (hs.found p h hf) ((hs.files s h).mp hc)
  · intro p hp
    rw [hs.unused] at hp
    rw [hheld]
    exact ⟨(hi.pool hp).1, fun ht => (hi.pool hp).2 (htakes p ht)⟩
  · rw [hs.unused, hs.leaving]
    exact hi.nodup
  · intro p hp
    rw [hs.leaving] at hp
    rw [hopen]
    exact ⟨(hi.left hp).1, fun ht => (hi.left hp).2 (htakes p ht)⟩
  · rcases hs.accepting with he | ⟨he, -⟩
    · have hplace := hi.place
      rw [AtPlace] at hplace ⊢
      simpa only [he, hs.files, hs.base, hs.users, hheld, hopen] using hplace
    · rw [AtPlace, he]
      trivial
  · intro p hr
    rw [hs.users] at hr
    rcases hs.accepting with he | ⟨-, hn⟩
    · rw [he, Registered, hs.users, hs.user, hs.of]
      exact hi.registered hr
    · rw [Registered, hs.users, hs.user, hs.of]
      exact .inr ((hi.registered hr).resolve_left (hn p).2)

/-- The accepting thread is done. -/
theorem Inv.idle (hi : Inv t) (hn : ∀ p, ¬ t.accepting.Sets p ∧ t.accepting ≠ .enabled p) :
    Inv { t with accepting := .idle } :=
  hi.same ⟨rfl, rfl, fun _ => rfl, fun _ => rfl, fun _ _ => Iff.rfl, rfl, rfl, fun _ _ => id, .inr ⟨rfl, hn⟩⟩

/-! ## `AcceptAction` -/

/-- After `accept` and `base_hash_key_++`. -/
def accepted (t : Connections ι) (s uip uport : Int) : Connections ι :=
  { t with
    server.baseHashKey := t.base + 1
    files := Function.update t.files s (some (.connection (t.base + 1)))
    accepting := .accepted s uip uport }

theorem Inv.accepted (hi : Inv t) (ha : t.accepting = .idle) {s : Int} (hs : t.files s = none) (uip uport : Int) :
    Inv (t.accepted s uip uport) := by
  have hfile (s' h : Int) : (t.accepted s uip uport).files s' = some (.connection h) ↔
      (s' = s ∧ h = t.base + 1) ∨ t.files s' = some (.connection h) := by
    show Function.update t.files s _ s' = _ ↔ _
    rw [Function.update_apply]
    split <;> rename_i he
    · rw [he, hs]
      simp [eq_comm]
    · simp [he]
  have hold {s' h : Int} (hf : (t.accepted s uip uport).files s' = some (.connection h)) (hh : h ≤ t.base) :
      t.files s' = some (.connection h) := by
    refine ((hfile s' h).mp hf).resolve_left fun h' => ?_
    have := h'.2
    omega
  have hsets (p : UserPtr) : ¬ t.accepting.Sets p := by
    rw [ha]
    exact id
  have hopen {p : UserPtr} (ho : Open (t.accepted s uip uport) p) : Open t p := .inl (ho.resolve_right id)
  have hheld {p : UserPtr} (hh : Held (t.accepted s uip uport) p) : Held t p := hh.imp_left hopen
  have hbase : (t.accepted s uip uport).base = t.base + 1 := rfl
  refine ⟨fun {s' h} hf => ?_, fun {s' s'' h} hf hf' => ?_, fun {p} ho => ?_, fun {p} hh => ?_,
    fun hp hq he => hi.inj (hheld hp) (hheld hq) he, fun {h p} hf => ?_, fun {s' h p} hf hc => ?_, fun {p} hp => ?_,
    hi.nodup, fun {p} hp => ?_, (hfile s _).mpr (.inl ⟨rfl, rfl⟩), fun {p} hr => ?_⟩
  · rw [hbase]
    rcases (hfile s' h).mp hf with ⟨-, he⟩ | hf
    · omega
    · have := hi.file hf
      omega
  · rcases (hfile s' h).mp hf with ⟨he, hh⟩ | hf1 <;> rcases (hfile s'' h).mp hf' with ⟨he', hh'⟩ | hf2
    · rw [he, he']
    · have := hi.file hf2
      omega
    · have := hi.file hf1
      omega
    · exact hi.unique hf1 hf2
  · exact ⟨(hfile _ _).mpr (.inr (hi.opened (hopen ho)).1), (hi.opened (hopen ho)).2⟩
  · have h1 : (t.u p).hashKey ≤ t.base := (hi.held (hheld hh)).1
    refine ⟨?_, fun _ => ?_⟩
    · show (t.u p).hashKey ≤ t.base + 1
      omega
    · show (t.u p).hashKey < t.base + 1
      omega
  · have h1 : h ≤ t.base := (hi.foundKey hf).1
    rw [hbase]
    exact ⟨by omega, fun _ => by omega⟩
  · have hh := (hi.foundKey hf).1
    obtain ⟨ho, hkey⟩ := hi.found hf (hold hc hh)
    exact ⟨.inl (ho.resolve_right (hsets p)), hkey⟩
  · exact ⟨fun hh => (hi.pool hp).1 (hheld hh), id⟩
  · exact ⟨fun ho => (hi.left hp).1 (hopen ho), id⟩
  · refine .inr ((hi.registered hr).resolve_left ?_)
    rw [ha]
    exact nofun

/-- After `GetUserInfo` has returned `p`. -/
def taken (t : Connections ι) (p : UserPtr) (rest : List UserPtr) (s uip uport : Int) : Connections ι :=
  { t with
    server.userInfoResource.unusedUserList :=
      ⟨t.server.userInfoResource.unusedUserList.usingUserList.assign p (some p), rest⟩
    accepting := .got p s uip uport }

theorem Inv.taken (hi : Inv t) {s uip uport : Int} (ha : t.accepting = .accepted s uip uport) {rest : List UserPtr}
    (hu : t.server.unused = p :: rest) : Inv (t.taken p rest s uip uport) := by
  have hp : p ∈ t.server.unused := hu ▸ List.mem_cons_self
  have hopen {q : UserPtr} : Open (t.taken p rest s uip uport) q ↔ Open t q := by
    rw [Open, Open, ha]
    rfl
  have hheld {q : UserPtr} : Held (t.taken p rest s uip uport) q ↔ Held t q := or_congr_left hopen
  have hnodup := hi.nodup
  rw [hu, List.nodup_cons] at hnodup
  refine ⟨hi.file, hi.unique, fun ho => hi.opened (hopen.mp ho), fun hh => ?_,
    fun hq hq' => hi.inj (hheld.mp hq) (hheld.mp hq'), fun hf => ?_, fun hf hc => ?_, fun {q} hq => ?_,
    ⟨hnodup.1.2, hnodup.2⟩, fun {q} hq => ?_, ⟨hi.at_accepted ha, ?_⟩, fun hr => ?_⟩
  · refine ⟨(hi.held (hheld.mp hh)).1, fun _ => (hi.held (hheld.mp hh)).2 ?_⟩
    rw [ha]
    trivial
  · refine ⟨(hi.foundKey hf).1, fun _ => (hi.foundKey hf).2 ?_⟩
    rw [ha]
    trivial
  · rw [hopen]
    exact hi.found hf hc
  · rw [hheld]
    have hq' : q ∈ t.server.unused := hu ▸ List.mem_cons_of_mem _ hq
    refine ⟨(hi.pool hq').1, fun he => ?_⟩
    have he : p = q := he
    exact hnodup.1.1 (he ▸ hq)
  · rw [hopen]
    refine ⟨(hi.left hq).1, fun he => ?_⟩
    have he : p = q := he
    exact (hi.pool hp).1 (.inr (he ▸ hq))
  · exact Bool.eq_false_iff.mpr fun hr => (hi.pool hp).1 (.inl (.inl hr))
  · refine .inr ((hi.registered hr).resolve_left ?_)
    rw [ha]
    exact nofun

/-- After the members of `p` are set. -/
def infoSet (t : Connections ι) (p : UserPtr) (i s uip uport : Int) : Connections ι :=
  { t with server := t.server.setInfo p i s uip uport, accepting := .set p }

theorem infoSet_self (i s uip uport : Int) : (t.infoSet p i s uip uport).u p =
    { t.u p with
      userSock := s, hashKey := t.base, serverPtr := true, userUip := uip, userUport := uport, worker := some i } := by
  rw [u, infoSet, ServerListenner.setInfo, ServerListenner.setUser_users, if_pos rfl]
  rfl

theorem infoSet_other (hq : q ≠ p) (i s uip uport : Int) : (t.infoSet p i s uip uport).u q = t.u q := by
  rw [u, infoSet, ServerListenner.setInfo, ServerListenner.setUser_users, if_neg hq]
  rfl

theorem Inv.infoSet (hi : Inv t) {s uip uport : Int} (i : Int) (ha : t.accepting = .got p s uip uport) :
    Inv (t.infoSet p i s uip uport) := by
  obtain ⟨hs, hreading⟩ := hi.at_got ha
  have hp := infoSet_self (t := t) (p := p) i s uip uport
  have hq {q : UserPtr} (hq : q ≠ p) : (t.infoSet p i s uip uport).u q = t.u q := infoSet_other hq i s uip uport
  have hnot : ¬ Open t p ∧ p ∉ t.leaving := by
    refine ⟨fun ho => ?_, fun hl => (hi.left hl).2 (by rw [ha]; rfl)⟩
    rcases ho with hr | hsets
    · rw [hreading] at hr
      cases hr
    · rw [ha] at hsets
      exact hsets
  have hopen {q : UserPtr} (hne : q ≠ p) : Open (t.infoSet p i s uip uport) q ↔ Open t q := by
    rw [Open, Open, hq hne, ha]
    refine or_congr_right ⟨fun he => ?_, False.elim⟩
    exact hne (show p = q from he).symm
  have hheld {q : UserPtr} (hne : q ≠ p) : Held (t.infoSet p i s uip uport) q ↔ Held t q := or_congr_left (hopen hne)
  have htaking : t.accepting.Taking := by
    rw [ha]
    trivial
  have hadding : t.accepting.Adding := by
    rw [ha]
    trivial
  have hbase : (t.infoSet p i s uip uport).base = t.base := rfl
  refine ⟨hi.file, hi.unique, fun {q} ho => ?_, fun {q} hh => ?_, fun {q q'} hh hh' he => ?_, fun hf => ?_,
    fun {s' h q} hf hc => ?_, fun {q} hu => ?_, hi.nodup, fun {q} hl => ?_, ?_, fun {q} hr => ?_⟩
  · by_cases hne : q = p
    · rw [hne, hp]
      exact ⟨hs, rfl⟩
    · rw [hq hne]
      exact hi.opened ((hopen hne).mp ho)
  · by_cases hne : q = p
    · rw [hne, hp]
      exact ⟨Int.le_refl _, False.elim⟩
    · rw [hq hne]
      exact ⟨(hi.held ((hheld hne).mp hh)).1, False.elim⟩
  · by_cases hne : q = p <;> by_cases hne' : q' = p
    · rw [hne, hne']
    · have hlt := (hi.held ((hheld hne').mp hh')).2 htaking
      rw [hq hne', hne, hp] at he
      exact absurd hlt (Int.not_lt.mpr (Int.le_of_eq he))
    · have hlt := (hi.held ((hheld hne).mp hh)).2 htaking
      rw [hq hne, hne', hp] at he
      exact absurd hlt (Int.not_lt.mpr (Int.le_of_eq he.symm))
    · rw [hq hne, hq hne'] at he
      exact hi.inj ((hheld hne).mp hh) ((hheld hne').mp hh') he
  · exact ⟨(hi.foundKey hf).1, fun _ => (hi.foundKey hf).2 hadding⟩
  · obtain ⟨ho, hkey⟩ := hi.found hf hc
    have hne : q ≠ p := fun he => hnot.1 (he ▸ ho)
    rw [hopen hne, hq hne]
    exact ⟨ho, hkey⟩
  · have hne : q ≠ p := fun he => (hi.pool hu).2 (by rw [ha]; exact he.symm)
    rw [hheld hne]
    exact ⟨(hi.pool hu).1, id⟩
  · have hne : q ≠ p := fun he => hnot.2 (he ▸ hl)
    rw [hopen hne]
    exact ⟨(hi.left hl).1, id⟩
  · show ((t.infoSet p i s uip uport).u p).hashKey = t.base ∧ ((t.infoSet p i s uip uport).u p).reading = false
    rw [hp]
    exact ⟨rfl, hreading⟩
  · have hne : q ≠ p := fun he => by
      rw [he, hp] at hr
      exact hnot.1 (.inl hr)
    rw [hq hne] at hr
    rw [Registered, hq hne]
    refine .inr ((hi.registered hr).resolve_left fun he => ?_)
    rw [ha] at he
    cases he

/-- After `bufferevent_enable`. -/
def readable (t : Connections ι) (p : UserPtr) : Connections ι :=
  { t with server := t.server.enable p, accepting := .enabled p }

theorem readable_self : (t.readable p).u p = { t.u p with reading := true } := by
  rw [u, readable, ServerListenner.enable, ServerListenner.setUser_users, if_pos rfl]
  rfl

theorem readable_other (hq : q ≠ p) : (t.readable p).u q = t.u q := by
  rw [u, readable, ServerListenner.enable, ServerListenner.setUser_users, if_neg hq]
  rfl

theorem readable_hashKey : ((t.readable p).u q).hashKey = (t.u q).hashKey := by
  by_cases hne : q = p
  · rw [hne, readable_self]
  · rw [readable_other hne]

theorem Inv.readable (hi : Inv t) (ha : t.accepting = .set p) : Inv (t.readable p) := by
  obtain ⟨hkey, hreading⟩ := hi.at_set ha
  have hp : (t.readable p).u p = { t.u p with reading := true } := readable_self
  have hq {q : UserPtr} (hq : q ≠ p) : (t.readable p).u q = t.u q := readable_other hq
  have hkeys (q : UserPtr) : ((t.readable p).u q).hashKey = (t.u q).hashKey := readable_hashKey
  have hopened : Open t p := by
    rw [Open, ha]
    exact .inr rfl
  have hopen (q : UserPtr) : Open (t.readable p) q ↔ Open t q := by
    by_cases hne : q = p
    · rw [hne]
      refine iff_of_true (.inl ?_) hopened
      rw [hp]
    · rw [Open, Open, hq hne, ha]
      exact or_congr_right (iff_of_false id fun he => hne (show p = q from he).symm)
  have hheld (q : UserPtr) : Held (t.readable p) q ↔ Held t q := or_congr_left (hopen q)
  have hadding : t.accepting.Adding := by
    rw [ha]
    trivial
  refine ⟨hi.file, hi.unique, fun {q} ho => ?_, fun {q} hh => ?_, fun {q q'} hh hh' he => ?_, fun hf => ?_,
    fun {s' h q} hf hc => ?_, fun {q} hu => ?_, hi.nodup, fun {q} hl => ?_, ?_, fun {q} hr => ?_⟩
  · have hold := hi.opened ((hopen q).mp ho)
    by_cases hne : q = p
    · rw [hne] at hold ⊢
      rw [hp]
      exact hold
    · rw [hq hne]
      exact hold
  · rw [hkeys]
    exact ⟨(hi.held ((hheld q).mp hh)).1, False.elim⟩
  · rw [hkeys, hkeys] at he
    exact hi.inj ((hheld q).mp hh) ((hheld q').mp hh') he
  · exact ⟨(hi.foundKey hf).1, fun _ => (hi.foundKey hf).2 hadding⟩
  · rw [hopen, hkeys]
    exact hi.found hf hc
  · rw [hheld]
    exact ⟨(hi.pool hu).1, id⟩
  · rw [hopen]
    exact ⟨(hi.left hl).1, id⟩
  · refine ⟨fun _ => ?_, fun _ _ => (hopen p).mpr hopened⟩
    rw [hkeys]
    exact hkey
  · by_cases hne : q = p
    · exact .inl (hne ▸ rfl)
    · rw [hq hne] at hr
      rw [Registered, hq hne]
      refine .inr ((hi.registered hr).resolve_left fun he => ?_)
      rw [ha] at he
      cases he

/-- After `AddUserInfo`. -/
def added (t : Connections ι) (p : UserPtr) : Connections ι :=
  { t with server := t.server.register p, accepting := .registered p }

theorem Inv.base_none (hi : Inv t) (ha : t.accepting.Adding) : t.server.user t.base = none := by
  rw [Option.eq_none_iff_forall_ne_some]
  exact fun q hq => Int.lt_irrefl _ ((hi.foundKey (.inl hq)).2 ha)

/-- The server with the object in `using_user_map_`, which `AddUserInfo` does not look at. -/
def used (t : Connections ι) (p : UserPtr) : ServerListenner :=
  { t.server with usingUserMap := t.server.usingUserMap.assign (t.u p).hashKey (some p) }

theorem added_self (hn : (t.used p).user t.base = none) : (t.added p).u p = { t.u p with
    hashKey := t.base
    server := true
    processor := (t.u p).processor || decide (t.server.userInfoResource.of ≠ .gate) } :=
  (ServerListenner.addUserInfo_users p p t.base hn).trans (if_pos rfl)

theorem added_other (hn : (t.used p).user t.base = none) (hq : q ≠ p) : (t.added p).u q = t.u q :=
  (ServerListenner.addUserInfo_users p q t.base hn).trans (if_neg hq)

theorem added_user (hn : (t.used p).user t.base = none) (j : Int) :
    (t.added p).server.user j = if t.base = j then some p else t.server.user j :=
  ServerListenner.addUserInfo_user p t.base j hn

theorem added_frame (hn : (t.used p).user t.base = none) : (t.added p).base = t.base ∧
    (t.added p).server.unused = t.server.unused ∧
    (t.added p).server.userInfoResource.of = t.server.userInfoResource.of := by
  show ((t.used p).addUserInfo t.base p).2.baseHashKey = _ ∧ ((t.used p).addUserInfo t.base p).2.unused = _ ∧
    ((t.used p).addUserInfo t.base p).2.userInfoResource.of = _
  rw [ServerListenner.addUserInfo_new p t.base hn]
  exact ⟨rfl, rfl, rfl⟩

theorem Inv.added (hi : Inv t) (ha : t.accepting = .enabled p) : Inv (t.added p) := by
  obtain ⟨hkey, hconn⟩ := hi.at_enabled ha
  have hn : t.server.user t.base = none := hi.base_none (by rw [ha]; trivial)
  have hp := added_self (t := t) (p := p) hn
  have hq {q : UserPtr} (hq : q ≠ p) : (t.added p).u q = t.u q := added_other hn hq
  have huser := added_user (t := t) (p := p) hn
  obtain ⟨hbase, hunused, hof⟩ := added_frame (t := t) (p := p) hn
  have hopen (q : UserPtr) : Open (t.added p) q ↔ Open t q := by
    have hr : ((t.added p).u q).reading = (t.u q).reading := by
      by_cases hne : q = p
      · rw [hne, hp]
      · rw [hq hne]
    rw [Open, Open, hr, ha]
    exact Iff.rfl
  have hheld (q : UserPtr) : Held (t.added p) q ↔ Held t q := or_congr_left (hopen q)
  have hkeys {q : UserPtr} (hh : Held t q) : ((t.added p).u q).hashKey = (t.u q).hashKey := by
    by_cases hne : q = p
    · rw [hne] at hh ⊢
      rw [hp, hkey hh]
    · rw [hq hne]
  have hfound {q : UserPtr} {h : Int} (hf : Found (t.added p) q h) : (q = p ∧ h = t.base) ∨ Found t q h := by
    rcases hf with hf | hf
    · rw [huser] at hf
      split at hf <;> rename_i he
      · exact .inl ⟨(Option.some.inj hf).symm, he.symm⟩
      · exact .inr (.inl hf)
    · exact .inr (.inr hf)
  refine ⟨fun hf => hbase ▸ hi.file hf, hi.unique, fun {q} ho => ?_, fun {q} hh => ?_, fun {q q'} hh hh' he => ?_,
    fun {h q} hf => ?_, fun {s' h q} hf hc => ?_, fun {q} hu => ?_, ?_, fun {q} hl => ?_, trivial, fun {q} hr => ?_⟩
  · have hold := hi.opened ((hopen q).mp ho)
    rw [hkeys (.inl ((hopen q).mp ho))]
    by_cases hne : q = p
    · rw [hne] at hold ⊢
      rw [hp]
      exact hold
    · rw [hq hne]
      exact hold
  · rw [hkeys ((hheld q).mp hh), hbase]
    exact ⟨(hi.held ((hheld q).mp hh)).1, False.elim⟩
  · rw [hkeys ((hheld q).mp hh), hkeys ((hheld q').mp hh')] at he
    exact hi.inj ((hheld q).mp hh) ((hheld q').mp hh') he
  · rw [hbase]
    refine ⟨?_, False.elim⟩
    rcases hfound hf with ⟨-, he⟩ | hf
    · exact Int.le_of_eq he
    · exact (hi.foundKey hf).1
  · rw [hopen]
    rcases hfound hf with ⟨he, hb⟩ | hf
    · subst he hb
      have ho := hconn _ hc
      exact ⟨ho, by rw [hp]⟩
    · obtain ⟨ho, hk⟩ := hi.found hf hc
      exact ⟨ho, (hkeys (.inl ho)).trans hk⟩
  · rw [hunused] at hu
    rw [hheld]
    exact ⟨(hi.pool hu).1, id⟩
  · rw [hunused]
    exact hi.nodup
  · rw [hopen]
    exact ⟨(hi.left hl).1, id⟩
  · refine .inr ?_
    have ho : Open t q := (hopen q).mp (.inl hr)
    rw [Registered, huser, hof]
    by_cases hne : q = p
    · rw [hne, hp]
      exact ⟨if_pos rfl, rfl, fun hg => by simp [hg]⟩
    · rw [hq hne]
      rw [hq hne] at hr
      have hreg : Registered t q := (hi.registered hr).resolve_left fun he => hne (by
        rw [ha, AcceptPlace.enabled.injEq] at he
        exact he.symm)
      refine ⟨?_, hreg.2⟩
      rw [if_neg, hreg.1]
      intro he
      have := hreg.1
      rw [← he, hn] at this
      cases this

/-! ## `ErrorRead` -/

theorem errorRead_eq (hs : (t.u p).serverPtr = true) : t.errorRead p = { t with
    server := { t.server.setUser p fun u => { u with reading := false } with
      usingUserMap := t.server.usingUserMap.erase (t.u p).hashKey }
    files := Function.update t.files (t.u p).userSock none
    leaving := p :: t.leaving } := by
  rw [errorRead, ServerListenner.leave_eq p hs]
  exact if_pos hs

theorem errorRead_frame (hs : (t.u p).serverPtr = true) : (t.errorRead p).base = t.base ∧
    (t.errorRead p).accepting = t.accepting ∧ (t.errorRead p).leaving = p :: t.leaving ∧
    (t.errorRead p).server.unused = t.server.unused := by
  rw [errorRead_eq hs]
  exact ⟨rfl, rfl, rfl, rfl⟩

theorem errorRead_self (hs : (t.u p).serverPtr = true) : (t.errorRead p).u p = { t.u p with reading := false } := by
  rw [errorRead_eq hs]
  exact (Function.update_apply ..).trans (if_pos rfl)

theorem errorRead_other (hs : (t.u p).serverPtr = true) (hq : q ≠ p) : (t.errorRead p).u q = t.u q := by
  rw [errorRead_eq hs]
  exact (Function.update_apply ..).trans (if_neg hq)

theorem errorRead_hashKey (hs : (t.u p).serverPtr = true) : ((t.errorRead p).u q).hashKey = (t.u q).hashKey := by
  by_cases hne : q = p
  · rw [hne, errorRead_self hs]
  · rw [errorRead_other hs hne]

theorem errorRead_files (hs : (t.u p).serverPtr = true) (s h : Int) : (t.errorRead p).files s = some (.connection h) ↔
    s ≠ (t.u p).userSock ∧ t.files s = some (.connection h) := by
  rw [errorRead_eq hs]
  show Function.update t.files _ none s = _ ↔ _
  rw [Function.update_apply]
  split <;> rename_i he
  · simp [he]
  · simp [he]

theorem found_errorRead (hs : (t.u p).serverPtr = true) {h : Int} (hf : Found (t.errorRead p) q h) : Found t q h := by
  rw [errorRead_eq hs] at hf
  exact hf

theorem Inv.open_errorRead (hi : Inv t) (hr : (t.u p).reading = true) :
    Open (t.errorRead p) q ↔ Open t q ∧ q ≠ p := by
  have hs := (hi.opened (.inl hr : Open t p)).2
  rw [Open, Open, (errorRead_frame hs).2.1]
  by_cases hne : q = p
  · rw [hne, errorRead_self hs]
    simp [hi.not_sets hr]
  · rw [errorRead_other hs hne]
    simp [hne]

theorem Inv.held_errorRead (hi : Inv t) (hr : (t.u p).reading = true) (hh : Held (t.errorRead p) q) : Held t q := by
  rcases hh with ho | hl
  · exact .inl (hi.open_errorRead hr |>.mp ho).1
  · rw [(errorRead_frame (hi.opened (.inl hr : Open t p)).2).2.2.1] at hl
    rcases List.mem_cons.mp hl with he | hl
    · exact .inl (.inl (he ▸ hr))
    · exact .inr hl

/-- The connection that is closed is that of the object. -/
theorem Inv.closed_errorRead (hi : Inv t) (hr : (t.u p).reading = true) {s h : Int}
    (hf : (t.errorRead p).files s = some (.connection h)) : h ≠ (t.u p).hashKey := fun he => by
  obtain ⟨hsock, hserver⟩ := hi.opened (.inl hr : Open t p)
  obtain ⟨hs, hf⟩ := (errorRead_files hserver s h).mp hf
  rw [he] at hf
  exact hs (hi.unique hf hsock)

/-- The last connection stays open while no object has its key. -/
theorem Inv.last_errorRead (hi : Inv t) (hr : (t.u p).reading = true) (ht : t.accepting.Taking) {s : Int}
    (hs : t.files s = some (.connection t.base)) :
    (t.errorRead p).files s = some (.connection (t.errorRead p).base) := by
  obtain ⟨hsock, hserver⟩ := hi.opened (.inl hr : Open t p)
  rw [(errorRead_frame hserver).1, errorRead_files hserver]
  refine ⟨fun he => ?_, hs⟩
  rw [he, hsock, Option.some_inj, File.connection.injEq] at hs
  have := (hi.held (.inl (.inl hr : Open t p))).2 ht
  omega

theorem Inv.errorRead_place (hi : Inv t) (hr : (t.u p).reading = true) : AtPlace (t.errorRead p) := by
  have hserver := (hi.opened (.inl hr : Open t p)).2
  obtain ⟨hbase, haccepting, -, -⟩ := errorRead_frame hserver
  have hne {q : UserPtr} (hf : (t.u q).reading = false) : q ≠ p := fun he => by
    rw [he, hr] at hf
    cases hf
  rw [AtPlace, haccepting]
  rcases ha : t.accepting with _ | ⟨s, uip, uport⟩ | ⟨q, s, uip, uport⟩ | q | q | q
  · trivial
  · exact hi.last_errorRead hr (ha ▸ trivial) (hi.at_accepted ha)
  · obtain ⟨hs, hreading⟩ := hi.at_got ha
    refine ⟨hi.last_errorRead hr (ha ▸ trivial) hs, ?_⟩
    rw [errorRead_other hserver (hne hreading)]
    exact hreading
  · obtain ⟨hkey, hreading⟩ := hi.at_set ha
    show ((t.errorRead p).u q).hashKey = (t.errorRead p).base ∧ ((t.errorRead p).u q).reading = false
    rw [errorRead_other hserver (hne hreading), hbase]
    exact ⟨hkey, hreading⟩
  · obtain ⟨hkey, hconn⟩ := hi.at_enabled ha
    refine ⟨fun hh => ?_, fun s hf => ?_⟩
    · rw [errorRead_hashKey hserver, hbase]
      exact hkey (hi.held_errorRead hr hh)
    · rw [hbase] at hf
      have ho := hconn s ((errorRead_files hserver s _).mp hf).2
      refine (hi.open_errorRead hr).mpr ⟨ho, fun he => ?_⟩
      exact hi.closed_errorRead hr hf (he ▸ hkey (.inl ho)).symm
  · trivial

theorem Inv.errorRead (hi : Inv t) (hr : (t.u p).reading = true) : Inv (t.errorRead p) := by
  obtain ⟨hsock, hserver⟩ := hi.opened (.inl hr : Open t p)
  have hq {q : UserPtr} (hq : q ≠ p) : (t.errorRead p).u q = t.u q := errorRead_other hserver hq
  have hkeys (q : UserPtr) : ((t.errorRead p).u q).hashKey = (t.u q).hashKey := errorRead_hashKey hserver
  obtain ⟨hbase, haccepting, hleaving, hunused⟩ := errorRead_frame hserver
  have hfile := errorRead_files hserver
  have hopen (q : UserPtr) : Open (t.errorRead p) q ↔ Open t q ∧ q ≠ p := hi.open_errorRead hr
  have hheld {q : UserPtr} (hh : Held (t.errorRead p) q) : Held t q := hi.held_errorRead hr hh
  refine ⟨fun {s h} hf => ?_, fun hf hf' => ?_, fun {q} ho => ?_, fun {q} hh => ?_, fun {q q'} hh hh' he => ?_,
    fun {h q} hf => ?_, fun {s h q} hf hc => ?_, fun {q} hu => ?_, ?_, fun {q} hl => ?_, hi.errorRead_place hr,
    fun {q} hq' => ?_⟩
  · rw [hbase]
    exact hi.file ((hfile s h).mp hf).2
  · exact hi.unique ((hfile _ _).mp hf).2 ((hfile _ _).mp hf').2
  · obtain ⟨ho, hne⟩ := (hopen q).mp ho
    obtain ⟨hf, hs⟩ := hi.opened ho
    rw [hq hne, hfile]
    refine ⟨⟨fun he => ?_, hf⟩, hs⟩
    rw [he, hsock, Option.some_inj, File.connection.injEq] at hf
    exact hne (hi.inj (.inl (.inl hr)) (.inl ho) hf).symm
  · rw [hkeys, hbase, haccepting]
    exact hi.held (hheld hh)
  · rw [hkeys, hkeys] at he
    exact hi.inj (hheld hh) (hheld hh') he
  · rw [hbase, haccepting]
    exact hi.foundKey (found_errorRead hserver hf)
  · obtain ⟨ho, hk⟩ := hi.found (found_errorRead hserver hf) ((hfile s h).mp hc).2
    rw [hopen, hkeys]
    exact ⟨⟨ho, fun he => hi.closed_errorRead hr hc (he ▸ hk).symm⟩, hk⟩
  · rw [hunused] at hu
    rw [haccepting]
    exact ⟨fun hh => (hi.pool hu).1 (hheld hh), (hi.pool hu).2⟩
  · rw [hunused, hleaving, List.nodup_cons]
    exact ⟨hi.nodup.1, fun hl => (hi.left hl).1 (.inl hr), hi.nodup.2⟩
  · rw [hleaving] at hl
    rw [hopen, haccepting]
    rcases List.mem_cons.mp hl with rfl | hl
    · exact ⟨fun ho => ho.2 rfl, hi.not_takes hr⟩
    · exact ⟨fun ho => (hi.left hl).1 ho.1, (hi.left hl).2⟩
  · have hne : q ≠ p := ((hopen q).mp (.inl hq')).2
    rw [hq hne] at hq'
    rw [haccepting, Registered, hq hne]
    have hsame := hi.registered hq'
    rw [errorRead_eq hserver]
    exact hsame

theorem releaseUserInfo_self : (t.releaseUserInfo p).u p = { (t.u p).clear with processor := false } :=
  (ServerListenner.giveBack_users p p).trans (if_pos rfl)

theorem releaseUserInfo_other (hq : q ≠ p) : (t.releaseUserInfo p).u q = t.u q :=
  (ServerListenner.giveBack_users p q).trans (if_neg hq)

theorem releaseUserInfo_unused : (t.releaseUserInfo p).server.unused = t.server.unused ∨
    (t.releaseUserInfo p).server.unused = t.server.unused ++ [p] :=
  UserResourceManager.put_unused

theorem open_releaseUserInfo : Open (t.releaseUserInfo p) q ↔ Open t q := by
  have hr : ((t.releaseUserInfo p).u q).reading = (t.u q).reading := by
    by_cases hne : q = p
    · rw [hne, releaseUserInfo_self]
      rfl
    · rw [releaseUserInfo_other hne]
  rw [Open, Open, hr]
  exact Iff.rfl

theorem found_releaseUserInfo {h : Int} (hf : Found (t.releaseUserInfo p) q h) : Found t q h := by
  refine hf.imp_left fun hu => ?_
  have hu : (t.server.giveBack p).user h = some q := hu
  rw [ServerListenner.giveBack_user] at hu
  split at hu
  · cases hu
  · exact hu

theorem Inv.held_releaseUserInfo (hi : Inv t) (hl : p ∈ t.leaving) (hh : Held (t.releaseUserInfo p) q) :
    Held t q ∧ q ≠ p := by
  rcases hh with ho | hm
  · exact ⟨.inl (open_releaseUserInfo.mp ho), fun he => (hi.left hl).1 (he ▸ open_releaseUserInfo.mp ho)⟩
  · have hm : q ∈ t.leaving.erase p := hm
    rw [List.Nodup.mem_erase_iff hi.nodup.2] at hm
    exact ⟨.inr hm.2, hm.1⟩

theorem Inv.releaseUserInfo_place (hi : Inv t) (hl : p ∈ t.leaving) : AtPlace (t.releaseUserInfo p) := by
  obtain ⟨hclosed, htakes⟩ := hi.left hl
  rw [AtPlace]
  show match t.accepting with | .accepted .. => _ | .got .. => _ | .set _ => _ | .enabled _ => _ | _ => _
  rcases ha : t.accepting with _ | ⟨s, uip, uport⟩ | ⟨q, s, uip, uport⟩ | q | q | q <;> rw [ha] at htakes
  · trivial
  · exact hi.at_accepted ha
  · obtain ⟨hs, hreading⟩ := hi.at_got ha
    refine ⟨hs, ?_⟩
    rw [releaseUserInfo_other htakes]
    exact hreading
  · have hne : q ≠ p := fun he => hclosed (.inr (by rw [ha]; exact he))
    show ((t.releaseUserInfo p).u q).hashKey = t.base ∧ ((t.releaseUserInfo p).u q).reading = false
    rw [releaseUserInfo_other hne]
    exact hi.at_set ha
  · obtain ⟨hkey, hconn⟩ := hi.at_enabled ha
    refine ⟨fun hh => ?_, fun s hf => open_releaseUserInfo.mpr (hconn s hf)⟩
    obtain ⟨hh, hne⟩ := hi.held_releaseUserInfo hl hh
    rw [releaseUserInfo_other hne]
    exact hkey hh
  · trivial

theorem Inv.releaseUserInfo (hi : Inv t) (hl : p ∈ t.leaving) : Inv (t.releaseUserInfo p) := by
  obtain ⟨hclosed, htakes⟩ := hi.left hl
  have hq {q : UserPtr} (hq : q ≠ p) : (t.releaseUserInfo p).u q = t.u q := releaseUserInfo_other hq
  have hopen {q : UserPtr} : Open (t.releaseUserInfo p) q ↔ Open t q := open_releaseUserInfo
  have hheld {q : UserPtr} (hh : Held (t.releaseUserInfo p) q) : Held t q ∧ q ≠ p := hi.held_releaseUserInfo hl hh
  have hunused := releaseUserInfo_unused (t := t) (p := p)
  have hnew : p ∉ t.server.unused := fun hu => (hi.pool hu).1 (.inr hl)
  refine ⟨hi.file, hi.unique, fun {q} ho => ?_, fun {q} hh => ?_, fun {q q'} hh hh' he => ?_,
    fun hf => hi.foundKey (found_releaseUserInfo hf), fun {s h q} hf hc => ?_, fun {q} hu => ?_, ?_,
    fun {q} hm => ?_, hi.releaseUserInfo_place hl, fun {q} hr => ?_⟩
  · have ho := hopen.mp ho
    rw [hq fun he => hclosed (he ▸ ho)]
    exact hi.opened ho
  · rw [hq (hheld hh).2]
    exact hi.held (hheld hh).1
  · rw [hq (hheld hh).2, hq (hheld hh').2] at he
    exact hi.inj (hheld hh).1 (hheld hh').1 he
  · obtain ⟨ho, hk⟩ := hi.found (found_releaseUserInfo hf) hc
    rw [hopen, hq fun he => hclosed (he ▸ ho)]
    exact ⟨ho, hk⟩
  · by_cases hne : q = p
    · rw [hne]
      exact ⟨fun hh => (hheld hh).2 rfl, htakes⟩
    · have hold : q ∈ t.server.unused := by
        rcases hunused with he | he <;> rw [he] at hu
        · exact hu
        · exact (List.mem_append.mp hu).resolve_right fun hm => hne (List.mem_singleton.mp hm)
      exact ⟨fun hh => (hi.pool hold).1 (hheld hh).1, (hi.pool hold).2⟩
  · refine ⟨?_, hi.nodup.2.erase p⟩
    rcases hunused with he | he <;> rw [he]
    · exact hi.nodup.1
    · exact List.nodup_append.mpr ⟨hi.nodup.1, List.nodup_singleton p, fun a ha b hb he => hnew (by
        rwa [he, List.mem_singleton.mp hb] at ha)⟩
  · have hm : q ∈ t.leaving := List.mem_of_mem_erase hm
    rw [hopen]
    exact hi.left hm
  · have ho : Open t q := hopen.mp (.inl hr)
    have hne : q ≠ p := fun he => hclosed (he ▸ ho)
    rw [hq hne] at hr
    rw [Registered, hq hne]
    refine (hi.registered hr).imp_right fun hreg => ⟨?_, hreg.2⟩
    have huser : (t.server.giveBack p).user (t.u q).hashKey =
        if (t.u p).hashKey = (t.u q).hashKey then none else t.server.user (t.u q).hashKey :=
      ServerListenner.giveBack_user ..
    rw [if_neg fun he => hne (hi.inj (.inr hl) (.inl ho) he).symm, hreg.1] at huser
    exact huser

/-! ## Steps -/

theorem Inv.acceptStep (hi : Inv t) (ha : t.accepting = .idle) {s uip uport : Int}
    (h : t.accept s uip uport = some t') : Inv t' := by
  rw [accept] at h
  split at h <;> rename_i hopen
  · cases h
  · split at h <;> rename_i hs
    · have hfree : t.files s = none := by
        rw [← Option.not_isSome_iff_eq_none]
        exact fun hf => hopen ⟨Int.le_of_lt hs, hf⟩
      rw [ServerListenner.nextHashKey] at h
      split at h
      · cases h
        exact hi.accepted ha hfree uip uport
      · cases h
    · split at h <;> rename_i hz
      · subst hz
        cases h
        refine hi.same ⟨rfl, rfl, fun _ => rfl, fun _ => rfl, fun s' h => ?_, rfl, rfl, fun _ _ => id, .inl rfl⟩
        have hfree : t.files 0 = none := by
          rw [← Option.not_isSome_iff_eq_none]
          exact fun hf => hopen ⟨Int.le_refl 0, hf⟩
        show Function.update t.files 0 _ s' = _ ↔ _
        rw [Function.update_apply]
        split <;> rename_i he
        · rw [he, hfree]
          simp
        · exact Iff.rfl
      · cases h
        exact hi

theorem Inv.acceptAction (hi : Inv t) (h : t.acceptAction = some t') : Inv t' := by
  rw [Connections.acceptAction] at h
  split at h <;> rename_i ha
  · cases h
  · rename_i s uip uport
    rcases hu : t.server.unused with _ | ⟨p, rest⟩
    · rw [ServerListenner.getUserInfo, UserResourceManager.get_nil hu] at h
      cases h
      refine hi.idle ?_
      rw [ha]
      exact fun _ => ⟨id, fun he => by cases he⟩
    · rw [ServerListenner.getUserInfo, UserResourceManager.get_cons hu] at h
      cases h
      exact hi.taken ha hu
  · obtain ⟨i, -, h⟩ := Option.bind_eq_some_iff.mp h
    cases h
    exact hi.infoSet i ha
  · cases h
    exact hi.readable ha
  · cases h
    exact hi.added ha
  · cases h
    refine hi.idle ?_
    rw [ha]
    exact fun _ => ⟨id, fun he => by cases he⟩

variable [DecidableEq ι]

theorem Inv.lookUp (hi : Inv t) (i : ι) (userHashkey : Int) : Inv (t.lookUp i userHashkey) := by
  have huser (j : Int) : (t.lookUp i userHashkey).server.user j = t.server.user j :=
    ServerListenner.getUserByHashkey_user ..
  refine hi.same ⟨rfl, rfl, fun _ => rfl, huser, fun _ _ => Iff.rfl, rfl, rfl, fun p h hf => ?_, .inl rfl⟩
  rcases hf with hf | ⟨j, hf⟩
  · rw [huser] at hf
    exact .inl hf
  · have hf : Function.update t.reader i ((t.server.user userHashkey).map (userHashkey, ·)) j = some (h, p) := hf
    rw [Function.update_apply] at hf
    split at hf
    · obtain ⟨q, hq, he⟩ := Option.map_eq_some_iff.mp hf
      cases he
      exact .inl hq
    · exact .inr ⟨j, hf⟩

theorem Inv.write (hi : Inv t) (i : ι) (userHashkey : Int) (tmpUser : UserPtr) :
    Inv (t.write i userHashkey tmpUser) := by
  refine hi.same ⟨rfl, rfl, fun _ => rfl, fun _ => rfl, fun _ _ => Iff.rfl, rfl, rfl, fun p h hf => ?_, .inl rfl⟩
  refine hf.imp_right fun ⟨j, hf⟩ => ⟨j, ?_⟩
  have hf : Function.update t.reader i none j = some (h, p) := hf
  rw [Function.update_apply] at hf
  split at hf
  · cases hf
  · exact hf

variable {x : ConnectionEvent ι}

theorem inv_step (hi : Inv t) (h : t.step x = some t') : Inv t' := by
  cases x with
  | accept tmpClientSock uip uport =>
    obtain ⟨ha, h⟩ := Option.ite_none_right_eq_some.mp h
    exact hi.acceptStep ha h
  | acceptAction => exact hi.acceptAction h
  | dealWithReadData tmpUser =>
    obtain ⟨-, h⟩ := Option.ite_none_right_eq_some.mp h
    cases h
    exact hi
  | errorRead tmpUser =>
    obtain ⟨hr, h⟩ := Option.ite_none_right_eq_some.mp h
    cases h
    exact hi.errorRead hr
  | releaseUserInfo tmpUser =>
    obtain ⟨hl, h⟩ := Option.ite_none_right_eq_some.mp h
    cases h
    exact hi.releaseUserInfo hl
  | readAction tmpUserHashKey =>
    cases h
    exact hi.same ⟨rfl, rfl, fun _ => rfl, fun _ => ServerListenner.getUserByHashkey_user .., fun _ _ => Iff.rfl, rfl,
      rfl, fun p h hf => hf.imp_left fun hu => (ServerListenner.getUserByHashkey_user ..).symm.trans hu, .inl rfl⟩
  | lookUp i userHashkey =>
    obtain ⟨-, h⟩ := Option.ite_none_right_eq_some.mp h
    cases h
    exact hi.lookUp i userHashkey
  | write i =>
    rw [step] at h
    split at h
    · cases h
    · cases h
      exact hi.write i _ _

end Connections

end Miku.Common
