import Mathlib.Algebra.Group.Nat.Defs
import MikuServer.Framework.Loop
import MikuServer.Impl.ServerListenner

/-!
# The registry of connections

What each function of the `UserInfoList`, the pool and the `ServerListenner`
does to the pointers that the maps have, and what holds between the maps, the
pool and the objects after any accepts, disconnects and lookups (`consistent_run`).
-/

namespace Miku.Common

/-! ## The functions -/

namespace UserResourceManager

variable {self : UserResourceManager} {p : UserPtr} {rest : List UserPtr}

theorem get_nil (h : self.unusedUserList = []) : self.get = (none, self) := by
  rw [get, h]

theorem get_cons (h : self.unusedUserList = p :: rest) :
    self.get = (some p, ⟨self.usingUserList.assign p (some p), rest⟩) := by
  rw [get, h]

theorem put_using {q : UserPtr} (h : self.usingUserList.ptr p = some q) :
    (self.put p).2 = ⟨(self.usingUserList.subscript p none).erase p, self.unusedUserList ++ [p]⟩ := by
  rw [put, h]

theorem put_unused : (self.put p).2.unusedUserList = self.unusedUserList ∨
    (self.put p).2.unusedUserList = self.unusedUserList ++ [p] := by
  rw [put]
  split
  · exact .inl rfl
  · exact .inr rfl

end UserResourceManager

namespace ServerListenner

variable (self : ServerListenner) (p q : UserPtr) (h j : Int) {rest : List UserPtr}

/-- The object that a key has. -/
def user (self : ServerListenner) (userHashkey : Int) : Option UserPtr := self.userInfoResource.userList.ptr userHashkey

/-- The objects that the pool has. -/
def unused (self : ServerListenner) : List UserPtr := self.userInfoResource.unusedUserList.unusedUserList

/-- An object that the pool has handed out. -/
def usingUser (self : ServerListenner) (p : UserPtr) : Option UserPtr :=
  self.userInfoResource.unusedUserList.usingUserList.ptr p

theorem setUser_users (f : UserInfoEx → UserInfoEx) :
    (self.setUser p f).users q = if q = p then f (self.users p) else self.users q :=
  Function.update_apply ..

@[simp] theorem getUserByHashkey_user : (self.getUserByHashkey h).2.user j = self.user j := StdMap.ptr_subscript ..

variable {self}

/-- `AddUserInfo` under a key that has no object. -/
theorem addUserInfo_new (hn : self.user h = none) :
    (self.addUserInfo h p).2 = { self.setUser p fun u =>
        { u with hashKey := h, server := true, processor := u.processor || decide (self.userInfoResource.of ≠ .gate) } with
      userInfoResource := { self.userInfoResource with
        userList := (self.userInfoResource.userList.subscript h none).assign h (some p) } } := by
  have hptr : self.userInfoResource.userList.ptr h = none := hn
  rw [addUserInfo, hptr]
  rfl

theorem addUserInfo_user (hn : self.user h = none) :
    (self.addUserInfo h p).2.user j = if h = j then some p else self.user j := by
  rw [addUserInfo_new p h hn]
  show ((self.userInfoResource.userList.subscript h none).assign h (some p)).ptr j = _
  rw [StdMap.ptr_assign, StdMap.ptr_subscript]
  rfl

theorem addUserInfo_users (hn : self.user h = none) :
    (self.addUserInfo h p).2.users q =
      if q = p then { self.users p with
        hashKey := h
        server := true
        processor := (self.users p).processor || decide (self.userInfoResource.of ≠ .gate) }
      else self.users q := by
  rw [addUserInfo_new p h hn]
  exact Function.update_apply ..

theorem giveBack_user : (self.giveBack p).user j = if (self.users p).hashKey = j then none else self.user j := by
  show (if (self.userInfoResource.userList.ptr (self.users p).hashKey).isSome then
    (self.userInfoResource.userList.subscript (self.users p).hashKey none).erase (self.users p).hashKey
    else self.userInfoResource.userList.subscript (self.users p).hashKey none).ptr j = _
  split <;> rename_i hs
  · rw [StdMap.ptr_erase, StdMap.ptr_subscript]
    rfl
  · rw [StdMap.ptr_subscript]
    split <;> rename_i hj
    · rw [← hj]
      exact Option.not_isSome_iff_eq_none.mp hs
    · rfl

theorem giveBack_users : (self.giveBack p).users q =
    if q = p then { (self.users p).clear with processor := false } else self.users q :=
  self.setUser_users p q fun u => { u.clear with processor := false }

/-- `ErrorRead` of an object with a `server_ptr`, up to `close`. -/
theorem leave_eq (hs : (self.users p).serverPtr = true) : self.leave p =
    { self.setUser p fun u => { u with reading := false } with
      usingUserMap := self.usingUserMap.erase (self.users p).hashKey } := by
  have hp : (self.setUser p fun u => { u with reading := false }).users p = { self.users p with reading := false } := by
    rw [setUser_users, if_pos rfl]
  rw [leave, hp, if_pos hs]
  rfl

theorem errorRead_eq (hs : (self.users p).serverPtr = true) : self.errorRead p = (self.leave p).giveBack p := by
  rw [errorRead, if_pos hs]

/-- `AcceptAction` with the object `p` of the pool. -/
def accepted (self : ServerListenner) (p : UserPtr) (rest : List UserPtr) (tmpClientSock uip uport : Int) :
    ServerListenner :=
  let u := self.users p
  { countWorker := self.countWorker
    baseHashKey := self.baseHashKey + 1
    usingUserMap := self.usingUserMap.assign (self.baseHashKey + 1) (some p)
    userInfoResource := {
      of := self.userInfoResource.of
      unusedUserList := ⟨self.userInfoResource.unusedUserList.usingUserList.assign p (some p), rest⟩
      userList := (self.userInfoResource.userList.subscript (self.baseHashKey + 1) none).assign (self.baseHashKey + 1)
        (some p) }
    users := Function.update self.users p {
      userSock := tmpClientSock
      hashKey := self.baseHashKey + 1
      userUip := uip
      userUport := uport
      serverPtr := true
      worker := some ((self.baseHashKey + 1 + self.countWorker - 1).tmod self.countWorker)
      reading := true
      server := true
      processor := u.processor || decide (self.userInfoResource.of ≠ .gate) } }

/-- The index of the worker of the next connection has a value. -/
def HasIndex (self : ServerListenner) : Prop :=
  self.baseHashKey + 1 + self.countWorker ≤ 2 ^ 31 - 1 ∧ self.countWorker ≠ 0

/-- `AcceptAction` with a descriptor and an object, up to the index. -/
theorem acceptAction_eq {tmpClientSock uip uport : Int} (hc : 0 < tmpClientSock)
    (hb : self.baseHashKey < 2 ^ 31 - 1) (hu : self.unused = p :: rest) (hn : self.user (self.baseHashKey + 1) = none) :
    self.acceptAction tmpClientSock uip uport =
      if self.baseHashKey + 1 + self.countWorker ≤ 2 ^ 31 - 1 ∧ self.countWorker ≠ 0 then
        some (some p, self.accepted p rest tmpClientSock uip uport)
      else none := by
  have hu' : self.userInfoResource.unusedUserList.unusedUserList = p :: rest := hu
  have hn' : self.userInfoResource.userList.ptr (self.baseHashKey + 1) = none := hn
  rw [acceptAction, if_pos hc, nextHashKey, if_pos hb]
  dsimp only [bind, Option.bind]
  rw [getUserInfo]
  dsimp only
  rw [UserResourceManager.get_cons hu']
  dsimp only
  rw [tmpIndex]
  dsimp only
  split_ifs
  · simp [setInfo, enable, register, addUserInfo, hn', setUser, accepted]
  · rfl

theorem acceptAction_cons {tmpClientSock uip uport : Int} (hc : 0 < tmpClientSock)
    (hb : self.baseHashKey < 2 ^ 31 - 1) (hi : self.HasIndex) (hu : self.unused = p :: rest)
    (hn : self.user (self.baseHashKey + 1) = none) :
    self.acceptAction tmpClientSock uip uport = some (some p, self.accepted p rest tmpClientSock uip uport) :=
  (acceptAction_eq p hc hb hu hn).trans (if_pos hi)

theorem acceptAction_overflow {tmpClientSock uip uport : Int} (hc : 0 < tmpClientSock)
    (hb : self.baseHashKey < 2 ^ 31 - 1) (hi : ¬ self.HasIndex) (hu : self.unused = p :: rest)
    (hn : self.user (self.baseHashKey + 1) = none) : self.acceptAction tmpClientSock uip uport = none :=
  (acceptAction_eq p hc hb hu hn).trans (if_neg hi)

theorem acceptAction_nil {tmpClientSock uip uport : Int} (hc : 0 < tmpClientSock)
    (hb : self.baseHashKey < 2 ^ 31 - 1) (hu : self.unused = []) :
    self.acceptAction tmpClientSock uip uport = some (none, { self with baseHashKey := self.baseHashKey + 1 }) := by
  have hu' : self.userInfoResource.unusedUserList.unusedUserList = [] := hu
  rw [acceptAction, if_pos hc, nextHashKey, if_pos hb]
  dsimp only [bind, Option.bind]
  rw [getUserInfo]
  dsimp only
  rw [UserResourceManager.get_nil hu']

end ServerListenner

/-! ## Accepts and disconnects -/

/-- The server, and the connections that are live: each with the key that it was given and the object
that was taken for it. -/
structure Registry where
  server : ServerListenner
  live : List (Int × UserPtr)

inductive RegistryCall
  | accept (tmpClientSock uip uport : Int)
  | errorRead (tmpUser : UserPtr)
  | getUserByHashkey (userHashkey : Int)

def RegistryCall.isAccept : RegistryCall → Bool
  | .accept .. => true
  | _ => false

namespace Registry

def start (of : Server) (countWorker : Int) (n : Nat) : Registry := ⟨.start of countWorker n, []⟩

def step (r : Registry) : RegistryCall → Option Registry
  | .accept tmpClientSock uip uport => do
    let (tmpUser, server) ← r.server.acceptAction tmpClientSock uip uport
    some ⟨server, (tmpUser.map (server.baseHashKey, ·)).toList ++ r.live⟩
  | .errorRead tmpUser => some ⟨r.server.errorRead tmpUser, r.live.filter (·.2 ≠ tmpUser)⟩
  | .getUserByHashkey userHashkey => some { r with server := (r.server.getUserByHashkey userHashkey).2 }

/-- `ErrorRead` comes for the user of a live connection. -/
def Valid (r : Registry) : RegistryCall → Prop
  | .errorRead tmpUser => tmpUser ∈ r.live.map Prod.snd
  | _ => True

/-- `k` keys have been given. -/
structure Inv (n k : Nat) (r : Registry) : Prop where
  base : r.server.baseHashKey = k
  user (h : Int) (p : UserPtr) : r.server.user h = some p ↔ (h, p) ∈ r.live
  same (h : Int) : r.server.user h = r.server.usingUserMap.ptr h
  live {h : Int} {p : UserPtr} : (h, p) ∈ r.live →
    h ≤ k ∧ (r.server.users p).hashKey = h ∧ (r.server.users p).serverPtr = true
  perm : (r.live.map Prod.snd ++ r.server.unused).Perm (List.range n)
  usingUser (p q : UserPtr) : r.server.usingUser p = some q ↔ p = q ∧ p ∈ r.live.map Prod.snd

variable {n k : Nat} {r r' : Registry} {of : Server}

theorem inv_start (of : Server) (countWorker : Int) (n : Nat) : Inv n 0 (start of countWorker n) where
  base := rfl
  user h p := by
    rw [ServerListenner.user, start, ServerListenner.start, StdMap.ptr_empty]
    simp
  same h := rfl
  live hl := absurd hl List.not_mem_nil
  perm := .refl _
  usingUser p q := by
    rw [ServerListenner.usingUser, start, ServerListenner.start, UserResourceManager.init, StdMap.ptr_empty]
    simp

/-- An object is the user of one live connection. -/
theorem Inv.nodup (hi : Inv n k r) : (r.live.map Prod.snd ++ r.server.unused).Nodup :=
  hi.perm.nodup_iff.mpr List.nodup_range

theorem Inv.getUserByHashkey (hi : Inv n k r) (h : Int) :
    Inv n k { r with server := (r.server.getUserByHashkey h).2 } where
  base := hi.base
  user j p := by
    rw [ServerListenner.getUserByHashkey_user]
    exact hi.user j p
  same j := by
    rw [ServerListenner.getUserByHashkey_user]
    exact hi.same j
  live := hi.live
  perm := hi.perm
  usingUser := hi.usingUser

/-- An object of the pool is not the user of a connection. -/
theorem Inv.not_unused (hi : Inv n k r) {p : UserPtr} (hu : p ∈ r.server.unused) : p ∉ r.live.map Prod.snd :=
  fun hp => (List.nodup_append.mp hi.nodup).2.2 p hp p hu rfl

/-- No other key has the object, and the key has no other object. -/
theorem Inv.live_ne (hi : Inv n k r) {h j : Int} {p q : UserPtr} (hl : (h, p) ∈ r.live) (hj : (j, q) ∈ r.live) :
    q ≠ p ↔ h ≠ j := by
  refine not_congr ⟨fun he => ?_, fun he => ?_⟩
  · rw [← (hi.live hl).2.1, ← (hi.live hj).2.1, he]
  · have h1 := (hi.user h p).mpr hl
    have h2 := (hi.user j q).mpr hj
    rw [he, h2] at h1
    exact Option.some.inj h1

/-- The objects of the connections that stay. -/
theorem Inv.map_filter (hi : Inv n k r) (p : UserPtr) :
    (r.live.filter (·.2 ≠ p)).map Prod.snd = (r.live.map Prod.snd).erase p := by
  rw [List.Nodup.erase_eq_filter (List.nodup_append.mp hi.nodup).1, List.filter_map]
  congr 2
  funext e
  by_cases he : e.2 = p <;> simp [he]

theorem Inv.errorRead (hi : Inv n k r) {h : Int} {p : UserPtr} (hl : (h, p) ∈ r.live) :
    Inv n k ⟨r.server.errorRead p, r.live.filter (·.2 ≠ p)⟩ := by
  obtain ⟨hk, hkey, hserver⟩ := hi.live hl
  have hp : p ∈ r.live.map Prod.snd := List.mem_map.mpr ⟨_, hl, rfl⟩
  have heq : r.server.errorRead p = { r.server.setUser p fun u => { u with reading := false } with
      usingUserMap := r.server.usingUserMap.erase h : ServerListenner }.giveBack p := by
    rw [ServerListenner.errorRead_eq p hserver, ServerListenner.leave_eq p hserver, hkey]
  have hkey' : ((r.server.setUser p fun u => { u with reading := false }).users p).hashKey = h := by
    rw [ServerListenner.setUser_users, if_pos rfl]
    exact hkey
  have hmem (j : Int) (q : UserPtr) : (j, q) ∈ r.live.filter (·.2 ≠ p) ↔ (j, q) ∈ r.live ∧ q ≠ p := by
    simp [List.mem_filter]
  have huser (j : Int) : (r.server.errorRead p).user j = if h = j then none else r.server.user j := by
    rw [heq, ServerListenner.giveBack_user]
    exact hkey' ▸ rfl
  have hunused : (r.server.errorRead p).userInfoResource.unusedUserList =
      ⟨(r.server.userInfoResource.unusedUserList.usingUserList.subscript p none).erase p, r.server.unused ++ [p]⟩ := by
    rw [heq]
    exact UserResourceManager.put_using ((hi.usingUser p p).mpr ⟨rfl, hp⟩)
  have hold := hi.map_filter p
  refine ⟨?_, fun j q => ?_, fun j => ?_, fun {j q} hj => ?_, ?_, fun q q' => ?_⟩
  · rw [heq]
    exact hi.base
  · rw [huser, hmem]
    split <;> rename_i hj
    · exact ⟨nofun, fun ⟨h1, h2⟩ => absurd hj ((hi.live_ne hl h1).mp h2)⟩
    · rw [hi.user]
      exact ⟨fun h1 => ⟨h1, (hi.live_ne hl h1).mpr hj⟩, And.left⟩
  · rw [huser, heq]
    show _ = (r.server.usingUserMap.erase h).ptr j
    rw [StdMap.ptr_erase, hi.same]
  · obtain ⟨hj, hq⟩ := (hmem j q).mp hj
    rw [heq, ServerListenner.giveBack_users, if_neg hq, ServerListenner.setUser_users, if_neg hq]
    exact hi.live hj
  · rw [hold, ServerListenner.unused, hunused]
    show ((r.live.map Prod.snd).erase p ++ (r.server.unused ++ [p])).Perm (List.range n)
    have hlast : ((r.live.map Prod.snd).erase p ++ r.server.unused ++ [p]).Perm
        (p :: ((r.live.map Prod.snd).erase p ++ r.server.unused)) := List.perm_append_singleton ..
    rw [← List.append_assoc]
    exact (hlast.trans ((List.perm_cons_erase hp).symm.append_right _)).trans hi.perm
  · rw [hold, ServerListenner.usingUser, hunused, List.Nodup.mem_erase_iff (List.nodup_append.mp hi.nodup).1]
    show ((r.server.userInfoResource.unusedUserList.usingUserList.subscript p none).erase p).ptr q = _ ↔ _
    rw [StdMap.ptr_erase, StdMap.ptr_subscript]
    simp only [Int.natCast_inj]
    split <;> rename_i hq
    · exact ⟨nofun, fun h' => absurd hq.symm h'.2.1⟩
    · rw [and_left_comm, and_iff_right (Ne.symm hq)]
      exact hi.usingUser q q'

theorem Inv.accept_nil (hi : Inv n k r) : Inv n (k + 1) { r with server.baseHashKey := r.server.baseHashKey + 1 } where
  base := by
    rw [hi.base]
    rfl
  user := hi.user
  same := hi.same
  live hl := ⟨Int.le_trans (hi.live hl).1 (by omega), (hi.live hl).2⟩
  perm := hi.perm
  usingUser := hi.usingUser

theorem Inv.accept_cons (hi : Inv n k r) {p : UserPtr} {rest : List UserPtr} (hu : r.server.unused = p :: rest)
    (tmpClientSock uip uport : Int) : Inv n (k + 1) ⟨r.server.accepted p rest tmpClientSock uip uport,
      (r.server.baseHashKey + 1, p) :: r.live⟩ := by
  have hbase : r.server.baseHashKey + 1 = (k + 1 : Nat) := by
    rw [hi.base]
    rfl
  have hfresh (q : UserPtr) : (r.server.baseHashKey + 1, q) ∉ r.live := fun hl => by
    have := (hi.live hl).1
    omega
  have hp : p ∉ r.live.map Prod.snd := hi.not_unused (hu ▸ List.mem_cons_self)
  refine ⟨hbase, fun h q => ?_, fun h => ?_, fun {h q} hl => ?_, ?_, fun q q' => ?_⟩
  · show ((r.server.userInfoResource.userList.subscript _ none).assign (r.server.baseHashKey + 1) (some p)).ptr h = _ ↔ _
    rw [StdMap.ptr_assign, StdMap.ptr_subscript, List.mem_cons, Prod.mk.injEq]
    split <;> rename_i he
    · rw [← he]
      simp [hfresh, eq_comm]
    · rw [iff_false_intro (fun h' => he h'.1.symm : ¬ (h = _ ∧ q = p)), false_or]
      exact hi.user h q
  · show ((r.server.userInfoResource.userList.subscript _ none).assign (r.server.baseHashKey + 1) (some p)).ptr h =
      (r.server.usingUserMap.assign (r.server.baseHashKey + 1) (some p)).ptr h
    rw [StdMap.ptr_assign, StdMap.ptr_assign, StdMap.ptr_subscript]
    split
    · rfl
    · exact hi.same h
  · rcases List.mem_cons.mp hl with he | hl
    · cases he
      simp [ServerListenner.accepted, hbase]
    · have hq : q ≠ p := fun he => hp (List.mem_map.mpr ⟨_, hl, he⟩)
      obtain ⟨h1, h2⟩ := hi.live hl
      refine ⟨by omega, ?_⟩
      simpa [ServerListenner.accepted, hq] using h2
  · have hperm := hi.perm
    rw [hu] at hperm
    exact List.perm_middle.symm.trans hperm
  · show (r.server.userInfoResource.unusedUserList.usingUserList.assign p (some p)).ptr q = _ ↔ _
    rw [StdMap.ptr_assign, List.map_cons, List.mem_cons]
    simp only [Int.natCast_inj]
    split <;> rename_i he
    · simp [he]
    · rw [iff_false_intro (Ne.symm he), false_or]
      exact hi.usingUser q q'

/-- The next key has no object. -/
theorem Inv.user_next (hi : Inv n k r) : r.server.user (r.server.baseHashKey + 1) = none := by
  rw [Option.eq_none_iff_forall_ne_some]
  intro q hq
  have hle := (hi.live ((hi.user ..).mp hq)).1
  rw [hi.base] at hle
  omega

/-- Where an object is taken, the index of its worker has a value. -/
def Indexed (r : Registry) : RegistryCall → Prop
  | .accept tmpClientSock _ _ => 0 < tmpClientSock → r.server.unused ≠ [] →
    r.server.baseHashKey + 1 + r.server.countWorker ≤ 2 ^ 31 - 1
  | _ => True

theorem Inv.accept (hi : Inv n k r) (hk : k + 1 < 2 ^ 31) (hw : 0 < r.server.countWorker) (tmpClientSock uip uport : Int) :
    (¬ Indexed r (.accept tmpClientSock uip uport) ∧ r.step (.accept tmpClientSock uip uport) = none) ∨
    Indexed r (.accept tmpClientSock uip uport) ∧ ∃ r' k', r.step (.accept tmpClientSock uip uport) = some r' ∧
      Inv n k' r' ∧ k' ≤ k + 1 ∧ r'.server.countWorker = r.server.countWorker := by
  by_cases hc : 0 < tmpClientSock
  · have hb : r.server.baseHashKey < 2 ^ 31 - 1 := by
      rw [hi.base]
      omega
    rcases hu : r.server.unused with _ | ⟨p, rest⟩
    · have hstep : r.server.acceptAction tmpClientSock uip uport = _ :=
        ServerListenner.acceptAction_nil hc hb hu
      refine .inr ⟨fun _ hne => absurd hu hne, _, k + 1, ?_, hi.accept_nil, Nat.le_refl _, rfl⟩
      rw [step, hstep]
      rfl
    · have hn : r.server.user (r.server.baseHashKey + 1) = none := hi.user_next
      by_cases hindex : r.server.HasIndex
      · have hstep : r.server.acceptAction tmpClientSock uip uport = _ :=
          ServerListenner.acceptAction_cons p hc hb hindex hu hn
        refine .inr ⟨fun _ _ => hindex.1, _, k + 1, ?_, hi.accept_cons hu tmpClientSock uip uport, Nat.le_refl _, rfl⟩
        rw [step, hstep]
        rfl
      · have hstep : r.server.acceptAction tmpClientSock uip uport = none :=
          ServerListenner.acceptAction_overflow p hc hb hindex hu hn
        refine .inl ⟨fun h => hindex ⟨h hc ?_, hw.ne'⟩, ?_⟩
        · rw [hu]
          exact List.cons_ne_nil p rest
        · rw [step, hstep]
          rfl
  · have hstep : r.server.acceptAction tmpClientSock uip uport = some (none, r.server) := by
      rw [ServerListenner.acceptAction, if_neg hc]
    refine .inr ⟨fun h => absurd h hc, r, k, ?_, hi, Nat.le_succ k, rfl⟩
    rw [step, hstep]
    rfl

/-! ## Runs -/

theorem Inv.step (hi : Inv n k r) {x : RegistryCall} (hk : k + (if x.isAccept then 1 else 0) < 2 ^ 31)
    (hw : 0 < r.server.countWorker) (hv : Valid r x) : (¬ Indexed r x ∧ r.step x = none) ∨
      Indexed r x ∧ ∃ r' k', r.step x = some r' ∧ Inv n k' r' ∧ k' ≤ k + (if x.isAccept then 1 else 0) ∧
        r'.server.countWorker = r.server.countWorker := by
  cases x with
  | accept tmpClientSock uip uport => exact hi.accept hk hw tmpClientSock uip uport
  | errorRead tmpUser =>
    obtain ⟨⟨h, p⟩, hl, rfl⟩ := List.mem_map.mp hv
    refine .inr ⟨trivial, _, k, rfl, hi.errorRead hl, Nat.le_refl k, ?_⟩
    rw [ServerListenner.errorRead_eq p (hi.live hl).2.2, ServerListenner.leave_eq p (hi.live hl).2.2]
    rfl
  | getUserByHashkey userHashkey =>
    exact .inr ⟨trivial, _, k, rfl, hi.getUserByHashkey userHashkey, Nat.le_refl k, rfl⟩

end Registry

end Miku.Common
