import Mathlib.Algebra.Order.Group.Multiset
import MikuServer.Impl.RoomThreads
import MikuServer.Proof.Records

/-!
# Owners of the records of a room

A record is unused, or of a user in the room, or of one whose login is pending,
or a thread has it (`hand`). `turn_exchanges` says that a turn moves a record
from one of these to another, if the record that `RemoveUser` erases is the one
that it found (`StillThere`); then no record is ever in two of them
(`ownedOnce_run`). Two threads that remove one user both give its record back
(`bothRemoved`).
-/

namespace Miku.RoomServer

open Act UserInfoList ChatRoom

namespace UserInfoList

/-- The records in a list, unused or of a user. -/
def allRecords (l : UserInfoList) : Multiset Ptr :=
  (l.unusedUserInfoList : Multiset Ptr) + (l.userInfoList.ptrs : Multiset Ptr)

variable {l : UserInfoList} {u : Int} {p : Ptr}

theorem autoLock_unlocked {α : Type} {f : UserInfoList → Outcome UserInfoList α} (h : l.locked = false) :
    autoLock f l = f l := by
  rw [autoLock, h]
  rfl

theorem allRecords_lookedUp (l : UserInfoList) (u : Int) : (lookedUp l u).allRecords = l.allRecords := by
  have hperm : (lookedUp l u).userInfoList.ptrs.Perm l.userInfoList.ptrs := StdMap.ptrs_perm fun v => lookedUp_ptr l u v
  show (l.unusedUserInfoList : Multiset Ptr) + _ = _
  rw [Multiset.coe_eq_coe.mpr hperm]
  rfl

theorem allRecords_pushed (l : UserInfoList) (p : Ptr) :
    { l with unusedUserInfoList := l.unusedUserInfoList ++ [p] }.allRecords = p ::ₘ l.allRecords := by
  show ((l.unusedUserInfoList ++ [p] : List Ptr) : Multiset Ptr) + _ = _
  rw [Multiset.coe_eq_coe.mpr (List.perm_append_singleton p l.unusedUserInfoList), ← Multiset.cons_coe, Multiset.cons_add]
  rfl

theorem allRecords_erased (h : l.userInfoList.ptr u = some p) :
    l.allRecords = p ::ₘ { l with userInfoList := l.userInfoList.erase u }.allRecords := by
  show _ + _ = p ::ₘ (_ + _)
  rw [coe_ptrs_erase h, Multiset.add_cons]

theorem allRecords_added (l : UserInfoList) (u : Int) (p : Ptr) :
    { l with userInfoList := added l.userInfoList u p }.allRecords ≤ p ::ₘ l.allRecords := by
  rcases h : l.userInfoList.ptr u with _ | q
  · show _ + ((added l.userInfoList u p).ptrs : Multiset Ptr) ≤ p ::ₘ (_ + _)
    rw [coe_ptrs_added h, Multiset.add_cons]
  · rw [added_of_isSome (h ▸ rfl)]
    exact Multiset.le_cons_self _ _

end UserInfoList

namespace ChatRoom

/-- A list of a room. -/
def list (room : ChatRoom) : ListName → UserInfoList
  | .userList => room.userList
  | .preUserList => room.preUserList

def setList (room : ChatRoom) (n : ListName) (l : UserInfoList) : ChatRoom :=
  match n with
  | .userList => { room with userList := l }
  | .preUserList => { room with preUserList := l }

variable {room : ChatRoom} {u : Int} {p : Ptr} {n : ListName}

@[simp] theorem list_setList (room : ChatRoom) (n : ListName) (l : UserInfoList) : (room.setList n l).list n = l := by
  cases n <;> rfl

@[simp] theorem setList_list (room : ChatRoom) (n : ListName) : room.setList n (room.list n) = room := by
  cases n <;> rfl

@[simp] theorem setList_setList (room : ChatRoom) (n : ListName) (l l' : UserInfoList) :
    (room.setList n l).setList n l' = room.setList n l' := by
  cases n <;> rfl

theorem onList_done {α : Type} {x : Act UserInfoList α} {a : α} {l : UserInfoList} (h : x (room.list n) = .done a l) :
    onList n x room = .done a (room.setList n l) := by
  cases n <;> simp only [list] at h
  · simp only [onList, onUserList, zoom, h, setList]
  · simp only [onList, onPreUserList, zoom, h, setList]

theorem wp_onList {α : Type} {x : Act UserInfoList α} {Q : α → ChatRoom → Prop} {B : ChatRoom → Prop} {F : Prop} :
    wp (onList n x) Q B F room ↔
      wp x (fun a l => Q a (room.setList n l)) (fun l => B (room.setList n l)) F (room.list n) := by
  cases n
  · exact wp_onUserList
  · exact wp_onPreUserList

/-- The records of a room, unused or of a user that is in the room or pending. -/
def allRecords (room : ChatRoom) : Multiset Ptr := room.userList.allRecords + room.preUserList.allRecords

theorem removeFrom_done (hl : (room.list n).locked = false) (hp : (room.list n).userInfoList.ptr u = some p) :
    removeFrom n u room = .done () (room.setList n (released (room.list n) u p)) := by
  cases n <;> simp only [list] at hl hp
  · have hwp : wp (removeUser u) (fun _ room' => room' = room.setList .userList (released room.userList u p))
        (fun _ => False) False room := by
      rw [wp_removeUser, hl, hp]
      exact rfl
    obtain ⟨_, h, rfl⟩ := wp_total_unit.mp hwp
    exact h
  · have hwp : wp (removePreUser u) (fun _ room' => room' = room.setList .preUserList (released room.preUserList u p))
        (fun _ => False) False room := by
      rw [wp_removePreUser, hl, hp]
      exact rfl
    obtain ⟨_, h, rfl⟩ := wp_total_unit.mp hwp
    exact h

theorem allRecords_took {rest : List Ptr} (h : room.userList.unusedUserInfoList = p :: rest) :
    room.allRecords = p ::ₘ (room.took p rest).allRecords := by
  show (room.userList.unusedUserInfoList : Multiset Ptr) + _ + _ = p ::ₘ ((rest : Multiset Ptr) + _ + _)
  rw [h, ← Multiset.cons_coe, Multiset.cons_add, Multiset.cons_add]
  rfl

theorem allRecords_setList (room : ChatRoom) (n : ListName) (l : UserInfoList) :
    (room.setList n l).allRecords + (room.list n).allRecords = room.allRecords + l.allRecords := by
  cases n
  · show l.allRecords + room.preUserList.allRecords + room.userList.allRecords = _
    unfold allRecords
    rw [add_right_comm, add_comm l.allRecords, add_right_comm]
  · show room.userList.allRecords + l.allRecords + room.preUserList.allRecords = _
    unfold allRecords
    rw [add_right_comm]

/-- A new value of one list, of which the records are known. -/
theorem allRecords_setList_add {l : UserInfoList} {taken given : Multiset Ptr}
    (h : l.allRecords + taken ≤ (room.list n).allRecords + given) :
    (room.setList n l).allRecords + taken ≤ room.allRecords + given := by
  have hsum := allRecords_setList room n l
  refine le_of_add_le_add_right (a := (room.list n).allRecords) ?_
  calc (room.setList n l).allRecords + taken + (room.list n).allRecords
      = room.allRecords + (l.allRecords + taken) := by rw [add_right_comm, hsum, add_assoc]
    _ ≤ room.allRecords + ((room.list n).allRecords + given) := add_le_add_right h _
    _ = room.allRecords + given + (room.list n).allRecords := by rw [add_comm (room.list n).allRecords, add_assoc]

theorem wp_addTo {Q : Bool → ChatRoom → Prop} {B : ChatRoom → Prop} {F : Prop} :
    wp (addTo n u (some p)) Q B F room ↔ if (room.list n).locked then B room else
      Q ((room.list n).userInfoList.ptr u).isNone
        (room.setList n { room.list n with userInfoList := added (room.list n).userInfoList u p }) := by
  cases n
  · exact wp_addUser
  · exact wp_addPreUser

end ChatRoom

namespace RoomThread

/-- The records that a thread has: those it took, and the one it has erased. -/
def hand (t : RoomThread) : Multiset Ptr :=
  match t.removal with
  | .erased _ tmpUser => tmpUser ::ₘ (t.taken : Multiset Ptr)
  | _ => (t.taken : Multiset Ptr)

/-- The list, the user and the record of a removal that is about to erase. -/
def erases (t : RoomThread) : RoomCall → Option (ListName × Int × Ptr)
  | .next =>
    match t.removal with
    | .found list userId tmpUser => some (list, userId, tmpUser)
    | _ => none
  | _ => none

/-- The user that a removal is about to erase still has the record that it found. -/
def StillThere (t : RoomThread) (room : ChatRoom) (call : RoomCall) : Prop :=
  ∀ e ∈ t.erases call, (room.list e.1).userInfoList.ptr e.2.1 = some e.2.2

instance (t : RoomThread) (room : ChatRoom) (call : RoomCall) : Decidable (t.StillThere room call) :=
  inferInstanceAs (Decidable (∀ e ∈ t.erases call, (room.list e.1).userInfoList.ptr e.2.1 = some e.2.2))

/-- The room and the thread have no more after a turn than before. -/
def Exchanges (t : RoomThread) (room : ChatRoom) (x : Act ChatRoom RoomThread) : Prop :=
  wp x (fun t' room' => room'.allRecords + t'.hand ≤ room.allRecords + t.hand) (fun _ => True) True room

variable {t : RoomThread} {room : ChatRoom} {list : ListName} {u : Int} {p : Ptr}

theorem hand_of_none (hr : t.removal = .none) : t.hand = (t.taken : Multiset Ptr) := by rw [hand, hr]

theorem hand_of_found (hr : t.removal = .found list u p) : t.hand = (t.taken : Multiset Ptr) := by rw [hand, hr]

theorem hand_of_erased (hr : t.removal = .erased list p) : t.hand = p ::ₘ (t.taken : Multiset Ptr) := by rw [hand, hr]

theorem newUserInfo_exchanges (hr : t.removal = .none) :
    t.Exchanges room (do
      match ← newUserInfo with
      | none => pure t
      | some user => pure { t with taken := user :: t.taken }) := by
  rw [Exchanges, wp_bind, wp_newUserInfo]
  split
  · trivial
  rcases hf : room.userList.unusedUserInfoList with _ | ⟨p, rest⟩
  · trivial
  have hnew : hand { t with taken := p :: t.taken } = p ::ₘ t.hand := by
    rw [hand_of_none hr, hand_of_none (t := { t with taken := p :: t.taken }) hr, ← Multiset.cons_coe]
  show (room.took p rest).allRecords + hand { t with taken := p :: t.taken } ≤ _
  rw [hnew, allRecords_took hf, Multiset.add_cons, Multiset.cons_add]

theorem add_exchanges (hr : t.removal = .none) (hp : p ∈ t.taken) :
    t.Exchanges room (do
      let _ ← addTo list u (some p)
      pure { t with taken := t.taken.erase p }) := by
  rw [Exchanges, wp_bind, wp_addTo]
  split
  · trivial
  have hold : t.hand = p ::ₘ hand { t with taken := t.taken.erase p } := by
    rw [hand_of_none hr, hand_of_none (t := { t with taken := t.taken.erase p }) hr, Multiset.cons_coe]
    exact Multiset.coe_eq_coe.mpr (List.perm_cons_erase hp)
  apply allRecords_setList_add
  rw [hold, Multiset.add_cons, ← Multiset.cons_add]
  exact Multiset.add_le_add_right (allRecords_added (room.list list) u p)

theorem find_exchanges (hr : t.removal = .none) :
    t.Exchanges room (do
      match ← onList list (UserInfoList.getUserInfo u) with
      | none => pure t
      | some tmpUser => pure { t with removal := .found list u tmpUser }) := by
  rw [Exchanges, wp_bind, wp_onList, UserInfoList.wp_getUserInfo]
  split
  · trivial
  have hsame : (lookedUp (room.list list) u).allRecords = (room.list list).allRecords := allRecords_lookedUp ..
  rcases (room.list list).userInfoList.ptr u with _ | p
  · apply allRecords_setList_add
    exact le_of_eq (congrArg (· + _) hsame)
  · apply allRecords_setList_add
    rw [hand_of_none hr]
    exact le_of_eq (congrArg (· + _) hsame)

theorem erase_exchanges (hr : t.removal = .found list u p) (hp : (room.list list).userInfoList.ptr u = some p) :
    t.Exchanges room (do
      onList list (UserInfoList.removeUser u)
      pure { t with removal := .erased list p }) := by
  rw [Exchanges, wp_bind, wp_onList, UserInfoList.wp_removeUser]
  split
  · trivial
  apply allRecords_setList_add
  rw [hand_of_found hr, allRecords_erased hp, Multiset.cons_add, ← Multiset.add_cons]
  exact le_refl _

theorem push_exchanges (hr : t.removal = .erased list p) :
    t.Exchanges room (do
      let _ ← onList list (pushUserInUnusedList p)
      pure { t with removal := .none }) := by
  rw [Exchanges, wp_bind, wp_onList, UserInfoList.wp_pushUserInUnusedList]
  split
  · trivial
  apply allRecords_setList_add
  rw [hand_of_erased hr, allRecords_pushed, Multiset.cons_add, ← Multiset.add_cons]
  exact le_refl _

theorem turn_exchanges {x : Act ChatRoom RoomThread} {call : RoomCall} (hx : t.turn call = some x)
    (hc : t.StillThere room call) : t.Exchanges room x := by
  unfold turn at hx
  split at hx <;> rename_i hr
  · cases hx
    exact newUserInfo_exchanges hr
  · split at hx <;> rename_i hp
    · cases hx
      exact add_exchanges hr hp
    · cases hx
  · cases hx
    exact find_exchanges hr
  · cases hx
    exact erase_exchanges hr (hc (_, _, _) (by rw [erases, hr]; rfl))
  · cases hx
    exact push_exchanges hr
  · cases hx

end RoomThread

/-! ## Runs -/

/-- No record is twice among the unused ones and those of the users in the room and pending,
and `NewUserInfo` does not hand out the record of a user in the room. -/
structure OwnedOnce (room : ChatRoom) : Prop where
  nodup : room.allRecords.Nodup
  handsOut {p : Ptr} {room' : ChatRoom} : newUserInfo room = .done (some p) room' →
    ∀ u, room.userList.userInfoList.ptr u ≠ some p

theorem unused_of_newUserInfo {room room' : ChatRoom} {p : Ptr} (h : newUserInfo room = .done (some p) room') :
    ∃ rest, room.userList.unusedUserInfoList = p :: rest := by
  have hwp : wp newUserInfo (fun q _ => q = some p) (fun _ => False) False room := (wp_done h).mpr rfl
  rw [wp_newUserInfo] at hwp
  split at hwp
  · exact hwp.elim
  rcases hf : room.userList.unusedUserInfoList with _ | ⟨q, rest⟩ <;> rw [hf] at hwp
  · exact hwp.elim
  · cases hwp
    exact ⟨rest, rfl⟩

theorem ownedOnce_of_nodup {room : ChatRoom} (h : room.allRecords.Nodup) : OwnedOnce room := by
  refine ⟨h, fun {p room'} hnew u hu => ?_⟩
  obtain ⟨rest, hf⟩ := unused_of_newUserInfo hnew
  have hdis := (Multiset.nodup_add.mp (Multiset.nodup_add.mp h).1).2.2
  rw [hf] at hdis
  exact Multiset.disjoint_left.mp hdis List.mem_cons_self (Multiset.mem_coe.mpr (StdMap.mem_ptrs.mpr ⟨u, hu⟩))

theorem allRecords_initUserList (first count : Nat) :
    (initUserList first count).allRecords = (List.range' first count : List Ptr) := by
  show _ + ((StdMap.empty : StdMap (Option Ptr)).ptrs : Multiset Ptr) = _
  rw [Server.ptrs_empty]
  exact Multiset.add_zero _

theorem nodup_allRecords_new : (ChatRoom.new).allRecords.Nodup := by
  show ((initUserList 0 100000).allRecords + (initUserList 100000 1000).allRecords).Nodup
  rw [allRecords_initUserList, allRecords_initUserList]
  refine Multiset.nodup_add.mpr ⟨List.nodup_range', List.nodup_range', Multiset.disjoint_left.mpr fun hp hq => ?_⟩
  have hlt := (List.mem_range'_1.mp hp).2
  have hle := (List.mem_range'_1.mp hq).1
  exact Nat.lt_irrefl _ (Nat.lt_of_lt_of_le hlt hle)

namespace RoomThreads

open RoomThread

variable {ι : Type} {s s' t : RoomThreads ι} {i j : ι} {n : ListName} {u : Int} {p : Ptr}

/-- Each record has at most one owner. -/
def Inv (s : RoomThreads ι) : Prop := Owned s.shared.allRecords fun i => (s.thread i).hand

theorem inv_start : Inv (start : RoomThreads ι) := owned_start nodup_allRecords_new

variable [DecidableEq ι]

theorem inv_step (h : Inv s) {call : RoomCall} (hc : (s.thread i).StillThere s.shared call)
    (hs : s.step (i, call) = some s') : Inv s' := by
  refine Threads.step_inv hs fun x hx => wp_mono (turn_exchanges hx hc) (fun t' room' hle => ?_) fun _ h => h
  have hupdate : (fun j => (Function.update s.thread i t' j).hand) =
      Function.update (fun j => (s.thread j).hand) i t'.hand :=
    funext fun j => Function.apply_update (fun _ => hand) s.thread i t' j
  show Owned room'.allRecords _
  rw [hupdate]
  exact h.step hle

/-- No record has two owners in a run in which each removal erases the record it found. -/
theorem ownedOnce_run {es : List (ι × RoomCall)} (ht : run start es = some t)
    (h : ∀ x ∈ runSteps step start es, (x.1.thread x.2.1).StillThere x.1.shared x.2.2) : OwnedOnce t.shared := by
  have hinv : Inv t := foldlM_inv_of_steps (fun _ _ _ hi hc hs => inv_step hi hc hs) inv_start h ht
  exact ownedOnce_of_nodup hinv.pool_nodup

/-- Two threads, each of which brings a user into the room and removes the user, at the same time. -/
def twoThreads : List (Nat × RoomCall) :=
  [(0, .newUserInfo), (1, .newUserInfo), (1, .add .userList 2 1), (0, .add .userList 1 0), (0, .remove .userList 1),
    (1, .remove .userList 2), (1, .next), (0, .next), (0, .next), (1, .next)]

theorem ownedOnce_run_twoThreads : ∃ t, run (start : RoomThreads Nat) twoThreads = some t ∧ OwnedOnce t.shared := by
  have hrun : (run (start : RoomThreads Nat) twoThreads).isSome := by decide +kernel
  obtain ⟨t, ht⟩ := Option.isSome_iff_exists.mp hrun
  exact ⟨t, ht, ownedOnce_run ht (by decide +kernel)⟩

/-! ## A removal -/

/-- A turn of the thread `i` in a removal. -/
def after (s : RoomThreads ι) (i : ι) (removal : Removal) (room : ChatRoom) : RoomThreads ι :=
  ⟨room, Function.update s.thread i { s.thread i with removal := removal }⟩

variable {r r' : Removal} {room room' : ChatRoom}

@[simp] theorem after_shared : (s.after i r room).shared = room := rfl

@[simp] theorem after_removal : ((s.after i r room).thread i).removal = r := by simp [after]

@[simp] theorem after_other (h : j ≠ i) : (s.after i r room).thread j = s.thread j := Function.update_of_ne h ..

theorem after_after : (s.after i r room).after i r' room' = s.after i r' room' := by simp [after]

theorem after_of_removal (h : (s.thread i).removal = r) : s.after i r room = ⟨room, s.thread⟩ := by simp [after, ← h]

theorem step_find (hr : (s.thread i).removal = .none) (hl : (s.shared.list n).locked = false)
    (hp : (s.shared.list n).userInfoList.ptr u = some p) :
    s.step (i, .remove n u) = some (s.after i (.found n u p) s.shared) := by
  have hfind : onList n (UserInfoList.getUserInfo u) s.shared = .done (some p) s.shared := by
    refine (onList_done ?_).trans (by rw [setList_list])
    rw [UserInfoList.getUserInfo, autoLock_unlocked hl, hp, StdMap.subscript_of_ptr hp]
  refine Threads.step_of_done (by simp only [turn, hr]; rfl) ?_
  rw [bind_done hfind]
  rfl

theorem step_erase (hr : (s.thread i).removal = .found n u p) (hl : (s.shared.list n).locked = false) :
    s.step (i, .next) = some (s.after i (.erased n p) (s.shared.setList n { s.shared.list n with
      userInfoList := (s.shared.list n).userInfoList.erase u })) := by
  refine Threads.step_of_done (by simp only [turn, hr]; rfl) ?_
  exact bind_done (onList_done (autoLock_unlocked hl))

theorem step_push (hr : (s.thread i).removal = .erased n p) (hl : (s.shared.list n).locked = false) :
    s.step (i, .next) = some (s.after i .none (s.shared.setList n { s.shared.list n with
      unusedUserInfoList := (s.shared.list n).unusedUserInfoList ++ [p] })) := by
  refine Threads.step_of_done (by simp only [turn, hr]; rfl) ?_
  exact bind_done (onList_done (autoLock_unlocked hl))

theorem run_cons {e : ι × RoomCall} (h : s.step e = some s') (es : List (ι × RoomCall)) :
    run s (e :: es) = run s' es := by
  show (s.step e).bind _ = _
  rw [h]
  rfl

theorem run_append {es : List (ι × RoomCall)} (h : run s es = some t) (es' : List (ι × RoomCall)) :
    run s (es ++ es') = run t es' := by
  unfold run at h ⊢
  rw [List.foldlM_append, h]
  rfl

theorem run_erase_push (hr : (s.thread i).removal = .found n u p) (hl : (s.shared.list n).locked = false) :
    run s [(i, .next), (i, .next)] =
      some (s.after i .none (s.shared.setList n (released (s.shared.list n) u p))) := by
  rw [run_cons (step_erase hr hl), run_cons (step_push after_removal (by simp [hl])), after_after]
  simp [released, run]

/-- A thread that nobody interrupts does what `RemoveUser` does. -/
theorem removeFrom_steps (hr : (s.thread i).removal = .none) (hl : (s.shared.list n).locked = false)
    (hp : (s.shared.list n).userInfoList.ptr u = some p) :
    ∃ room, removeFrom n u s.shared = .done () room ∧
      run s [(i, .remove n u), (i, .next), (i, .next)] = some ⟨room, s.thread⟩ := by
  refine ⟨_, removeFrom_done hl hp, ?_⟩
  rw [run_cons (step_find hr hl hp), run_erase_push after_removal hl, after_after, after_of_removal hr]
  rfl

/-- Two threads that remove one user, the second one before the first one has erased it. -/
def bothRemove (i j : ι) (n : ListName) (u : Int) : List (ι × RoomCall) :=
  [(i, .remove n u), (j, .remove n u), (i, .next), (i, .next), (j, .next), (j, .next)]

/-- The record is given back twice. -/
theorem run_bothRemove (hij : i ≠ j) (hi : (s.thread i).removal = .none) (hj : (s.thread j).removal = .none)
    (hl : (s.shared.list n).locked = false) (hp : (s.shared.list n).userInfoList.ptr u = some p) :
    ∃ t, run s (bothRemove i j n u) = some t ∧
      (t.shared.list n).unusedUserInfoList = (s.shared.list n).unusedUserInfoList ++ [p] ++ [p] := by
  have hji := Ne.symm hij
  let s₁ := s.after i (.found n u p) s.shared
  let s₂ := s₁.after j (.found n u p) s.shared
  let s₃ := s₂.after i .none (s.shared.setList n (released (s.shared.list n) u p))
  have h1 : s.step (i, .remove n u) = some s₁ := step_find hi hl hp
  have h2 : s₁.step (j, .remove n u) = some s₂ := step_find (by rw [after_other hji, hj]) hl hp
  have h3 : run s₂ [(i, .next), (i, .next)] = some s₃ := run_erase_push (by rw [after_other hij, after_removal]) hl
  have h4 := run_erase_push (i := j) (n := n) (u := u) (p := p) (s := s₃)
    (by rw [after_other hji, after_removal]) (by simp [s₃, released, hl])
  refine ⟨s₃.after j .none (s₃.shared.setList n (released (s₃.shared.list n) u p)), ?_, by simp [s₃, released]⟩
  rw [bothRemove, run_cons h1, run_cons h2]
  exact (run_append h3 _).trans h4

theorem not_ownedOnce_of_twice {room : ChatRoom} {l : List Ptr}
    (h : (room.list n).unusedUserInfoList = l ++ [p] ++ [p]) : ¬ OwnedOnce room := by
  intro ho
  have hn : (room.list n).allRecords.Nodup := by
    cases n
    · exact (Multiset.nodup_add.mp ho.nodup).1
    · exact (Multiset.nodup_add.mp ho.nodup).2.1
  have hl := (Multiset.nodup_add.mp hn).1
  rw [h, Multiset.coe_nodup] at hl
  simp [List.nodup_append] at hl

/-- The user 1 comes into the room by the thread 0, and the threads 0 and 1 remove it. -/
theorem not_ownedOnce_bothRemove : ∃ es t, run (start : RoomThreads Nat) es = some t ∧ ¬ OwnedOnce t.shared := by
  have hin : ∃ s, s ∈ run (start : RoomThreads Nat) [(0, .newUserInfo), (0, .add .userList 1 0)] ∧
      (s.thread 0).removal = .none ∧ (s.thread 1).removal = .none ∧ s.shared.userList.locked = false ∧
      s.shared.userList.userInfoList.ptr 1 = some 0 := by
    decide +kernel
  obtain ⟨s, hs, hi, hj, hl, hp⟩ := hin
  obtain ⟨t, ht, htwice⟩ := run_bothRemove (n := .userList) (by decide) hi hj hl hp
  exact ⟨[(0, .newUserInfo), (0, .add .userList 1 0)] ++ bothRemove 0 1 .userList 1, t,
    (run_append hs _).trans ht, not_ownedOnce_of_twice htwice⟩

end RoomThreads

end Miku.RoomServer
