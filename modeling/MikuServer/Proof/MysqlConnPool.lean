import Mathlib.Data.List.Nodup
import Mathlib.Data.List.Perm.Basic
import MikuServer.Framework.Loop
import MikuServer.Impl.MysqlConnPool

/-!
# The accounts of the database pool

After any calls in which what is released had been checked out, `cur_size_` is
the number of connections that are idle or checked out, and these and the
deleted ones are all different (`Accounted`).
-/

namespace Miku.Common.MysqlConnPool

/-! ## What each branch does -/

theorem Driver.createConnection_fails (driver : Driver) {connect : Connect} (hc : connect ≠ .ok) :
    ∃ made, driver.made ≤ made ∧
      driver.createConnection connect = (none, ⟨made, driver.deleted, driver.failures + 1⟩) := by
  cases connect with
  | noConnect => exact ⟨driver.made, Nat.le_refl _, rfl⟩
  | noSchema => exact ⟨driver.made + 1, Nat.le_succ _, rfl⟩
  | ok => exact absurd rfl hc

section

variable {self : MysqlConnPool} {driver : Driver} {isClosed : Bool} {connect : Connect} {conn : Conn} {rest : List Conn}

theorem getConnection_idle (h : self.sqlConnList = conn :: rest) :
    self.getConnection driver false connect = (some conn, { self with sqlConnList := rest }, driver) := by
  simp [getConnection, h]

theorem getConnection_replaced (h : self.sqlConnList = conn :: rest) :
    self.getConnection driver true .ok = (some driver.made, { self with sqlConnList := rest },
      { driver with made := driver.made + 1, deleted := conn :: driver.deleted }) := by
  simp [getConnection, h, Driver.createConnection, Driver.delete]

theorem getConnection_lost (h : self.sqlConnList = conn :: rest) (hc : connect ≠ .ok) :
    self.getConnection driver true connect = (none, { self with sqlConnList := rest, curSize := self.curSize - 1 },
      ((driver.delete conn).createConnection connect).2) := by
  obtain ⟨made, -, he⟩ := Driver.createConnection_fails (driver.delete conn) hc
  simp [getConnection, h, he]

theorem getConnection_full (h : self.sqlConnList = []) (hle : self.maxSize ≤ self.curSize) :
    self.getConnection driver isClosed connect = (none, self, driver) := by
  simp only [getConnection, h, if_neg (Int.not_lt.mpr hle)]

theorem getConnection_grow (h : self.sqlConnList = []) (hlt : self.curSize < self.maxSize) :
    self.getConnection driver isClosed .ok = (some driver.made, { self with curSize := self.curSize + 1 },
      { driver with made := driver.made + 1 }) := by
  simp [getConnection, h, hlt, Driver.createConnection]

theorem getConnection_failed (h : self.sqlConnList = []) (hlt : self.curSize < self.maxSize) (hc : connect ≠ .ok) :
    self.getConnection driver isClosed connect = (none, self, (driver.createConnection connect).2) := by
  obtain ⟨made, -, he⟩ := Driver.createConnection_fails driver hc
  simp only [getConnection, h, if_pos hlt, he, if_true]
  rw [← h]

end

/-! ## The accounts -/

/-- The pool, the driver, and the connections that have been checked out. -/
structure Database where
  pool : MysqlConnPool
  driver : Driver
  out : List Conn
  deriving DecidableEq

inductive Call
  | get (isClosed : Bool) (connect : Connect)
  | release (conn : Conn)
  deriving DecidableEq

namespace Database

def start (maxConnSize : Int) (connects : Nat → Connect) : Database :=
  ⟨(init maxConnSize connects).1, (init maxConnSize connects).2, []⟩

/-- A call; a connection that is released is one that is checked out. -/
def step (s : Database) : Call → Option Database
  | .get isClosed connect =>
    let (conn, pool, driver) := s.pool.getConnection s.driver isClosed connect
    some ⟨pool, driver, conn.toList ++ s.out⟩
  | .release conn =>
    if conn ∈ s.out then some { s with pool := (s.pool.releaseConnection (some conn)).2, out := s.out.erase conn }
    else none

/-- The connections that are idle, checked out or deleted. -/
def conns (s : Database) : List Conn := s.pool.sqlConnList ++ s.out ++ s.driver.deleted

structure Accounted (maxSize : Int) (s : Database) : Prop where
  max_eq : s.pool.maxSize = maxSize
  size : s.pool.curSize = s.pool.sqlConnList.length + s.out.length
  le : s.pool.curSize ≤ maxSize ∨ s.pool.curSize = 0
  nodup : s.conns.Nodup
  made : ∀ c ∈ s.conns, c < s.driver.made

variable {s t : Database} {maxSize : Int}

/-- The same connections, in other places. -/
theorem Accounted.of_perm (h : Accounted maxSize s) (hm : t.pool.maxSize = s.pool.maxSize)
    (hp : t.conns.Perm s.conns) (hd : s.driver.made ≤ t.driver.made)
    (hs : t.pool.curSize = t.pool.sqlConnList.length + t.out.length) (hle : t.pool.curSize ≤ s.pool.curSize) :
    Accounted maxSize t where
  max_eq := hm.trans h.max_eq
  size := hs
  le := by
    have := h.le
    have := h.size
    omega
  nodup := hp.nodup_iff.mpr h.nodup
  made c hc := Nat.lt_of_lt_of_le (h.made c (hp.mem_iff.mp hc)) hd

/-- One connection more, which has just been made. -/
theorem Accounted.of_perm_cons (h : Accounted maxSize s) (hm : t.pool.maxSize = s.pool.maxSize)
    (hp : t.conns.Perm (s.driver.made :: s.conns)) (hd : t.driver.made = s.driver.made + 1)
    (hs : t.pool.curSize = t.pool.sqlConnList.length + t.out.length)
    (hle : t.pool.curSize ≤ maxSize ∨ t.pool.curSize = 0) : Accounted maxSize t where
  max_eq := hm.trans h.max_eq
  size := hs
  le := hle
  nodup := by
    rw [hp.nodup_iff, List.nodup_cons]
    exact ⟨fun hmem => Nat.lt_irrefl _ (h.made _ hmem), h.nodup⟩
  made c hc := by
    rw [hd]
    rcases List.mem_cons.mp (hp.mem_iff.mp hc) with rfl | hc'
    · exact Nat.lt_succ_self _
    · exact Nat.lt_succ_of_lt (h.made c hc')

/-! ## `Init` -/

/-- A turn of `InitConnection`, while the pool has fewer connections than it may have. -/
theorem Accounted.initTurn {pool : MysqlConnPool} {driver : Driver} (h : Accounted maxSize ⟨pool, driver, []⟩)
    (hlt : pool.curSize < maxSize) (connect : Connect) :
    Accounted maxSize ⟨(pool.initTurn driver connect).1, (pool.initTurn driver connect).2, []⟩ ∧
      (pool.initTurn driver connect).1.curSize ≤ pool.curSize + 1 := by
  have hsize := h.size
  cases connect with
  | noConnect =>
    refine ⟨h.of_perm rfl (List.Perm.refl _) (Nat.le_refl _) hsize (Int.le_refl _), ?_⟩
    simp only [MysqlConnPool.initTurn, Driver.createConnection]
    omega
  | noSchema =>
    refine ⟨h.of_perm rfl (List.Perm.refl _) (Nat.le_succ _) hsize (Int.le_refl _), ?_⟩
    simp only [MysqlConnPool.initTurn, Driver.createConnection]
    omega
  | ok =>
    refine ⟨h.of_perm_cons rfl ?_ rfl ?_ (.inl hlt), Int.le_refl _⟩
    · simp only [conns, MysqlConnPool.initTurn, Driver.createConnection, List.append_nil, List.append_assoc]
      exact List.perm_middle
    · simp only [MysqlConnPool.initTurn, Driver.createConnection, List.length_append, List.length_singleton]
      simp only at hsize
      omega

/-- The turns of `InitConnection`. -/
theorem initTurns_accounted (maxSize : Int) (connects : Nat → Connect) (k : Nat) (hk : k ≤ maxSize ∨ k = 0) :
    let p := (List.range k).foldl (fun s i => s.1.initTurn s.2 (connects i)) (⟨0, maxSize, []⟩, ⟨0, [], 0⟩)
    Accounted maxSize ⟨p.1, p.2, []⟩ ∧ p.1.curSize ≤ k := by
  induction k with
  | zero => exact ⟨⟨rfl, rfl, .inr rfl, List.nodup_nil, fun _ => nofun⟩, Int.le_refl _⟩
  | succ k ih =>
    obtain ⟨ha, hle⟩ := ih (by omega)
    rw [List.range_succ, List.foldl_append]
    obtain ⟨ha', hle'⟩ := ha.initTurn (by omega) (connects k)
    exact ⟨ha', by rw [List.foldl_cons, List.foldl_nil]; omega⟩

theorem start_accounted (maxSize : Int) (connects : Nat → Connect) : Accounted maxSize (start maxSize connects) := by
  have hk : ((maxSize.tdiv 2).toNat : Int) ≤ maxSize ∨ (maxSize.tdiv 2).toNat = 0 := by grind
  exact (initTurns_accounted maxSize connects _ hk).1

/-! ## `GetConnection` and `ReleaseConnection` -/

/-- `GetConnection` keeps the accounts. -/
theorem Accounted.get (h : Accounted maxSize s) (isClosed : Bool) (connect : Connect) :
    Accounted maxSize ⟨(s.pool.getConnection s.driver isClosed connect).2.1,
      (s.pool.getConnection s.driver isClosed connect).2.2,
      (s.pool.getConnection s.driver isClosed connect).1.toList ++ s.out⟩ := by
  have hsize := h.size
  have hmax := h.max_eq
  have hle := h.le
  rcases hl : s.pool.sqlConnList with _ | ⟨conn, rest⟩ <;> rw [hl] at hsize
  · by_cases hlt : s.pool.curSize < s.pool.maxSize
    · by_cases hc : connect = .ok
      · subst hc
        rw [getConnection_grow hl hlt]
        refine h.of_perm_cons rfl ?_ rfl ?_ (.inl (by simp only; omega))
        · simp only [conns, hl, Option.toList_some, List.nil_append, List.cons_append]
          exact List.Perm.refl _
        · simp only [hl, Option.toList_some, List.cons_append, List.nil_append, List.length_cons]
          simp only [List.length_nil] at hsize ⊢
          omega
      · obtain ⟨made, hm, he⟩ := Driver.createConnection_fails s.driver hc
        rw [getConnection_failed hl hlt hc, he]
        exact h.of_perm rfl (List.Perm.refl _) hm (by simp only [hl]; exact hsize) (Int.le_refl _)
    · rw [getConnection_full hl (by omega)]
      exact h.of_perm rfl (List.Perm.refl _) (Nat.le_refl _) (by simp only [hl]; exact hsize) (Int.le_refl _)
  · simp only [List.length_cons] at hsize
    cases isClosed with
    | false =>
      rw [getConnection_idle hl]
      refine h.of_perm rfl ?_ (Nat.le_refl _) ?_ (Int.le_refl _)
      · simp only [conns, hl, Option.toList_some, List.cons_append, List.nil_append, List.append_assoc]
        exact List.perm_middle
      · simp only [Option.toList_some, List.cons_append, List.nil_append, List.length_cons]
        omega
    | true =>
      by_cases hc : connect = .ok
      · subst hc
        rw [getConnection_replaced hl]
        refine h.of_perm_cons rfl ?_ rfl ?_ hle
        · -- The closed connection goes behind those that are checked out, and the new one before them.
          simp only [conns, hl, Option.toList_some, List.cons_append, List.nil_append, List.append_assoc]
          refine List.perm_middle.trans ((?_ : List.Perm _ _).cons _)
          rw [← List.append_assoc, ← List.append_assoc]
          exact List.perm_middle
        · simp only [Option.toList_some, List.cons_append, List.nil_append, List.length_cons]
          omega
      · obtain ⟨made, hm, he⟩ := Driver.createConnection_fails (s.driver.delete conn) hc
        rw [getConnection_lost hl hc, he]
        refine h.of_perm rfl ?_ hm ?_ ?_
        · simp only [conns, hl, Driver.delete, Option.toList_none, List.nil_append, List.cons_append]
          exact List.perm_middle
        · simp only [Option.toList_none, List.nil_append]
          omega
        · simp only
          omega

theorem Accounted.release (h : Accounted maxSize s) {conn : Conn} (hc : conn ∈ s.out) :
    ∃ t, s.step (.release conn) = some t ∧ Accounted maxSize t := by
  have hperm := List.perm_cons_erase hc
  have hsize := h.size
  refine ⟨_, if_pos hc, h.of_perm rfl ?_ (Nat.le_refl _) ?_ (Int.le_refl _)⟩
  · simp only [conns, releaseConnection, List.append_assoc, List.singleton_append]
    refine List.Perm.append_left _ ?_
    exact hperm.symm.append_right _
  · simp only [releaseConnection, List.length_append, List.length_singleton]
    have := hperm.length_eq
    rw [List.length_cons] at this
    omega

theorem Accounted.step (h : Accounted maxSize s) (call : Call) (hs : s.step call = some t) : Accounted maxSize t := by
  cases call with
  | get isClosed connect =>
    cases hs
    exact h.get isClosed connect
  | release conn =>
    by_cases hc : conn ∈ s.out
    · obtain ⟨t', he, ht⟩ := h.release hc
      cases hs.symm.trans he
      exact ht
    · rw [Database.step, if_neg hc] at hs
      cases hs

/-- `GetConnection` gives `NULL` where `CreateConnection` has, or where there are as many connections
as there may be. -/
theorem Accounted.of_get_none (h : Accounted maxSize s) {isClosed : Bool} {connect : Connect}
    (hn : (s.pool.getConnection s.driver isClosed connect).1 = none) :
    (s.pool.getConnection s.driver isClosed connect).2.2.failures = s.driver.failures + 1 ∨
      maxSize ≤ s.out.length := by
  have hsize := h.size
  have hmax := h.max_eq
  rcases hl : s.pool.sqlConnList with _ | ⟨conn, rest⟩ <;> rw [hl] at hsize
  · by_cases hlt : s.pool.curSize < s.pool.maxSize
    · by_cases hc : connect = .ok
      · subst hc
        rw [getConnection_grow hl hlt] at hn
        cases hn
      · obtain ⟨made, -, he⟩ := Driver.createConnection_fails s.driver hc
        left
        rw [getConnection_failed hl hlt hc, he]
    · right
      simp only [List.length_nil] at hsize
      omega
  · cases isClosed with
    | false =>
      rw [getConnection_idle hl] at hn
      cases hn
    | true =>
      by_cases hc : connect = .ok
      · subst hc
        rw [getConnection_replaced hl] at hn
        cases hn
      · obtain ⟨made, -, he⟩ := Driver.createConnection_fails (s.driver.delete conn) hc
        left
        rw [getConnection_lost hl hc, he]
        rfl

/-- After `Init(maxSize)` and any calls, `cur_size_` counts the connections that are idle or checked
out, is at most `maxSize`, no connection is in two places or twice in one, and `GetConnection` gives
`NULL` only if `CreateConnection` failed or `maxSize` connections are checked out. -/
theorem accounts_run (maxSize : Int) (connects : Nat → Connect) (calls : List Call)
    (h : calls.foldlM Database.step (start maxSize connects) = some s) :
    s.pool.curSize = s.pool.sqlConnList.length + s.out.length ∧
      0 ≤ s.pool.curSize ∧ (0 ≤ maxSize → s.pool.curSize ≤ maxSize) ∧
      (s.pool.sqlConnList ++ s.out ++ s.driver.deleted).Nodup ∧
      ∀ isClosed connect, (s.pool.getConnection s.driver isClosed connect).1 = none →
        (s.pool.getConnection s.driver isClosed connect).2.2.failures = s.driver.failures + 1 ∨
          maxSize ≤ s.out.length := by
  have ha : Accounted maxSize s :=
    foldlM_inv (fun _ call _ ht => ht.step call) (start_accounted maxSize connects) h
  have hsize := ha.size
  have hle := ha.le
  refine ⟨hsize, by omega, by omega, ha.nodup, fun isClosed connect hn => ?_⟩
  exact ha.of_get_none hn

/-- Six connections at most: three are made at first, one is replaced and one cannot be, one is made
when there is none, and one is given back. -/
theorem accounts_run_example :
    let s : Database := ⟨⟨3, 6, [0]⟩, ⟨6, [2, 1], 1⟩, [5, 3]⟩
    s.pool.curSize = s.pool.sqlConnList.length + s.out.length ∧
      0 ≤ s.pool.curSize ∧ (0 ≤ (6 : Int) → s.pool.curSize ≤ 6) ∧
      (s.pool.sqlConnList ++ s.out ++ s.driver.deleted).Nodup ∧
      ∀ isClosed connect, (s.pool.getConnection s.driver isClosed connect).1 = none →
        (s.pool.getConnection s.driver isClosed connect).2.2.failures = s.driver.failures + 1 ∨
          (6 : Int) ≤ s.out.length :=
  accounts_run (s := ⟨⟨3, 6, [0]⟩, ⟨6, [2, 1], 1⟩, [5, 3]⟩) 6 (fun _ => .ok)
    [.get false .ok, .get true .ok, .get true .noSchema, .get false .ok, .release 0] rfl

end Database

end Miku.Common.MysqlConnPool
