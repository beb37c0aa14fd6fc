import Mathlib.Algebra.Group.Int.Defs

/-!
# The pool of database connections (`common/mysql_conn_pool.cpp`)

A connection is named by its place in the order in which the driver made them,
so a connection that is made later has another name, also where `new` gives it
the address of one that was deleted. `GetConnection` and `ReleaseConnection` hold
`list_lock_` from their first use of a member to the last, so one call is one step.
-/

namespace Miku.Common

/-- A `sql::Connection *` that is not `NULL`. -/
abbrev Conn := Nat

/-- How `CreateConnection` goes: `connect` throws or gives `NULL`, or `setSchema` throws (and the
connection stays open), or neither. -/
inductive Connect
  | noConnect
  | noSchema
  | ok
  deriving DecidableEq

/-- The connections that `sql_driver_` has made and those that have been deleted, and how often
`CreateConnection` returned `NULL`. -/
structure Driver where
  made : Nat
  deleted : List Conn
  failures : Nat
  deriving DecidableEq

namespace Driver

def createConnection (self : Driver) : Connect → Option Conn × Driver
  | .noConnect => (none, { self with failures := self.failures + 1 })
  | .noSchema => (none, { self with made := self.made + 1, failures := self.failures + 1 })
  | .ok => (some self.made, { self with made := self.made + 1 })

def delete (self : Driver) (conn : Conn) : Driver := { self with deleted := conn :: self.deleted }

end Driver

/-- `class MysqlConnPool`. -/
structure MysqlConnPool where
  curSize : Int
  maxSize : Int
  sqlConnList : List Conn
  deriving DecidableEq

namespace MysqlConnPool

/-- A turn of the loop of `InitConnection`. -/
def initTurn (self : MysqlConnPool) (driver : Driver) (connect : Connect) : MysqlConnPool × Driver :=
  match driver.createConnection connect with
  | (some tmpConn, driver) =>
    ({ self with sqlConnList := self.sqlConnList ++ [tmpConn], curSize := self.curSize + 1 }, driver)
  | (none, driver) => (self, driver)

/-- `InitConnection`; `connects` says how each `CreateConnection` goes. -/
def initConnection (self : MysqlConnPool) (driver : Driver) (connects : Nat → Connect) (initSize : Int) :
    MysqlConnPool × Driver :=
  (List.range initSize.toNat).foldl (fun s i => s.1.initTurn s.2 (connects i)) (self, driver)

/-- The constructor, and `Init`. -/
def init (maxConnSize : Int) (connects : Nat → Connect) : MysqlConnPool × Driver :=
  initConnection ⟨0, maxConnSize, []⟩ ⟨0, [], 0⟩ connects (maxConnSize.tdiv 2)

/-- `GetConnection`; `isClosed` is what the connection at the front answers, and `connect` says how
`CreateConnection` goes. -/
def getConnection (self : MysqlConnPool) (driver : Driver) (isClosed : Bool) (connect : Connect) :
    Option Conn × MysqlConnPool × Driver :=
  match self.sqlConnList with
  | tmpConn :: rest =>
    let (tmpConn, driver) :=
      if isClosed then (driver.delete tmpConn).createConnection connect else (some tmpConn, driver)
    let curSize := if tmpConn = none then self.curSize - 1 else self.curSize
    (tmpConn, { self with sqlConnList := rest, curSize := curSize }, driver)
  | [] =>
    if self.curSize < self.maxSize then
      let (tmpConn, driver) := driver.createConnection connect
      let curSize := if tmpConn = none then self.curSize else self.curSize + 1
      (tmpConn, { self with curSize := curSize }, driver)
    else (none, self, driver)

def releaseConnection (self : MysqlConnPool) (sqlConn : Option Conn) : Bool × MysqlConnPool :=
  match sqlConn with
  | some conn => (true, { self with sqlConnList := self.sqlConnList ++ [conn] })
  | none => (true, self)

end MysqlConnPool

end Miku.Common
