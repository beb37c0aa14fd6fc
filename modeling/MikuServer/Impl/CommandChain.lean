import MikuServer.Framework.StdMap

/-!
# The handlers of a processor (`common/command_chain.cpp`)

`chain_lock_` is held by none of the functions after its end, so each function is
one step. A handler is named by its number (`CommandPtr`), and `deleted` are those
whose destructor has run.
-/

namespace Miku.Common

/-- A `BaseCommand *` that is not `NULL`. -/
abbrev CommandPtr := Nat

/-- `class CommandChain`. -/
structure CommandChain where
  commandChain : StdMap (Option CommandPtr)
  deleted : List CommandPtr

namespace CommandChain

def new : CommandChain := ⟨.empty, []⟩

/-- `delete`, which does nothing to a `NULL` pointer. -/
def delete (self : CommandChain) : Option CommandPtr → CommandChain
  | none => self
  | some command => { self with deleted := self.deleted ++ [command] }

def registerCommand (self : CommandChain) (commandIndex : Int) (commandClass : Option CommandPtr) :
    Bool × CommandChain :=
  let commandChain := self.commandChain.subscript commandIndex none
  match self.commandChain.ptr commandIndex with
  | some _ => (false, { self with commandChain := commandChain })
  | none => (true, { self with commandChain := commandChain.assign commandIndex commandClass })

def getCommand (self : CommandChain) (commandIndex : Int) : Option CommandPtr × CommandChain :=
  (self.commandChain.ptr commandIndex,
    { self with commandChain := self.commandChain.subscript commandIndex none })

/-- `if(!tmp_command) delete tmp_command;`. -/
def deleteCommand (self : CommandChain) (tmpCommand : Option CommandPtr) : CommandChain :=
  if tmpCommand.isNone then self.delete tmpCommand else self

def releaseCommand (self : CommandChain) (commandIndex : Int) : CommandChain :=
  let tmpCommand := self.commandChain.ptr commandIndex
  let self := { self with commandChain := self.commandChain.subscript commandIndex none }
  let self := self.deleteCommand tmpCommand
  { self with commandChain := self.commandChain.erase commandIndex }

def releaseAllCommand (self : CommandChain) : CommandChain :=
  let self := self.commandChain.values.foldl deleteCommand self
  { self with commandChain := .empty }

/-- `~CommandChain`. -/
def destructor (self : CommandChain) : CommandChain := self.releaseAllCommand

end CommandChain

end Miku.Common
