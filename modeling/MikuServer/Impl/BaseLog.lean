import Mathlib.Logic.Function.Basic
import MikuServer.Framework.Mem

/-!
# The logger (`common/base_log.cpp`)

First the files: the normal log is written to the file with index 1, and
`RefleshLogFile` moves each file to the next index. Each call of `remove`,
`rename`, `fopen`, `fwrite` and `fclose` is a step.

Then the threads: callers add lines to the active one of two vectors, for each of
the two channels, and the thread of `CheckWriteLogFun` changes the active vector
and writes the other one to disk. What is done under a lock is a step; the lines
of a vector are written one by one, and the vector is cleared after the last.
-/

namespace Miku.Common

/-! ## Files -/

/-- `MAX_LOG_FILE_SISE`. -/
def maxLogFileSise : Nat := 20 * 1024 * 1024

/-- The contents of the files `<m_szLogName>-<i>.log`. -/
abbrev LogDir := Nat → Option (List Byte)

/-- Where the functions are that change the files. -/
inductive FilePlace
  | idle
  | fopen (lines : List (List Byte))
  | fwrite (lines : List (List Byte))
  | remove (i : Nat)
  | rename (i : Nat)
  deriving DecidableEq

/-- The members of `CBaseLog` that have to do with the normal log's files. -/
structure LogFiles where
  uiLogNum : Nat
  running : Bool
  dir : LogDir
  place : FilePlace

namespace LogFiles

/-- `i` of the loop of `RefleshLogFile`. -/
def refleshFrom (i : Nat) : FilePlace := if i > 1 then .remove i else .idle

/-- `RefleshLogFile(false)` begins. -/
def refleshLogFile (self : LogFiles) : LogFiles := { self with place := refleshFrom self.uiLogNum }

/-- `Init`, with a path that is there or can be made. -/
def init (self : LogFiles) : LogFiles := if self.running then self else { self.refleshLogFile with running := true }

/-- `WriteLogToDisk(vect, false)`. -/
def writeLogToDisk (self : LogFiles) (vect : List (List Byte)) : LogFiles :=
  if vect.length < 1 then self else { self with place := .fopen vect }

/-- `CloseFilePtr`, `size` being what `ftell` returns. -/
def closeFilePtr (self : LogFiles) (size : Nat) : LogFiles :=
  if size ≥ maxLogFileSise then self.refleshLogFile else { self with place := .idle }

/-- The next call that changes a file; `remove` and `rename` succeed where the file is there, and
`fopen` and `fwrite` always. -/
def next (self : LogFiles) : Option LogFiles :=
  match self.place with
  | .idle => none
  | .fopen lines => some { self with
      dir := Function.update self.dir 1 (some ((self.dir 1).getD []))
      place := .fwrite lines }
  | .fwrite (line :: lines) => do
    let content ← self.dir 1
    some { self with
      dir := Function.update self.dir 1 (some (content ++ line))
      place := .fwrite lines }
  | .fwrite [] => do
    let content ← self.dir 1
    some (self.closeFilePtr content.length)
  | .remove i => some { self with dir := Function.update self.dir i none, place := .rename i }
  | .rename i =>
    match self.dir (i - 1) with
    | none => some { self with place := refleshFrom (i - 1) }
    | some content => some { self with
        dir := Function.update (Function.update self.dir i (some content)) (i - 1) none
        place := refleshFrom (i - 1) }

inductive Event
  | init
  | writeLogToDisk (vect : List (List Byte))
  | next
  deriving DecidableEq

/-- `Init` and `WriteLogToDisk` begin when the one before has ended. -/
def step (self : LogFiles) : Event → Option LogFiles
  | .init => if self.place = .idle then some self.init else none
  | .writeLogToDisk vect => if self.place = .idle then some (self.writeLogToDisk vect) else none
  | .next => self.next

end LogFiles

/-! ## Threads -/

/-- A line of the log. -/
abbrev LogLine := List Byte

/-- One of the two vectors of a channel. -/
inductive Half
  | one
  | two
  deriving DecidableEq

def Half.other : Half → Half
  | .one => .two
  | .two => .one

/-- The vectors of a channel (`m_logvect1`, `m_logvect2` and `m_pLogvect`, or those of the user log),
the lines that have been pushed to it, and those that have been written to disk. -/
structure LogChannel where
  vect1 : List LogLine
  vect2 : List LogLine
  active : Half
  pushed : List LogLine
  written : List LogLine
  deriving DecidableEq

namespace LogChannel

def new : LogChannel := ⟨[], [], .one, [], []⟩

def vect (self : LogChannel) : Half → List LogLine
  | .one => self.vect1
  | .two => self.vect2

def setVect (self : LogChannel) (half : Half) (lines : List LogLine) : LogChannel :=
  match half with
  | .one => { self with vect1 := lines }
  | .two => { self with vect2 := lines }

/-- `push_back` under the lock. -/
def pushBack (self : LogChannel) (line : LogLine) : LogChannel :=
  { self.setVect self.active (self.vect self.active ++ [line]) with pushed := self.pushed ++ [line] }

/-- `GetLogVect`. -/
def getLogVect (self : LogChannel) : Option Half × LogChannel :=
  if (self.vect self.active).length < 1 then (none, self)
  else (some self.active, { self with active := self.active.other })

/-- A turn of the loop of `WriteLogToDisk`, `i` being the place of `iter`, or `clear` after the last. -/
def writeTurn (self : LogChannel) (half : Half) (i : Nat) : LogChannel × Bool :=
  match (self.vect half)[i]? with
  | some line => ({ self with written := self.written ++ [line] }, true)
  | none => (self.setVect half [], false)

end LogChannel

/-- Where the thread of `CheckWriteLogFun` is; it is `none` before `Init` has made it. -/
inductive WriterPlace
  | none
  | loop
  | getLogVect (user : Bool)
  | write (user : Bool) (half : Half) (i : Nat)
  | ended
  deriving DecidableEq

/-- Where the destructor is. -/
inductive DestructorPlace
  | none
  | wait
  | write (half : Half) (i : Nat)
  | ended
  deriving DecidableEq

/-- The members of `CBaseLog` that have to do with its threads. -/
structure BaseLog where
  log : LogChannel
  user : LogChannel
  running : Bool
  writer : WriterPlace
  destructor : DestructorPlace
  deriving DecidableEq

namespace BaseLog

def new : BaseLog := ⟨.new, .new, false, .none, .none⟩

def channel (self : BaseLog) (user : Bool) : LogChannel := if user then self.user else self.log

def setChannel (self : BaseLog) (user : Bool) (c : LogChannel) : BaseLog :=
  if user then { self with user := c } else { self with log := c }

/-- Where `CheckWriteLogFun` goes on after a channel. -/
def afterChannel (user : Bool) : WriterPlace := if user then .loop else .getLogVect true

/-- The next step of `CheckWriteLogFun`. -/
def writerStep (self : BaseLog) : Option BaseLog :=
  match self.writer with
  | .none => none
  | .loop => some { self with writer := if self.running then .getLogVect false else .ended }
  | .getLogVect user =>
    let (half, c) := (self.channel user).getLogVect
    some { self.setChannel user c with
      writer := (half.map fun half => WriterPlace.write user half 0).getD (afterChannel user) }
  | .write user half i =>
    let (c, more) := (self.channel user).writeTurn half i
    some { self.setChannel user c with writer := if more then .write user half (i + 1) else afterChannel user }
  | .ended => none

/-- The next step of the destructor; `MWaitThread` returns when the thread has ended. -/
def destructorStep (self : BaseLog) : Option BaseLog :=
  match self.destructor with
  | .none => some { self with running := false, destructor := .wait }
  | .wait =>
    if self.writer = .none ∨ self.writer = .ended then some { self with destructor := .write .one 0 } else none
  | .write half i =>
    let (c, more) := self.log.writeTurn half i
    some { self with
      log := c
      destructor :=
        if more then .write half (i + 1)
        else
          match half with
          | .one => .write .two 0
          | .two => .ended }
  | .ended => none

inductive Event
  | init
  | writeLog (line : LogLine)
  | writeUserlog (line : LogLine)
  | writer
  | destructor
  deriving DecidableEq

/-- The callers have stopped when the destructor begins. -/
def step (self : BaseLog) : Event → Option BaseLog
  | .init =>
    if self.destructor ≠ .none then none
    else if self.running then some self
    else some { self with running := true, writer := .loop }
  | .writeLog line => if self.destructor ≠ .none then none else some { self with log := self.log.pushBack line }
  | .writeUserlog line => if self.destructor ≠ .none then none else some { self with user := self.user.pushBack line }
  | .writer => self.writerStep
  | .destructor => self.destructorStep

end BaseLog

end Miku.Common
