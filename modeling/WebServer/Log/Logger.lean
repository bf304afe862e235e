import Mathlib.Data.Fintype.Basic
import WebServer.Base.Machine
import WebServer.Server.Connection

/-!
# The logger

`Logger` of `src/logger.cpp`: any number of threads push formatted lines onto a queue,
and one thread takes them off and writes them. `logCondition.wait` is taken apart: the
predicate is tested under `logMutex`, and if it is false the thread releases the mutex
and blocks in one step. A notification wakes the thread if it is blocked then, and does
nothing otherwise; between a push and its `notify_one`, and between the destructor's
store and its `notify_all`, the other threads go on.

The record of the calls, of the lines in the order of their pushes and of the lines
written is not part of the program.
-/

namespace WebServer

open Base

/-- `getLogLevelStr`. -/
def LogLevel.str : LogLevel → Bytes
  | .debug => ascii "[DEBUG]"
  | .info => ascii "[INFO]"
  | .warning => ascii "[WARNING]"
  | .err => ascii "[ERROR]"

/-- The fields of `std::tm` that `getTime` writes. -/
structure TimeParts where
  /-- Years since 1900. -/
  year : Int
  /-- Months since January. -/
  mon : Nat
  mday : Nat
  hour : Nat
  min : Nat
  sec : Nat

/-- A field of two digits, filled with a zero. -/
def twoDigits (n : Nat) : Bytes := if n < 10 then ascii "0" ++ decimal n else decimal n

/-- `getTime`: what `put_time` makes of the local time with `%Y-%m-%d %H:%M:%S`. -/
def getTime (timeParts : TimeParts) : Bytes :=
  decimalInt (timeParts.year + 1900) ++ ascii "-" ++ twoDigits (timeParts.mon + 1) ++
    ascii "-" ++ twoDigits timeParts.mday ++ ascii " " ++ twoDigits timeParts.hour ++
    ascii ":" ++ twoDigits timeParts.min ++ ascii ":" ++ twoDigits timeParts.sec

/-- The two calls of `log`, with what `getTime` answers. -/
inductive LogCall where
  | message (time : Bytes) (level : LogLevel) (text : Bytes)
  | data (time : Bytes) (logData : LogData)
  deriving DecidableEq

/-- The line a call formats. -/
def LogCall.line : LogCall → Bytes
  | .message time level text =>
    time ++ ascii " " ++ level.str ++ ascii " " ++ text ++ ascii "\n"
  | .data time logData =>
    logData.ip ++ ascii " - " ++ time ++ ascii " " ++ logData.level.str ++ ascii " \"" ++
      logData.startLine ++ ascii "\" " ++ logData.responseCode ++ ascii " " ++
      logData.responseSize ++ ascii "\n"

namespace Logger

/-- Where a thread stands in `enqueue`. -/
inductive Producer where
  /-- Not in a call. -/
  | away
  /-- It found `running` set, and is about to push. -/
  | checked (line : Bytes)
  /-- It has pushed, and is about to call `notify_one`. -/
  | pushed
  deriving DecidableEq

/-- Where the thread of `drainLoop` stands. -/
inductive Drain where
  /-- About to lock the mutex: at the top of the loop, or woken in the wait. -/
  | top
  /-- The predicate was false; the thread still holds the mutex. -/
  | tested
  | blocked
  /-- It has taken a line off the queue and unlocked. -/
  | popped (line : Bytes)
  /-- It has returned, or was never started. -/
  | done
  deriving DecidableEq

/-- Where `~Logger` stands. -/
inductive Destructor where
  | idle
  /-- It has cleared `running`, and is about to call `notify_all`. -/
  | cleared
  /-- In `join`. -/
  | joining
  | joined
  deriving DecidableEq

structure State (n : Nat) where
  queue : List Bytes := []
  running : Bool
  producers : Fin n → Producer := fun _ => .away
  drain : Drain
  destructor : Destructor := .idle
  /-- The lines of the calls of `log`, each with its thread. -/
  called : List (Fin n × Bytes) := []
  /-- The lines pushed, in order. -/
  pushes : List (Fin n × Bytes) := []
  written : List Bytes := []

/-- Who moves. -/
inductive Label (n : Nat) where
  /-- A thread calls `log`, and reads `running`. -/
  | log (thread : Fin n) (call : LogCall)
  | push (thread : Fin n)
  | notifyOne (thread : Fin n)
  /-- The drain thread locks the mutex and tests the predicate; if it is true, the rest
  of the section follows. -/
  | test
  | block
  /-- The drain thread is woken for no reason. -/
  | spurious
  | write
  /-- `~Logger` clears `running`. -/
  | clear
  | notifyAll
  | join
  deriving DecidableEq

variable {n : Nat}

namespace State

/-- The one thread that holds the mutex between two steps is a drain thread that has
found the predicate false. -/
def mutexFree (s : State n) : Bool := s.drain ≠ .tested

/-- What a notification does to the drain thread. -/
def woken (s : State n) : Drain := if s.drain = .blocked then .top else s.drain

def setProducer (s : State n) (thread : Fin n) (pc : Producer) : State n :=
  { s with producers := Function.update s.producers thread pc }

/-- `enqueue` up to its first test. -/
def log (s : State n) (thread : Fin n) (line : Bytes) : State n :=
  let s := { s with called := s.called ++ [(thread, line)] }
  if s.running then s.setProducer thread (.checked line) else s

/-- The section of `enqueue` under the mutex. -/
def push (s : State n) (thread : Fin n) (line : Bytes) : State n :=
  { s with queue := s.queue ++ [line], pushes := s.pushes ++ [(thread, line)] }

/-- The section of `drainLoop` under the mutex. -/
def test (s : State n) : State n :=
  match s.queue with
  | [] => { s with drain := if s.running then .tested else .done }
  | line :: queue => { s with queue, drain := .popped line }

end State

def step (s : State n) : Label n → Option (State n)
  | .log thread call =>
    -- the destructor starts when no call is made any more
    if s.producers thread = .away ∧ s.destructor = .idle then some (s.log thread call.line)
    else none
  | .push thread =>
    match s.producers thread with
    | .checked line =>
      if s.mutexFree then some ((s.push thread line).setProducer thread .pushed) else none
    | _ => none
  | .notifyOne thread =>
    if s.producers thread = .pushed then
      some ({ s with drain := s.woken }.setProducer thread .away)
    else none
  | .test => if s.drain = .top then some s.test else none
  | .block => if s.drain = .tested then some { s with drain := .blocked } else none
  | .spurious => if s.drain = .blocked then some { s with drain := .top } else none
  | .write =>
    match s.drain with
    | .popped line => some { s with drain := .top, written := s.written ++ [line] }
    | _ => none
  | .clear =>
    if s.destructor = .idle ∧ (∀ thread, s.producers thread = .away) ∧ s.mutexFree then
      some { s with running := false, destructor := .cleared }
    else none
  | .notifyAll =>
    if s.destructor = .cleared then
      some { s with drain := s.woken, destructor := .joining }
    else none
  | .join =>
    if s.destructor = .joining ∧ s.drain = .done then some { s with destructor := .joined }
    else none

end Logger

/-- A logger and `n` threads that call it, from its construction on; `opened` says
whether the log file could be opened, without which no thread is started. -/
def logger (n : Nat) (opened : Bool) : Machine (Logger.State n) (Logger.Label n) where
  start := { running := opened, drain := if opened then .top else .done }
  step := Logger.step

end WebServer
