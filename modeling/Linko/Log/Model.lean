import Linko.Log.Formatter
import Mathlib.Logic.Function.Basic
/-!
# Loggers

`LogAppender`, `Logger` and `LoggerManager` of `log.cc`. Appenders are shared
objects: a logger has pointers into the list of all of them. A logger is only
reached through its name.
-/

namespace Linko.Log

open CString

inductive Level where
  | unknow | debug | info | warn | error | fatal
  deriving DecidableEq, Repr

/-- The `type` of an appender: 1 is a file, 2 is stdout. -/
inductive AppenderType where
  | file | stdout
  deriving DecidableEq, Repr

structure LogAppender where
  type : AppenderType
  filename : Bytes
  level : Level
  hasFormatter : Bool
  formatter : Option LogFormatter
  deriving DecidableEq, Repr

namespace LogAppender

/-- `FileLogAppender(filename)` -/
def newFile (filename : Bytes) : LogAppender := ⟨.file, filename, .debug, false, none⟩

/-- `StdoutLogAppender()` -/
def newStdout : LogAppender := ⟨.stdout, [], .debug, false, none⟩

def setFormatter (a : LogAppender) (val : Option LogFormatter) : LogAppender :=
  { a with formatter := val, hasFormatter := val.isSome }

def setLevel (a : LogAppender) (level : Level) : LogAppender := { a with level := level }

end LogAppender

/-- The appenders that have been made; a pointer is an index. -/
abbrev Objects := List LogAppender

structure Logger where
  name : Bytes
  level : Level
  appenders : List Nat
  formatter : Option LogFormatter
  deriving DecidableEq, Repr

namespace Logger

def new (name : Bytes) : Logger :=
  ⟨name, .debug, [],
    some (LogFormatter.new (ascii "%d{%Y-%m-%d %H:%M:%S}%T%t%T%N%T%F%T[%p]%T[%c]%T%f:%l%T%m%n"))⟩

def addAppender (l : Logger) (appender : Nat) (objects : Objects) : Logger × Objects :=
  ({ l with appenders := l.appenders ++ [appender] },
    objects.modify appender fun a => if a.formatter.isNone then { a with formatter := l.formatter } else a)

def clearAppenders (l : Logger) : Logger := { l with appenders := [] }

def setLevel (l : Logger) (val : Level) : Logger := { l with level := val }

/-- `setFormatter` of a formatter -/
def setFormatter (l : Logger) (val : Option LogFormatter) (objects : Objects) : Logger × Objects :=
  ({ l with formatter := val },
    l.appenders.foldl (fun objects i => objects.modify i fun a =>
      if a.hasFormatter then a else { a with formatter := val }) objects)

/-- `setFormatter` of a pattern; nothing happens when it is invalid. -/
def setPattern (l : Logger) (val : Bytes) (objects : Objects) : Logger × Objects :=
  let newVal := LogFormatter.new val
  if newVal.isError then (l, objects) else l.setFormatter (some newVal) objects

end Logger

/-- `m_loggers` and the appenders. -/
structure LoggerManager where
  loggers : Bytes → Option Logger
  objects : Objects
  valid : ∀ name l, loggers name = some l → ∀ i ∈ l.appenders, i < objects.length

namespace LoggerManager

/-- The root logger with its appender. -/
def new : LoggerManager where
  loggers name := if name = ascii "root" then some { Logger.new name with appenders := [0] } else none
  objects := [{ LogAppender.newStdout with formatter := (Logger.new (ascii "root")).formatter }]
  valid := by
    intro name l h i hi
    split at h
    · rw [← Option.some.inj h, List.mem_singleton] at hi
      rw [hi]
      exact Nat.zero_lt_one
    · cases h

/-- What `getLogger` returns; it is stored under the name if it is new. -/
def getLogger (m : LoggerManager) (name : Bytes) : Logger := (m.loggers name).getD (Logger.new name)

/-- The state after a call that changes the logger `name` and makes or changes
appenders. -/
def store (m : LoggerManager) (name : Bytes) (r : Logger × Objects) (hgrow : m.objects.length ≤ r.2.length)
    (hvalid : ∀ i ∈ r.1.appenders, i < r.2.length) : LoggerManager where
  loggers := Function.update m.loggers name (some r.1)
  objects := r.2
  valid := by
    intro other l hl i hi
    rcases eq_or_ne other name with rfl | hne
    · rw [Function.update_self] at hl
      rw [← Option.some.inj hl] at hi
      exact hvalid i hi
    · rw [Function.update_of_ne hne] at hl
      exact (m.valid other l hl i hi).trans_le hgrow

end LoggerManager

/-! ## What the calls change -/

/-- `setFormatter` changes the appenders of the logger. -/
theorem foldl_modify (f : LogAppender → LogAppender) (l : List Nat) (objects : Objects) :
    (l.foldl (fun objects i => objects.modify i f) objects).length = objects.length ∧
      ∀ i, i ∉ l → (l.foldl (fun objects i => objects.modify i f) objects)[i]? = objects[i]? := by
  induction l generalizing objects with
  | nil => exact ⟨rfl, fun _ _ => rfl⟩
  | cons j l ih =>
    obtain ⟨hlen, hget⟩ := ih (objects.modify j f)
    refine ⟨hlen.trans (List.length_modify _ _ _), fun i hi => ?_⟩
    rw [List.mem_cons, not_or] at hi
    rw [List.foldl_cons, hget i hi.2, List.getElem?_modify_ne _ _ (Ne.symm hi.1)]

theorem Logger.setPattern_objects (l : Logger) (val : Bytes) (objects : Objects) :
    (l.setPattern val objects).2.length = objects.length ∧
      ∀ i, i ∉ l.appenders → (l.setPattern val objects).2[i]? = objects[i]? := by
  unfold setPattern
  dsimp only
  split
  · exact ⟨rfl, fun _ _ => rfl⟩
  · exact foldl_modify _ _ _

end Linko.Log
