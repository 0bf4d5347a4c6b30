import Linko.Lib.Signed
import Linko.Log.Model
/-!
# Formatting an event

`LogEvent`, the items of a `LogFormatter` and its `format`. The time zone and
the locale are an environment.
-/

namespace Linko.Log

open CString

/-- `LogLevel::ToString` -/
def Level.toString : Level → Bytes
  | .unknow => ascii "UNKNOW"
  | .debug => ascii "DEBUG"
  | .info => ascii "INFO"
  | .warn => ascii "WARN"
  | .error => ascii "ERROR"
  | .fatal => ascii "FATAL"

/-- An event, with the name of its logger. -/
structure LogEvent where
  file : Bytes
  line : Int32
  elapse : UInt32
  threadId : UInt32
  fiberId : UInt32
  time : UInt64
  threadName : Bytes
  content : Bytes
  logger : Bytes
  deriving DecidableEq, Repr

/-! ## Dates -/

/-- `struct tm`, as far as the default format needs it. -/
structure Tm where
  sec : Nat
  min : Nat
  hour : Nat
  mday : Nat
  mon : Nat
  year : Int
  deriving DecidableEq, Repr

/-- `localtime_r`, which may fail, and the conversions of the locale: from the
format behind a `%`, their text and the number of bytes they take of it. -/
structure Clock where
  localtime : UInt64 → Option Tm
  conversion : Tm → Bytes → Bytes × Nat

def twoDigits (n : Nat) : Bytes := if n < 10 then 48 :: decimal n else decimal n

/-- One conversion of `strftime`. -/
def Clock.convert (clock : Clock) (tm : Tm) : Bytes → Bytes × Nat
  | 37 :: _ => ([37], 1)
  | 89 :: _ => (signed (tm.year + 1900), 1)
  | 109 :: _ => (twoDigits (tm.mon + 1), 1)
  | 100 :: _ => (twoDigits tm.mday, 1)
  | 72 :: _ => (twoDigits tm.hour, 1)
  | 77 :: _ => (twoDigits tm.min, 1)
  | 83 :: _ => (twoDigits tm.sec, 1)
  | format => clock.conversion tm format

def strftime (clock : Clock) (tm : Tm) : Bytes → Bytes
  | [] => []
  | c :: format =>
    if c ≠ 37 then c :: strftime clock tm format
    else (clock.convert tm format).1 ++ strftime clock tm (format.drop (clock.convert tm format).2)
termination_by format => format.length
decreasing_by
  all_goals simp only [List.length_cons, List.length_drop]
  all_goals omega

/-! ## Items -/

/-- `DataTimeFormatItem::format`. A text that does not fit into `buf` with its
NUL leaves it unset, and so does a time that has no date. -/
def dataTimeText (clock : Clock) (time : UInt64) (format : Bytes) : Option Bytes := do
  let tm ← clock.localtime time
  let text := strftime clock tm (cstr format)
  if text.length < 64 then some text else none

theorem dataTimeText_some {clock : Clock} {time : UInt64} {format text : Bytes}
    (h : dataTimeText clock time format = some text) : ∃ tm, text = strftime clock tm (cstr format) := by
  obtain ⟨tm, -, h⟩ := Option.bind_eq_some_iff.1 h
  dsimp only at h
  split at h
  · exact ⟨tm, (Option.some.inj h).symm⟩
  · cases h

/-- The `format` of each item; `none` is a text that is not determined. -/
def FormatItem.format (clock : Clock) (level : Level) (event : LogEvent) : FormatItem → Option Bytes
  | .message => some event.content
  | .level => some level.toString
  | .elapse => some (decimal event.elapse.toNat)
  | .name => some event.logger
  | .threadId => some (decimal event.threadId.toNat)
  | .newLine => some [10]
  | .dataTime format => dataTimeText clock event.time format
  | .filename => some event.file
  | .line => some (signed event.line.toInt)
  | .tab => some [9]
  | .fiberId => some (decimal event.fiberId.toNat)
  | .threadName => some event.threadName
  | .string str => some str

/-- The items one after the other. -/
def formatAll (clock : Clock) (level : Level) (event : LogEvent) : List FormatItem → Option Bytes
  | [] => some []
  | i :: items => do
    let text ← i.format clock level event
    let rest ← formatAll clock level event items
    some (text ++ rest)

def LogFormatter.format (clock : Clock) (level : Level) (event : LogEvent) (f : LogFormatter) : Option Bytes :=
  formatAll clock level event f.items

/-! ## How the texts end -/

theorem twoDigits_concat (n : Nat) : ∃ text c, twoDigits n = text ++ [c] ∧ 48 ≤ c ∧ c ≤ 57 := by
  obtain ⟨text, c, hc, hdigit⟩ := decimal_concat n
  unfold twoDigits
  split
  · exact ⟨48 :: text, c, by rw [hc]; rfl, hdigit⟩
  · exact ⟨text, c, hc, hdigit⟩

/-- The default date ends with the seconds. -/
theorem strftime_default (clock : Clock) (tm : Tm) :
    ∃ text c, strftime clock tm (ascii "%Y-%m-%d %H:%M:%S") = text ++ [c] ∧ 48 ≤ c ∧ c ≤ 57 := by
  obtain ⟨text, c, hc, hdigit⟩ := twoDigits_concat tm.sec
  have hdate : ∃ front, strftime clock tm (ascii "%Y-%m-%d %H:%M:%S") = front ++ twoDigits tm.sec := by
    refine ⟨signed (tm.year + 1900) ++ 45 :: (twoDigits (tm.mon + 1) ++ 45 :: (twoDigits tm.mday ++ 32 ::
      (twoDigits tm.hour ++ 58 :: (twoDigits tm.min ++ [58])))), ?_⟩
    simp [ascii, strftime, Clock.convert]
  obtain ⟨front, hfront⟩ := hdate
  exact ⟨front ++ text, c, by rw [hfront, hc, List.append_assoc], hdigit⟩

end Linko.Log
