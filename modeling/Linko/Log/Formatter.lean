import Linko.Lib.CString
/-!
# Log patterns

`LogFormatter` of `log.cc`. `init` cuts a pattern into literals and directives
and looks each directive up; what it does not understand sets `m_error`.
-/

namespace Linko.Log

open CString

def isalnum (b : UInt8) : Bool := (48 ≤ b && b ≤ 57) || (65 ≤ b && b ≤ 90) || (97 ≤ b && b ≤ 122)

inductive FormatItem where
  | message | level | elapse | name | threadId | newLine
  | dataTime (format : Bytes)
  | filename | line | tab | fiberId | threadName
  | string (str : Bytes)
  deriving DecidableEq, Repr

/-- An empty format of a `%d` stands for the default one. -/
def DataTimeFormatItem (format : Bytes) : FormatItem :=
  .dataTime (if format = [] then ascii "%Y-%m-%d %H:%M:%S" else format)

/-- `s_format_items` -/
def formatItems : List (Bytes × (Bytes → FormatItem)) :=
  [(ascii "m", fun _ => .message), (ascii "p", fun _ => .level), (ascii "r", fun _ => .elapse),
   (ascii "c", fun _ => .name), (ascii "t", fun _ => .threadId), (ascii "n", fun _ => .newLine),
   (ascii "d", DataTimeFormatItem), (ascii "f", fun _ => .filename), (ascii "l", fun _ => .line),
   (ascii "T", fun _ => .tab), (ascii "F", fun _ => .fiberId), (ascii "N", fun _ => .threadName)]

/-- The inner loop of `init`, behind a `%`. `all` is the pattern from there on
and `n` the number of its bytes that have been read; `fmtStatus` says that a
`\x7b` is open. -/
def scanDirective (all : Bytes) : Bytes → Nat → Bool → Nat → Bytes → Bytes → Bool × Bytes × Bytes × Nat
  | [], n, fmtStatus, _, str, fmt => (fmtStatus, str, fmt, n)
  | c :: rest, n, fmtStatus, fmtBegin, str, fmt =>
    if fmtStatus = false ∧ isalnum c = false ∧ c ≠ 123 ∧ c ≠ 125 then (fmtStatus, all.take n, fmt, n)
    else if fmtStatus = false ∧ c = 123 then scanDirective all rest (n + 1) true n (all.take n) fmt
    else if fmtStatus = true ∧ c = 125 then
      (false, str, (all.drop (fmtBegin + 1)).take (n - fmtBegin - 1), n + 1)
    else scanDirective all rest (n + 1) fmtStatus fmtBegin (if rest = [] ∧ str = [] then all else str) fmt

/-- An entry of `vec`. -/
inductive Piece where
  | text (str : Bytes)
  | directive (str fmt : Bytes)
  deriving DecidableEq, Repr

def literal (nstr : Bytes) : List Piece := if nstr = [] then [] else [.text nstr]

/-- The outer loop of `init`, with `m_error`. The second `%` of a `%%` is read
again, and so is what stands behind a `%` with an open `\x7b`. -/
def scan (nstr : Bytes) : Bytes → List Piece × Bool
  | [] => (literal nstr, false)
  | c :: rest =>
    if c ≠ 37 then scan (nstr ++ [c]) rest
    else if rest.head? = some 37 then scan (nstr ++ [37]) rest
    else
      let d := scanDirective rest rest 0 false 0 [] []
      if d.1 = false then
        let r := scan [] (rest.drop d.2.2.2)
        (literal nstr ++ .directive d.2.1 d.2.2.1 :: r.1, r.2)
      else ((.text (ascii "<<pattern_error>>")) :: (scan nstr rest).1, true)
termination_by l => l.length
decreasing_by
  all_goals simp only [List.length_cons, List.length_drop]
  all_goals omega

/-- The item of a piece, if there is one. -/
def Piece.item : Piece → Option FormatItem
  | .text str => some (.string str)
  | .directive str fmt => (formatItems.find? fun i => i.1 = str).map fun i => i.2 fmt

/-- What stands for a directive that is not known. -/
def Piece.errorItem : Piece → FormatItem
  | .text str => .string str
  | .directive str _ => .string (ascii "<<error_format %" ++ str ++ ascii ">>")

structure LogFormatter where
  pattern : Bytes
  items : List FormatItem
  error : Bool
  deriving DecidableEq, Repr

/-- The constructor, which calls `init`. -/
def LogFormatter.new (pattern : Bytes) : LogFormatter :=
  let vec := scan [] pattern
  ⟨pattern, vec.1.map fun p => p.item.getD p.errorItem, vec.2 || vec.1.any fun p => p.item.isNone⟩

def LogFormatter.isError (f : LogFormatter) : Bool := f.error

def LogFormatter.getPattern (f : LogFormatter) : Bytes := f.pattern

@[simp] theorem LogFormatter.getPattern_new (pattern : Bytes) : (new pattern).getPattern = pattern := rfl

/-- A pattern without `%` is one literal. -/
theorem scan_literal {nstr l : Bytes} (h : 37 ∉ l) : scan nstr l = (literal (nstr ++ l), false) := by
  induction l generalizing nstr with
  | nil => rw [scan, List.append_nil]
  | cons c l ih =>
    rw [List.mem_cons, not_or] at h
    rw [scan, if_pos (Ne.symm h.1), ih h.2, List.append_assoc, List.singleton_append]

theorem LogFormatter.new_literal {l : Bytes} (h : 37 ∉ l) : (new l).isError = false := by
  rw [isError, new, scan_literal h, literal]
  split
  · rfl
  · rfl

example : (LogFormatter.new (ascii "%d{%H}%T[%p]%x")).items =
    [.dataTime (ascii "%H"), .tab, .string (ascii "["), .level, .string (ascii "]"),
     .string (ascii "<<error_format %x>>")] := by
  simp [LogFormatter.new, ascii, scan, scanDirective, isalnum, literal, Piece.item, Piece.errorItem,
    formatItems, DataTimeFormatItem]

end Linko.Log
