import Linko.Lib.CString
import Linko.Lib.Follow
import Linko.Uri.Machine
/-!
# `Uri::Create`

The class of `uri.h` and the actions of `uri.rl`. `mark` is an offset into the
string; a `std::string` cannot be made from a null `mark`.
-/

namespace Linko

open CString Ragel UriParser

structure Uri where
  scheme : Bytes
  userinfo : Bytes
  host : Bytes
  path : Bytes
  query : Bytes
  fragment : Bytes
  port : Int
  deriving DecidableEq, Repr

namespace Uri

def new : Uri := ⟨[], [], [], [], [], [], 0⟩

def getScheme (u : Uri) : Bytes := u.scheme
def getUserinfo (u : Uri) : Bytes := u.userinfo
def getHost (u : Uri) : Bytes := u.host
def getPath (u : Uri) : Bytes := if u.path = [] then ascii "/" else u.path
def getQuery (u : Uri) : Bytes := u.query
def getFragment (u : Uri) : Bytes := u.fragment

/-- The port of a scheme when none is set. -/
def defaultPort (scheme : Bytes) : Int :=
  if scheme = ascii "http" ∨ scheme = ascii "ws" then 80
  else if scheme = ascii "https" ∨ scheme = ascii "wss" then 443
  else 0

def getPort (u : Uri) : Int := if u.port ≠ 0 then u.port else defaultPort u.scheme

/-- The variables of `Create` that the actions change. -/
structure Scan where
  uri : Uri
  mark : Option Nat
  deriving DecidableEq, Repr

inductive Fault where
  | nullMark
  deriving DecidableEq, Repr

/-- `std::string(mark, p - mark)` -/
def text (input : Bytes) (p : Nat) (s : Scan) : Except Fault Bytes :=
  match s.mark with
  | some mark => .ok ((input.drop mark).take (p - mark))
  | none => .error .nullMark

def act (input : Bytes) (p : Nat) (s : Scan) : Act → Except Fault Scan
  | .marku => .ok { s with mark := some p }
  | .markh => .ok { s with mark := some p }
  | .saveScheme => (text input p s).map fun v => ⟨{ s.uri with scheme := v }, none⟩
  | .savePort =>
    match s.mark with
    | some mark =>
      if p ≠ mark then .ok ⟨{ s.uri with port := atoi (input.drop mark) }, none⟩
      else .ok { s with mark := none }
    | none => .error .nullMark
  | .saveUserinfo =>
    if s.mark.isSome then (text input p s).map fun v => ⟨{ s.uri with userinfo := v }, none⟩
    else .ok { s with mark := none }
  | .saveHost =>
    if s.mark.isSome then (text input p s).map fun v => { s with uri := { s.uri with host := v } } else .ok s
  | .savePath => (text input p s).map fun v => ⟨{ s.uri with path := v }, none⟩
  | .saveQuery => (text input p s).map fun v => ⟨{ s.uri with query := v }, none⟩
  | .saveFragment => (text input p s).map fun v => ⟨{ s.uri with fragment := v }, none⟩

/-- What `Create` does behind the bytes of the input. -/
def finish (input : Bytes) (cs p : Nat) (s : Scan) : Except Fault (Option Uri) := do
  let s ← if p = input.length then (eofActs cs).foldlM (act input p) s else .ok s
  .ok (if cs = error then none else if cs ≥ firstFinal then some s.uri else none)

/-- What `Create` does from state `cs` at `p` on. -/
def resume (input : Bytes) (cs p : Nat) (s : Scan) : Except Fault (Option Uri) := do
  let (cs, p, s) ← machine.exec (act input) cs p s (input.drop p)
  finish input cs p s

def Create (uristr : Bytes) : Except Fault (Option Uri) := resume uristr start 0 ⟨new, none⟩

/-! ## Steps of a run -/

/-- `p` is inside of the input and `rest` is what is left of it. -/
structure At (input : Bytes) (p : Nat) (rest : Bytes) : Prop where
  le : p ≤ input.length
  drop : input.drop p = rest

section

variable {input w rest : Bytes} {cs t p : Nat} {s s' : Scan} {acts : List Act} {b : UInt8}

theorem At.skip (h : At input p (w ++ rest)) : At input (p + w.length) rest := by
  have hlen := congrArg List.length h.drop
  rw [List.length_drop, List.length_append] at hlen
  refine ⟨?_, ?_⟩
  · have := h.le
    omega
  · rw [← List.drop_drop, h.drop, List.drop_left]

theorem At.next (h : At input p (b :: rest)) : At input (p + 1) rest := At.skip (w := [b]) h

theorem At.length (h : At input p []) : p = input.length :=
  Nat.le_antisymm h.le (List.drop_eq_nil_iff.1 h.drop)

/-- The text from a mark to the present. -/
theorem text_at (u : Uri) (h : At input p (w ++ rest)) : text input (p + w.length) ⟨u, some p⟩ = .ok w := by
  simp only [text]
  rw [h.drop, Nat.add_sub_cancel_left, List.take_left]

theorem resume_quiet (h : At input p (w ++ rest)) (hq : machine.quiet cs w = some t) :
    resume input cs p s = resume input t (p + w.length) s := by
  rw [resume, resume, h.drop, machine.exec_quiet _ hq, h.skip.drop]

theorem resume_step (h : At input p (b :: rest)) (hn : machine.next cs b = some (acts, t))
    (ha : acts.foldlM (act input p) s = .ok s') : resume input cs p s = resume input t (p + 1) s' := by
  have hbreak : acts.any machine.breaks = false := by simp [machine]
  rw [resume, resume, h.drop, h.next.drop, Machine.exec, hn]
  simp only [ha, hbreak, bind, Except.bind]
  rfl

theorem resume_end (h : At input p []) (hfinal : firstFinal ≤ cs)
    (ha : (eofActs cs).foldlM (act input p) s = .ok s') : resume input cs p s = .ok (some s'.uri) := by
  have herr : cs ≠ error := fun he => absurd (he ▸ hfinal) (by decide)
  have hp := h.length
  rw [resume, h.drop, Machine.exec]
  show finish input cs p s = _
  rw [finish, if_pos hp, ha]
  simp only [bind, Except.bind, if_neg herr, if_pos hfinal]

end

end Uri

end Linko
