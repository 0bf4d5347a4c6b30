import Linko.Http.Message
import Linko.Http.ResponseMachine
/-!
# The response parser

`httpclient_parser` with the actions of `httpclient_parser.rl`, and
`HttpResponseParser` with its callbacks. Here every call sets all marks back.
The callers put a NUL behind the data, as the first assertion wants.
-/

namespace Linko.Http

open CString Ragel ResponseMachine

structure HttpClientParser where
  cs : Nat
  bodyStart : Nat
  contentLen : Int
  /-- Not set by `httpclient_parser_init`. -/
  status : Option Int
  chunked : Bool
  chunksDone : Bool
  close : Bool
  nread : Nat
  mark : Nat
  fieldStart : Nat
  fieldLen : Nat
  deriving DecidableEq, Repr

structure HttpResponseParser where
  parser : HttpClientParser
  data : HttpResponse
  error : Int

def httpClientParserInit (status : Option Int) : HttpClientParser where
  cs := start
  bodyStart := 0
  contentLen := -1
  status := status
  chunked := false
  chunksDone := false
  close := false
  nread := 0
  mark := 0
  fieldStart := 0
  fieldLen := 0

namespace HttpResponseParser

def new : HttpResponseParser := ⟨httpClientParserInit none, HttpResponse.new, 0⟩

def setError (s : HttpResponseParser) (v : Int) : HttpResponseParser := { s with error := v }

/-! ## Callbacks -/

section

variable (s : HttpResponseParser) (buffer : Bytes)

def onResponseReason (at_ length : Nat) : Except Fault HttpResponseParser := do
  let v ← mkString buffer at_ length
  .ok { s with data := { s.data with reason := v } }

def onResponseStatus (at_ _length : Nat) : HttpResponseParser :=
  { s with data := { s.data with status := atoi (buffer.drop at_) } }

def onResponseVersion (at_ length : Nat) : HttpResponseParser :=
  if strncmpEq (buffer.drop at_) (ascii "HTTP/1.1") length then
    { s with data := { s.data with version := 0x11 } }
  else if strncmpEq (buffer.drop at_) (ascii "HTTP/1.0") length then
    { s with data := { s.data with version := 0x10 } }
  else s.setError 1001

def onResponseHttpField (field flen value vlen : Nat) : Except Fault HttpResponseParser :=
  if flen = 0 then .ok (s.setError 1002)
  else do
    let k ← mkString buffer field flen
    let v ← mkString buffer value vlen
    .ok { s with data := s.data.setHeader k v }

end

/-! ## Actions -/

/-- The actions of the grammar at offset `p`. The callbacks for chunks and for
the end of the header do nothing. -/
def action (buffer : Bytes) (p : Nat) (s : HttpResponseParser) : Act → Except Fault HttpResponseParser
  | .mark => .ok { s with parser := { s.parser with mark := p } }
  | .startField => .ok { s with parser := { s.parser with fieldStart := p } }
  | .writeField => .ok { s with parser := { s.parser with fieldLen := sizeSub p s.parser.fieldStart } }
  | .startValue => .ok { s with parser := { s.parser with mark := p } }
  | .writeContentLen =>
    .ok { s with parser := { s.parser with contentLen := toInt (strtol (buffer.drop s.parser.mark) 10) } }
  | .writeConnectionClose => .ok { s with parser := { s.parser with close := true } }
  | .writeValue =>
    s.onResponseHttpField buffer s.parser.fieldStart s.parser.fieldLen s.parser.mark (sizeSub p s.parser.mark)
  | .reasonPhrase => s.onResponseReason buffer s.parser.mark (sizeSub p s.parser.mark)
  | .statusCode =>
    let s :=
      { s with parser := { s.parser with status := some (toInt (strtol (buffer.drop s.parser.mark) 10)) } }
    .ok (s.onResponseStatus buffer s.parser.mark (sizeSub p s.parser.mark))
  | .httpVersion => .ok (s.onResponseVersion buffer s.parser.mark (sizeSub p s.parser.mark))
  | .chunkSize =>
    let contentLen := toInt (strtol (buffer.drop s.parser.mark) 16)
    .ok { s with parser :=
      { s.parser with chunked := true, contentLen := contentLen, chunksDone := contentLen ≤ 0 } }
  | .transChunked => .ok { s with parser := { s.parser with chunked := true } }
  | .done => .ok { s with parser := { s.parser with bodyStart := p + 1 } }

/-! ## Running the machine -/

def rewind (s : HttpResponseParser) (len : Nat) : HttpResponseParser :=
  { s with parser := { s.parser with nread := 0, mark := 0, fieldLen := len, fieldStart := 0 } }

/-- `httpclient_parser_execute` with `off` 0. When one of its last three
checks fails it returns -1, here `none`. -/
def httpClientParserExecute (s : HttpResponseParser) (buffer : Bytes) :
    Except Fault (HttpResponseParser × Option Nat) :=
  let len := buffer.length
  let s := s.rewind len
  if toInt len ≠ len then .error .assertion
  else do
    let (cs, p, s) ← machine.exec (action buffer) s.parser.cs 0 s buffer
    let s := { s with parser := { s.parser with cs := cs, nread := s.parser.nread + p } }
    if s.parser.nread ≤ len ∧ s.parser.bodyStart ≤ len then
      if s.parser.mark < len ∧ s.parser.fieldLen ≤ len ∧ s.parser.fieldStart < len then
        .ok (s, some s.parser.nread)
      else .ok (s, none)
    else .error .assertion

/-- `execute`, with what `memmove` leaves at the start of the buffer; after a
-1 the `memmove` runs out of the buffer. -/
def execute (s : HttpResponseParser) (data : Bytes) (chunck : Bool) :
    Except Fault (HttpResponseParser × Nat × Bytes) := do
  let s := if chunck then { s with parser := httpClientParserInit s.parser.status } else s
  match ← s.httpClientParserExecute data with
  | (s, some offset) => .ok (s, offset, data.drop offset)
  | (_, none) => .error .outOfBounds

theorem execute_data {s s' : HttpResponseParser} {data data' : Bytes} {chunck : Bool} {n : Nat}
    (h : s.execute data chunck = .ok (s', n, data')) : data' = data.drop n := by
  obtain ⟨⟨t, m⟩, -, h⟩ := bind_ok h
  cases m with
  | none => cases h
  | some m =>
    simp only [Except.ok.injEq, Prod.mk.injEq] at h
    rw [← h.2.2, h.2.1]

/-- `httpclient_parser_finish`: only the first final state counts. -/
def isFinished (s : HttpResponseParser) : Int :=
  if s.parser.cs = ResponseMachine.error then -1 else if s.parser.cs = firstFinal then 1 else 0

def hasError (s : HttpResponseParser) : Bool := s.error ≠ 0 || s.parser.cs = ResponseMachine.error

def getContentLength (cast : Bytes → Option UInt64) (s : HttpResponseParser) : UInt64 :=
  s.data.headers.getAs cast (ascii "content-length") 0

/-! ## What the actions leave alone -/

/-- What an action does to the marks; the numbers it reads are in `buffer`. -/
def moved (buffer : Bytes) (p : Nat) (q : HttpClientParser) : Act → HttpClientParser
  | .mark | .startValue => { q with mark := p }
  | .startField => { q with fieldStart := p }
  | .writeField => { q with fieldLen := sizeSub p q.fieldStart }
  | .writeContentLen => { q with contentLen := toInt (strtol (buffer.drop q.mark) 10) }
  | .writeConnectionClose => { q with close := true }
  | .statusCode => { q with status := some (toInt (strtol (buffer.drop q.mark) 10)) }
  | .chunkSize =>
    { q with
      chunked := true
      contentLen := toInt (strtol (buffer.drop q.mark) 16)
      chunksDone := toInt (strtol (buffer.drop q.mark) 16) ≤ 0 }
  | .transChunked => { q with chunked := true }
  | .done => { q with bodyStart := p + 1 }
  | .writeValue | .reasonPhrase | .httpVersion => q

theorem onResponseVersion_keeps (s : HttpResponseParser) (buffer : Bytes) (a n : Nat) :
    (s.onResponseVersion buffer a n).parser = s.parser := by
  unfold onResponseVersion
  split
  · rfl
  · split <;> rfl

theorem onResponseHttpField_keeps {s s' : HttpResponseParser} {buffer : Bytes} {f n a m : Nat}
    (h : s.onResponseHttpField buffer f n a m = .ok s') : s'.parser = s.parser := by
  unfold onResponseHttpField at h
  split at h
  · rw [Except.ok.injEq] at h
    exact h ▸ rfl
  · obtain ⟨k, -, h⟩ := bind_ok h
    obtain ⟨v, -, h⟩ := bind_ok h
    rw [Except.ok.injEq] at h
    exact h ▸ rfl

theorem action_moves {buffer : Bytes} {p : Nat} {s s' : HttpResponseParser} {a : Act}
    (h : action buffer p s a = .ok s') : s'.parser = moved buffer p s.parser a := by
  cases a with
  | writeValue => exact onResponseHttpField_keeps h
  | reasonPhrase =>
    obtain ⟨v, -, h⟩ := bind_ok h
    rw [Except.ok.injEq] at h
    exact h ▸ rfl
  | httpVersion =>
    rw [action, Except.ok.injEq] at h
    exact h ▸ onResponseVersion_keeps s buffer _ _
  | _ =>
    rw [action, Except.ok.injEq] at h
    exact h ▸ rfl

/-! ## A call that goes well -/

structure Bounded (len : Nat) (q₀ : HttpClientParser) (p : Nat) (q : HttpClientParser) : Prop where
  mark_le : q.mark ≤ p
  fieldStart_le : q.fieldStart ≤ p
  mark_lt : q.mark < len
  fieldStart_lt : q.fieldStart < len
  fieldLen_le : q.fieldLen ≤ len
  bodyStart_le : q.bodyStart ≤ len
  nread_eq : q.nread = 0
  cs_eq : q.cs = q₀.cs

theorem Bounded.moved {len p : Nat} {q₀ q : HttpClientParser} (h : Bounded len q₀ p q) (hp : p < len)
    (buffer : Bytes)
    (a : Act) : Bounded len q₀ p (moved buffer p q a) := by
  obtain ⟨hm, hf, hml, hfl, hl, hb, hn, hc⟩ := h
  cases a with
  | mark | startValue => exact ⟨Nat.le_refl p, hf, hp, hfl, hl, hb, hn, hc⟩
  | startField => exact ⟨hm, Nat.le_refl p, hml, hp, hl, hb, hn, hc⟩
  | writeField =>
    refine ⟨hm, hf, hml, hfl, ?_, hb, hn, hc⟩
    show sizeSub p q.fieldStart ≤ len
    rw [sizeSub, if_pos hf]
    omega
  | done => exact ⟨hm, hf, hml, hfl, hl, hp, hn, hc⟩
  | _ => exact ⟨hm, hf, hml, hfl, hl, hb, hn, hc⟩

/-- If the callbacks of the run go well, no assertion or check fails. -/
theorem execute_ok {s s' : HttpResponseParser} {data : Bytes} (hpos : 0 < data.length)
    (hlen : data.length < 2 ^ 31)
    (hbody : s.parser.bodyStart ≤ data.length)
    (hrun : runEvents (action data) 0 (machine.trace s.parser.cs data).events (s.rewind data.length) = .ok s') :
    s.execute data false = .ok
      ({ s' with parser := { s'.parser with
          cs := (machine.trace s.parser.cs data).state
          nread := (machine.trace s.parser.cs data).used } },
        (machine.trace s.parser.cs data).used, data.drop (machine.trace s.parser.cs data).used) := by
  have hused := machine.trace_used_le s.parser.cs data
  have htimed := machine.trace_timed s.parser.cs data
  have hexec := machine.exec_eq (action data) s.parser.cs 0 (s.rewind data.length) data
  generalize machine.trace s.parser.cs data = tr at hused htimed hrun hexec ⊢
  have hb : Bounded data.length s.parser tr.used s'.parser := by
    refine htimed.run (I := fun p u => Bounded data.length s.parser p u.parser) (fun q r u hqr h => ?_)
      (fun q a u u' hq h hact => ?_) ?_ hrun
    · exact ⟨h.mark_le.trans hqr, h.fieldStart_le.trans hqr, h.mark_lt, h.fieldStart_lt, h.fieldLen_le,
        h.bodyStart_le, h.nread_eq, h.cs_eq⟩
    · rw [Nat.zero_add] at hact
      rw [action_moves hact]
      exact h.moved (by omega) data a
    · exact ⟨Nat.le_refl 0, Nat.le_refl 0, hpos, hpos, Nat.le_refl _, hbody, rfl, rfl⟩
  rw [hrun] at hexec
  have hexec' : machine.exec (action data) (s.rewind data.length).parser.cs 0 (s.rewind data.length) data =
      .ok (tr.state, tr.used, s') := by
    rw [← Nat.zero_add tr.used]
    exact hexec
  simp only [execute, httpClientParserExecute, toInt_natCast hlen, ne_eq, not_true_eq_false, if_false,
    Bool.false_eq_true, hexec']
  simp only [bind, Except.bind, hb.nread_eq, Nat.zero_add, hused, hb.bodyStart_le, hb.mark_lt, hb.fieldLen_le,
    hb.fieldStart_lt, and_self, if_true]

/-- A call that goes well has run its callbacks. -/
theorem execute_run {s s' : HttpResponseParser} {data data' : Bytes} {n : Nat}
    (h : s.execute data false = .ok (s', n, data')) :
    data.length < 2 ^ 31 ∧ n = (machine.trace s.parser.cs data).used ∧
      s'.parser.cs = (machine.trace s.parser.cs data).state ∧
      ∃ s₁, runEvents (action data) 0 (machine.trace s.parser.cs data).events (s.rewind data.length) = .ok s₁ ∧
        s'.error = s₁.error ∧ s'.parser.chunked = s₁.parser.chunked := by
  obtain ⟨⟨t, m⟩, hp, h⟩ := bind_ok h
  cases m with
  | none => cases h
  | some m =>
    simp only [Except.ok.injEq, Prod.mk.injEq] at h
    obtain ⟨rfl, rfl, -⟩ := h
    simp only [httpClientParserExecute, Bool.false_eq_true, if_false] at hp
    split at hp
    · cases hp
    · rename_i hlen
      obtain ⟨⟨cs, p, s₁⟩, hexec, hp⟩ := bind_ok hp
      rw [machine.exec_eq] at hexec
      obtain ⟨s₂, hrun, hexec⟩ := bind_ok hexec
      simp only [Except.ok.injEq, Prod.mk.injEq] at hexec
      obtain ⟨rfl, rfl, rfl⟩ := hexec
      have hread : s₂.parser.nread = 0 := by
        refine runEvents_inv (I := fun u => u.parser.nread = 0) (fun e _ u u' hu hact => ?_)
          (s := s.rewind data.length) rfl hrun
        rw [action_moves hact]
        cases e.2 <;> exact hu
      split at hp
      · split at hp
        · simp only [Except.ok.injEq, Prod.mk.injEq, Option.some.injEq] at hp
          obtain ⟨rfl, rfl⟩ := hp
          refine ⟨?_, ?_, rfl, s₂, hrun, rfl, rfl⟩
          · have := toInt_lt data.length
            have := not_not.1 hlen
            omega
          · rw [hread, Nat.zero_add, Nat.zero_add]
            rfl
        · simp at hp
      · cases hp

end HttpResponseParser

end Linko.Http
