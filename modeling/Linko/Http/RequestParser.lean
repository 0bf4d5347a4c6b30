import Linko.Http.Message
import Linko.Http.RequestMachine
/-!
# The request parser

`http_parser` with the actions of `http11_parser.rl`, and `HttpRequestParser`
with its callbacks. The marks are offsets into the buffer of the current call:
`http_parser_execute` sets all of them but `query_start` back at its start.
-/

namespace Linko.Http

open CString Ragel RequestMachine

/-- `http_parser`. `http_parser_init` leaves `query_start` and `uri_relaxed`
as they are: the first is `none` until it is set, the second a parameter. -/
structure HttpParser where
  cs : Nat
  bodyStart : Nat
  contentLen : Int
  nread : Nat
  mark : Nat
  fieldStart : Nat
  fieldLen : Nat
  queryStart : Option Nat
  xmlSent : Bool
  jsonSent : Bool
  uriRelaxed : Bool
  deriving DecidableEq, Repr

structure HttpRequestParser where
  parser : HttpParser
  data : HttpRequest
  /-- `m_error`: 1000 invalid method, 1001 invalid version, 1002 invalid field. -/
  error : Int

def httpParserInit (uriRelaxed : Bool) : HttpParser where
  cs := start
  bodyStart := 0
  contentLen := 0
  nread := 0
  mark := 0
  fieldStart := 0
  fieldLen := 0
  queryStart := none
  xmlSent := false
  jsonSent := false
  uriRelaxed := uriRelaxed

namespace HttpRequestParser

def new (uriRelaxed : Bool) : HttpRequestParser := ⟨httpParserInit uriRelaxed, HttpRequest.new, 0⟩

def setError (s : HttpRequestParser) (v : Int) : HttpRequestParser := { s with error := v }

/-! ## Callbacks -/

section

variable (s : HttpRequestParser) (buffer : Bytes)

def onRequestMethod (at_ _length : Nat) : HttpRequestParser :=
  let m := charsToHttpMethod (buffer.drop at_)
  if m = .invalidMethod then s.setError 1000 else { s with data := { s.data with method := m } }

def onRequestFragment (at_ length : Nat) : Except Fault HttpRequestParser := do
  let v ← mkString buffer at_ length
  .ok { s with data := { s.data with fragment := v } }

def onRequestPath (at_ length : Nat) : Except Fault HttpRequestParser := do
  let v ← mkString buffer at_ length
  .ok { s with data := { s.data with path := v } }

def onRequestQuery (at_ length : Nat) : Except Fault HttpRequestParser := do
  let v ← mkString buffer at_ length
  .ok { s with data := { s.data with query := v } }

def onRequestVersion (at_ length : Nat) : HttpRequestParser :=
  if strncmpEq (buffer.drop at_) (ascii "HTTP/1.1") length then
    { s with data := { s.data with version := 0x11 } }
  else if strncmpEq (buffer.drop at_) (ascii "HTTP/1.0") length then
    { s with data := { s.data with version := 0x10 } }
  else s.setError 1001

def onRequestHttpField (field flen value vlen : Nat) : Except Fault HttpRequestParser :=
  if flen = 0 then .ok (s.setError 1002)
  else do
    let k ← mkString buffer field flen
    let v ← mkString buffer value vlen
    .ok { s with data := s.data.setHeader k v }

end

/-! ## Actions -/

/-- The actions of the grammar at offset `p`. `on_request_uri` and
`on_request_header_done` do nothing. -/
def action (buffer : Bytes) (p : Nat) (s : HttpRequestParser) : Act → Except Fault HttpRequestParser
  | .mark => .ok { s with parser := { s.parser with mark := p } }
  | .startField => .ok { s with parser := { s.parser with fieldStart := p } }
  | .writeField => .ok { s with parser := { s.parser with fieldLen := sizeSub p s.parser.fieldStart } }
  | .startValue => .ok { s with parser := { s.parser with mark := p } }
  | .writeValue =>
    s.onRequestHttpField buffer s.parser.fieldStart s.parser.fieldLen s.parser.mark (sizeSub p s.parser.mark)
  | .requestMethod => .ok (s.onRequestMethod buffer s.parser.mark (sizeSub p s.parser.mark))
  | .requestUri => .ok s
  | .fragment => s.onRequestFragment buffer s.parser.mark (sizeSub p s.parser.mark)
  | .startQuery => .ok { s with parser := { s.parser with queryStart := some p } }
  | .queryString =>
    match s.parser.queryStart with
    | none => .error .indeterminate
    | some q => s.onRequestQuery buffer q (sizeSub p q)
  | .httpVersion => .ok (s.onRequestVersion buffer s.parser.mark (sizeSub p s.parser.mark))
  | .requestPath => s.onRequestPath buffer s.parser.mark (sizeSub p s.parser.mark)
  | .done =>
    if s.parser.xmlSent || s.parser.jsonSent then
      .ok { s with parser := { s.parser with
        bodyStart := s.parser.mark
        contentLen := toInt (p - s.parser.mark + 1) } }
    else .ok { s with parser := { s.parser with bodyStart := p + 1 } }
  | .xml => .ok { s with parser := { s.parser with xmlSent := true } }
  | .json => .ok { s with parser := { s.parser with jsonSent := true } }

/-! ## Running the machine -/

/-- What `http_parser_execute` sets before it starts the machine. -/
def rewind (s : HttpRequestParser) (len : Nat) : HttpRequestParser :=
  { s with parser := { s.parser with nread := 0, mark := 0, fieldLen := len, fieldStart := 0 } }

/-- The assertions behind the machine. -/
def checks (s : HttpRequestParser) (len : Nat) : Bool :=
  s.parser.nread ≤ len && s.parser.bodyStart ≤ len && s.parser.mark < len && s.parser.fieldLen ≤ len &&
    s.parser.fieldStart < len

/-- `http_parser_execute`, with `off` 0 as in its only call. -/
def httpParserExecute (s : HttpRequestParser) (buffer : Bytes) : Except Fault (HttpRequestParser × Nat) :=
  let len := buffer.length
  if len = 0 then .ok (s, 0)
  else if toInt len ≠ len then .error .assertion
  else do
    let s := s.rewind len
    let (cs, p, s) ← (machine s.parser.uriRelaxed).exec (action buffer) s.parser.cs 0 s buffer
    let s := if s.parser.cs ≠ RequestMachine.error then { s with parser := { s.parser with cs := cs } } else s
    let s := { s with parser := { s.parser with nread := s.parser.nread + p } }
    if s.checks len then .ok (s, s.parser.nread) else .error .assertion

/-- `execute`: the parser, the number of bytes parsed and what `memmove`
leaves at the start of the buffer. -/
def execute (s : HttpRequestParser) (data : Bytes) : Except Fault (HttpRequestParser × Nat × Bytes) := do
  let (s, offset) ← s.httpParserExecute data
  .ok (s, offset, data.drop offset)

theorem execute_data {s s' : HttpRequestParser} {data data' : Bytes} {n : Nat}
    (h : s.execute data = .ok (s', n, data')) : data' = data.drop n := by
  obtain ⟨⟨t, m⟩, -, h⟩ := bind_ok h
  simp only [Except.ok.injEq, Prod.mk.injEq] at h
  rw [← h.2.2, h.2.1]

/-- `http_parser_finish` -/
def isFinished (s : HttpRequestParser) : Int :=
  if s.parser.cs = RequestMachine.error then -1 else if s.parser.cs ≥ firstFinal then 1 else 0

def hasError (s : HttpRequestParser) : Bool := s.error ≠ 0 || s.parser.cs = RequestMachine.error

/-- `cast` is `boost::lexical_cast<uint64_t>`. -/
def getContentLength (cast : Bytes → Option UInt64) (s : HttpRequestParser) : UInt64 :=
  s.data.headers.getAs cast (ascii "content-length") 0

/-! ## What the actions leave alone -/

theorem onRequestMethod_keeps (s : HttpRequestParser) (buffer : Bytes) (a n : Nat) :
    (s.onRequestMethod buffer a n).parser = s.parser := by
  unfold onRequestMethod
  dsimp only
  split <;> rfl

theorem onRequestVersion_keeps (s : HttpRequestParser) (buffer : Bytes) (a n : Nat) :
    (s.onRequestVersion buffer a n).parser = s.parser := by
  unfold onRequestVersion
  split
  · rfl
  · split <;> rfl

/-- The callbacks that store a string. -/
theorem store_keeps {r : Except Fault Bytes} {f : Bytes → HttpRequestParser} {s s' : HttpRequestParser}
    (hf : ∀ v, (f v).parser = s.parser) (h : (do let v ← r; .ok (f v)) = Except.ok (ε := Fault) s') :
    s'.parser = s.parser := by
  obtain ⟨v, -, hv⟩ := bind_ok h
  rw [Except.ok.injEq] at hv
  exact hv ▸ hf v

theorem onRequestHttpField_keeps {s s' : HttpRequestParser} {buffer : Bytes} {f n a m : Nat}
    (h : s.onRequestHttpField buffer f n a m = .ok s') : s'.parser = s.parser := by
  unfold onRequestHttpField at h
  split at h
  · rw [Except.ok.injEq] at h
    exact h ▸ rfl
  · obtain ⟨k, -, h⟩ := bind_ok h
    exact store_keeps (f := fun v => { s with data := s.data.setHeader k v }) (fun _ => rfl) h

/-- What an action does to the marks. -/
def moved (p : Nat) (q : HttpParser) : Act → HttpParser
  | .mark | .startValue => { q with mark := p }
  | .startField => { q with fieldStart := p }
  | .writeField => { q with fieldLen := sizeSub p q.fieldStart }
  | .startQuery => { q with queryStart := some p }
  | .done =>
    if q.xmlSent || q.jsonSent then { q with bodyStart := q.mark, contentLen := toInt (p - q.mark + 1) }
    else { q with bodyStart := p + 1 }
  | .xml => { q with xmlSent := true }
  | .json => { q with jsonSent := true }
  | _ => q

theorem action_moves {buffer : Bytes} {p : Nat} {s s' : HttpRequestParser} {a : Act}
    (h : action buffer p s a = .ok s') : s'.parser = moved p s.parser a := by
  cases a with
  | mark | startField | writeField | startValue | startQuery | xml | json | requestUri =>
    rw [action, Except.ok.injEq] at h
    rw [← h]
    rfl
  | writeValue => exact onRequestHttpField_keeps h
  | requestMethod =>
    rw [action, Except.ok.injEq] at h
    rw [← h]
    exact onRequestMethod_keeps s buffer _ _
  | httpVersion =>
    rw [action, Except.ok.injEq] at h
    rw [← h]
    exact onRequestVersion_keeps s buffer _ _
  | fragment =>
    exact store_keeps (f := fun v => { s with data := { s.data with fragment := v } }) (fun _ => rfl) h
  | requestPath =>
    exact store_keeps (f := fun v => { s with data := { s.data with path := v } }) (fun _ => rfl) h
  | queryString =>
    rw [action] at h
    split at h
    · cases h
    · exact store_keeps (f := fun v => { s with data := { s.data with query := v } }) (fun _ => rfl) h
  | done =>
    rw [action] at h
    rw [moved]
    split at h <;> rename_i hx <;> simp only [hx, if_true, Bool.false_eq_true, if_false] <;>
    · rw [Except.ok.injEq] at h
      rw [← h]

/-! ## A call that goes well -/

/-- The marks of a run up to offset `p` of a buffer of `len` bytes. -/
structure Bounded (len : Nat) (q₀ : HttpParser) (p : Nat) (q : HttpParser) : Prop where
  mark_le : q.mark ≤ p
  fieldStart_le : q.fieldStart ≤ p
  mark_lt : q.mark < len
  fieldStart_lt : q.fieldStart < len
  fieldLen_le : q.fieldLen ≤ len
  bodyStart_le : q.bodyStart ≤ len
  nread_eq : q.nread = 0
  cs_eq : q.cs = q₀.cs

theorem Bounded.moved {len p : Nat} {q₀ q : HttpParser} (h : Bounded len q₀ p q) (hp : p < len) (a : Act) :
    Bounded len q₀ p (moved p q a) := by
  obtain ⟨hm, hf, hml, hfl, hl, hb, hn, hc⟩ := h
  cases a with
  | mark | startValue => exact ⟨Nat.le_refl p, hf, hp, hfl, hl, hb, hn, hc⟩
  | startField => exact ⟨hm, Nat.le_refl p, hml, hp, hl, hb, hn, hc⟩
  | writeField =>
    refine ⟨hm, hf, hml, hfl, ?_, hb, hn, hc⟩
    show sizeSub p q.fieldStart ≤ len
    rw [sizeSub, if_pos hf]
    omega
  | done =>
    unfold HttpRequestParser.moved
    dsimp only
    split
    · exact ⟨hm, hf, hml, hfl, hl, hml.le, hn, hc⟩
    · exact ⟨hm, hf, hml, hfl, hl, hp, hn, hc⟩
  | _ => exact ⟨hm, hf, hml, hfl, hl, hb, hn, hc⟩

/-- If the callbacks of the run go well, no assertion fails. -/
theorem execute_ok {s s' : HttpRequestParser} {data : Bytes} (hpos : 0 < data.length)
    (hlen : data.length < 2 ^ 31)
    (hcs : s.parser.cs ≠ RequestMachine.error) (hbody : s.parser.bodyStart ≤ data.length)
    (hrun : runEvents (action data) 0 ((machine s.parser.uriRelaxed).trace s.parser.cs data).events
      (s.rewind data.length) = .ok s') :
    s.execute data = .ok
      ({ s' with parser := { s'.parser with
          cs := ((machine s.parser.uriRelaxed).trace s.parser.cs data).state
          nread := ((machine s.parser.uriRelaxed).trace s.parser.cs data).used } },
        ((machine s.parser.uriRelaxed).trace s.parser.cs data).used,
        data.drop ((machine s.parser.uriRelaxed).trace s.parser.cs data).used) := by
  have hused := (machine s.parser.uriRelaxed).trace_used_le s.parser.cs data
  have htimed := (machine s.parser.uriRelaxed).trace_timed s.parser.cs data
  have hexec := (machine s.parser.uriRelaxed).exec_eq (action data) s.parser.cs 0 (s.rewind data.length) data
  generalize (machine s.parser.uriRelaxed).trace s.parser.cs data = tr at hused htimed hrun hexec ⊢
  have hb : Bounded data.length s.parser tr.used s'.parser := by
    refine htimed.run (I := fun p u => Bounded data.length s.parser p u.parser) (fun q r u hqr h => ?_)
      (fun q a u u' hq h hact => ?_) ?_ hrun
    · exact ⟨h.mark_le.trans hqr, h.fieldStart_le.trans hqr, h.mark_lt, h.fieldStart_lt, h.fieldLen_le,
        h.bodyStart_le, h.nread_eq, h.cs_eq⟩
    · rw [Nat.zero_add] at hact
      rw [action_moves hact]
      exact h.moved (by omega) a
    · exact ⟨Nat.le_refl 0, Nat.le_refl 0, hpos, hpos, Nat.le_refl _, hbody, rfl, rfl⟩
  have hc : s'.parser.cs ≠ RequestMachine.error := hb.cs_eq ▸ hcs
  rw [hrun] at hexec
  have hchecks :
      checks { s' with parser := { s'.parser with cs := tr.state, nread := tr.used } } data.length = true := by
    simp only [checks, Bool.and_eq_true, decide_eq_true_eq]
    exact ⟨⟨⟨⟨hused, hb.bodyStart_le⟩, hb.mark_lt⟩, hb.fieldLen_le⟩, hb.fieldStart_lt⟩
  have hexec' : (machine (s.rewind data.length).parser.uriRelaxed).exec (action data)
      (s.rewind data.length).parser.cs 0 (s.rewind data.length) data = .ok (tr.state, tr.used, s') := by
    rw [← Nat.zero_add tr.used]
    exact hexec
  simp only [execute, httpParserExecute, if_neg (show data.length ≠ 0 by omega), toInt_natCast hlen, ne_eq,
    not_true_eq_false, if_false, hexec']
  simp only [bind, Except.bind, hc, not_false_eq_true, if_true, hb.nread_eq, Nat.zero_add, hchecks]

/-- A call that goes well has run its callbacks. -/
theorem execute_run {s s' : HttpRequestParser} {data data' : Bytes} {n : Nat} (hpos : data.length ≠ 0)
    (hcs : s.parser.cs ≠ RequestMachine.error) (h : s.execute data = .ok (s', n, data')) :
    data.length < 2 ^ 31 ∧ n = ((machine s.parser.uriRelaxed).trace s.parser.cs data).used ∧
      s'.parser.cs = ((machine s.parser.uriRelaxed).trace s.parser.cs data).state ∧
      ∃ s₁, runEvents (action data) 0 ((machine s.parser.uriRelaxed).trace s.parser.cs data).events
        (s.rewind data.length) = .ok s₁ ∧ s'.data = s₁.data ∧ s'.error = s₁.error := by
  obtain ⟨⟨t, m⟩, hp, h⟩ := bind_ok h
  simp only [Except.ok.injEq, Prod.mk.injEq] at h
  obtain ⟨rfl, rfl, -⟩ := h
  unfold httpParserExecute at hp
  rw [if_neg hpos] at hp
  split at hp
  · cases hp
  · rename_i hlen
    obtain ⟨⟨cs, p, s₁⟩, hexec, hp⟩ := bind_ok hp
    rw [Machine.exec_eq] at hexec
    obtain ⟨s₂, hrun, hexec⟩ := bind_ok hexec
    simp only [Except.ok.injEq, Prod.mk.injEq] at hexec
    obtain ⟨rfl, rfl, rfl⟩ := hexec
    have hkeep : s₂.parser.cs = s.parser.cs ∧ s₂.parser.nread = 0 := by
      refine runEvents_inv (I := fun u => u.parser.cs = s.parser.cs ∧ u.parser.nread = 0)
        (fun e _ u u' hu hact => ?_)
        (s := s.rewind data.length) ⟨rfl, rfl⟩ hrun
      rw [action_moves hact]
      cases e.2 <;> first | exact hu | (unfold moved; dsimp only; split <;> exact hu)
    have hlive : s₂.parser.cs ≠ RequestMachine.error := hkeep.1 ▸ hcs
    dsimp only at hp
    rw [if_pos hlive] at hp
    split at hp
    · simp only [Except.ok.injEq, Prod.mk.injEq] at hp
      obtain ⟨rfl, rfl⟩ := hp
      refine ⟨?_, ?_, rfl, s₂, hrun, rfl, rfl⟩
      · have := toInt_lt data.length
        have := not_not.1 hlen
        omega
      · simp only [hkeep.2, Nat.zero_add]
        rfl
    · cases hp

end HttpRequestParser

end Linko.Http
