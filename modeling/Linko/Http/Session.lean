import Linko.Http.Stream
import Linko.Http.RequestParser
/-!
# Receiving requests

`HttpSession::recvRequest`, and the calls of it that `HttpServer::handleClient`
makes one after the other. The buffer belongs to one call: bytes behind the
request it returns are gone.
-/

namespace Linko.Http

open CString

namespace HttpSession

/-- The loop of `recvRequest`; `data` holds the `offset` bytes at the start of
the buffer. It ends with the parser and the bytes behind the header block. -/
def recvLoop (buffSize : Nat) (parser : HttpRequestParser) (data : Bytes) (w : Wire) :
    Recv (HttpRequestParser × Bytes × Wire) :=
  match _hr : w.read (sizeSub buffSize data.length) with
  | none => .waiting
  | some (bs, w') =>
    if _hbs : bs.length = 0 then .closed
    else
      match parser.execute (data ++ bs) with
      | .error f => .fault f
      | .ok (parser, _nparse, data) =>
        if parser.hasError then .closed
        else if (data.length : Int) = toInt buffSize then .closed
        else if parser.isFinished ≠ 0 then .returned (parser, data, w')
        else recvLoop buffSize parser data w'
termination_by w.size
decreasing_by exact Wire.read_size _hr _hbs

/-- `setClose(false)` on a request that asks for it. -/
def keepAlive (req : HttpRequest) : HttpRequest :=
  if strcaseEq (req.getHeader (ascii "Connection")) (ascii "keep-alive") then { req with close := false }
  else req

def recvRequest (cfg : Config) (w : Wire) : Recv (HttpRequest × Wire) := do
  let (parser, data, w) ← recvLoop cfg.buffSize (HttpRequestParser.new cfg.uriRelaxed) [] w
  let length := toInt64 (parser.getContentLength cfg.lexicalCast)
  if length > 0 then
    let (body, w) ← recvBody cfg.readFixSize length data w
    .returned (keepAlive { parser.data with body := body }, w)
  else .returned (keepAlive parser.data, w)

/-- The outcomes of `n` calls on one session, up to the first that does not
return a request. -/
def recvRequests (cfg : Config) : Nat → Wire → List (Recv HttpRequest)
  | 0, _ => []
  | n + 1, w =>
    match recvRequest cfg w with
    | .returned (req, w) => .returned req :: recvRequests cfg n w
    | .closed => [.closed]
    | .waiting => [.waiting]
    | .fault f => [.fault f]

/-! ## One turn of the loop -/

theorem recvLoop_waits (buffSize : Nat) (parser : HttpRequestParser) (data : Bytes) :
    recvLoop buffSize parser data [] = .waiting := by
  rw [recvLoop]
  rfl

/-- A turn in which the parser goes on without an error. -/
theorem recvLoop_step {buffSize nparse : Nat} {parser parser' : HttpRequestParser}
    {data data' bs : Bytes} {w w' : Wire} (hr : w.read (sizeSub buffSize data.length) = some (bs, w'))
    (hbs : bs.length ≠ 0) (hex : parser.execute (data ++ bs) = .ok (parser', nparse, data'))
    (herr : parser'.hasError = false) :
    recvLoop buffSize parser data w =
      if (data'.length : Int) = toInt buffSize then .closed
      else if parser'.isFinished ≠ 0 then .returned (parser', data', w')
      else recvLoop buffSize parser' data' w' := by
  rw [recvLoop]
  split
  · rename_i h
    rw [hr] at h
    cases h
  · rename_i bs₁ w₁ h
    rw [hr, Option.some.injEq, Prod.mk.injEq] at h
    obtain ⟨rfl, rfl⟩ := h
    simp only [hbs, dite_false, hex, herr, Bool.false_eq_true, if_false]

/-- The first piece holds the whole header block. -/
theorem recvLoop_once (buffSize : Nat) (w : Wire) {nparse : Nat} {parser parser' : HttpRequestParser}
    {b data : Bytes}
    (hb : b.length ≤ buffSize) (hm : b.length ≤ Wire.maxRead) (hne : b.length ≠ 0)
    (hex : parser.execute b = .ok (parser', nparse, data)) (herr : parser'.hasError = false)
    (hfin : parser'.isFinished = 1) (hfull : (data.length : Int) ≠ toInt buffSize) :
    recvLoop buffSize parser [] (b :: w) = .returned (parser', data, w) := by
  have hcap : sizeSub buffSize ([] : Bytes).length = buffSize := by simp [sizeSub]
  rw [recvLoop_step (by rw [hcap]; exact Wire.read_whole hb hm) hne hex herr, if_neg hfull,
    if_pos (by rw [hfin]; decide)]

/-- A loop that returns: its first turn, and what comes after it. -/
theorem recvLoop_returned {buffSize : Nat} {parser : HttpRequestParser} {data : Bytes} {w : Wire}
    {r : HttpRequestParser × Bytes × Wire} (h : recvLoop buffSize parser data w = .returned r) :
    ∃ bs w₁ parser₁ n data₁, w.read (sizeSub buffSize data.length) = some (bs, w₁) ∧ bs.length ≠ 0 ∧
      parser.execute (data ++ bs) = .ok (parser₁, n, data₁) ∧ parser₁.hasError = false ∧
      (data₁.length : Int) ≠ toInt buffSize ∧
      (parser₁.isFinished ≠ 0 ∧ r = (parser₁, data₁, w₁) ∨
        recvLoop buffSize parser₁ data₁ w₁ = .returned r) := by
  rw [recvLoop] at h
  split at h
  · cases h
  · rename_i bs w₁ hr
    split at h
    · cases h
    · rename_i hbs
      split at h
      · cases h
      · rename_i parser₁ n data₁ hex
        split at h
        · cases h
        · rename_i herr
          split at h
          · cases h
          · rename_i hfull
            refine ⟨bs, w₁, parser₁, n, data₁, hr, hbs, hex, by simpa using herr, hfull, ?_⟩
            split at h
            · rename_i hfin
              exact .inl ⟨hfin, (Recv.returned.inj h).symm⟩
            · exact .inr h

/-- What the loop leaves in the buffer and the stream is what is behind the
bytes it has parsed. -/
theorem recvLoop_stream {buffSize : Nat} {parser parser' : HttpRequestParser} {data data' : Bytes} {w w' : Wire}
    (h : recvLoop buffSize parser data w = .returned (parser', data', w')) :
    ∃ header, data ++ w.flatten = header ++ (data' ++ w'.flatten) := by
  obtain ⟨bs, w₁, parser₁, n, data₁, hr, hbs, hex, -, -, hnext⟩ := recvLoop_returned h
  have hsplit : data ++ w.flatten = (data ++ bs).take n ++ (data₁ ++ w₁.flatten) := by
    rw [HttpRequestParser.execute_data hex, ← List.append_assoc, List.take_append_drop, List.append_assoc,
      Wire.read_flatten hr]
  rcases hnext with ⟨-, hret⟩ | hloop
  · simp only [Prod.mk.injEq] at hret
    obtain ⟨-, rfl, rfl⟩ := hret
    exact ⟨_, hsplit⟩
  · have hlt := Wire.read_size hr hbs
    obtain ⟨header, hheader⟩ := recvLoop_stream hloop
    exact ⟨(data ++ bs).take n ++ header, by rw [hsplit, hheader, List.append_assoc]⟩
termination_by w.size

/-! ## One read, several requests -/

/-- `r` is a whole request without a body: a new parser reads exactly it, and
there is no `Content-Length`. `req` is what a call returns for it. -/
def Complete (cfg : Config) (r : Bytes) (req : HttpRequest) : Prop :=
  ∃ parser, (HttpRequestParser.new cfg.uriRelaxed).execute r = .ok (parser, r.length, []) ∧
    parser.hasError = false ∧ parser.isFinished = 1 ∧
    parser.data.headers.find? (ascii "content-length") = none ∧ req = keepAlive parser.data

theorem Complete.ne_nil {cfg : Config} {r : Bytes} {req : HttpRequest} (h : Complete cfg r req) :
    r.length ≠ 0 := by
  obtain ⟨parser, hex, -, hfin, -⟩ := h
  intro h0
  simp only [HttpRequestParser.execute, HttpRequestParser.httpParserExecute, h0, if_true] at hex
  have he : parser = HttpRequestParser.new cfg.uriRelaxed := by
    simp only [bind, Except.bind, Except.ok.injEq, Prod.mk.injEq] at hex
    exact hex.1.symm
  rw [he] at hfin
  have hnew : (HttpRequestParser.new cfg.uriRelaxed).isFinished = 0 := rfl
  rw [hnew] at hfin
  exact absurd hfin (by decide)

/-- A call that has read the only piece leaves nothing behind. -/
theorem recvRequest_only {cfg : Config} {b : Bytes} {req : HttpRequest} {w : Wire}
    (hb : b.length ≤ cfg.buffSize)
    (hm : b.length ≤ Wire.maxRead) (h : recvRequest cfg [b] = .returned (req, w)) : w = [] := by
  obtain ⟨⟨parser, data, w₁⟩, hloop, hrest⟩ := Recv.bind_returned h
  have hcap : sizeSub cfg.buffSize ([] : Bytes).length = cfg.buffSize := by simp [sizeSub]
  have hw₁ : w₁ = [] := by
    obtain ⟨bs, w', parser₁, n, data₁, hr, -, -, -, -, hnext⟩ := recvLoop_returned hloop
    rw [hcap, Wire.read_whole hb hm, Option.some.injEq, Prod.mk.injEq] at hr
    obtain ⟨rfl, rfl⟩ := hr
    rcases hnext with ⟨-, hret⟩ | hagain
    · simp only [Prod.mk.injEq] at hret
      exact hret.2.2
    · rw [recvLoop_waits] at hagain
      cases hagain
  subst hw₁
  dsimp only at hrest
  split at hrest
  · obtain ⟨⟨body, w₂⟩, hbody, hret⟩ := Recv.bind_returned hrest
    simp only [Recv.returned.injEq, Prod.mk.injEq] at hret
    rw [← hret.2]
    exact Wire.eq_nil_of_size (recvBody_size hbody)
  · simp only [Recv.returned.injEq, Prod.mk.injEq] at hrest
    exact hrest.2.symm

theorem recvRequest_waits (cfg : Config) : recvRequest cfg [] = .waiting := by
  show Recv.bind (recvLoop _ _ _ _) _ = _
  rw [recvLoop_waits]
  rfl

/-- One whole request in one piece is returned, unless the buffer size is 0 as
an `int`. -/
theorem recvRequest_one {cfg : Config} {r : Bytes} {req : HttpRequest} (h : Complete cfg r req)
    (hb : r.length ≤ cfg.buffSize) (hm : r.length ≤ Wire.maxRead) :
    recvRequest cfg [r] = if toInt cfg.buffSize = 0 then .closed else .returned (req, []) := by
  have hne := h.ne_nil
  obtain ⟨parser, hex, herr, hfin, hno, rfl⟩ := h
  have hlen : toInt64 (parser.getContentLength cfg.lexicalCast) = 0 := by
    rw [HttpRequestParser.getContentLength, HeaderMap.getAs, hno]
    rfl
  show Recv.bind (recvLoop _ _ _ _) _ = _
  by_cases h0 : toInt cfg.buffSize = 0
  · have hcap : sizeSub cfg.buffSize ([] : Bytes).length = cfg.buffSize := by simp [sizeSub]
    have hread : Wire.read [r] (sizeSub cfg.buffSize ([] : Bytes).length) = some (r, []) := by
      rw [hcap]
      exact Wire.read_whole hb hm
    rw [recvLoop_step hread hne hex herr, show (([] : Bytes).length : Int) = 0 from rfl,
      if_pos h0.symm, if_pos h0]
    rfl
  · rw [recvLoop_once cfg.buffSize [] hb hm hne hex herr hfin (fun h => h0 h.symm), if_neg h0]
    show (if toInt64 (parser.getContentLength cfg.lexicalCast) > 0 then _ else _) = _
    rw [hlen, if_neg (by decide)]

/-- When one read delivers several whole requests, the calls return them all
only if there is at most one: what is behind the first is lost. -/
theorem recvRequests_all_iff (cfg : Config) (rs : List (Bytes × HttpRequest))
    (hrs : ∀ r ∈ rs, Complete cfg r.1 r.2) (hb : (rs.map (·.1)).flatten.length ≤ cfg.buffSize)
    (hm : (rs.map (·.1)).flatten.length ≤ Wire.maxRead) :
    recvRequests cfg rs.length [(rs.map (·.1)).flatten] = rs.map (fun r => .returned r.2) ↔
      rs.length = 0 ∨ (rs.length = 1 ∧ toInt cfg.buffSize ≠ 0) := by
  match rs with
  | [] => simp [recvRequests]
  | [r] =>
    simp only [List.map_cons, List.map_nil, List.flatten_cons, List.flatten_nil, List.append_nil] at hb hm ⊢
    have hone := recvRequest_one (hrs r List.mem_cons_self) hb hm
    simp only [List.length_cons, List.length_nil, recvRequests, hone]
    by_cases h0 : toInt cfg.buffSize = 0 <;> simp [h0]
  | r₁ :: r₂ :: rs =>
    simp only [List.length_cons, recvRequests, List.map_cons]
    refine iff_of_false (fun heq => ?_) (by omega)
    split at heq
    · rename_i req w hret
      rw [recvRequest_only hb hm hret] at heq
      simp only [recvRequest_waits, List.cons.injEq] at heq
      cases heq.2.1
    · simp at heq
    · simp at heq
    · simp at heq

def getRoot : Bytes := ascii "GET / HTTP/1.1\r\n\r\n"

theorem complete_getRoot : Complete .sample getRoot HttpRequest.new := ⟨_, rfl, rfl, rfl, rfl, rfl⟩

theorem recvRequests_getRoot : recvRequests .sample 1 [getRoot] = [.returned HttpRequest.new] := by
  have hrs : ∀ r ∈ [(getRoot, HttpRequest.new)], Complete .sample r.1 r.2 := by
    simpa using complete_getRoot
  exact (recvRequests_all_iff .sample [(getRoot, HttpRequest.new)] hrs (by decide) (by decide)).2
    (.inr (by decide))

/-- The second of two requests that arrive together is not returned. -/
theorem recvRequests_loses_second : Complete .sample getRoot HttpRequest.new ∧
    recvRequests .sample 2 [getRoot ++ getRoot] ≠ [.returned HttpRequest.new, .returned HttpRequest.new] := by
  refine ⟨complete_getRoot, fun heq => ?_⟩
  simp only [recvRequests] at heq
  split at heq
  · rename_i req w hret
    rw [recvRequest_only (by decide) (by decide) hret] at heq
    simp only [recvRequest_waits, List.cons.injEq] at heq
    cases heq.2.1
  · simp at heq
  · simp at heq
  · simp at heq

end HttpSession

end Linko.Http
