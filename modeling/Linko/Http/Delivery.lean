import Linko.Http.Body
import Linko.Http.Cuts
import Linko.Http.HeaderEdits
import Linko.Http.RoundTrip
import Linko.Lib.Signed
/-!
# Requests that arrive

From the text that a client writes to the request that `recvRequest` returns. The
header block may come in several reads, the body behind it in one; when all comes in
one read the body that the session makes has as many zero bytes in front.
-/

namespace Linko.Http

open CString Ragel Ragel.Machine RequestMachine HttpRequestParser RequestText

/-- The header block that `dump` writes. -/
def block (req : HttpRequest) : Bytes := headText req ++ [13, 10]

/-- The request as the session hands it on: what was printed, with the headers that
`dump` adds. -/
def received (req : HttpRequest) (body : Bytes) : HttpRequest :=
  { req with
    body := body
    headers := req.headers.setAll (connectionHeader req :: lengthHeader req) }

/-- What the parser has stored behind the block. -/
def parsed (req : HttpRequest) : HttpRequest := { received req [] with close := true }

/-! ## The parser on the block -/

/-- The parser takes the block of a request, and nothing of what is behind it. -/
theorem execute_block {req : HttpRequest} (h : Printable req) (rest : Bytes)
    (hlen : (block req ++ rest).length < 2 ^ 31) :
    ∃ parser, (HttpRequestParser.new false).execute (block req ++ rest) = .ok (parser, (block req).length, rest) ∧
      parser.hasError = false ∧ parser.isFinished = 1 ∧ parser.data = parsed req := by
  have hat : At (block req ++ rest) 0 (headText req) := ⟨[], [13, 10] ++ rest, by simp [block], rfl⟩
  obtain ⟨s₁, ⟨evs, hreads, hrun⟩, hdata, herr⟩ :=
    stores_request h hlen hat ((HttpRequestParser.new false).rewind (block req ++ rest).length)
  obtain ⟨s₂, hrun₂, hdata₂, herr₂⟩ := ends_header (block req ++ rest) (headText req).length s₁
  have htrace : M.trace 1 (block req ++ rest) = ⟨348, (block req).length, true, evs ++
      shift (headText req).length [(0, .startField), (1, .done)]⟩ := by
    rw [block, (hreads.stops stops_blank_line).append]
  have hrun' : runEvents (action (block req ++ rest)) 0 (M.trace 1 (block req ++ rest)).events
      ((HttpRequestParser.new false).rewind (block req ++ rest).length) = .ok s₂ := by
    rw [htrace, runEvents_append, hrun]
    show runEvents _ _ (shift _ _) _ = _
    rw [runEvents_shift, Nat.zero_add, hrun₂]
  have hpos : 0 < (block req ++ rest).length := by simp [block]
  have hex := @execute_ok (HttpRequestParser.new false) s₂ _ hpos hlen (by decide) (Nat.zero_le _) hrun'
  have htrace' : (machine (HttpRequestParser.new false).parser.uriRelaxed).trace
    (HttpRequestParser.new false).parser.cs (block req ++ rest) = M.trace 1 (block req ++ rest) := rfl
  rw [htrace', htrace] at hex
  dsimp only at hex
  rw [List.drop_left] at hex
  refine ⟨_, hex, ?_, ?_, ?_⟩
  · rw [herr] at herr₂
    show (decide (s₂.error ≠ 0) || _) = false
    rw [herr₂]
    rfl
  · show (if 348 = RequestMachine.error then (-1 : Int) else if 348 ≥ firstFinal then 1 else 0) = 1
    decide
  · show s₂.data = _
    rw [hdata₂, hdata, parsed, received, ← h.headers]
    -- an empty component is not written and keeps its default
    have hempty : ∀ q : Bytes, (if q = [] then [] else q) = q := by
      intro q
      split
      · rename_i hq
        exact hq.symm
      · rfl
    simp only [HttpRequestParser.rewind, HttpRequestParser.new, HttpRequest.new, hempty]

/-! ## The headers of the request -/

theorem entry_setAll_pair (m : HeaderMap) (c l : Bytes × Bytes) (k : Bytes) (hl : caseKey l.1 ≠ k)
    (hc : caseKey c.1 = k) : ((m.setAll [c, l]).entry k).map Prod.snd = some c.2 := by
  simp [HeaderMap.setAll, HeaderMap.entry_set, hl, hc]

theorem find?_connection (req : HttpRequest) :
    (received req []).headers.find? (ascii "Connection") = some (connectionHeader req).2 := by
  have hkey : caseKey (ascii "connection") = caseKey (ascii "Connection") := by decide
  rw [HeaderMap.find?_eq, received, lengthHeader]
  split
  · simp [HeaderMap.setAll, HeaderMap.entry_set, connectionHeader, hkey]
  · exact entry_setAll_pair _ _ _ _ (show caseKey (ascii "content-length") ≠ _ by decide) hkey

theorem find?_length {req : HttpRequest} (h : Printable req) :
    (received req []).headers.find? (ascii "content-length") =
      if req.body = [] then none else some (decimal req.body.length) := by
  have hkey : caseKey (ascii "connection") ≠ caseKey (ascii "content-length") := by decide
  rw [HeaderMap.find?_eq, received, lengthHeader]
  split
  · have hnone : req.headers.entry (caseKey (ascii "content-length")) = none := by
      refine List.find?_eq_none.2 fun e he => ?_
      have hne := h.contentLength e he
      rw [strcaseEq, beq_eq_false_iff_ne] at hne
      simpa using hne
    simp [HeaderMap.setAll, HeaderMap.entry_set, connectionHeader, hkey, hnone]
  · simp [HeaderMap.setAll, HeaderMap.entry_set]

/-- The other headers are those of the client. -/
theorem find?_other (req : HttpRequest) {key : Bytes} (hc : strcaseEq key (ascii "connection") = false)
    (hl : strcaseEq key (ascii "content-length") = false) :
    (received req []).headers.find? key = req.headers.find? key := by
  rw [strcaseEq, beq_eq_false_iff_ne] at hc hl
  have hset : ∀ m : HeaderMap, (m.set (connectionHeader req).1 (connectionHeader req).2).entry (caseKey key) =
      m.entry (caseKey key) := by
    intro m
    rw [HeaderMap.entry_set, if_neg]
    exact fun he => hc he.symm
  rw [HeaderMap.find?_eq, HeaderMap.find?_eq, received, lengthHeader]
  split
  · exact congrArg (Option.map Prod.snd) (hset _)
  · show Option.map Prod.snd ((HeaderMap.set _ (ascii "content-length") _).entry _) = _
    rw [HeaderMap.entry_set, if_neg fun he => hl he.symm, hset]

/-- The session sets `close` as the client had it. -/
theorem keepAlive_parsed (req : HttpRequest) (body : Bytes) :
    HttpSession.keepAlive { parsed req with body := body } = received req body := by
  have hget : ({ parsed req with body := body } : HttpRequest).getHeader (ascii "Connection") = (connectionHeader req).2 := by
    show HeaderMap.get (received req []).headers _ _ = _
    rw [HeaderMap.get, find?_connection]
    rfl
  rw [HttpSession.keepAlive, hget, connectionHeader]
  have hclose : strcaseEq (ascii "close") (ascii "keep-alive") = false := by decide
  have hkeep : strcaseEq (ascii "keep-alive") (ascii "keep-alive") = true := by decide
  obtain ⟨method, version, close, path, query, fragment, b, headers⟩ := req
  cases close with
  | true => simp [hclose, parsed, received, connectionHeader, lengthHeader]
  | false => simp [hkeep, parsed, received, connectionHeader, lengthHeader]

/-! ## Arrival -/

/-- What the settings of a server take from elsewhere, as it is documented: the flag
of the grammar is off, `boost::lexical_cast` reads decimals, and `readFixSize` stores
a piece that is as long as it asks for. -/
structure Config.Proper (cfg : Config) : Prop where
  relaxed : cfg.uriRelaxed = false
  small : cfg.buffSize ≤ Wire.maxRead
  casts : ∀ n < 2 ^ 63, cfg.lexicalCast (decimal n) = some (UInt64.ofNat n)
  reads : ∀ b w, b ≠ [] → b.length ≤ Wire.maxRead → cfg.readFixSize.run (b :: w) b.length = ((b.length : Int), b, w)

/-- A `readFixSize` on a stream whose next piece is as long as asked for. -/
def ReadFixSize.runPiece (w : Wire) (n : Nat) : Int × Bytes × Wire :=
  match w with
  | [] => (-1, [], [])
  | b :: w => if b.length = n then (n, b, w) else (-1, [], b :: w)

theorem ReadFixSize.runPiece_size (w : Wire) (n : Nat) : (runPiece w n).2.2.size ≤ w.size := by
  cases w with
  | nil => exact Nat.le_refl _
  | cons b w =>
    dsimp only [runPiece]
    split
    · simp only [Wire.size]
      omega
    · exact Nat.le_refl _

def ReadFixSize.piece : ReadFixSize where
  run := runPiece
  size_le := runPiece_size

def Config.pieces : Config := { Config.sample with readFixSize := .piece }

theorem Config.proper_pieces : Config.pieces.Proper where
  relaxed := rfl
  small := by decide
  casts n _ := by
    show (if (decimal n).all _ then some (UInt64.ofNat (digitsFrom 10 0 (decimal n))) else none) = _
    rw [if_pos (decimal_all n), show digitsFrom 10 0 (decimal n) = n from
      GroupText.digitsFrom_numeral (by decide) (by decide) n]
  reads b w _ _ := by
    show (if b.length = b.length then _ else _) = _
    rw [if_pos rfl]

/-- The pieces in which the text of a request arrives, and the body that the session
makes of them. -/
inductive Arrives (cfg : Config) (req : HttpRequest) : List Bytes → Bytes → Prop where
  /-- No read begins inside a token of the block, and the body is read for itself. -/
  | apart {pieces : List Bytes} : pieces.flatten = block req → (∀ b ∈ pieces, b ≠ []) →
      CutsBetween false (block req) pieces → (block req).length ≤ cfg.buffSize → req.body.length ≤ Wire.maxRead →
      Arrives cfg req (pieces ++ if req.body = [] then [] else [req.body]) req.body
  /-- One read delivers all. -/
  | whole : req.dump.length ≤ cfg.buffSize →
      Arrives cfg req [req.dump] (List.replicate req.body.length 0 ++ req.body)

namespace HttpSession

/-- What the loop does on a stream it does on a longer one. -/
theorem recvLoop_frame {buffSize : Nat} {parser : HttpRequestParser} {data : Bytes} {w : Wire}
    {p : HttpRequestParser} {d : Bytes} {w' : Wire} (h : recvLoop buffSize parser data w = .returned (p, d, w'))
    (v : Wire) : recvLoop buffSize parser data (w ++ v) = .returned (p, d, w' ++ v) := by
  obtain ⟨bs, w₁, parser₁, n, data₁, hr, hbs, hex, herr, hfull, hnext⟩ := recvLoop_returned h
  have hr' : Wire.read (w ++ v) (sizeSub buffSize data.length) = some (bs, w₁ ++ v) := by
    cases w with
    | nil => cases hr
    | cons b w =>
      simp only [Wire.read, Option.some.injEq, Prod.mk.injEq] at hr
      obtain ⟨rfl, rfl⟩ := hr
      simp only [List.cons_append, Wire.read]
      split <;> rfl
  rw [recvLoop_step hr' hbs hex herr, if_neg hfull]
  rcases hnext with ⟨hfin, hret⟩ | hloop
  · simp only [Prod.mk.injEq] at hret
    obtain ⟨rfl, rfl, rfl⟩ := hret
    rw [if_pos hfin]
  · have hlt := Wire.read_size hr hbs
    have hrest := recvLoop_frame hloop v
    split
    · rename_i hfin
      rw [recvLoop_step hr hbs hex herr, if_neg hfull, if_pos hfin] at h
      obtain ⟨rfl, rfl, rfl⟩ : parser₁ = p ∧ data₁ = d ∧ w₁ = w' := by simpa using h
      rfl
    · exact hrest
termination_by w.size

/-- A loop that returns has read something. -/
theorem recvLoop_size {buffSize : Nat} {parser p : HttpRequestParser} {data d : Bytes} {w w' : Wire}
    (h : recvLoop buffSize parser data w = .returned (p, d, w')) : w'.size < w.size := by
  obtain ⟨bs, w₁, parser₁, n, data₁, hr, hbs, -, -, -, hnext⟩ := recvLoop_returned h
  have hlt := Wire.read_size hr hbs
  rcases hnext with ⟨-, hret⟩ | hloop
  · simp only [Prod.mk.injEq] at hret
    obtain ⟨-, -, rfl⟩ := hret
    exact hlt
  · exact (recvLoop_size hloop).trans hlt
termination_by w.size

/-- Behind the block, the length line says how much body there is. -/
theorem recvRequest_parsed {cfg : Config} (hc : cfg.Proper) {req : HttpRequest} (h : Printable req)
    (hbody : req.body.length < 2 ^ 63) {w w₁ : Wire} {parser : HttpRequestParser} {data : Bytes}
    (hloop : recvLoop cfg.buffSize (HttpRequestParser.new false) [] w = .returned (parser, data, w₁))
    (hdata : parser.data = parsed req) :
    recvRequest cfg w =
      if req.body = [] then .returned (received req [], w₁)
      else recvBody cfg.readFixSize req.body.length data w₁ >>= fun r => .returned (received req r.1, r.2) := by
  have hlength : toInt64 (parser.getContentLength cfg.lexicalCast) = if req.body = [] then 0 else (req.body.length : Int) := by
    have hfind := find?_length h
    show toInt64 (HeaderMap.getAs _ parser.data.headers _ _) = _
    rw [hdata, HeaderMap.getAs, show (parsed req).headers = (received req []).headers from rfl, hfind]
    split
    · rename_i hb
      rw [if_pos (by simpa using hb)]
      rfl
    · rename_i v hb
      split at hb
      · cases hb
      · rename_i hne
        obtain rfl := Option.some.inj hb
        have hnat : (UInt64.ofNat req.body.length).toNat = req.body.length :=
          UInt64.toNat_ofNat_of_lt' (by rw [UInt64.size]; omega)
        rw [if_neg hne, hc.casts _ hbody, Option.getD_some, toInt64_eq (by rw [hnat]; exact hbody), hnat]
  show Recv.bind (recvLoop _ _ _ _) _ = _
  rw [hc.relaxed, hloop]
  show (if toInt64 (parser.getContentLength cfg.lexicalCast) > 0 then _ else _) = _
  rw [hlength]
  by_cases hb : req.body = []
  · rw [if_pos hb, if_pos hb, if_neg (by decide), hdata]
    exact congrArg (fun r => Recv.returned (r, w₁)) (keepAlive_parsed req [])
  · have hpos : 0 < req.body.length := List.length_pos_iff.2 hb
    rw [if_neg hb, if_neg hb, if_pos (by omega), hdata]
    refine congrArg (Recv.bind _) (funext fun r => ?_)
    exact congrArg (fun q => Recv.returned (q, r.2)) (keepAlive_parsed req r.1)

/-- A body that is read for itself is what has been sent. -/
theorem recvBody_apart {cfg : Config} (hc : cfg.Proper) {body : Bytes} (hne : body ≠ [])
    (hlen : body.length ≤ Wire.maxRead) (w : Wire) :
    recvBody cfg.readFixSize body.length [] (body :: w) = .returned (body, w) := by
  have hpos : 0 < body.length := List.length_pos_iff.2 hne
  have hrun := hc.reads body w hne hlen
  simp only [recvBody, List.length_nil, Int.natCast_zero, Int.sub_zero, Int.toNat_natCast, List.append_nil, hrun,
    ge_iff_le, Int.natCast_nonneg, if_true]
  rw [if_pos (by omega), if_neg (by omega), Blocks.splice, List.take_zero, List.nil_append,
    List.drop_of_length_le (by simp), List.append_nil]

/-- One that was in the buffer has zero bytes in front. -/
theorem recvBody_whole (cfg : Config) (body : Bytes) (w : Wire) :
    recvBody cfg.readFixSize body.length body w = .returned (List.replicate body.length 0 ++ body, w) := by
  simp [recvBody]

/-- A request that has arrived is returned, and nothing behind it is read. -/
theorem recvRequest_arrives {cfg : Config} (hc : cfg.Proper) {req : HttpRequest} (h : Printable req)
    {pieces : List Bytes} {body : Bytes} (ha : Arrives cfg req pieces body) (w : Wire) :
    recvRequest cfg (pieces ++ w) = .returned (received req body, w) := by
  have hmax : Wire.maxRead < 2 ^ 31 := by decide
  have hsmall := hc.small
  have hblock : 0 < (block req).length := by simp [block]
  have hint : toInt cfg.buffSize = cfg.buffSize := toInt_natCast (by omega)
  cases ha with
  | apart hflat hne hcut hfits hlen =>
    obtain ⟨parser, hex, herr, hfin, hdata⟩ := execute_block h [] (by rw [List.append_nil]; omega)
    rw [List.append_nil] at hex
    have hone := recvLoop_once cfg.buffSize [] hfits (by omega) hblock.ne' hex herr hfin
      (by rw [hint, List.length_nil]; omega)
    obtain ⟨parser', hloop, -, hdata'⟩ := recvLoop_cutsBetween hfits (by omega) hone hne hflat hcut
    have hframe := recvLoop_frame hloop ((if req.body = [] then [] else [req.body]) ++ w)
    rw [List.nil_append] at hframe
    rw [List.append_assoc, recvRequest_parsed hc h (by omega) hframe (hdata'.trans hdata)]
    by_cases hb : req.body = []
    · rw [if_pos hb, if_pos hb, hb, List.nil_append]
    · rw [if_neg hb, if_neg hb, List.singleton_append, recvBody_apart hc hb hlen]
      rfl
  | whole hfits =>
    have hdump : req.dump = block req ++ req.body := dump_eq h
    have hlength := congrArg List.length hdump
    rw [List.length_append] at hlength
    obtain ⟨parser, hex, herr, hfin, hdata⟩ := execute_block h req.body (by rw [← hdump]; omega)
    rw [← hdump] at hex
    have hloop := recvLoop_once cfg.buffSize w hfits (by omega) (by omega) hex herr hfin (by rw [hint]; omega)
    rw [List.singleton_append, recvRequest_parsed hc h (by omega) hloop hdata]
    by_cases hb : req.body = []
    · rw [if_pos hb, hb]
      rfl
    · rw [if_neg hb, recvBody_whole]
      rfl

end HttpSession

end Linko.Http
