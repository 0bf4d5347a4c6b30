import Linko.Http.RequestText
/-!
# Requests read back

What `HttpRequestParser` stores from each part of a text in its buffer, and
from there that it reads back what `HttpRequest::dump` has written.
-/

namespace Linko.Http

open CString Ragel Ragel.Machine RequestMachine HttpRequestParser RequestText

/-! ## Parts of the buffer -/

/-- The buffer holds `xs` at offset `p`. -/
def At (buffer : Bytes) (p : Nat) (xs : Bytes) : Prop :=
  ∃ pre rest, buffer = pre ++ (xs ++ rest) ∧ pre.length = p

/-- The callbacks over `xs`, from machine state `cs` at offset `p` to state `t`,
change the stored request by `f` and raise no error. -/
def Stores (buffer : Bytes) (cs p : Nat) (xs : Bytes) (t : Nat) (f : HttpRequest → HttpRequest) : Prop :=
  ∀ s : HttpRequestParser, ∃ s', M.Runs (action buffer) cs p s xs t s' ∧ s'.data = f s.data ∧ s'.error = s.error

section

variable {buffer xs ys : Bytes} {p : Nat}

theorem At.left (h : At buffer p (xs ++ ys)) : At buffer p xs := by
  obtain ⟨pre, rest, h, hp⟩ := h
  exact ⟨pre, ys ++ rest, by rw [h, List.append_assoc], hp⟩

theorem At.right (h : At buffer p (xs ++ ys)) : At buffer (p + xs.length) ys := by
  obtain ⟨pre, rest, h, hp⟩ := h
  exact ⟨pre ++ xs, rest, by rw [h, List.append_assoc, List.append_assoc], by rw [List.length_append, hp]⟩

theorem At.drop (h : At buffer p xs) : ∃ rest, buffer.drop p = xs ++ rest := by
  obtain ⟨pre, rest, rfl, rfl⟩ := h
  exact ⟨rest, List.drop_left⟩

theorem At.string (h : At buffer p xs) (hlen : buffer.length < 2 ^ 31) :
    mkString buffer p xs.length = .ok xs := by
  obtain ⟨pre, rest, rfl, rfl⟩ := h
  simp only [List.length_append] at hlen
  rw [mkString, if_neg (by rw [maxSize]; omega), if_pos (by simp only [List.length_append]; omega),
    Blocks.slice, List.drop_left, List.take_left]

theorem Stores.append {cs m t : Nat} {f g : HttpRequest → HttpRequest} (h₁ : Stores buffer cs p xs m f)
    (h₂ : Stores buffer m (p + xs.length) ys t g) : Stores buffer cs p (xs ++ ys) t (g ∘ f) := by
  intro s
  obtain ⟨s₁, hr₁, hd₁, he₁⟩ := h₁ s
  obtain ⟨s₂, hr₂, hd₂, he₂⟩ := h₂ s₁
  exact ⟨s₂, hr₁.append hr₂, by rw [hd₂, hd₁, Function.comp_apply], he₂.trans he₁⟩

/-! ## The request line -/

theorem sizeSub_add (p n : Nat) : sizeSub (p + n) p = n := by
  rw [sizeSub, if_pos (by omega)]
  omega

theorem charsToHttpMethod_name {m : HttpMethod} (hm : m ≠ .invalidMethod) (rest : Bytes) :
    charsToHttpMethod (httpMethodToString m ++ [32] ++ rest) = m := by
  obtain ⟨name, hmem⟩ := mem_httpMethodMap hm
  obtain ⟨hstring, -, hchars⟩ := httpMethodMap_names _ hmem
  rw [hstring, List.append_assoc, List.singleton_append, charsToHttpMethod_until (ascii name) rest [], hchars]

theorem stores_method {m : HttpMethod} (hm : ∀ b ∈ httpMethodToString m, methodChar.has b = true)
    (h : At buffer p (httpMethodToString m ++ [32])) :
    Stores buffer 1 p (httpMethodToString m ++ [32]) 3 fun d => { d with method := m } := by
  intro s
  obtain ⟨rest, hdrop⟩ := h.drop
  have hvalid : m ≠ .invalidMethod := by
    rintro rfl
    exact absurd (hm 60 (by decide)) (by decide)
  have hchars : charsToHttpMethod (buffer.drop p) = m := by rw [hdrop, charsToHttpMethod_name hvalid]
  refine ⟨{ s with parser := { s.parser with mark := p }, data := { s.data with method := m } },
    ⟨_, reads_method m hm, ?_⟩, rfl, rfl⟩
  simp [runEvents_cons, action, onRequestMethod, hchars, hvalid, bind, Except.bind]

/-- The version as `dump` writes it, behind the space. -/
def versionText (v : UInt8) : Bytes :=
  ascii "HTTP/" ++ decimal (v >>> 4).toNat ++ ascii "." ++ decimal (v &&& 0x0F).toNat

theorem stores_version {v : UInt8} (hv : v = 0x10 ∨ v = 0x11) (h : At buffer p (versionText v ++ [13, 10])) :
    Stores buffer 4 p (versionText v ++ [13, 10]) 13 fun d => { d with version := v } := by
  intro s
  obtain ⟨rest, hdrop⟩ := h.drop
  refine ⟨{ s with parser := { s.parser with mark := p }, data := { s.data with version := v } }, ?_⟩
  rcases hv with rfl | rfl
  · refine ⟨⟨_, textRows.versions "HTTP/1.0" (by decide), ?_⟩, rfl, rfl⟩
    have h11 : strncmpEq (buffer.drop p) (ascii "HTTP/1.1") 8 = false := by
      rw [hdrop]
      rfl
    have h10 : strncmpEq (buffer.drop p) (ascii "HTTP/1.0") 8 = true := by
      rw [hdrop]
      rfl
    simp [runEvents_cons, action, onRequestVersion, sizeSub_add, h11, h10, bind, Except.bind]
  · refine ⟨⟨_, textRows.versions "HTTP/1.1" (by decide), ?_⟩, rfl, rfl⟩
    have h11 : strncmpEq (buffer.drop p) (ascii "HTTP/1.1") 8 = true := by
      rw [hdrop]
      rfl
    simp [runEvents_cons, action, onRequestVersion, sizeSub_add, h11, bind, Except.bind]

theorem stores_path {path : Bytes} (hpath : PathAbsolute path) {c : UInt8} {t : Nat} {acts : List Act}
    (hc : ∀ m, m = 33 ∨ m = 26 → M.next m c = some (.requestPath :: acts, t))
    (ha : acts = [] ∨ acts = [.requestUri]) (hlen : buffer.length < 2 ^ 31) (h : At buffer p (path ++ [c])) :
    Stores buffer 3 p (path ++ [c]) t fun d => { d with path := path } := by
  intro s
  obtain ⟨m, hm, hreads⟩ := hpath.reads
  have hstr := h.left.string hlen
  have hlast : M.Reads m [c] t ((.requestPath :: acts).map fun a => (0, a)) := by
    refine Reads.one (hc m hm) ?_
    rcases ha with rfl | rfl <;> rfl
  refine ⟨{ s with parser := { s.parser with mark := p }, data := { s.data with path := path } },
    ⟨_, hreads.append hlast, ?_⟩, rfl, rfl⟩
  rcases ha with rfl | rfl <;>
    simp [shift, runEvents_cons, action, onRequestPath, sizeSub_add, hstr, bind, Except.bind]

theorem stores_query {q : Bytes} (hq : Query q) (hne : q ≠ []) {c : UInt8} {t : Nat}
    (hc : M.next 30 c = some ([.queryString, .requestUri], t)) (hlen : buffer.length < 2 ^ 31)
    (h : At buffer p (q ++ [c])) : Stores buffer 29 p (q ++ [c]) t fun d => { d with query := q } := by
  intro s
  have hstr := h.left.string hlen
  refine ⟨{ s with parser := { s.parser with queryStart := some p }, data := { s.data with query := q } },
    ⟨_, (hq.reads hne).append (Reads.one hc rfl), ?_⟩, rfl, rfl⟩
  simp [shift, runEvents_cons, action, onRequestQuery, sizeSub_add, hstr, bind, Except.bind]

theorem stores_fragment {f : Bytes} (hf : Query f) (hne : f ≠ []) (hlen : buffer.length < 2 ^ 31)
    (h : At buffer p (f ++ [32])) : Stores buffer 20 p (f ++ [32]) 4 fun d => { d with fragment := f } := by
  intro s
  have hstr := h.left.string hlen
  have hc : M.next 21 32 = some ([.fragment], 4) := rfl
  refine ⟨{ s with parser := { s.parser with mark := p }, data := { s.data with fragment := f } },
    ⟨_, (hf.reads_fragment hne).append (Reads.one hc rfl), ?_⟩, rfl, rfl⟩
  simp [shift, runEvents_cons, action, onRequestFragment, sizeSub_add, hstr, bind, Except.bind]

/-- The target of a request with the space behind it. -/
def targetText (path query fragment : Bytes) : Bytes :=
  path ++ (if query = [] then [] else ascii "?") ++ query ++
    (if fragment = [] then [] else ascii "#") ++ fragment ++ [32]

/-- An empty query or fragment is not written, and then not stored. -/
theorem stores_target {path query fragment : Bytes} (hpath : PathAbsolute path) (hq : Query query)
    (hf : Query fragment) (hlen : buffer.length < 2 ^ 31) (h : At buffer p (targetText path query fragment)) :
    Stores buffer 3 p (targetText path query fragment) 4 fun d => { d with
      path := path
      query := if query = [] then d.query else query
      fragment := if fragment = [] then d.fragment else fragment } := by
  have hspace : ∀ m, m = 33 ∨ m = 26 → M.next m 32 = some ([.requestPath, .requestUri], 4) := by
    rintro m (rfl | rfl) <;> rfl
  have hhash : ∀ m, m = 33 ∨ m = 26 → M.next m 35 = some ([.requestPath, .requestUri], 20) := by
    rintro m (rfl | rfl) <;> rfl
  have hmark : ∀ m, m = 33 ∨ m = 26 → M.next m 63 = some ([.requestPath], 29) := by
    rintro m (rfl | rfl) <;> rfl
  have hqspace : M.next 30 32 = some ([.queryString, .requestUri], 4) := rfl
  have hqhash : M.next 30 35 = some ([.queryString, .requestUri], 20) := rfl
  by_cases hq0 : query = [] <;> by_cases hf0 : fragment = []
  · have ht : targetText path query fragment = path ++ [32] := by simp [targetText, hq0, hf0]
    rw [ht] at h ⊢
    simpa only [if_pos hq0, if_pos hf0] using stores_path hpath hspace (.inr rfl) hlen h
  · have ht : targetText path query fragment = (path ++ [35]) ++ (fragment ++ [32]) := by
      simp [targetText, hq0, hf0, ascii]
    rw [ht] at h ⊢
    simpa only [if_pos hq0, if_neg hf0, Function.comp_def] using
      (stores_path hpath hhash (.inr rfl) hlen h.left).append (stores_fragment hf hf0 hlen h.right)
  · have ht : targetText path query fragment = (path ++ [63]) ++ (query ++ [32]) := by
      simp [targetText, hq0, hf0, ascii]
    rw [ht] at h ⊢
    simpa only [if_neg hq0, if_pos hf0, Function.comp_def] using
      (stores_path hpath hmark (.inl rfl) hlen h.left).append (stores_query hq hq0 hqspace hlen h.right)
  · have ht : targetText path query fragment = ((path ++ [63]) ++ (query ++ [35])) ++ (fragment ++ [32]) := by
      simp [targetText, hq0, hf0, ascii]
    rw [ht] at h ⊢
    simpa only [if_neg hq0, if_neg hf0, Function.comp_def] using
      ((stores_path hpath hmark (.inl rfl) hlen h.left.left).append
        (stores_query hq hq0 hqhash hlen h.left.right)).append (stores_fragment hf hf0 hlen h.right)

/-! ## Header lines -/

/-- A header line as `dump` writes it. -/
def headerLine (e : Bytes × Bytes) : Bytes := e.1 ++ [58] ++ (e.2 ++ [13, 10])

theorem stores_header {e : Bytes × Bytes} (hk : FieldName e.1) (hv : FieldValue e.2)
    (hlen : buffer.length < 2 ^ 31)
    (h : At buffer p (headerLine e)) : Stores buffer 13 p (headerLine e) 13 fun d => d.setHeader e.1 e.2 := by
  intro s
  have hkey := h.left.left.string hlen
  have hval := h.right.left.string hlen
  have hne : e.1.length ≠ 0 := fun h0 => hk.1 (List.eq_nil_of_length_eq_zero h0)
  refine ⟨{ s with
      parser := { s.parser with fieldStart := p, fieldLen := e.1.length, mark := p + (e.1 ++ [58]).length }
      data := s.data.setHeader e.1 e.2 }, ⟨_, hk.reads.append hv.reads, ?_⟩, rfl, rfl⟩
  simp only [List.length_append, List.length_cons, List.length_nil, Nat.zero_add, ← Nat.add_assoc] at hval ⊢
  simp [shift, runEvents_cons, action, onRequestHttpField, sizeSub_add, hkey, hval, hne, ← Nat.add_assoc, bind,
    Except.bind]

theorem stores_headers {es : List (Bytes × Bytes)} (hes : ∀ e ∈ es, FieldName e.1 ∧ FieldValue e.2)
    (hlen : buffer.length < 2 ^ 31) (h : At buffer p (es.flatMap headerLine)) :
    Stores buffer 13 p (es.flatMap headerLine) 13 fun d => { d with headers := d.headers.setAll es } := by
  induction es generalizing p with
  | nil => exact fun s => ⟨s, ⟨[], Reads.nil, rfl⟩, rfl, rfl⟩
  | cons e es ih =>
    rw [List.flatMap_cons] at h ⊢
    obtain ⟨hk, hv⟩ := hes e List.mem_cons_self
    exact (stores_header hk hv hlen h.left).append (ih (fun d hd => hes d (List.mem_cons_of_mem e hd)) h.right)

theorem ends_header (buffer : Bytes) (p : Nat) (s : HttpRequestParser) :
    ∃ s', runEvents (action buffer) p [(0, .startField), (1, .done)] s = .ok s' ∧ s'.data = s.data ∧
      s'.error = s.error := by
  have hrun : runEvents (action buffer) p [(0, .startField), (1, .done)] s =
      action buffer (p + 1) { s with parser := { s.parser with fieldStart := p } } .done := by
    rw [runEvents_cons, action]
    show (runEvents (action buffer) p [(1, .done)] _) = _
    rw [runEvents_cons]
    show _ >>= pure = _
    rw [bind_pure]
    rfl
  rw [hrun, action]
  split
  · exact ⟨_, rfl, rfl, rfl⟩
  · exact ⟨_, rfl, rfl, rfl⟩

end

/-! ## A whole request -/

/-- The requests whose parts fit the grammar. -/
structure Printable (req : HttpRequest) : Prop where
  method : ∀ b ∈ httpMethodToString req.method, methodChar.has b = true
  version : req.version = 0x10 ∨ req.version = 0x11
  path : PathAbsolute req.path
  query : Query req.query
  fragment : Query req.fragment
  name : ∀ e ∈ req.headers.entries, FieldName e.1
  connection : ∀ e ∈ req.headers.entries, strcaseEq e.1 (ascii "connection") = false
  contentLength : ∀ e ∈ req.headers.entries, strcaseEq e.1 (ascii "content-length") = false
  value : ∀ e ∈ req.headers.entries, FieldValue e.2

/-- The headers that `dump` adds in front of the others and behind them. -/
def connectionHeader (req : HttpRequest) : Bytes × Bytes :=
  (ascii "connection", if req.close then ascii "close" else ascii "keep-alive")

def lengthHeader (req : HttpRequest) : List (Bytes × Bytes) :=
  if req.body = [] then [] else [(ascii "content-length", decimal req.body.length)]

/-- The text of a request is read back: the parser accepts it up to the body
and stores what was written, with the headers `dump` adds. -/
def ReadsBack (req : HttpRequest) : Prop :=
  ∃ parser, (HttpRequestParser.new false).execute req.dump =
      .ok (parser, req.dump.length - req.body.length, req.body) ∧
    parser.hasError = false ∧ parser.isFinished = 1 ∧ parser.data.method = req.method ∧
    parser.data.version = req.version ∧ parser.data.path = req.path ∧ parser.data.query = req.query ∧
    parser.data.fragment = req.fragment ∧
    parser.data.headers = req.headers.setAll (connectionHeader req :: lengthHeader req)

/-- The text in front of the blank line. -/
def headText (req : HttpRequest) : Bytes :=
  httpMethodToString req.method ++ [32] ++ targetText req.path req.query req.fragment ++
    (versionText req.version ++ [13, 10]) ++
    (connectionHeader req :: (req.headers.entries ++ lengthHeader req)).flatMap headerLine

theorem dumpHeaders_eq {req : HttpRequest} (h : Printable req) :
    dumpHeaders (ascii ":") req.headers = req.headers.entries.flatMap headerLine := by
  refine List.flatMap_congr fun e he => ?_
  rw [if_neg (by rw [h.connection e he]; decide), headerLine]
  simp [ascii]

theorem dump_eq {req : HttpRequest} (h : Printable req) : req.dump = headText req ++ [13, 10] ++ req.body := by
  have hline : ascii "\r\n" = [13, 10] := rfl
  have hspace : ascii " " = [32] := rfl
  have hversion : dumpVersion req.version = [32] ++ versionText req.version := by
    simp [dumpVersion, versionText, ascii]
  have hconn : dumpConnection req.close = headerLine (connectionHeader req) := by
    simp [dumpConnection, headerLine, connectionHeader, ascii]
  have hbody : dumpBody req.body = (lengthHeader req).flatMap headerLine ++ [13, 10] ++ req.body := by
    by_cases hb : req.body = []
    · simp [dumpBody, lengthHeader, hb, hline]
    · simp [dumpBody, lengthHeader, hb, headerLine, ascii]
  rw [HttpRequest.dump, hversion, hconn, hbody, dumpHeaders_eq h, hline, hspace]
  simp only [headText, targetText, List.flatMap_cons, List.flatMap_append, List.append_assoc]

theorem fieldValue_decimal (n : Nat) : FieldValue (decimal n) := by
  have hdigit : ∀ b : UInt8, 48 ≤ b ∧ b ≤ 57 → ValueByte b ∧ lws.has b = false := by decide +kernel
  exact ⟨fun b hb => (hdigit b (decimal_digit hb)).1,
    fun b hb => (hdigit b (decimal_digit (List.mem_of_head? hb))).2⟩

/-- The lines `dump` writes are header lines of the grammar. -/
theorem Printable.lines {req : HttpRequest} (h : Printable req) :
    ∀ e ∈ connectionHeader req :: (req.headers.entries ++ lengthHeader req), FieldName e.1 ∧
      FieldValue e.2 := by
  intro e he
  rcases List.mem_cons.1 he with rfl | he
  · have hname : FieldName (ascii "connection") := ⟨by decide, by decide +kernel⟩
    have hclose : FieldValue (ascii "close") := ⟨by decide +kernel, by decide +kernel⟩
    have hkeep : FieldValue (ascii "keep-alive") := ⟨by decide +kernel, by decide +kernel⟩
    refine ⟨hname, ?_⟩
    rw [connectionHeader]
    split
    · exact hclose
    · exact hkeep
  · rcases List.mem_append.1 he with he | he
    · exact ⟨h.name e he, h.value e he⟩
    · rw [lengthHeader] at he
      split at he
      · cases he
      · rw [List.mem_singleton] at he
        subst he
        have hname : FieldName (ascii "content-length") := ⟨by decide, by decide +kernel⟩
        exact ⟨hname, fieldValue_decimal _⟩

/-- The keys of these lines differ. -/
theorem Printable.apart {req : HttpRequest} (h : Printable req) :
    HeaderMap.Apart (connectionHeader req :: (req.headers.entries ++ lengthHeader req)) := by
  have hsymm : ∀ {a b : Bytes}, strcaseEq a b = false → strcaseEq b a = false := fun hab => by
    rw [strcaseEq, beq_eq_false_iff_ne] at hab ⊢
    exact hab.symm
  have hlen : ∀ e ∈ lengthHeader req, e.1 = ascii "content-length" := fun e he => by
    rw [lengthHeader] at he
    split at he
    · cases he
    · rw [List.mem_singleton] at he
      rw [he]
  refine List.pairwise_cons.2 ⟨fun e he => ?_, List.pairwise_append.2
    ⟨HeaderMap.apart_of_sorted req.headers.sorted, ?_,
    fun a ha b hb => ?_⟩⟩
  · rcases List.mem_append.1 he with he | he
    · exact hsymm (h.connection e he)
    · rw [hlen e he]
      show strcaseEq (ascii "connection") (ascii "content-length") = false
      decide
  · rw [lengthHeader]
    split
    · exact List.Pairwise.nil
    · exact List.pairwise_singleton _ _
  · rw [hlen b hb]
    exact h.contentLength a ha

/-- Read line by line, the headers are those of the request and the two that
`dump` adds. -/
theorem Printable.headers {req : HttpRequest} (h : Printable req) :
    HeaderMap.empty.setAll (connectionHeader req :: (req.headers.entries ++ lengthHeader req)) =
      req.headers.setAll (connectionHeader req :: lengthHeader req) := by
  have hperm : (connectionHeader req :: (req.headers.entries ++ lengthHeader req)).Perm
      (connectionHeader req :: lengthHeader req ++ req.headers.entries) := List.perm_append_comm.cons _
  have hread :=
    @HeaderMap.setAll_perm .empty (connectionHeader req :: (req.headers.entries ++ lengthHeader req))
      (by simpa [HeaderMap.empty] using h.apart)
  have hset := HeaderMap.setAll_perm ((HeaderMap.apart_perm hperm).1 h.apart)
  refine HeaderMap.eq_of_perm (hread.trans ?_)
  simpa [HeaderMap.empty] using hperm.trans hset.symm

theorem stores_request {req : HttpRequest} (h : Printable req) {buffer : Bytes} (hlen : buffer.length < 2 ^ 31)
    (hat : At buffer 0 (headText req)) :
    Stores buffer 1 0 (headText req) 13 fun d => { d with
      method := req.method
      version := req.version
      path := req.path
      query := if req.query = [] then d.query else req.query
      fragment := if req.fragment = [] then d.fragment else req.fragment
      headers := d.headers.setAll (connectionHeader req :: (req.headers.entries ++ lengthHeader req)) } := by
  have e := (((stores_method h.method hat.left.left.left).append
    (stores_target h.path h.query h.fragment hlen hat.left.left.right)).append
      (stores_version h.version hat.left.right)).append (stores_headers h.lines hlen hat.right)
  exact e

/-- The text of a request is read back when an `int` holds its length. -/
theorem readsBack_of_short {req : HttpRequest} (h : Printable req)
    (hlen : req.dump.length < 2 ^ 31) : ReadsBack req := by
  have hdump := dump_eq h
  have hat : At req.dump 0 (headText req) := ⟨[], [13, 10] ++ req.body, by rw [hdump]; simp, rfl⟩
  obtain ⟨s₁, ⟨evs, hreads, hrun⟩, hdata, herr⟩ :=
    stores_request h hlen hat ((HttpRequestParser.new false).rewind req.dump.length)
  obtain ⟨s₂, hrun₂, hdata₂, herr₂⟩ := ends_header req.dump (headText req).length s₁
  have htrace : M.trace 1 req.dump = ⟨348, (headText req).length + 2, true, evs ++
      shift (headText req).length [(0, .startField), (1, .done)]⟩ := by
    rw [hdump, (hreads.stops stops_blank_line).append]
    simp
  have hrun' : runEvents (action req.dump) 0 (M.trace 1 req.dump).events
      ((HttpRequestParser.new false).rewind req.dump.length) = .ok s₂ := by
    rw [htrace, runEvents_append, hrun]
    show runEvents _ _ (shift _ _) _ = _
    rw [runEvents_shift, Nat.zero_add, hrun₂]
  have hl := congrArg List.length hdump
  simp only [List.length_append, List.length_cons, List.length_nil] at hl
  -- the empty line stops the machine in front of the body
  have hex :=
    @execute_ok (HttpRequestParser.new false) s₂ req.dump (by omega) hlen (by decide) (Nat.zero_le _) hrun'
  have htrace' : (machine (HttpRequestParser.new false).parser.uriRelaxed).trace
    (HttpRequestParser.new false).parser.cs
      req.dump = M.trace 1 req.dump := rfl
  have hrest : req.dump.drop ((headText req).length + 2) = req.body := by
    rw [hdump]
    exact List.drop_left' (by simp)
  have hused : (headText req).length + 2 = req.dump.length - req.body.length := by omega
  rw [htrace', htrace] at hex
  dsimp only at hex
  rw [hrest, hused] at hex
  rw [hdata] at hdata₂
  refine ⟨_, hex, ?_, ?_, ?_, ?_, ?_, ?_, ?_, ?_⟩
  · rw [herr] at herr₂
    show (decide (s₂.error ≠ 0) || _) = false
    rw [herr₂]
    rfl
  · show (if 348 = RequestMachine.error then (-1 : Int) else if 348 ≥ firstFinal then 1 else 0) = 1
    decide
  · exact congrArg (·.method) hdata₂
  · exact congrArg (·.version) hdata₂
  · exact congrArg (·.path) hdata₂
  · refine (congrArg (·.query) hdata₂).trans ?_
    -- an empty component is not written and keeps its default
    by_cases hq : req.query = []
    · rw [hq]
      rfl
    · exact if_neg hq
  · refine (congrArg (·.fragment) hdata₂).trans ?_
    by_cases hf : req.fragment = []
    · rw [hf]
      rfl
    · exact if_neg hf
  · exact (congrArg (·.headers) hdata₂).trans h.headers

/-- A longer text fails the first assertion of `http_parser_execute`. -/
theorem not_readsBack_of_long {req : HttpRequest} (hlen : 2 ^ 31 ≤ req.dump.length) : ¬ ReadsBack req := by
  rintro ⟨parser, hex, -⟩
  obtain ⟨r, hr, -⟩ := bind_ok hex
  rw [httpParserExecute, if_neg (by omega), if_pos fun he => by have := toInt_lt req.dump.length; omega] at hr
  cases hr

/-- Printing and parsing a request are inverse to each other exactly on the
texts whose length an `int` holds. -/
theorem readsBack_iff_short (req : HttpRequest) (h : Printable req) :
    ReadsBack req ↔ req.dump.length < 2 ^ 31 :=
  ⟨fun hr => Nat.lt_of_not_le fun hle => not_readsBack_of_long hle hr, readsBack_of_short h⟩

/-- A `GET /a?b#c` with one header and a body. -/
def getPage : HttpRequest :=
  { HttpRequest.new with
    path := ascii "/a"
    query := ascii "b"
    fragment := ascii "c"
    body := ascii "hi"
    headers := HeaderMap.empty.set (ascii "Host") (ascii "x") }

theorem printable_getPage : Printable getPage := by
  have hentry : ∀ e ∈ getPage.headers.entries, e = (ascii "Host", ascii "x") := by decide
  refine
    ⟨by decide +kernel, .inr rfl, ⟨ascii "a", rfl, by decide, .char (by decide) .nil⟩, .char (by decide) .nil,
    .char (by decide) .nil, fun e he => ?_, fun e he => ?_, fun e he => ?_, fun e he => ?_⟩ <;> rw [hentry e he]
  · exact ⟨by decide, by decide +kernel⟩
  · decide
  · decide
  · exact ⟨by decide +kernel, by decide +kernel⟩

theorem readsBack_getPage : ReadsBack getPage :=
  (readsBack_iff_short getPage printable_getPage).2 (by decide)

/-- A request with a body of `n` zero bytes. -/
def bigRequest (n : Nat) : HttpRequest := { HttpRequest.new with body := List.replicate n 0 }

/-- A body of 2 GiB is one such case. -/
theorem readsBack_fails_big : Printable (bigRequest (2 ^ 31)) ∧ ¬ ReadsBack (bigRequest (2 ^ 31)) := by
  have hp : Printable (bigRequest (2 ^ 31)) :=
    ⟨by decide +kernel, .inr rfl, ⟨[], rfl, nofun, .nil⟩, .nil, .nil, nofun, nofun, nofun, nofun⟩
  refine ⟨hp, not_readsBack_of_long ?_⟩
  have hbody : (bigRequest (2 ^ 31)).body.length = 2 ^ 31 := List.length_replicate
  have hl := congrArg List.length (dump_eq hp)
  rw [List.length_append, hbody] at hl
  omega

end Linko.Http
