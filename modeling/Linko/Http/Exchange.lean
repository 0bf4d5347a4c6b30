import Linko.Http.Client
import Linko.Http.ResponseRoundTrip
import Linko.Http.Server
import Linko.Uri.Dump
/-!
# A client and a server

`DoRequest` against a peer, and what comes of it when the peer is an `HttpServer`: the
servlet of the path gets what the caller gave, and the caller never gets the response.
-/

namespace Linko.Http

open CString Ragel RequestText RequestMachine

/-! ## `DoRequest` -/

/-- What a call takes from elsewhere: the address of a URI, the outcomes of the calls on
the socket, what `writeFixSize` returns, if it does, and the bytes that come back. -/
structure Peer (α : Type) where
  cfg : Config
  createAddress : Uri → Option α
  addrText : α → Bytes
  createTCP : α → Bool
  connect : α → Bool
  errno : Bytes
  errstr : Bytes
  writeFixSize : Bytes → Option Int
  reply : Bytes → Wire
  timesOut : UInt64 → Bool

/-- How a call ends: with a result, not at all, or in a fault. -/
inductive Asked where
  | result (r : HttpResult)
  | hangs
  | fault (f : Fault)

namespace HttpConnection

variable {α : Type} (peer : Peer α)

def failed (result : HttpError) (error : Bytes) : Asked := .result ⟨result, none, error⟩

/-- `DoRequest(req, uri, timeout_ms)`. A read that waits ends with the receive timeout. -/
def doRequest (req : HttpRequest) (uri : Uri) (timeoutMs : UInt64) : Asked :=
  match peer.createAddress uri with
  | none => failed .invalidHost (ascii "invalide host: " ++ uri.getHost)
  | some addr =>
    let text := peer.addrText addr
    if !peer.createTCP addr then
      failed .createSocketError (ascii "create socket fail: " ++ text ++ ascii " errno=" ++ peer.errno ++
        ascii " errstr=" ++ peer.errstr)
    else if !peer.connect addr then failed .connectFail (ascii "connect fail: " ++ text)
    else
      let data := req.dump
      match peer.writeFixSize data with
      | none => .hangs
      | some rt =>
        if rt = 0 then failed .sendCloseByPeer (ascii "send request closed by peer: " ++ text)
        else if rt < 0 then
          failed .sendSocketError (ascii "send request socket error errno=" ++ peer.errno ++ ascii " errstr=" ++
            peer.errstr)
        else
          let timeout := failed .timeout (ascii "recv response timeout: " ++ text ++ ascii " timeout_ms:" ++
            decimal timeoutMs.toNat)
          match recvResponse peer.cfg (peer.reply data) with
          | .returned (rsp, _) => .result ⟨.ok, some rsp, ascii "ok"⟩
          | .closed => timeout
          | .waiting => if peer.timesOut timeoutMs then timeout else .hangs
          | .fault f => .fault f

/-- `DoRequest(method, uri, timeout_ms, headers, body)` -/
def doRequestUri (method : HttpMethod) (uri : Uri) (timeoutMs : UInt64) (headers : List (Bytes × Bytes))
    (body : Bytes) : Asked :=
  doRequest peer (makeRequest method uri headers body) uri timeoutMs

/-- The overloads for a url, with the text of their error. -/
def doRequestUrl (invalid : Bytes) (method : HttpMethod) (url : Bytes) (timeoutMs : UInt64)
    (headers : List (Bytes × Bytes)) (body : Bytes) : Asked :=
  match Uri.Create url with
  | .error .nullMark => .fault .indeterminate
  | .ok none => failed .invalidUrl (invalid ++ url)
  | .ok (some uri) => doRequestUri peer method uri timeoutMs headers body

def doRequestMethod (method : HttpMethod) (url : Bytes) (timeoutMs : UInt64) (headers : List (Bytes × Bytes))
    (body : Bytes) : Asked := doRequestUrl peer (ascii "invalide url: ") method url timeoutMs headers body

def doGet (url : Bytes) (timeoutMs : UInt64) (headers : List (Bytes × Bytes)) (body : Bytes) : Asked :=
  doRequestUrl peer (ascii "invalide url:") .get url timeoutMs headers body

def doPost (url : Bytes) (timeoutMs : UInt64) (headers : List (Bytes × Bytes)) (body : Bytes) : Asked :=
  doRequestUrl peer (ascii "invalide url: ") .post url timeoutMs headers body

/-! ## No response of a server is read -/

theorem recvLoop_rejects {buffSize : Nat} {w : Wire} {b : UInt8} {bs : Bytes} (hw : w.flatten = b :: bs)
    (hb : HttpResponseParser.firstByte.has b = false) (r : HttpResponseParser × Bytes × Wire) :
    recvLoop buffSize false HttpResponseParser.new [] w ≠ .returned r := by
  intro h
  rw [recvLoop] at h
  split at h
  · cases h
  · rename_i read w' hr
    split at h
    · cases h
    · rename_i hne
      obtain ⟨-, -, hrest⟩ := Recv.bind_returned h
      split at hrest
      · cases hrest
      · rename_i parser n data hex
        -- the piece that was read begins the stream
        obtain ⟨c, cs, rfl⟩ := List.exists_cons_of_ne_nil (List.ne_nil_of_length_pos (Nat.pos_of_ne_zero hne))
        have hflat := Wire.read_flatten hr
        rw [hw, List.cons_append, List.cons.injEq] at hflat
        obtain ⟨rfl, -⟩ := hflat
        rw [HttpResponseParser.rejects_first hb hex, if_pos rfl] at hrest
        cases hrest

theorem recvResponse_rejects {cfg : Config} {w : Wire} {rsps : List HttpResponse}
    (hw : w.flatten = rsps.flatMap HttpResponse.dump) (r : HttpResponse × Wire) :
    recvResponse cfg w ≠ .returned r := by
  intro h
  obtain ⟨r₁, hloop, -⟩ := Recv.bind_returned h
  cases rsps with
  | nil =>
    -- nothing comes: the first read waits or gets nothing
    rw [recvLoop] at hloop
    split at hloop
    · cases hloop
    · rename_i read w' hr
      have hflat := Wire.read_flatten hr
      rw [hw, List.flatMap_nil] at hflat
      have hread : read.length = 0 := by
        rw [(List.append_eq_nil_iff.1 hflat.symm).1]
        rfl
      rw [dif_pos hread] at hloop
      cases hloop
  | cons rsp rsps =>
    obtain ⟨bs, hbs⟩ := rsp.dump_first
    rw [List.flatMap_cons, hbs, List.cons_append] at hw
    exact recvLoop_rejects hw (by decide) r₁ hloop

end HttpConnection

/-- What comes back is what a server has written to a client with these bytes, in any
pieces. -/
def Peer.TalksTo {α σ κ ω : Type} (peer : Peer α) (srv : HttpServer σ κ ω) (w : ω) : Prop :=
  ∀ text, ∃ input : Wire, input.flatten = text ∧
    (peer.reply text).flatten = (srv.handleClient w ⟨input, [], true⟩).2.1.output

/-- A peer that hands all to `echo` in one read. -/
def echoPeer : Peer Unit where
  cfg := .pieces
  createAddress _ := some ()
  addrText _ := ascii "127.0.0.1:80"
  createTCP _ := true
  connect _ := true
  errno := ascii "0"
  errstr := ascii "Success"
  writeFixSize data := some data.length
  reply data := [(HttpServer.echo.handleClient () ⟨[data], [], true⟩).2.1.output]
  timesOut _ := true

def timedOut : HttpResult :=
  ⟨.timeout, none, ascii "recv response timeout: 127.0.0.1:80 timeout_ms:1000"⟩

theorem output_getPage : (HttpServer.echo.handleClient () ⟨[getPage.dump], [], true⟩).2.1.output =
    ascii " HTTP/1.1 OK\r\nconnection:close\r\ncontent-length:2\r\n\r\n/a" := by
  have hrecv : HttpSession.recvRequest .pieces [getPage.dump] =
      .returned (received getPage ([0, 0] ++ ascii "hi"), []) :=
    HttpSession.recvRequest_arrives Config.proper_pieces printable_getPage (.whole (by decide)) []
  have hout : (HttpServer.echo.respond () (received getPage ([0, 0] ++ ascii "hi"))).2.2.dump =
      ascii " HTTP/1.1 OK\r\nconnection:close\r\ncontent-length:2\r\n\r\n/a" := by decide
  have hclose : (!HttpServer.echo.isKeepalive ||
      (HttpServer.echo.respond () (received getPage ([0, 0] ++ ascii "hi"))).2.1.close) = true := by decide
  have hturn := HttpServer.handleClient_turn (w := ()) (s := ⟨[getPage.dump], [], true⟩)
    HttpServer.leavesSession_echo HttpServer.sends_echo rfl hrecv
  rw [if_pos hclose] at hturn
  exact (congrArg (fun r => r.2.1.output) hturn).trans hout

/-- What a caller of `DoRequest` has to give so that the request fits the grammar. -/
structure Sendable (method : HttpMethod) (uri : Uri) (headers : List (Bytes × Bytes)) : Prop where
  method : ∀ b ∈ httpMethodToString method, methodChar.has b = true
  path : PathAbsolute uri.getPath
  query : Query uri.getQuery
  fragment : Query uri.getFragment
  host : FieldValue uri.getHost
  name : ∀ i ∈ headers, FieldName i.1
  contentLength : ∀ i ∈ headers, strcaseEq i.1 (ascii "content-length") = false
  value : ∀ i ∈ headers, FieldValue i.2

theorem HeaderMap.mem_set {m : HeaderMap} {key val : Bytes} {e : Bytes × Bytes} (he : e ∈ (m.set key val).entries) :
    (e.1 = key ∨ ∃ d ∈ m.entries, d.1 = e.1) ∧ (e.2 = val ∨ e ∈ m.entries) := by
  refine ⟨mem_setEntry he, ?_⟩
  rw [mem_entries, entry_set] at he
  split at he
  · left
    rw [← Option.some.inj he]
  · exact .inr (mem_entries.2 he)

/-- Names and values that fit the grammar. -/
def Fields (m : HeaderMap) : Prop := ∀ e ∈ m.entries, FieldName e.1 ∧ FieldValue e.2

theorem Fields.set {m : HeaderMap} (h : Fields m) {key val : Bytes} (hk : FieldName key) (hv : FieldValue val) :
    Fields (m.set key val) := by
  intro e he
  obtain ⟨hname, hvalue⟩ := HeaderMap.mem_set he
  refine ⟨?_, ?_⟩
  · rcases hname with heq | ⟨d, hd, heq⟩
    · rw [heq]
      exact hk
    · rw [← heq]
      exact (h d hd).1
  · rcases hvalue with heq | he
    · rw [heq]
      exact hv
    · exact (h e he).2

theorem fields_addHeaders {req : HttpRequest} (h : Fields req.headers) {headers : List (Bytes × Bytes)}
    (hname : ∀ i ∈ headers, FieldName i.1) (hvalue : ∀ i ∈ headers, FieldValue i.2) :
    Fields (addHeaders req headers).1.headers := by
  induction headers using List.reverseRecOn with
  | nil => exact h
  | append_singleton headers i ih =>
    have hprev := ih (fun j hj => hname j (by simp [hj])) fun j hj => hvalue j (by simp [hj])
    rw [addHeaders_snoc, addHeader]
    split
    · split <;> exact hprev
    · exact hprev.set (hname i (by simp)) (hvalue i (by simp))

theorem lastValue_none {headers : List (Bytes × Bytes)} {k : Bytes} (h : ∀ i ∈ headers, caseKey i.1 ≠ k) :
    lastValue headers k = none := by
  induction headers using List.reverseRecOn with
  | nil => rfl
  | append_singleton headers i ih =>
    rw [lastValue_snoc, if_neg (h i (by simp)), ih fun j hj => h j (by simp [hj])]

/-- A request that a client builds of such parts fits the grammar. -/
theorem Sendable.printable {method : HttpMethod} {uri : Uri} {headers : List (Bytes × Bytes)}
    (h : Sendable method uri headers) (body : Bytes) :
    Printable (HttpConnection.makeRequest method uri headers body) := by
  obtain ⟨hheaders, heq⟩ := HttpConnection.makeRequest_built method uri headers body
  have hfields : Fields (HttpConnection.makeRequest method uri headers body).headers := by
    have hname : FieldName (ascii "Host") := ⟨by decide, by decide +kernel⟩
    have hloop := @fields_addHeaders { HttpRequest.new with
      path := uri.getPath
      query := uri.getQuery
      fragment := uri.getFragment
      method := method } nofun headers h.name h.value
    show Fields (if _ then _ else _ : HttpRequest).headers
    split
    · exact hloop
    · exact hloop.set hname h.host
  generalize HttpConnection.makeRequest method uri headers body = req at hheaders heq hfields
  -- an entry is what the map finds for its key
  have hfind : ∀ e ∈ req.headers.entries, req.headers.find? e.1 = some e.2 := by
    intro e he
    rw [HeaderMap.find?_eq, HeaderMap.mem_entries.1 he]
    rfl
  refine ⟨?_, ?_, ?_, ?_, ?_, fun e he => (hfields e he).1, fun e he => ?_, fun e he => ?_, fun e he => (hfields e he).2⟩
  · rw [heq]
    exact h.method
  · rw [heq]
    exact .inr rfl
  · rw [heq]
    exact h.path
  · rw [heq]
    exact h.query
  · rw [heq]
    exact h.fragment
  · by_contra hc
    have hsome := hfind e he
    rw [hheaders, if_pos (Bool.not_eq_false _ ▸ hc)] at hsome
    cases hsome
  · by_contra hc
    have hkey : caseKey e.1 = caseKey (ascii "content-length") := eq_of_beq (Bool.not_eq_false _ ▸ hc)
    have hsome := hfind e he
    have hconn : strcaseEq e.1 (ascii "connection") = false := by
      rw [strcaseEq, hkey]
      decide
    have hhost : strcaseEq e.1 (ascii "host") = false := by
      rw [strcaseEq, hkey]
      decide
    have hnone : lastValue headers (caseKey e.1) = none := by
      refine lastValue_none fun i hi hk => ?_
      have hne := h.contentLength i hi
      rw [strcaseEq, beq_eq_false_iff_ne] at hne
      exact hne (hk.trans hkey)
    rw [hheaders, hconn, hhost, hnone] at hsome
    cases hsome

/-- What a servlet finds in the headers of a request that a client has built: the two
that `dump` adds, the host, and the last value given for any other key. -/
def Finds (headers : List (Bytes × Bytes)) (host body : Bytes) (m : HeaderMap) : Prop :=
  ∀ key, m.find? key =
    if strcaseEq key (ascii "connection") then
      some (if headers.any asksKeepAlive then ascii "keep-alive" else ascii "close")
    else if strcaseEq key (ascii "content-length") then if body = [] then none else some (decimal body.length)
    else if strcaseEq key (ascii "host") && !headers.any namesHost then some host
    else lastValue headers (caseKey key)

theorem finds_received {method : HttpMethod} {uri : Uri} {headers : List (Bytes × Bytes)}
    (h : Sendable method uri headers) (body body' : Bytes) :
    Finds headers uri.getHost body
      (received (HttpConnection.makeRequest method uri headers body) body').headers := by
  intro key
  obtain ⟨hheaders, heq⟩ := HttpConnection.makeRequest_built method uri headers body
  have hbody : (HttpConnection.makeRequest method uri headers body).body = body := by rw [heq]
  have hclose : (HttpConnection.makeRequest method uri headers body).close = !headers.any asksKeepAlive := by rw [heq]
  have hcongr : ∀ k, caseKey key = caseKey k → ∀ m : HeaderMap, m.find? key = m.find? k := by
    intro k hk m
    rw [HeaderMap.find?_eq, HeaderMap.find?_eq, hk]
  show (received _ []).headers.find? key = _
  split
  · rename_i hc
    have hkey : caseKey key = caseKey (ascii "Connection") := (eq_of_beq hc).trans (by decide)
    rw [hcongr _ hkey, find?_connection, connectionHeader, hclose]
    cases headers.any asksKeepAlive <;> rfl
  · rename_i hc
    split
    · rename_i hl
      rw [hcongr _ (eq_of_beq hl), find?_length (h.printable body), hbody]
    · rename_i hl
      rw [find?_other _ (Bool.not_eq_true _ ▸ hc) (Bool.not_eq_true _ ▸ hl), hheaders, if_neg hc]

theorem urlPage_scheme : ascii "http" ∈ UriParser.Grammar.scheme.lang := by decide

theorem urlPage_host : ascii "h" ∈ (Ragel.Regex.alt UriParser.Grammar.regName UriParser.Grammar.IPv4address).lang := by decide

theorem urlPage_path : ascii "/a" ∈ UriParser.Grammar.pathAbempty.lang := by decide

theorem urlPage_query : ∀ v ∈ some (ascii "b"), v ∈ UriParser.Grammar.query.lang := by
  intro v hv
  obtain rfl := Option.some.inj hv
  decide

theorem urlPage_fragment : ∀ v ∈ some (ascii "c"), v ∈ UriParser.Grammar.fragment.lang := by
  intro v hv
  obtain rfl := Option.some.inj hv
  decide

theorem urlPage_userinfo : ∀ v ∈ (none : Option Bytes), v ∈ UriParser.Grammar.userinfo.lang := by
  intro v hv
  cases hv

theorem urlPage_port : ∀ v ∈ (none : Option Bytes),
    v ∈ UriParser.Grammar.port.lang ∧ 1 ≤ Uri.portValue v ∧ Uri.portValue v ≤ 65535 := by
  intro v hv
  cases hv

/-- `http://h/a?b#c` -/
def urlPage : Uri.Parts where
  scheme := ascii "http"
  userinfo := none
  host := ascii "h"
  port := none
  path := ascii "/a"
  query := some (ascii "b")
  fragment := some (ascii "c")
  scheme_mem := urlPage_scheme
  userinfo_mem := urlPage_userinfo
  host_mem := urlPage_host
  port_mem := urlPage_port
  path_mem := urlPage_path
  query_mem := urlPage_query
  fragment_mem := urlPage_fragment

theorem sendable_urlPage : Sendable .post urlPage.uri [(ascii "Accept", ascii "x")] where
  method := by decide +kernel
  path := ⟨ascii "a", rfl, by decide, .char (by decide) .nil⟩
  query := .char (by decide) .nil
  fragment := .char (by decide) .nil
  host := ⟨by decide +kernel, by decide +kernel⟩
  name := by
    intro i hi
    rw [List.mem_singleton.1 hi]
    exact ⟨by decide, by decide +kernel⟩
  contentLength := by decide
  value := by
    intro i hi
    rw [List.mem_singleton.1 hi]
    exact ⟨by decide +kernel, by decide +kernel⟩

/-- `POST` with one header and a body. -/
def postPage : HttpRequest :=
  HttpConnection.makeRequest .post urlPage.uri [(ascii "Accept", ascii "x")] (ascii "hi")

end Linko.Http
