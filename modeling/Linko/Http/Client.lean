import Linko.Http.Connection
import Linko.Http.HeaderEdits
import Linko.Uri.Create
/-!
# Requests of a client

`HttpConnection::DoRequest` and the `doRequest` of a pool: the request that is built
from a list of headers, and the result. The headers are a `std::map<std::string,
std::string>`, here the list of its entries in order: keys that differ in case are
different entries.
-/

namespace Linko.Http

open CString

/-- `HttpResult::Error` -/
inductive HttpError where
  | ok
  | invalidUrl
  | invalidHost
  | connectFail
  | sendCloseByPeer
  | sendSocketError
  | timeout
  | createSocketError
  | poolGetConnectionFail
  | poolInvalideConnection
  deriving DecidableEq, Repr

structure HttpResult where
  result : HttpError
  response : Option HttpResponse
  error : Bytes

/-! ## The request -/

/-- One turn of the loop over the headers: the request so far and `has_host`. -/
def addHeader (r : HttpRequest × Bool) (i : Bytes × Bytes) : HttpRequest × Bool :=
  if strcaseEq i.1 (ascii "connection") then
    (if strcaseEq i.2 (ascii "keep-alive") then { r.1 with close := false } else r.1, r.2)
  else
    let hasHost := if !r.2 && strcaseEq i.1 (ascii "host") then i.2 ≠ [] else r.2
    (r.1.setHeader i.1 i.2, hasHost)

def addHeaders (req : HttpRequest) (headers : List (Bytes × Bytes)) : HttpRequest × Bool :=
  headers.foldl addHeader (req, false)

/-- The request of `HttpConnection::DoRequest(method, uri, ..)`. -/
def HttpConnection.makeRequest (method : HttpMethod) (uri : Uri) (headers : List (Bytes × Bytes)) (body : Bytes) :
    HttpRequest :=
  let req := { HttpRequest.new with
    path := uri.getPath
    query := uri.getQuery
    fragment := uri.getFragment
    method := method }
  let (req, hasHost) := addHeaders req headers
  let req := if hasHost then req else req.setHeader (ascii "Host") uri.getHost
  { req with body := body }

/-- The request of `HttpConnectionPool::doRequest(method, url, ..)`. -/
def HttpConnectionPool.makeRequest (host vhost : Bytes) (method : HttpMethod) (url : Bytes)
    (headers : List (Bytes × Bytes)) (body : Bytes) : HttpRequest :=
  let req := { HttpRequest.new with
    path := url
    method := method
    close := false }
  let (req, hasHost) := addHeaders req headers
  let req :=
    if hasHost then req
    else if vhost = [] then req.setHeader (ascii "Host") host else req.setHeader (ascii "Host") vhost
  { req with body := body }

/-- The text that the overloads of the pool for a `Uri` give as url. -/
def HttpConnectionPool.target (uri : Uri) : Bytes :=
  uri.getPath ++ (if uri.getQuery = [] then [] else ascii "?") ++ uri.getQuery ++
    (if uri.getFragment = [] then [] else ascii "#") ++ uri.getFragment

/-! ## What the loop makes of the headers -/

/-- The value of the last entry whose key reads `k` up to case. -/
def lastValue (headers : List (Bytes × Bytes)) (k : Bytes) : Option Bytes :=
  headers.foldl (fun o i => if caseKey i.1 = k then some i.2 else o) none

/-- An entry that asks for a connection that stays open. -/
def asksKeepAlive (i : Bytes × Bytes) : Bool := strcaseEq i.1 (ascii "connection") && strcaseEq i.2 (ascii "keep-alive")

/-- An entry that names a host. -/
def namesHost (i : Bytes × Bytes) : Bool := strcaseEq i.1 (ascii "host") && i.2 ≠ []

theorem lastValue_snoc (headers : List (Bytes × Bytes)) (i : Bytes × Bytes) (k : Bytes) :
    lastValue (headers ++ [i]) k = if caseKey i.1 = k then some i.2 else lastValue headers k := by
  simp [lastValue]

theorem addHeaders_snoc (req : HttpRequest) (headers : List (Bytes × Bytes)) (i : Bytes × Bytes) :
    addHeaders req (headers ++ [i]) = addHeader (addHeaders req headers) i := by
  simp [addHeaders]

/-- What the loop leaves: the last value of every key but `connection`, whether one of
the entries names a host, and the close flag. -/
structure Built (req₀ : HttpRequest) (headers : List (Bytes × Bytes)) (r : HttpRequest × Bool) : Prop where
  value : ∀ key, r.1.headers.find? key =
    if strcaseEq key (ascii "connection") then none else lastValue headers (caseKey key)
  hasHost : r.2 = headers.any namesHost
  close : r.1.close = (req₀.close && !headers.any asksKeepAlive)
  same : r.1 = { req₀ with headers := r.1.headers, close := r.1.close }

theorem built_addHeader {req₀ : HttpRequest} {headers : List (Bytes × Bytes)} {r : HttpRequest × Bool}
    (h : Built req₀ headers r) (i : Bytes × Bytes) : Built req₀ (headers ++ [i]) (addHeader r i) := by
  have hcase : ∀ a b : Bytes, strcaseEq a b = true ↔ caseKey a = caseKey b := fun a b => beq_iff_eq
  rw [addHeader]
  by_cases hc : strcaseEq i.1 (ascii "connection") = true
  · rw [if_pos hc]
    have hhost : strcaseEq i.1 (ascii "host") = false := by
      rw [Bool.eq_false_iff, ne_eq, hcase, (hcase _ _).1 hc]
      decide
    refine ⟨fun key => ?_, ?_, ?_, ?_⟩
    · rw [lastValue_snoc, show (if strcaseEq i.2 (ascii "keep-alive") then { r.1 with close := false } else r.1).headers =
        r.1.headers by split <;> rfl, h.value key]
      by_cases hk : strcaseEq key (ascii "connection") = true
      · rw [if_pos hk, if_pos hk]
      · rw [if_neg hk, if_neg hk, if_neg]
        exact fun he => hk ((hcase _ _).2 (he.symm.trans ((hcase _ _).1 hc)))
    · rw [List.any_append, h.hasHost]
      simp [namesHost, hhost]
    · rw [List.any_append, List.any_cons, List.any_nil, asksKeepAlive, hc]
      split
      · rename_i hk
        simp [hk]
      · rename_i hk
        rw [h.close]
        simp [hk]
    · split
      · exact congrArg (fun q => ({ q with close := false } : HttpRequest)) h.same
      · exact h.same
  · rw [if_neg hc]
    refine ⟨fun key => ?_, ?_, ?_, congrArg (fun q => q.setHeader i.1 i.2) h.same⟩
    · show (r.1.headers.set i.1 i.2).find? key = _
      rw [HeaderMap.find?_eq, HeaderMap.entry_set, lastValue_snoc]
      by_cases hk : strcaseEq key (ascii "connection") = true
      · have hne : caseKey i.1 ≠ caseKey key := fun he => hc ((hcase _ _).2 (he.trans ((hcase _ _).1 hk)))
        have hv := h.value key
        rw [if_pos hk, HeaderMap.find?_eq] at hv
        rw [if_neg hne, if_pos hk, hv]
      · by_cases hi : caseKey i.1 = caseKey key
        · rw [if_pos hi, if_neg hk, if_pos hi]
          rfl
        · have hv := h.value key
          rw [if_neg hk, HeaderMap.find?_eq] at hv
          rw [if_neg hi, if_neg hk, if_neg hi, hv]
    · rw [List.any_append, ← h.hasHost]
      cases hr : r.2 <;> cases hh : strcaseEq i.1 (ascii "host") <;> simp [namesHost, hh]
    · show r.1.close = _
      rw [h.close, List.any_append]
      simp [asksKeepAlive, hc]

/-- The run lemma of the loop. -/
theorem built_addHeaders {req₀ : HttpRequest} (hempty : req₀.headers = .empty) (headers : List (Bytes × Bytes)) :
    Built req₀ headers (addHeaders req₀ headers) := by
  induction headers using List.reverseRecOn with
  | nil =>
    refine ⟨fun key => ?_, rfl, by simp [addHeaders], rfl⟩
    show req₀.headers.find? key = _
    rw [hempty]
    split <;> rfl
  | append_singleton headers i ih =>
    rw [addHeaders_snoc]
    exact built_addHeader ih i

/-- Behind the loop: the host of the caller when no entry names one. -/
def withHost (r : HttpRequest × Bool) (host : Bytes) : HttpRequest :=
  if r.2 then r.1 else r.1.setHeader (ascii "Host") host

/-- The headers of a request that a client builds. -/
def BuiltHeaders (headers : List (Bytes × Bytes)) (host : Bytes) (m : HeaderMap) : Prop :=
  ∀ key, m.find? key =
    if strcaseEq key (ascii "connection") then none
    else if strcaseEq key (ascii "host") && !headers.any namesHost then some host
    else lastValue headers (caseKey key)

theorem Built.withHost {req₀ : HttpRequest} {headers : List (Bytes × Bytes)} {r : HttpRequest × Bool}
    (h : Built req₀ headers r) (host : Bytes) : BuiltHeaders headers host (withHost r host).headers := by
  intro key
  have hkey : caseKey (ascii "Host") = caseKey (ascii "host") := by decide
  have hne : caseKey (ascii "host") ≠ caseKey (ascii "connection") := by decide
  rw [Http.withHost, h.hasHost]
  cases hnames : headers.any namesHost with
  | true =>
    rw [if_pos rfl, h.value key]
    simp
  | false =>
    have hv := h.value key
    rw [HeaderMap.find?_eq] at hv
    rw [if_neg (by decide)]
    show (r.1.headers.set _ _).find? key = _
    rw [HeaderMap.find?_eq, HeaderMap.entry_set]
    by_cases hk : caseKey (ascii "Host") = caseKey key
    · have hhost : strcaseEq key (ascii "host") = true := beq_iff_eq.2 (hk.symm.trans hkey)
      have hconn : strcaseEq key (ascii "connection") = false :=
        beq_eq_false_iff_ne.2 fun he => hne (hkey.symm.trans (hk.trans he))
      rw [if_pos hk, hhost, hconn]
      rfl
    · have hhost : strcaseEq key (ascii "host") = false :=
        beq_eq_false_iff_ne.2 fun he => hk (hkey.trans he.symm)
      rw [if_neg hk, hv, hhost]
      rfl

theorem Built.withHost_eq {req₀ : HttpRequest} {headers : List (Bytes × Bytes)} {r : HttpRequest × Bool}
    (h : Built req₀ headers r) (host : Bytes) :
    Http.withHost r host = { req₀ with
      headers := (Http.withHost r host).headers
      close := req₀.close && !headers.any asksKeepAlive } := by
  rw [← h.close, Http.withHost]
  split
  · exact h.same
  · exact congrArg (fun q => q.setHeader (ascii "Host") host) h.same

theorem HttpConnection.makeRequest_eq (method : HttpMethod) (uri : Uri) (headers : List (Bytes × Bytes))
    (body : Bytes) :
    makeRequest method uri headers body = { withHost (addHeaders { HttpRequest.new with
      path := uri.getPath
      query := uri.getQuery
      fragment := uri.getFragment
      method := method } headers) uri.getHost with body := body } :=
  rfl

/-- What `DoRequest` sends: besides the parts of the URI, for every key but `connection`
the last value given for it; the host of the URI unless an entry names one, and the
flag that the entries for `connection` ask for. -/
theorem HttpConnection.makeRequest_built (method : HttpMethod) (uri : Uri) (headers : List (Bytes × Bytes))
    (body : Bytes) :
    BuiltHeaders headers uri.getHost (makeRequest method uri headers body).headers ∧
      makeRequest method uri headers body =
        { method := method
          version := 0x11
          close := !headers.any asksKeepAlive
          path := uri.getPath
          query := uri.getQuery
          fragment := uri.getFragment
          body := body
          headers := (makeRequest method uri headers body).headers } := by
  have hbuilt := @built_addHeaders { HttpRequest.new with
    path := uri.getPath
    query := uri.getQuery
    fragment := uri.getFragment
    method := method } rfl headers
  refine ⟨hbuilt.withHost uri.getHost, ?_⟩
  exact congrArg (fun q => ({ q with body := body } : HttpRequest)) (hbuilt.withHost_eq uri.getHost)

/-- A pool that has a virtual host names that one. -/
theorem HttpConnectionPool.makeRequest_eq (host vhost : Bytes) (method : HttpMethod) (url : Bytes)
    (headers : List (Bytes × Bytes)) (body : Bytes) :
    makeRequest host vhost method url headers body = { withHost (addHeaders { HttpRequest.new with
      path := url
      method := method
      close := false } headers) (if vhost = [] then host else vhost) with body := body } := by
  by_cases hv : vhost = []
  · subst hv
    rfl
  · simp only [makeRequest, hv, if_false]
    rfl

/-- What a pool sends: it has the host or the virtual host of the pool, and the
connection is always to stay open. -/
theorem HttpConnectionPool.makeRequest_pool (host vhost : Bytes) (method : HttpMethod) (url : Bytes)
    (headers : List (Bytes × Bytes)) (body : Bytes) :
    BuiltHeaders headers (if vhost = [] then host else vhost) (makeRequest host vhost method url headers body).headers ∧
      makeRequest host vhost method url headers body =
        { method := method
          version := 0x11
          close := false
          path := url
          query := []
          fragment := []
          body := body
          headers := (makeRequest host vhost method url headers body).headers } := by
  have hbuilt := @built_addHeaders { HttpRequest.new with
    path := url
    method := method
    close := false } rfl headers
  rw [makeRequest_eq]
  refine ⟨hbuilt.withHost _, ?_⟩
  exact congrArg (fun q => ({ q with body := body } : HttpRequest)) (hbuilt.withHost_eq _)

/-! ## Two clients -/

/-- The headers of a request that is built do not depend on its other parts. -/
theorem addHeaders_congr {req req' : HttpRequest} (h : req.headers = req'.headers) (headers : List (Bytes × Bytes)) :
    (addHeaders req headers).1.headers = (addHeaders req' headers).1.headers ∧
      (addHeaders req headers).2 = (addHeaders req' headers).2 := by
  induction headers using List.reverseRecOn with
  | nil => exact ⟨h, rfl⟩
  | append_singleton headers i ih =>
    obtain ⟨hheaders, hhost⟩ := ih
    simp only [addHeaders_snoc, addHeader]
    split
    · refine ⟨?_, hhost⟩
      split <;> exact hheaders
    · refine ⟨?_, ?_⟩
      · show HeaderMap.set _ _ _ = HeaderMap.set _ _ _
        rw [hheaders]
      · dsimp only
        rw [hhost]

theorem addHeader_keepAlive (r : HttpRequest × Bool) :
    addHeader r (ascii "connection", ascii "keep-alive") = ({ r.1 with close := false }, r.2) := by
  rw [addHeader, if_pos (by decide), if_pos (by decide)]

theorem withHost_congr {r r' : HttpRequest × Bool} (h : r.1.headers = r'.1.headers) (hhost : r.2 = r'.2)
    (host : Bytes) : (withHost r host).headers = (withHost r' host).headers := by
  rw [withHost, withHost, hhost]
  split
  · exact h
  · show r.1.headers.set _ _ = r'.1.headers.set _ _
    rw [h]

/-- The lines of `dump` behind the target. -/
theorem dump_target {req : HttpRequest} :
    req.dump = httpMethodToString req.method ++ ascii " " ++ (req.path ++ (if req.query = [] then [] else ascii "?") ++ req.query ++
      (if req.fragment = [] then [] else ascii "#") ++ req.fragment) ++ (dumpVersion req.version ++ ascii "\r\n" ++
      dumpConnection req.close ++ dumpHeaders (ascii ":") req.headers ++ dumpBody req.body) := by
  simp only [HttpRequest.dump, List.append_assoc]

end Linko.Http
