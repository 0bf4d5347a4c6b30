import Linko.Http.Delivery
import Linko.Http.Servlet
/-!
# The HTTP server

`HttpServer::handleClient`: receive a request, let the servlet of its path fill in
the response, send it, and go on unless one side closes. What user code does in a
servlet and how many bytes of a response go out are parameters. Over the code stands
a server that works on requests and responses.
-/

namespace Linko.Http

open CString

/-! ## A session -/

/-- What a session has still to read, what the peer has got, and whether the socket is
connected. -/
structure HttpSession where
  input : Wire
  output : Bytes
  isOpen : Bool

namespace HttpSession

def close (s : HttpSession) : HttpSession := { s with isOpen := false }

/-- `recvRequest` on a session: on a closed socket every `read` fails. -/
def nextRequest (cfg : Config) (s : HttpSession) : Recv (HttpRequest × HttpSession) :=
  if s.isOpen then (recvRequest cfg s.input) >>= fun r => .returned (r.1, { s with input := r.2 })
  else .closed

/-- `sendResponse`. `write` gives the bytes that `writeFixSize` gets through to the
peer, none when it does not return. The value it returns is not looked at. -/
def sendResponse (write : HttpSession → Bytes → Option Bytes) (s : HttpSession) (rsp : HttpResponse) :
    Option HttpSession :=
  (write s rsp.dump).map fun bs => { s with output := s.output ++ bs }

end HttpSession

/-! ## Servlets -/

/-- `NotFoundServlet::handle` -/
def NotFoundServlet.handle (response : HttpResponse) : HttpResponse :=
  let response := { response with status := 404 }
  let response := response.setHeader (ascii "Server") (ascii "linko/1.0.0")
  let response := response.setHeader (ascii "Content-Type") (ascii "text/html")
  { response with body := ascii ("<html><head><title>404 Not Found" ++
      "</title></head><body><center><h1>404 Not Found</h1></center>" ++
      "<hr><center>linko/1.0.0</center></body></html>") }

/-- What a servlet may change: the world it shares with others, the request, the
response and the session. -/
abbrev Handled (ω : Type) := ω × HttpRequest × HttpResponse × HttpSession

/-- A server with its settings and the servlets of user code. A servlet without a value
is the `NotFoundServlet`. The world holds the routes, so a servlet may edit them. -/
structure HttpServer (σ κ ω : Type) where
  cfg : Config
  isKeepalive : Bool
  fnmatch : Bytes → Bytes → Int
  write : HttpSession → Bytes → Option Bytes
  dispatch : ω → ServletDispatch (Option σ) κ
  user : σ ⊕ κ → ω → HttpRequest → HttpResponse → HttpSession → Handled ω
  user_size : ∀ slt w req rsp s, (user slt w req rsp s).2.2.2.input.size ≤ s.input.size

/-- `HttpResponse(version, close)` -/
def HttpResponse.make (version : UInt8) (close : Bool) : HttpResponse :=
  { HttpResponse.new with version := version, close := close }

namespace HttpServer

variable {σ κ ω : Type} (srv : HttpServer σ κ ω)

/-- `Servlet::handle` -/
def handle : Servlet (Option σ) κ → ω → HttpRequest → HttpResponse → HttpSession → Handled ω
  | .given none, w, req, rsp, s => (w, req, NotFoundServlet.handle rsp, s)
  | .given (some slt), w, req, rsp, s => srv.user (.inl slt) w req rsp s
  | .function cb _, w, req, rsp, s => srv.user (.inr cb) w req rsp s

/-- `m_dispatch->handle` -/
def dispatchHandle (w : ω) (req : HttpRequest) (rsp : HttpResponse) (s : HttpSession) : Handled ω :=
  srv.handle ((srv.dispatch w).getMatchedServlet srv.fnmatch req.path) w req rsp s

theorem dispatchHandle_size (w : ω) (req : HttpRequest) (rsp : HttpResponse) (s : HttpSession) :
    (srv.dispatchHandle w req rsp s).2.2.2.input.size ≤ s.input.size := by
  rw [dispatchHandle]
  cases (srv.dispatch w).getMatchedServlet srv.fnmatch req.path with
  | given slt =>
    cases slt with
    | none => exact Nat.le_refl _
    | some slt => exact srv.user_size _ w req rsp s
  | function cb _ => exact srv.user_size _ w req rsp s

/-- How the handling of a client ends: with the session closed, waiting for bytes, in a
`writeFixSize` that does not return, or in a fault of the parser. -/
inductive Ending where
  | closed
  | waiting
  | sending
  | fault (f : Fault)
  deriving DecidableEq, Repr

end HttpServer

/-! ## The loop -/

namespace HttpSession

/-- A call that returns a request has read something. -/
theorem recvRequest_size {cfg : Config} {w w' : Wire} {req : HttpRequest}
    (h : recvRequest cfg w = .returned (req, w')) : w'.size < w.size := by
  obtain ⟨⟨parser, data, w₁⟩, hloop, hrest⟩ := Recv.bind_returned h
  have hlt : w₁.size < w.size := recvLoop_size hloop
  dsimp only at hrest
  split at hrest
  · obtain ⟨⟨body, w₂⟩, hbody, hret⟩ := Recv.bind_returned hrest
    simp only [Recv.returned.injEq, Prod.mk.injEq] at hret
    rw [← hret.2]
    exact (recvBody_size hbody).trans_lt hlt
  · simp only [Recv.returned.injEq, Prod.mk.injEq] at hrest
    rw [← hrest.2]
    exact hlt

theorem nextRequest_size {cfg : Config} {s s' : HttpSession} {req : HttpRequest}
    (h : s.nextRequest cfg = .returned (req, s')) : s'.input.size < s.input.size := by
  rw [nextRequest] at h
  split at h
  · obtain ⟨r, hr, hret⟩ := Recv.bind_returned h
    simp only [Recv.returned.injEq, Prod.mk.injEq] at hret
    rw [← hret.2]
    exact recvRequest_size hr
  · cases h

end HttpSession

namespace HttpServer

variable {σ κ ω : Type} (srv : HttpServer σ κ ω)

/-- `handleClient`; `w` is the world. -/
def handleClient (w : ω) (s : HttpSession) : ω × HttpSession × Ending :=
  match _hnext : s.nextRequest srv.cfg with
  | .returned (req, s₁) =>
    let rsp := HttpResponse.make req.version (req.close || !srv.isKeepalive)
    let r := srv.dispatchHandle w req rsp s₁
    match _hsend : r.2.2.2.sendResponse srv.write r.2.2.1 with
    | some s₃ =>
      if !srv.isKeepalive || r.2.1.close then (r.1, s₃.close, .closed) else handleClient r.1 s₃
    | none => (r.1, r.2.2.2, .sending)
  | .closed => (w, s.close, .closed)
  | .waiting => (w, s, .waiting)
  | .fault f => (w, s, .fault f)
termination_by s.input.size
decreasing_by
  have hlt := HttpSession.nextRequest_size _hnext
  have hle := srv.dispatchHandle_size w req (HttpResponse.make req.version (req.close || !srv.isKeepalive)) s₁
  obtain ⟨bs, -, rfl⟩ := Option.map_eq_some_iff.1 _hsend
  exact hle.trans_lt hlt

/-! ## A server of requests -/

/-- User code that neither looks at the session nor changes it: it answers through the
response. -/
def LeavesSession : Prop :=
  ∀ slt w req rsp s s', srv.user slt w req rsp s =
    ((srv.user slt w req rsp s').1, (srv.user slt w req rsp s').2.1, (srv.user slt w req rsp s').2.2.1, s)

/-- On an open socket all that is written goes out. -/
def Sends : Prop := ∀ s bs, s.isOpen = true → srv.write s bs = some bs

/-- The answer to a request: what becomes of the world, of the request and of the
response. -/
def respond (w : ω) (req : HttpRequest) : ω × HttpRequest × HttpResponse :=
  let r := srv.dispatchHandle w req (HttpResponse.make req.version (req.close || !srv.isKeepalive)) ⟨[], [], true⟩
  (r.1, r.2.1, r.2.2.1)

/-- The answers to requests one after the other, and whether one of them was the last. -/
def serve (w : ω) : List HttpRequest → ω × List HttpResponse × Bool
  | [] => (w, [], false)
  | req :: reqs =>
    let r := srv.respond w req
    if !srv.isKeepalive || r.2.1.close then (r.1, [r.2.2], true)
    else
      let t := serve r.1 reqs
      (t.1, r.2.2 :: t.2.1, t.2.2)

variable {srv}

theorem handle_eq (hleave : srv.LeavesSession) (slt : Servlet (Option σ) κ) (w : ω) (req : HttpRequest)
    (rsp : HttpResponse) (s s' : HttpSession) :
    srv.handle slt w req rsp s =
      ((srv.handle slt w req rsp s').1, (srv.handle slt w req rsp s').2.1, (srv.handle slt w req rsp s').2.2.1, s) := by
  cases slt with
  | given slt =>
    cases slt with
    | none => rfl
    | some slt => exact hleave _ w req rsp s s'
  | function cb _ => exact hleave _ w req rsp s s'

theorem dispatchHandle_eq (hleave : srv.LeavesSession) (w : ω) (req : HttpRequest) (s : HttpSession) :
    srv.dispatchHandle w req (HttpResponse.make req.version (req.close || !srv.isKeepalive)) s =
      ((srv.respond w req).1, (srv.respond w req).2.1, (srv.respond w req).2.2, s) :=
  handle_eq hleave _ w req _ s ⟨[], [], true⟩

/-- One turn of the loop. -/
theorem handleClient_turn (hleave : srv.LeavesSession) (hsend : srv.Sends) {w : ω} {s : HttpSession} {v : Wire}
    {req : HttpRequest} (hopen : s.isOpen = true)
    (hrecv : HttpSession.recvRequest srv.cfg s.input = .returned (req, v)) :
    srv.handleClient w s =
      if !srv.isKeepalive || (srv.respond w req).2.1.close then
        ((srv.respond w req).1, ⟨v, s.output ++ (srv.respond w req).2.2.dump, false⟩, .closed)
      else srv.handleClient (srv.respond w req).1 ⟨v, s.output ++ (srv.respond w req).2.2.dump, true⟩ := by
  have hnext : s.nextRequest srv.cfg = .returned (req, ⟨v, s.output, true⟩) := by
    rw [HttpSession.nextRequest, if_pos hopen, hrecv, ← hopen]
    rfl
  have hsent : HttpSession.sendResponse srv.write ⟨v, s.output, true⟩ (srv.respond w req).2.2 =
      some ⟨v, s.output ++ (srv.respond w req).2.2.dump, true⟩ := by
    rw [HttpSession.sendResponse, hsend _ _ rfl]
    rfl
  rw [handleClient]
  split <;> rename_i hn <;> rw [hnext] at hn
  · rw [Recv.returned.injEq, Prod.mk.injEq] at hn
    obtain ⟨rfl, rfl⟩ := hn
    simp only [dispatchHandle_eq hleave]
    split <;> rename_i hs <;> simp only [dispatchHandle_eq hleave, hsent, reduceCtorEq, Option.some.injEq] at hs
    subst hs
    rfl
  all_goals cases hn

/-- The loop ends with the call that does not return a request. -/
theorem handleClient_ends {w : ω} {s : HttpSession} (hopen : s.isOpen = true) :
    (HttpSession.recvRequest srv.cfg s.input = .closed → srv.handleClient w s = (w, s.close, .closed)) ∧
    (HttpSession.recvRequest srv.cfg s.input = .waiting → srv.handleClient w s = (w, s, .waiting)) ∧
    ∀ f, HttpSession.recvRequest srv.cfg s.input = .fault f → srv.handleClient w s = (w, s, .fault f) := by
  have hnext : s.nextRequest srv.cfg =
      (HttpSession.recvRequest srv.cfg s.input >>= fun r => .returned (r.1, { s with input := r.2 })) := by
    rw [HttpSession.nextRequest, if_pos hopen]
  refine ⟨fun h => ?_, fun h => ?_, fun f h => ?_⟩ <;> rw [h] at hnext <;> rw [handleClient] <;> split <;>
    rename_i hn <;> rw [hnext] at hn <;> cases hn
  all_goals rfl

/-! ## Every stream of bytes -/

/-- What handling a client that sends `input` comes to: requests were received one after
the other and answered as the server of requests answers them, and the loop ended
behind the last of them, or with the call that returned none. -/
structure Handles (srv : HttpServer σ κ ω) (w : ω) (input : Wire) (output : Bytes) (reqs : List HttpRequest)
    (r : ω × HttpSession × Ending) : Prop where
  world : r.1 = (srv.serve w reqs).1
  answered : (srv.serve w reqs).2.1.length = reqs.length
  output : r.2.1.output = output ++ (srv.serve w reqs).2.1.flatMap HttpResponse.dump
  isOpen : r.2.1.isOpen = true ↔ r.2.2 ≠ .closed
  ending :
    (srv.serve w reqs).2.2 = true ∧ r.2.2 = .closed ∧
        HttpSession.recvRequests srv.cfg reqs.length input = reqs.map .returned ∨
      (srv.serve w reqs).2.2 = false ∧ ∃ x : Recv HttpRequest,
        HttpSession.recvRequests srv.cfg (reqs.length + 1) input = reqs.map .returned ++ [x] ∧
        (x = .closed ∧ r.2.2 = .closed ∨ x = .waiting ∧ r.2.2 = .waiting ∨ ∃ f, x = .fault f ∧ r.2.2 = .fault f)

/-- A call that returns no request, as the end of the list of calls. -/
theorem Handles.stop {w : ω} {s : HttpSession} {r : ω × HttpSession × Ending} {x : Recv HttpRequest}
    (hworld : r.1 = w) (hout : r.2.1.output = s.output) (hopen : r.2.1.isOpen = true ↔ r.2.2 ≠ .closed)
    (hrecv : HttpSession.recvRequests srv.cfg 1 s.input = [x])
    (hx : x = .closed ∧ r.2.2 = .closed ∨ x = .waiting ∧ r.2.2 = .waiting ∨ ∃ f, x = .fault f ∧ r.2.2 = .fault f) :
    srv.Handles w s.input s.output [] r where
  world := hworld
  answered := rfl
  output := by rw [hout, serve, List.flatMap_nil, List.append_nil]
  isOpen := hopen
  ending := .inr ⟨rfl, x, hrecv, hx⟩

/-- Whatever a client sends, handling it is serving the requests that come out of it. -/
theorem exists_handles (hleave : srv.LeavesSession) (hsend : srv.Sends) (w : ω) (s : HttpSession)
    (hopen : s.isOpen = true) : ∃ reqs, srv.Handles w s.input s.output reqs (srv.handleClient w s) := by
  obtain ⟨hclosed, hwaiting, hfault⟩ := @handleClient_ends σ κ ω srv w s hopen
  cases hrecv : HttpSession.recvRequest srv.cfg s.input with
  | closed =>
    refine ⟨[], ?_⟩
    rw [hclosed hrecv]
    exact Handles.stop rfl rfl (by simp [HttpSession.close]) (by simp [HttpSession.recvRequests, hrecv])
      (.inl ⟨rfl, rfl⟩)
  | waiting =>
    refine ⟨[], ?_⟩
    rw [hwaiting hrecv]
    exact Handles.stop rfl rfl (by simp [hopen]) (by simp [HttpSession.recvRequests, hrecv]) (.inr (.inl ⟨rfl, rfl⟩))
  | fault f =>
    refine ⟨[], ?_⟩
    rw [hfault f hrecv]
    exact Handles.stop rfl rfl (by simp [hopen]) (by simp [HttpSession.recvRequests, hrecv])
      (.inr (.inr ⟨f, rfl, rfl⟩))
  | returned a =>
    obtain ⟨req, v⟩ := a
    have hlt := HttpSession.recvRequest_size hrecv
    rw [handleClient_turn hleave hsend hopen hrecv]
    split
    · rename_i hlast
      have hserve : srv.serve w [req] = ((srv.respond w req).1, [(srv.respond w req).2.2], true) := by
        rw [serve, if_pos hlast]
      refine ⟨[req], ⟨?_, ?_, ?_, by simp, .inl ⟨?_, rfl, ?_⟩⟩⟩
      · rw [hserve]
      · rw [hserve]
        rfl
      · rw [hserve, List.flatMap_cons, List.flatMap_nil, List.append_nil]
      · rw [hserve]
      · simp [HttpSession.recvRequests, hrecv]
    · rename_i hgo
      obtain ⟨reqs, hrest⟩ := exists_handles hleave hsend (srv.respond w req).1
        ⟨v, s.output ++ (srv.respond w req).2.2.dump, true⟩ rfl
      have hserve : srv.serve w (req :: reqs) =
          ((srv.serve (srv.respond w req).1 reqs).1,
            (srv.respond w req).2.2 :: (srv.serve (srv.respond w req).1 reqs).2.1,
            (srv.serve (srv.respond w req).1 reqs).2.2) := by rw [serve, if_neg hgo]
      refine ⟨req :: reqs, ⟨?_, ?_, ?_, hrest.isOpen, ?_⟩⟩
      · rw [hserve, hrest.world]
      · rw [hserve, List.length_cons, List.length_cons, hrest.answered]
      · rw [hserve, hrest.output, List.flatMap_cons, List.append_assoc]
      · rw [hserve]
        rcases hrest.ending with ⟨hdone, hend, hreqs⟩ | ⟨hdone, x, hreqs, hend⟩
        · refine .inl ⟨hdone, hend, ?_⟩
          simp only [List.length_cons, HttpSession.recvRequests, hrecv, hreqs, List.map_cons]
        · refine .inr ⟨hdone, x, ?_, hend⟩
          simp only [List.length_cons, HttpSession.recvRequests, hrecv, List.map_cons, List.cons_append]
          rw [← hreqs, HttpSession.recvRequests]
termination_by s.input.size

/-- A request of the grammar, with the pieces in which it arrives and the body that the
session makes of them. -/
structure Arrival (cfg : Config) where
  req : HttpRequest
  pieces : List Bytes
  body : Bytes
  printable : Printable req
  arrives : Arrives cfg req pieces body

/-- What the servlets get of it. -/
def Arrival.handed {cfg : Config} (a : Arrival cfg) : HttpRequest := received a.req a.body

/-- A server with one servlet, which answers at `/a` with the path. -/
def echo : HttpServer Unit Empty Unit where
  cfg := .pieces
  isKeepalive := true
  fnmatch _ _ := 1
  write _ bs := some bs
  dispatch _ := (ServletDispatch.new (.given none)).addServlet (ascii "/a") (.given (some ()))
  user _ w req rsp s := (w, req, { rsp with body := req.path }, s)
  user_size _ _ _ _ _ := Nat.le_refl _

theorem leavesSession_echo : echo.LeavesSession := fun _ _ _ _ _ _ => rfl

theorem sends_echo : echo.Sends := fun _ _ _ => rfl

/-- `getPage` twice, at first with `keep-alive`. -/
def twoPages : List (Arrival echo.cfg) := [
  ⟨{ getPage with close := false }, _, _, ⟨printable_getPage.method, printable_getPage.version,
    printable_getPage.path, printable_getPage.query, printable_getPage.fragment, printable_getPage.name,
    printable_getPage.connection, printable_getPage.contentLength, printable_getPage.value⟩, .whole (by decide)⟩,
  ⟨getPage, _, _, printable_getPage, .whole (by decide)⟩]

end HttpServer

end Linko.Http
