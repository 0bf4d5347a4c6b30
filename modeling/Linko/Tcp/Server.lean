import Linko.Socket.Ownership
import Linko.Socket.Timeout
/-!
# `TcpServer`

The listening sockets, the accept loops and the tasks for clients of a server, on any
number of threads. An object lives as long as something points to it: `m_socks`, an
accept loop, or the task of a client.
-/

namespace Linko

open Hook

/-- What has been given to the workers and is not done. -/
inductive TcpTask where
  /-- `startAccept` on a socket, between two calls of `accept` -/
  | accept (sock : Nat)
  /-- `handleClient` -/
  | client (sock : Nat)
  /-- The lambda of `stop`. -/
  | stop
  deriving DecidableEq, Repr

/-- The socket that a task points to. -/
def TcpTask.sock? : TcpTask → Option Nat
  | .accept i => some i
  | .client i => some i
  | .stop => none

structure TcpServer (ρ α : Type) where
  m : Sockets ρ α
  socks : List Nat
  isStop : Bool
  recvTimeout : UInt64
  tasks : List TcpTask

namespace TcpServer

variable {ρ α : Type} (net : Net ρ α) (thread : Thread) (val : Addr) (s : TcpServer ρ α)

/-- The sockets that something points to. A parked call of `accept` belongs to a loop. -/
def refs : List Nat := s.socks ++ s.tasks.filterMap TcpTask.sock? ++ s.m.accepting.map Accepting.listener

/-- A pointer to a socket has gone. -/
def drop (i : Nat) : Option (TcpServer ρ α) :=
  if i ∈ s.refs then some s
  else do
    let (m, _) ← s.m.on i (Socket.close net thread)
    some { s with m := { m with objs := Function.update m.objs i none } }

/-- `m_socks.clear()` for the sockets that are left. -/
def clear : List Nat → TcpServer ρ α → Option (TcpServer ρ α)
  | [], s => some { s with socks := [] }
  | i :: socks, s => do
    let s ← drop net thread { s with socks := socks } i
    clear socks s

/-- One turn of the loop of `bind`, with the addresses that have failed. -/
def bindOne (r : TcpServer ρ α × List α) (addr : α) : Option (TcpServer ρ α × List α) := do
  let (s, fails) := r
  let (m, i) := s.m.create (Socket.new (net.getFamily addr) Socket.sockStream 0)
  let (m, ok) ← m.on i (Socket.bind net thread val addr)
  if !ok then
    let s ← drop net thread { s with m := m } i
    some (s, fails ++ [addr])
  else
    let (m, ok) ← m.on i (Socket.listen net)
    if !ok then
      let s ← drop net thread { s with m := m } i
      some (s, fails ++ [addr])
    else some ({ s with m := m, socks := s.socks ++ [i] }, fails)

/-- `bind(addrs, fails)`: the server, the failed addresses and the result. -/
def bind (addrs fails : List α) : Option (TcpServer ρ α × List α × Bool) := do
  let (s, fails) ← addrs.foldlM (bindOne net thread val) (s, fails)
  if fails ≠ [] then
    let s ← clear net thread s.socks s
    some (s, fails, false)
  else some (s, fails, true)

def start : TcpServer ρ α :=
  if s.isStop then { s with isStop := false, tasks := s.tasks ++ s.socks.map .accept } else s

def stop : TcpServer ρ α := { s with isStop := true, tasks := s.tasks ++ [.stop] }

/-- `client->setRecvTimeout(m_recvTimeout)`; the result is not used. -/
def setRecvTimeout (v : UInt64) : Socket.Member ρ α Unit := fun p c => do
  let (p, _) ← Socket.setRecvTimeout net.os thread val c.sock p v.toBitVec.toInt
  some (p, c, ())

/-- A client has been accepted. -/
def takeIn (c : Nat) : Option (TcpServer ρ α) := do
  let (m, _) ← s.m.on c (setRecvTimeout net thread val s.recvTimeout)
  some { s with m := m, tasks := s.tasks ++ [.client c] }

/-- `cancelAll` and `close` of a socket in the lambda of `stop`. -/
def stopOne (m : Sockets ρ α) (i : Nat) : Option (Sockets ρ α) := do
  let sock ← m.objs i
  let _ ← thread.iom
  if sock.sock < 0 then none
  else
    match Io.cancelAll m.p.io sock.sock.toNat (net.os.epollCtl m.p.world) with
    | .error _ => none
    | .ok (io, _, out) => do
      let (m, _) ← { m with p := { m.p with io := io, scheduled := m.p.scheduled ++ out } }.on i (Socket.close net thread)
      some m

/-- The task at index `k` goes on. -/
def run (fuel k : Nat) : Option (TcpServer ρ α) := do
  match ← s.tasks[k]? with
  | .accept i =>
    if s.isStop then drop net thread { s with tasks := s.tasks.eraseIdx k } i
    else do
      let (m, r) ← s.m.accept net thread val fuel i
      match r with
      | .client c => takeIn net thread val { s with m := m } c
      | .failed => some { s with m := m }
      | .parked => some { s with m := m, tasks := s.tasks.eraseIdx k }
  | .client c => drop net thread { s with tasks := s.tasks.eraseIdx k } c
  | .stop => do
    let m ← s.socks.foldlM (stopOne net thread) s.m
    clear net thread s.socks { s with m := m, tasks := s.tasks.eraseIdx k }

/-- A parked call of `accept` is woken. -/
def wake (fuel k : Nat) : Option (TcpServer ρ α) := do
  let a ← s.m.accepting[k]?
  let (m, r) ← s.m.acceptRetry net thread val fuel k
  match r with
  | .client c => takeIn net thread val { s with m := m, tasks := s.tasks ++ [.accept a.listener] } c
  | .failed => some { s with m := m, tasks := s.tasks ++ [.accept a.listener] }
  | .parked => some { s with m := m }

/-- It fails without another try. -/
def giveUp (k : Nat) : Option (TcpServer ρ α) := do
  let a ← s.m.accepting[k]?
  some { s with
    m := { s.m with accepting := s.m.accepting.eraseIdx k }
    tasks := s.tasks ++ [.accept a.listener] }

/-- The destructor: the tasks point to the server, so that there are none. -/
def destruct : Option (TcpServer ρ α) :=
  if s.tasks = [] ∧ s.m.accepting = [] then do
    let m ← s.socks.foldlM (fun m i => (m.on i (Socket.close net thread)).map Prod.fst) s.m
    clear net thread s.socks { s with m := m }
  else none

inductive Op (ρ α : Type) where
  | bind (addrs fails : List α)
  | start
  | stop
  | run (fuel k : Nat)
  | wake (fuel k : Nat)
  | giveUp (k : Nat)
  /-- `handleClient` closes its socket. -/
  | closeClient (c : Nat)
  | destruct
  | elsewhere (e : Sockets.Elsewhere ρ)

def step : Op ρ α → Option (TcpServer ρ α)
  | .bind addrs fails => (s.bind net thread val addrs fails).map Prod.fst
  | .start => some s.start
  | .stop => some s.stop
  | .run fuel k => s.run net thread val fuel k
  | .wake fuel k => s.wake net thread val fuel k
  | .giveUp k => s.giveUp k
  | .closeClient c =>
    if .client c ∈ s.tasks then
      (s.m.on c (Socket.close net thread)).map fun r => { s with m := r.1 }
    else none
  | .destruct => s.destruct net thread
  | .elsewhere e => some { s with m := { s.m with p := e.run s.m.p } }

end TcpServer

end Linko
