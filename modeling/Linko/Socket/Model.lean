import Linko.Hook.Nonblock
import Linko.Lib.Holdings
import Linko.Lib.Runs
/-!
# Sockets

The members of `Socket` that open, use and close a descriptor, over the hooks, and a
process whose fibers call them on any number of objects. A call that parks its fiber is
gone on with in a later step, and other calls run in between.
-/

namespace Linko

open Hook

structure Socket (α : Type) where
  sock : Int
  family : Int
  type : Int
  protocol : Int
  isConnected : Bool
  localAddress : Option α
  remoteAddress : Option α

/-- Which descriptors are open, and whether they are sockets. -/
def kind {ρ : Type} (w : World ρ) (fd : Int) : Option Bool := (w.files fd).map File.isSocket

/-- A call that opens a socket or fails. -/
def Opens {ρ : Type} (w : World ρ) (r : World ρ × Int) : Prop :=
  (r.2 = -1 ∧ kind r.1 = kind w) ∨
    (0 ≤ r.2 ∧ kind w r.2 = none ∧ kind r.1 = Function.update (kind w) r.2 (some true))

/-- The kernel that the sockets use, with the calls that have no hook. -/
structure Net (ρ α : Type) where
  os : Os ρ
  getFamily : α → Int
  /-- `true` for a result of 0 -/
  bind : Int → α → World ρ → World ρ × Bool
  listen : Int → World ρ → World ρ × Bool
  getsockname : Int → World ρ → World ρ × Option α
  getpeername : Int → World ρ → World ρ × Option α
  socket_opens : ∀ domain type protocol w, Opens w (os.call (.socket domain type protocol) w)
  accept_opens : ∀ s addr addrlen w, Opens w (os.call (.accept s addr addrlen) w)
  close_closes : ∀ fd w, kind (os.call (.close fd) w).1 = Function.update (kind w) fd none
  connect_keeps : ∀ fd addr len w, kind (os.call (.connect fd addr len) w).1 = kind w
  setsockopt_keeps : ∀ fd level name val len w, kind (os.call (.setsockopt fd level name val len) w).1 = kind w
  bind_keeps : ∀ fd addr w, kind (bind fd addr w).1 = kind w
  listen_keeps : ∀ fd w, kind (listen fd w).1 = kind w
  getsockname_keeps : ∀ fd w, kind (getsockname fd w).1 = kind w
  getpeername_keeps : ∀ fd w, kind (getpeername fd w).1 = kind w

namespace Socket

variable {ρ α : Type}

def soReuseaddr : Int := 2

def sockStream : Int := 1

def ipprotoTcp : Int := 6

def tcpNodelay : Int := 1

/-- The constructor. -/
def new (family type protocol : Int) : Socket α := ⟨-1, family, type, protocol, false, none, none⟩

def isValid (s : Socket α) : Bool := s.sock ≠ -1

/-- The part of `accept`, `connect` and the like that is done on a process and an object,
with a result; `none` for a fault. -/
abbrev Member (ρ α β : Type) := Process ρ → Socket α → Option (Process ρ × Socket α × β)

variable (net : Net ρ α) (thread : Thread) (val : Addr)

/-- `setOption(level, option, val)` for the `int` at an address; the result is not used. -/
def setFlag (p : Process ρ) (sock level option : Int) : Option (Process ρ) :=
  (setsockopt net.os thread p sock level option val 4).process?

def initSock : Member ρ α Unit := fun p s => do
  let p ← setFlag net thread val p s.sock solSocket soReuseaddr
  if s.type = sockStream then
    let p ← setFlag net thread val p s.sock ipprotoTcp tcpNodelay
    some (p, s, ())
  else some (p, s, ())

def newSock : Member ρ α Unit := fun p s =>
  match Hook.socket net.os thread p s.family s.type s.protocol with
  | .returns p sock =>
    let s := { s with sock := sock }
    if sock ≠ -1 then initSock net thread val p s else some (p, s, ())
  | _ => none

/-- `if (!isValid()) newSock();` and whether it is valid then. -/
def ensure : Member ρ α Bool := fun p s =>
  if s.isValid then some (p, s, true)
  else do
    let (p, s, _) ← newSock net thread val p s
    some (p, s, s.isValid)

/-- The address is asked for once: what has been found stays. -/
def getLocalAddress : Member ρ α Unit := fun p s =>
  if s.localAddress.isSome then some (p, s, ())
  else
    let (w, addr) := net.getsockname s.sock p.world
    some ({ p with world := w }, { s with localAddress := addr }, ())

def getRemoteAddress : Member ρ α Unit := fun p s =>
  if s.remoteAddress.isSome then some (p, s, ())
  else
    let (w, addr) := net.getpeername s.sock p.world
    some ({ p with world := w }, { s with remoteAddress := addr }, ())

def bind (addr : α) : Member ρ α Bool := fun p s => do
  let (p, s, valid) ← ensure net thread val p s
  if !valid then some (p, s, false)
  else if net.getFamily addr ≠ s.family then some (p, s, false)
  else
    let (w, ok) := net.bind s.sock addr p.world
    if !ok then some ({ p with world := w }, s, false)
    else
      let (p, s, _) ← getLocalAddress net { p with world := w } s
      some (p, s, true)

def listen : Member ρ α Bool := fun p s =>
  if !s.isValid then some (p, s, false)
  else
    let (w, ok) := net.listen s.sock p.world
    some ({ p with world := w }, s, ok)

def close : Member ρ α Bool := fun p s =>
  if !s.isConnected && s.sock = -1 then some (p, s, true)
  else
    let s := { s with isConnected := false }
    if s.sock ≠ -1 then do
      let p ← (Hook.close net.os thread p s.sock).process?
      some (p, { s with sock := -1 }, false)
    else some (p, s, false)

/-- What `connect` does when the system call has returned, with whether it has returned 0. -/
def connected (ok : Bool) : Member ρ α Bool := fun p s =>
  if !ok then do
    let (p, s, _) ← close net thread p s
    some (p, s, false)
  else do
    let (p, s, _) ← getRemoteAddress net p { s with isConnected := true }
    let (p, s, _) ← getLocalAddress net p s
    some (p, s, true)

/-- `connect`, with `none` while the fiber is parked in the system call. -/
def connect (addr : α) (ptr : Addr) (len : UInt32) (timeoutMs : UInt64) : Member ρ α (Option Bool) := fun p s => do
  let (p, s, valid) ← ensure net thread val p s
  if !valid then some (p, s, some false)
  else if net.getFamily addr ≠ s.family then some (p, s, some false)
  else
    let r := if timeoutMs = -1 then Hook.connect net.os thread p s.sock ptr len
      else connectWithTimeout net.os thread p s.sock ptr len timeoutMs
    match r with
    | .returns p rt => do
      let (p, s, ok) ← connected net thread (rt = 0) p s
      some (p, s, some ok)
    | .waits p _ _ => some (p, s, none)
    | _ => none

/-- On the object that `accept` has made for the descriptor `sock`. -/
def init (sock : Int) : Member ρ α Bool := fun p s =>
  match get net.os p sock false with
  | none => none
  | some (_, none) => some (p, s, false)
  | some (_, some ctx) =>
    if ctx.managed then do
      let (p, s, _) ← initSock net thread val p { s with sock := sock, isConnected := true }
      let (p, s, _) ← getLocalAddress net p s
      let (p, s, _) ← getRemoteAddress net p s
      some (p, s, true)
    else some (p, s, false)

end Socket

/-! ## A process -/

/-- A fiber in `accept`: the listening object, the new object, and the descriptor that
the call has read from the listening one. -/
structure Accepting (α : Type) where
  listener : Nat
  sock : Socket α
  fd : Int

/-- The objects by number, and the calls that are parked: of a `connect` there is the
number of its object. -/
structure Sockets (ρ α : Type) where
  p : Process ρ
  objs : Nat → Option (Socket α)
  next : Nat
  accepting : List (Accepting α)
  connecting : List Nat

/-- What comes of a call of `accept`: a new object, a null pointer, or a fiber that waits. -/
inductive Accepted where
  | client (i : Nat)
  | failed
  | parked
  deriving DecidableEq, Repr

namespace Sockets

variable {ρ α β : Type} (net : Net ρ α) (thread : Thread) (val : Addr) (m : Sockets ρ α)

/-- `new Socket(..)` -/
def create (s : Socket α) : Sockets ρ α × Nat :=
  ({ m with objs := Function.update m.objs m.next (some s), next := m.next + 1 }, m.next)

/-- A member function of object `i`. -/
def on (i : Nat) (f : Socket.Member ρ α β) : Option (Sockets ρ α × β) := do
  let s ← m.objs i
  let (p, s, b) ← f m.p s
  some ({ m with p := p, objs := Function.update m.objs i (some s) }, b)

/-- The end of `accept`: the new object becomes one of its own, if there is a descriptor
for it. -/
def accepted (sock : Socket α) (newsock : Int) : Option (Sockets ρ α × Accepted) :=
  if newsock = -1 then some (m, .failed)
  else do
    let (p, s, ok) ← Socket.init net thread val newsock m.p sock
    if ok then
      let (m, i) := { m with p := p }.create s
      some (m, .client i)
    else some ({ m with p := p }, .failed)

/-- `accept` on object `i`, up to its first yield. -/
def accept (fuel : Nat) (i : Nat) : Option (Sockets ρ α × Accepted) := do
  let s ← m.objs i
  let sock := Socket.new s.family s.type s.protocol
  match ← Hook.accept net.os thread fuel m.p s.sock 0 0 with
  | .returns p newsock => accepted net thread val { m with p := p } sock newsock
  | .waits p _ _ => some ({ m with p := p, accepting := m.accepting ++ [⟨i, sock, s.sock⟩] }, .parked)
  | _ => none

/-- What the hook of `accept` does when `do_io` returns. -/
def addContext (p : Process ρ) (fd : Int) : Option (Process ρ) :=
  if 0 ≤ fd then (get net.os p fd true).map Prod.fst else some p

/-- A parked `accept` that has been woken tries again. -/
def acceptRetry (fuel : Nat) (k : Nat) : Option (Sockets ρ α × Accepted) := do
  let a ← m.accepting[k]?
  let (w, n) ← uninterrupted net.os (.accept a.fd 0 0) fuel m.p.world
  let p := { m.p with world := w }
  if n = -1 ∧ w.errno = eagain then some ({ m with p := p }, .parked)
  else
    let p ← addContext net p n
    accepted net thread val { m with p := p, accepting := m.accepting.eraseIdx k } a.sock n

/-- The contexts of the table are those of sockets. -/
def Good (p : Process ρ) : Prop := ∀ fd ctx, entry p.datas fd = some ctx → ctx.managed = true

/-- No descriptor is opened or closed, and the contexts stay those of sockets. -/
def Quiet (p q : Process ρ) : Prop := kind q.world = kind p.world ∧ (Good p → Good q)

/-- What the rest of the process does. -/
structure Elsewhere (ρ : Type) where
  run : Process ρ → Process ρ
  quiet : ∀ p, Quiet p (run p)

/-- A step of a fiber, or of the rest of the process. -/
inductive Op (ρ α : Type) where
  | create (family type protocol : Int)
  | bind (i : Nat) (addr : α)
  | listen (i : Nat)
  | connect (i : Nat) (addr : α) (ptr : Addr) (len : UInt32) (timeoutMs : UInt64)
  /-- A parked `connect` goes on. -/
  | connected (i : Nat) (ok : Bool)
  | accept (i : Nat) (fuel : Nat)
  | acceptRetry (k : Nat) (fuel : Nat)
  /-- A parked `accept` gives up: its timer has run, or its event cannot be added. -/
  | acceptFails (k : Nat)
  | close (i : Nat)
  /-- The last pointer to the object goes. -/
  | destroy (i : Nat)
  | elsewhere (e : Elsewhere ρ)

/-- A step on a thread. -/
def step : Op ρ α → Option (Sockets ρ α)
  | .create family type protocol => some (m.create (Socket.new family type protocol)).1
  | .bind i addr => (m.on i (Socket.bind net thread val addr)).map Prod.fst
  | .listen i => (m.on i (Socket.listen net)).map Prod.fst
  | .connect i addr ptr len timeoutMs => do
    let (m, r) ← m.on i (Socket.connect net thread val addr ptr len timeoutMs)
    if r.isNone then some { m with connecting := m.connecting ++ [i] } else some m
  | .connected i ok =>
    if i ∈ m.connecting then
      ({ m with connecting := m.connecting.erase i }.on i (Socket.connected net thread ok)).map Prod.fst
    else none
  | .accept i fuel => (m.accept net thread val fuel i).map Prod.fst
  | .acceptRetry k fuel => (m.acceptRetry net thread val fuel k).map Prod.fst
  | .acceptFails k => if k < m.accepting.length then some { m with accepting := m.accepting.eraseIdx k } else none
  | .close i => (m.on i (Socket.close net thread)).map Prod.fst
  | .destroy i => do
    let (m, _) ← m.on i (Socket.close net thread)
    some { m with objs := Function.update m.objs i none }
  | .elsewhere e => some { m with p := e.run m.p }

end Sockets

end Linko
