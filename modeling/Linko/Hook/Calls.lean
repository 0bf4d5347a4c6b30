import Linko.Hook.Kernel
import Linko.Hook.Wait
/-!
# The hooks

`FdCtx` and `FdManager` of `fd_manager.cc` and the functions of `hook.cc`, each
until it returns or its fiber yields. What is behind the yield of `do_io` and
`connect_with_timeout` is in `Linko.Hook.Wait`.
-/

namespace Linko.Hook

open Io

variable {ρ : Type}

/-! ## Contexts of descriptors -/

structure FdCtx where
  isInit : Bool
  isSocket : Bool
  sysNonblock : Bool
  userNonblock : Bool
  isClosed : Bool
  recvTimeout : UInt64
  sendTimeout : UInt64
  deriving DecidableEq, Repr

/-- `FdCtx::init`, which the constructor calls. -/
def FdCtx.init (os : Os ρ) (w : World ρ) (fd : Int) : World ρ × FdCtx :=
  let (w, stat) := fstat w fd
  let isInit := stat.isSome
  let isSocket := stat = some true
  if isSocket then
    let (w, flags) := original os (.fcntl fd .getfl) w
    let flags := BitVec.ofInt 32 flags
    let w := if nonblock flags then w else (original os (.fcntl fd (.setfl (flags ||| oNonblock))) w).1
    (w, ⟨isInit, true, true, false, false, -1, -1⟩)
  else (w, ⟨isInit, false, false, false, false, -1, -1⟩)

def FdCtx.setTimeout (ctx : FdCtx) (type : Int) (v : UInt64) : FdCtx :=
  if type = soRcvtimeo then { ctx with recvTimeout := v } else { ctx with sendTimeout := v }

def FdCtx.getTimeout (ctx : FdCtx) (type : Int) : UInt64 :=
  if type = soRcvtimeo then ctx.recvTimeout else ctx.sendTimeout

structure Process (ρ : Type) where
  world : World ρ
  /-- `m_datas` of `FdManager` -/
  datas : List (Option FdCtx)
  /-- The events of the `IOManager`. -/
  io : Io.State
  /-- What was given to its scheduler. -/
  scheduled : List Scheduled
  /-- `s_connect_timeout` -/
  connectTimeout : UInt64

/-- What a thread has for itself. -/
structure Thread where
  /-- `t_hook_enable` -/
  hookEnable : Bool
  /-- `Fiber::GetThis()` -/
  fiber : FiberId
  /-- `IOManager::GetThis()` -/
  iom : Option SchedulerId

/-- `m_datas[fd] = ctx` -/
def Process.put (p : Process ρ) (fd : Int) (ctx : FdCtx) : Process ρ :=
  { p with datas := p.datas.set fd.toNat (some ctx) }

/-- The context at an index of the table. -/
def entry (datas : List (Option FdCtx)) (fd : Int) : Option FdCtx :=
  if fd < 0 then none else (datas[fd.toNat]?).join

/-- `m_datas.resize(fd * 1.5)` if the descriptor is behind the end. -/
def resize (datas : List (Option FdCtx)) (fd : Int) : List (Option FdCtx) :=
  if datas.length ≤ fd then datas ++ List.replicate ((fd * 3 / 2).toNat - datas.length) none else datas

/-- The part of `FdManager::get` that creates a context. An index that is then
still behind the end is a fault. -/
def create (os : Os ρ) (p : Process ρ) (fd : Int) : Option (Process ρ × Option FdCtx) :=
  let (w, ctx) := FdCtx.init os p.world fd
  let datas := resize p.datas fd
  if datas.length ≤ fd then none else some ({ p with world := w, datas := datas }.put fd ctx, some ctx)

/-- `FdManager::get`, with `none` for an index before the begin of the table. -/
def get (os : Os ρ) (p : Process ρ) (fd : Int) (autoCreate : Bool) : Option (Process ρ × Option FdCtx) :=
  if fd = -1 then some (p, none)
  else if p.datas.length ≤ fd then
    if autoCreate = false then some (p, none) else create os p fd
  else if fd < 0 then none
  else
    match entry p.datas fd with
    | some ctx => some (p, some ctx)
    | none => if autoCreate = false then some (p, none) else create os p fd

def del (p : Process ρ) (fd : Int) : Process ρ :=
  if p.datas.length ≤ fd then p else { p with datas := p.datas.set fd.toNat none }

/-! ## Calls on a thread -/

/-- What a call does until the fiber yields. -/
inductive Result (ρ : Type) where
  | returns (p : Process ρ) (value : Int)
  /-- A timer schedules the fiber, and the call then returns 0. -/
  | sleeps (p : Process ρ) (ms : UInt64)
  /-- The call waits, without a timer if the timeout is -1. -/
  | waits (p : Process ρ) (wait : Wait) (timeout : UInt64)
  /-- An access that is not valid. -/
  | fault

/-- The original function is called and its value returned. -/
def Process.original (os : Os ρ) (p : Process ρ) (c : Call) : Result ρ :=
  .returns { p with world := (Hook.original os c p.world).1 } (Hook.original os c p.world).2

/-- A call that fails with `errno`. -/
def Process.fail (p : Process ρ) (errno : Int) : Result ρ :=
  .returns { p with world := { p.world with errno := errno } } (-1)

variable (os : Os ρ) (thread : Thread)

/-- The timer and the yield of the sleeping functions. -/
def sleepFor (p : Process ρ) (ms : UInt64) : Result ρ :=
  match thread.iom with
  | none => .fault
  | some _ => .sleeps p ms

def sleep (p : Process ρ) (seconds : UInt32) : Result ρ :=
  if thread.hookEnable = false then p.original os (.sleep seconds)
  else sleepFor thread p (seconds * 1000).toUInt64

def usleep (p : Process ρ) (usec : UInt32) : Result ρ :=
  if thread.hookEnable = false then p.original os (.usleep usec) else sleepFor thread p (usec / 1000).toUInt64

/-- It calls itself where the others call the original function. The result is
`none` when the fuel is used up. -/
def nanosleep (req rem : Addr) : Nat → Process ρ → Option (Result ρ)
  | 0, _ => none
  | fuel + 1, p =>
    if thread.hookEnable = false then nanosleep req rem fuel p
    else
      match p.world.times req with
      | none => some .fault
      | some (sec, nsec) =>
        -- `int timeout_ms`, which `addTimer` takes as `uint64_t`
        let timeoutMs := BitVec.ofInt 32 (sec * 1000 + (nsec.tdiv 1000).tdiv 1000)
        some (sleepFor thread p ⟨timeoutMs.signExtend 64⟩)

def socket (p : Process ρ) (domain type protocol : Int) : Result ρ :=
  if thread.hookEnable = false then p.original os (.socket domain type protocol)
  else
    let (w, fd) := original os (.socket domain type protocol) p.world
    let p := { p with world := w }
    if fd = -1 then .returns p fd
    else
      match get os p fd true with
      | none => .fault
      | some (p, _) => .returns p fd

/-- The loop of `do_io` over `EINTR`. -/
def uninterrupted (c : Call) : Nat → World ρ → Option (World ρ × Int)
  | 0, _ => none
  | fuel + 1, w =>
    let (w, n) := original os c w
    if n = -1 ∧ w.errno = eintr then uninterrupted c fuel w else some (w, n)

def doIo (fuel : Nat) (p : Process ρ) (fd : Int) (c : Call) (event : Event) (timeoutSo : Int) :
    Option (Result ρ) :=
  if thread.hookEnable = false then some (p.original os c)
  else
    match get os p fd false with
    | none => some .fault
    | some (_, none) => some (p.original os c)
    | some (_, some ctx) =>
      if ctx.isClosed then some (p.fail ebadf)
      else if !ctx.isSocket || ctx.userNonblock then some (p.original os c)
      else do
        let (w, n) ← uninterrupted os c fuel p.world
        let p := { p with world := w }
        if n = -1 ∧ w.errno = eagain then
          match thread.iom with
          | none => some .fault
          | some scheduler =>
            some (.waits p (.doIo fd.toNat event thread.fiber scheduler) (ctx.getTimeout timeoutSo))
        else some (.returns p n)

def connectWithTimeout (p : Process ρ) (fd : Int) (addr : Addr) (addrlen : UInt32)
    (timeoutMs : UInt64) : Result ρ :=
  if thread.hookEnable = false then p.original os (.connect fd addr addrlen)
  else
    match get os p fd false with
    | none => .fault
    | some (_, none) => p.fail ebadf
    | some (_, some ctx) =>
      if ctx.isClosed then p.fail ebadf
      else if !ctx.isSocket || ctx.userNonblock then p.original os (.connect fd addr addrlen)
      else
        let (w, n) := original os (.connect fd addr addrlen) p.world
        let p := { p with world := w }
        if n = -1 ∧ w.errno = einprogress then
          match thread.iom with
          | none => .fault
          | some scheduler => .waits p (.connectWithTimeout fd.toNat thread.fiber scheduler) timeoutMs
        else .returns p n

def connect (p : Process ρ) (sockfd : Int) (addr : Addr) (addrlen : UInt32) : Result ρ :=
  connectWithTimeout os thread p sockfd addr addrlen p.connectTimeout

/-- The descriptor that `do_io` returns gets a context, whether the hooks are on
or not. -/
def accept (fuel : Nat) (p : Process ρ) (s : Int) (addr addrlen : Addr) : Option (Result ρ) := do
  let r ← doIo os thread fuel p s (.accept s addr addrlen) .read soRcvtimeo
  match r with
  | .returns p fd =>
    if 0 ≤ fd then
      match get os p fd true with
      | none => some .fault
      | some (p, _) => some (.returns p fd)
    else some (.returns p fd)
  | r => some r

def read (fuel : Nat) (p : Process ρ) (fd : Int) (buf : Addr) (count : UInt64) : Option (Result ρ) :=
  doIo os thread fuel p fd (.read fd buf count) .read soRcvtimeo

def readv (fuel : Nat) (p : Process ρ) (fd : Int) (iov : Addr) (iovcnt : Int) : Option (Result ρ) :=
  doIo os thread fuel p fd (.readv fd iov iovcnt) .read soRcvtimeo

def recv (fuel : Nat) (p : Process ρ) (sockfd : Int) (buf : Addr) (len : UInt64) (flags : Int) :
    Option (Result ρ) :=
  doIo os thread fuel p sockfd (.recv sockfd buf len flags) .read soRcvtimeo

def recvfrom (fuel : Nat) (p : Process ρ) (sockfd : Int) (buf : Addr) (len : UInt64) (flags : Int)
    (srcAddr addrlen : Addr) : Option (Result ρ) :=
  doIo os thread fuel p sockfd (.recvfrom sockfd buf len flags srcAddr addrlen) .read soRcvtimeo

def recvmsg (fuel : Nat) (p : Process ρ) (sockfd : Int) (msg : Addr) (flags : Int) : Option (Result ρ) :=
  doIo os thread fuel p sockfd (.recvmsg sockfd msg flags) .read soRcvtimeo

def write (fuel : Nat) (p : Process ρ) (fd : Int) (buf : Addr) (count : UInt64) : Option (Result ρ) :=
  doIo os thread fuel p fd (.write fd buf count) .write soSndtimeo

def writev (fuel : Nat) (p : Process ρ) (fd : Int) (iov : Addr) (iovcnt : Int) : Option (Result ρ) :=
  doIo os thread fuel p fd (.writev fd iov iovcnt) .write soSndtimeo

def send (fuel : Nat) (p : Process ρ) (s : Int) (msg : Addr) (len : UInt64) (flags : Int) : Option (Result ρ) :=
  doIo os thread fuel p s (.send s msg len flags) .write soSndtimeo

def sendto (fuel : Nat) (p : Process ρ) (s : Int) (msg : Addr) (len : UInt64) (flags : Int) (dst : Addr)
    (tolen : UInt32) : Option (Result ρ) :=
  doIo os thread fuel p s (.sendto s msg len flags dst tolen) .write soSndtimeo

def sendmsg (fuel : Nat) (p : Process ρ) (s : Int) (msg : Addr) (flags : Int) : Option (Result ρ) :=
  doIo os thread fuel p s (.sendmsg s msg flags) .write soSndtimeo

def close (p : Process ρ) (fd : Int) : Result ρ :=
  if thread.hookEnable = false then p.original os (.close fd)
  else
    match get os p fd false with
    | none => .fault
    | some (_, none) => p.original os (.close fd)
    | some (_, some _) =>
      match thread.iom with
      | none => (del p fd).original os (.close fd)
      | some _ =>
        match cancelAll p.io fd.toNat (os.epollCtl p.world) with
        | .error _ => .fault
        | .ok (io, _, out) =>
          (del { p with io := io, scheduled := p.scheduled ++ out } fd).original os (.close fd)

/-- The context of a socket that is not closed, which `fcntl` and `ioctl` work on. -/
def FdCtx.managed (ctx : FdCtx) : Bool := !ctx.isClosed && ctx.isSocket

/-- For a command that it does not know the hook calls `fcntl_f` without the
argument. `junk` is what is there in its place. -/
def fcntl (junk : UInt64) (p : Process ρ) (fd : Int) : Fcntl → Result ρ
  | .setfl arg =>
    match get os p fd false with
    | none => .fault
    | some (_, none) => p.original os (.fcntl fd (.setfl arg))
    | some (_, some ctx) =>
      if ctx.managed then
        (p.put fd { ctx with userNonblock := nonblock arg }).original os
          (.fcntl fd (.setfl (withNonblock arg ctx.sysNonblock)))
      else p.original os (.fcntl fd (.setfl arg))
  | .getfl =>
    let (w, arg) := original os (.fcntl fd .getfl) p.world
    let p := { p with world := w }
    match get os p fd false with
    | none => .fault
    | some (_, none) => .returns p arg
    | some (_, some ctx) =>
      if ctx.managed then .returns p (withNonblock (BitVec.ofInt 32 arg) ctx.userNonblock).toInt
      else .returns p arg
  | .int cmd arg => p.original os (.fcntl fd (.int cmd arg))
  | .get cmd => p.original os (.fcntl fd (.get cmd))
  | .lock cmd arg => p.original os (.fcntl fd (.lock cmd arg))
  | .owner cmd arg => p.original os (.fcntl fd (.owner cmd arg))
  | .other cmd _ => p.original os (.fcntl fd (.other cmd junk))

def ioctl (p : Process ρ) (fd : Int) (request : UInt64) (arg : Addr) : Result ρ :=
  if request = fionbio then
    match p.world.ints arg with
    | none => .fault
    | some v =>
      match get os p fd false with
      | none => .fault
      | some (_, none) => p.original os (.ioctl fd request arg)
      | some (_, some ctx) =>
        if ctx.managed then (p.put fd { ctx with userNonblock := v ≠ 0 }).original os (.ioctl fd request arg)
        else p.original os (.ioctl fd request arg)
  else p.original os (.ioctl fd request arg)

def getsockopt (p : Process ρ) (sockfd level optname : Int) (optval optlen : Addr) : Result ρ :=
  p.original os (.getsockopt sockfd level optname optval optlen)

def setsockopt (p : Process ρ) (sockfd level optname : Int) (optval : Addr) (optlen : UInt32) : Result ρ :=
  if thread.hookEnable = false then p.original os (.setsockopt sockfd level optname optval optlen)
  else if level = solSocket ∧ (optname = soRcvtimeo ∨ optname = soSndtimeo) then
    match get os p sockfd false with
    | none => .fault
    | some (_, none) => p.original os (.setsockopt sockfd level optname optval optlen)
    | some (_, some ctx) =>
      match p.world.times optval with
      | none => .fault
      | some (sec, usec) =>
        let v := UInt64.ofBitVec (BitVec.ofInt 64 (sec * 1000 + usec.tdiv 1000))
        (p.put sockfd (ctx.setTimeout optname v)).original os (.setsockopt sockfd level optname optval optlen)
  else p.original os (.setsockopt sockfd level optname optval optlen)

/-- A call of a function of `HOOK_FUN`. -/
def hooked (junk : UInt64) (fuel : Nat) (p : Process ρ) : Call → Option (Result ρ)
  | .sleep seconds => some (sleep os thread p seconds)
  | .usleep usec => some (usleep os thread p usec)
  | .nanosleep req rem => nanosleep thread req rem fuel p
  | .socket domain type protocol => some (socket os thread p domain type protocol)
  | .connect sockfd addr addrlen => some (connect os thread p sockfd addr addrlen)
  | .accept s addr addrlen => accept os thread fuel p s addr addrlen
  | .read fd buf count => read os thread fuel p fd buf count
  | .readv fd iov iovcnt => readv os thread fuel p fd iov iovcnt
  | .recv sockfd buf len flags => recv os thread fuel p sockfd buf len flags
  | .recvfrom sockfd buf len flags srcAddr addrlen =>
    recvfrom os thread fuel p sockfd buf len flags srcAddr addrlen
  | .recvmsg sockfd msg flags => recvmsg os thread fuel p sockfd msg flags
  | .write fd buf count => write os thread fuel p fd buf count
  | .writev fd iov iovcnt => writev os thread fuel p fd iov iovcnt
  | .send s msg len flags => send os thread fuel p s msg len flags
  | .sendto s msg len flags dst tolen => sendto os thread fuel p s msg len flags dst tolen
  | .sendmsg s msg flags => sendmsg os thread fuel p s msg flags
  | .close fd => some (close os thread p fd)
  | .fcntl fd cmd => some (fcntl os junk p fd cmd)
  | .ioctl fd request arg => some (ioctl os p fd request arg)
  | .getsockopt sockfd level optname optval optlen => some (getsockopt os p sockfd level optname optval optlen)
  | .setsockopt sockfd level optname optval optlen =>
    some (setsockopt os thread p sockfd level optname optval optlen)

/-! ## The table -/

variable {os} {p : Process ρ} {fd : Int} {ctx : FdCtx}

theorem get_false (hfd : -1 ≤ fd) : get os p fd false = some (p, entry p.datas fd) := by
  unfold get
  by_cases hneg : fd = -1
  · subst hneg
    simp [entry]
  · have hpos : ¬ fd < 0 := by omega
    rw [if_neg hneg]
    split
    · rename_i hlen
      have hnone : p.datas[fd.toNat]? = none := List.getElem?_eq_none (by omega)
      simp [entry, hpos, hnone]
    · cases entry p.datas fd <;> simp

theorem get_before (hfd : fd < -1) : get os p fd false = none := by
  have hone : fd ≠ -1 := by omega
  have hlen : ¬ (p.datas.length : Int) ≤ fd := by omega
  have hneg : fd < 0 := by omega
  unfold get
  rw [if_neg hone, if_neg hlen, if_pos hneg]

/-- An entry of the table is at an index in it. -/
theorem entry_range (h : entry p.datas fd = some ctx) : 0 ≤ fd ∧ fd.toNat < p.datas.length := by
  unfold entry at h
  split at h
  · cases h
  · refine ⟨by omega, ?_⟩
    by_contra hlen
    rw [List.getElem?_eq_none (by omega)] at h
    cases h

theorem entry_put (hfd : 0 ≤ fd) (hlen : fd.toNat < p.datas.length) (ctx : FdCtx) :
    entry (p.put fd ctx).datas fd = some ctx := by
  have hpos : ¬ fd < 0 := by omega
  simp [entry, Process.put, hpos, List.getElem?_set_self hlen]

/-- A context that is written again is no change. -/
theorem put_entry (h : entry p.datas fd = some ctx) : p.put fd ctx = p := by
  obtain ⟨hfd, hlen⟩ := entry_range h
  have hpos : ¬ fd < 0 := by omega
  have hget : p.datas[fd.toNat] = some ctx := by simpa [entry, hpos, List.getElem?_eq_getElem hlen] using h
  have hset : p.datas.set fd.toNat (some ctx) = p.datas := by
    rw [← hget]
    exact List.set_getElem_self hlen
  unfold Process.put
  rw [hset]

theorem create_spec {q : Process ρ} {o : Option FdCtx} (hfd : 0 ≤ fd) (h : create os p fd = some (q, o)) :
    q.world = (FdCtx.init os p.world fd).1 ∧ o = some (FdCtx.init os p.world fd).2 ∧
      entry q.datas fd = some (FdCtx.init os p.world fd).2 := by
  unfold create at h
  generalize FdCtx.init os p.world fd = r at h ⊢
  generalize resize p.datas fd = datas at h
  dsimp only at h
  split at h
  · cases h
  · rename_i hlen
    simp only [Option.some.injEq, Prod.mk.injEq] at h
    obtain ⟨rfl, rfl⟩ := h
    have hin : fd.toNat < datas.length := by omega
    exact ⟨rfl, rfl, entry_put hfd hin r.2⟩

theorem get_entry (h : entry p.datas fd = some ctx) (autoCreate : Bool) :
    get os p fd autoCreate = some (p, some ctx) := by
  obtain ⟨hfd, hlen⟩ := entry_range h
  have hneg : fd ≠ -1 := by omega
  have hin : ¬ (p.datas.length : Int) ≤ fd := by omega
  have hpos : ¬ fd < 0 := by omega
  unfold get
  rw [if_neg hneg, if_neg hin, if_neg hpos, h]

/-- With `auto_create` the context is the one of before, or a new one. -/
theorem get_true {q : Process ρ} {o : Option FdCtx} (hfd : 0 ≤ fd) (h : get os p fd true = some (q, o)) :
    (∃ ctx, entry p.datas fd = some ctx ∧ q = p ∧ o = some ctx) ∨
      (entry p.datas fd = none ∧ q.world = (FdCtx.init os p.world fd).1 ∧
        o = some (FdCtx.init os p.world fd).2 ∧
        entry q.datas fd = some (FdCtx.init os p.world fd).2) := by
  have hneg : fd ≠ -1 := by omega
  have hpos : ¬ fd < 0 := by omega
  unfold get at h
  rw [if_neg hneg] at h
  simp only [Bool.true_eq_false, if_false, hpos] at h
  split at h
  · rename_i hlen
    have hnone : entry p.datas fd = none := by
      simp [entry, hpos, List.getElem?_eq_none (show p.datas.length ≤ fd.toNat by omega)]
    exact .inr ⟨hnone, create_spec hfd h⟩
  · split at h
    · rename_i ctx hentry
      simp only [Option.some.injEq, Prod.mk.injEq] at h
      obtain ⟨rfl, rfl⟩ := h
      exact .inl ⟨ctx, hentry, rfl, rfl⟩
    · rename_i hnone
      exact .inr ⟨hnone, create_spec hfd h⟩

end Linko.Hook
