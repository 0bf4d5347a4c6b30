import Mathlib.Data.List.Infix
import Linko.Hook.Calls
/-!
# Non-blocking sockets

The kernel has one flag for a socket and a context two: what the hooks need and
what the user asked for. `F_SETFL` and `FIONBIO` write both.
-/

namespace Linko.Hook

variable {ρ : Type} {os : Os ρ} {junk : UInt64} {a : Addr} {p q : Process ρ} {fd : Int} {f : File} {ctx : FdCtx}

/-! ## The calls -/

/-- `fcntl(fd, F_SETFL, flags)` and `ioctl(fd, FIONBIO, &v)` -/
inductive Mode where
  | setfl (flags : BitVec 32)
  | fionbio (v : BitVec 32)
  deriving DecidableEq, Repr

/-- Whether the call asks for non-blocking mode. -/
def Mode.asks : Mode → Bool
  | .setfl flags => nonblock flags
  | .fionbio v => v ≠ 0

/-- The process after a call that returns. -/
def Result.process? : Result ρ → Option (Process ρ)
  | .returns p _ => some p
  | _ => none

/-- `v` is stored at an address. -/
def Process.store (p : Process ρ) (a : Addr) (v : BitVec 32) : Process ρ :=
  { p with world := { p.world with ints := Function.update p.world.ints a (some v) } }

/-- A call with `v` at the address `a`. -/
def Mode.call (os : Os ρ) (junk : UInt64) (a : Addr) (fd : Int) (p : Process ρ) : Mode → Option (Process ρ)
  | .setfl flags => (fcntl os junk p fd (.setfl flags)).process?
  | .fionbio v => (ioctl os (p.store a v) fd Hook.fionbio a).process?

def calls (os : Os ρ) (junk : UInt64) (a : Addr) (fd : Int) (p : Process ρ) (modes : List Mode) :
    Option (Process ρ) :=
  modes.foldlM (Mode.call os junk a fd) p

/-- What the last call asked for. -/
def asked (modes : List Mode) : Bool :=
  match modes.getLast? with
  | none => false
  | some m => m.asks

/-- A socket that has just got its context. -/
def Tracked (os : Os ρ) (fd : Int) (p : Process ρ) : Prop :=
  ∃ p₀ f ctx, p₀.world.files fd = some f ∧ f.isSocket = true ∧ entry p₀.datas fd = none ∧
    get os p₀ fd true = some (p, some ctx)

/-- After calls the flag in the kernel is set if the hooks need it, and
`F_GETFL` reports what the last call asked for. -/
structure Managed (os : Os ρ) (junk : UInt64) (fd : Int) (modes : List Mode) (p : Process ρ) : Prop where
  kernel : ∃ f ctx, p.world.files fd = some f ∧ entry p.datas fd = some ctx ∧
    (ctx.sysNonblock = true → nonblock f.flags = true)
  reports : ∃ p' flags, fcntl os junk p fd .getfl = .returns p' flags ∧
    nonblock (BitVec.ofInt 32 flags) = asked modes

/-! ## What a call does -/

/-- A socket of the table whose user asked for a mode, and the flag of the kernel. -/
structure Socket (p : Process ρ) (fd : Int) (user kernel : Bool) : Prop where
  file : ∃ f, p.world.files fd = some f ∧ nonblock f.flags = kernel
  context : ∃ ctx, entry p.datas fd = some ctx ∧ ctx.managed = true ∧ ctx.sysNonblock = true ∧
    ctx.userNonblock = user

theorem init_socket {w : World ρ} (hf : w.files fd = some f) (hs : f.isSocket = true) :
    (∃ f', (FdCtx.init os w fd).1.files fd = some f' ∧ nonblock f'.flags = true) ∧
      (FdCtx.init os w fd).2 = ⟨true, true, true, false, false, -1, -1⟩ := by
  have hget : original os (.fcntl fd .getfl) w = (w, f.flags.toInt) := by simp [original, hf]
  have hset : original os (.fcntl fd (.setfl (f.flags ||| oNonblock))) w =
      (w.setFlags fd f (f.flags &&& ~~~setflMask ||| (f.flags ||| oNonblock) &&& setflMask), 0) := by
    have haccepts : os.refuses f ((f.flags ||| oNonblock) &&& ~~~oNonblock) = none := by
      have hrest : (f.flags ||| oNonblock) &&& ~~~oNonblock = f.flags &&& ~~~oNonblock :=
        withNonblock_withNonblock f.flags true false
      rw [hrest, os.accepts]
    simp only [original, hf, haccepts]
  unfold FdCtx.init
  simp only [fstat, hf, hs, if_true, hget, hset, BitVec.ofInt_toInt, Option.isSome_some, and_true]
  split
  · rename_i hbit
    exact ⟨f, hf, hbit⟩
  · refine ⟨_, Function.update_self .., ?_⟩
    rw [nonblock_setfl]
    exact nonblock_withNonblock f.flags true

theorem Tracked.context (h : Tracked os fd p) :
    (∃ f, p.world.files fd = some f ∧ nonblock f.flags = true) ∧
      entry p.datas fd = some ⟨true, true, true, false, false, -1, -1⟩ := by
  obtain ⟨p₀, f, ctx, hf, hs, hnone, hget⟩ := h
  have hfd : 0 ≤ fd := by
    by_contra hneg
    unfold get at hget
    split at hget
    · cases hget
    · have hlen : ¬ (p₀.datas.length : Int) ≤ fd := by omega
      rw [if_neg hlen, if_pos (by omega)] at hget
      cases hget
  rcases get_true hfd hget with ⟨ctx, hentry, -, -⟩ | ⟨-, hworld, -, hentry⟩
  · rw [hnone] at hentry
    cases hentry
  · obtain ⟨hfile, hctx⟩ := @init_socket _ os fd f p₀.world hf hs
    rw [hctx] at hentry
    rw [← hworld] at hfile
    exact ⟨hfile, hentry⟩

theorem Tracked.socket (h : Tracked os fd p) : Socket p fd false true :=
  ⟨h.context.1, _, h.context.2, rfl, rfl, rfl⟩

variable {user kernel : Bool}

/-- The context is written by a call, and a file that is open afterwards. -/
theorem Socket.put (h : Socket p fd user kernel) {w : World ρ} {on kernel' : Bool}
    (hentry : entry p.datas fd = some ctx)
    (hfile : ∃ f, w.files fd = some f ∧ nonblock f.flags = kernel') :
    Socket { p.put fd { ctx with userNonblock := on } with world := w } fd on kernel' := by
  obtain ⟨ctx', hentry', hmanaged, hsys, -⟩ := h.context
  obtain rfl : ctx = ctx' := Option.some.inj (hentry.symm.trans hentry')
  obtain ⟨hfd, hlen⟩ := entry_range hentry
  exact ⟨hfile, _, entry_put hfd hlen _, hmanaged, hsys, rfl⟩

variable (os) (junk) (a) in
/-- `F_SETFL` sets the flag of the kernel, unless the kernel refuses the other
flags. -/
theorem Socket.setfl (h : Socket p fd user kernel) (flags : BitVec 32) : ∃ q kernel',
    Mode.call os junk a fd p (.setfl flags) = some q ∧ Socket q fd (nonblock flags) kernel' ∧
      (kernel = true → kernel' = true) := by
  obtain ⟨f, hf, hkernel⟩ := h.file
  obtain ⟨ctx, hentry, hmanaged, hsys, huser⟩ := h.context
  have hfd : -1 ≤ fd := by
    have := (entry_range hentry).1
    omega
  have hcall : Mode.call os junk a fd p (.setfl flags) =
      ((p.put fd { ctx with userNonblock := nonblock flags }).original os
        (.fcntl fd (.setfl (withNonblock flags true)))).process? := by
    simp only [Mode.call, fcntl, get_false hfd, hentry, hmanaged, hsys, if_true]
  cases hrefuse : os.refuses f (withNonblock flags true &&& ~~~oNonblock) with
  | some errno =>
    refine ⟨_, kernel, hcall, h.put hentry ?_, id⟩
    refine ⟨f, ?_, hkernel⟩
    simp only [original, Process.put, hf, hrefuse, World.fail]
  | none =>
    refine ⟨_, true, hcall, h.put hentry ?_, fun _ => rfl⟩
    refine ⟨{ f with flags := f.flags &&& ~~~setflMask ||| withNonblock flags true &&& setflMask }, ?_, ?_⟩
    · simp only [original, Process.put, hf, hrefuse, World.setFlags, Function.update_self]
    · rw [nonblock_setfl, nonblock_withNonblock]

variable (os) (junk) (a) in
/-- `FIONBIO` sets it as the user asked. -/
theorem Socket.fionbio (h : Socket p fd user kernel) (v : BitVec 32) : ∃ q,
    Mode.call os junk a fd p (.fionbio v) = some q ∧ Socket q fd (v ≠ 0) (v ≠ 0) := by
  obtain ⟨f, hf, hkernel⟩ := h.file
  obtain ⟨ctx, hentry, hmanaged, hsys, huser⟩ := h.context
  have hfd : -1 ≤ fd := by
    have := (entry_range hentry).1
    omega
  have hstore : Socket (p.store a v) fd user kernel := ⟨h.file, h.context⟩
  have hv : (p.store a v).world.ints a = some v := Function.update_self ..
  have hcall : Mode.call os junk a fd p (.fionbio v) =
      (((p.store a v).put fd { ctx with userNonblock := v ≠ 0 }).original os
        (.ioctl fd Hook.fionbio a)).process? := by
    have hentry' : entry (p.store a v).datas fd = some ctx := hentry
    simp only [Mode.call, ioctl, if_true, hv, get_false hfd, hentry', hmanaged]
  refine ⟨_, hcall, hstore.put hentry ?_⟩
  refine ⟨{ f with flags := withNonblock f.flags (v ≠ 0) }, ?_, nonblock_withNonblock _ _⟩
  have hf' : (p.store a v).world.files fd = some f := hf
  simp only [original, Process.put, hf', hv, if_true, World.setFlags, Function.update_self]

variable (os) (junk) in
/-- `F_GETFL` reports the mode of the user. -/
theorem Socket.getfl (h : Socket p fd user kernel) :
    ∃ p' flags, fcntl os junk p fd .getfl = .returns p' flags ∧ nonblock (BitVec.ofInt 32 flags) = user := by
  obtain ⟨f, hf, -⟩ := h.file
  obtain ⟨ctx, hentry, hmanaged, -, huser⟩ := h.context
  have hfd : -1 ≤ fd := by
    have := (entry_range hentry).1
    omega
  refine ⟨p, (withNonblock f.flags user).toInt, ?_, ?_⟩
  · simp only [fcntl, original, hf, get_false hfd, hentry, hmanaged, if_true, BitVec.ofInt_toInt, huser]
  · rw [BitVec.ofInt_toInt, nonblock_withNonblock]

/-- A socket without the flag is not managed. -/
theorem Socket.not_managed {modes : List Mode} (h : Socket p fd user false) : ¬ Managed os junk fd modes p := by
  intro hmanaged
  obtain ⟨f, ctx, hf, hentry, hkept⟩ := hmanaged.kernel
  obtain ⟨f', hf', hkernel⟩ := h.file
  obtain ⟨ctx', hentry', -, hsys, -⟩ := h.context
  obtain rfl : f = f' := Option.some.inj (hf.symm.trans hf')
  obtain rfl : ctx = ctx' := Option.some.inj (hentry.symm.trans hentry')
  rw [hkept hsys] at hkernel
  cases hkernel

/-! ## Sequences of calls -/

theorem asked_snoc (modes : List Mode) (m : Mode) : asked (modes ++ [m]) = m.asks := by simp [asked]

theorem calls_snoc (modes : List Mode) (m : Mode) :
    calls os junk a fd p (modes ++ [m]) = calls os junk a fd p modes >>=
      fun q => Mode.call os junk a fd q m := by
  simp [calls, List.foldlM_append]

variable (os) (junk) (a) in
/-- Every sequence of calls returns. The flag in the kernel is set if none of
them is `FIONBIO` with 0, and it is not set if the last one is. -/
theorem calls_spec (h : Socket p fd false true) (modes : List Mode) : ∃ q kernel,
    calls os junk a fd p modes = some q ∧ Socket q fd (asked modes) kernel ∧
      (.fionbio 0 ∉ modes → kernel = true) ∧ (modes.getLast? = some (.fionbio 0) → kernel = false) := by
  induction modes using List.reverseRecOn with
  | nil => exact ⟨p, true, rfl, h, fun _ => rfl, fun hlast => by cases hlast⟩
  | append_singleton modes m ih =>
    obtain ⟨q, kernel, hcalls, hsocket, hset, -⟩ := ih
    rw [calls_snoc, hcalls, asked_snoc]
    cases m with
    | setfl flags =>
      obtain ⟨q', kernel', hcall, hsocket', hkept⟩ := hsocket.setfl os junk a flags
      refine ⟨q', kernel', hcall, hsocket', ?_, ?_⟩
      · intro hnot
        exact hkept (hset fun hin => hnot (List.mem_append_left _ hin))
      · intro hlast
        simp at hlast
    | fionbio v =>
      obtain ⟨q', hcall, hsocket'⟩ := hsocket.fionbio os junk a v
      refine ⟨q', _, hcall, hsocket', ?_, ?_⟩
      · intro hnot
        refine decide_eq_true ?_
        rintro rfl
        exact hnot (List.mem_append_right _ List.mem_cons_self)
      · intro hlast
        simpa using hlast

/-- Each socket that is tracked stays non-blocking in the kernel through a
sequence of calls, and `F_GETFL` reports what was asked for, exactly if none of
the calls is `FIONBIO` with 0. -/
theorem stays_nonblocking_iff (h : Tracked os fd p) (junk : UInt64) (a : Addr) (modes : List Mode) :
    (∀ before, before <+: modes → ∃ q, calls os junk a fd p before = some q ∧ Managed os junk fd before q) ↔
      .fionbio 0 ∉ modes := by
  constructor
  · intro hall hin
    obtain ⟨before, after, hsplit⟩ := List.append_of_mem hin
    obtain ⟨q, hcalls, hmanaged⟩ := hall (before ++ [.fionbio 0]) ⟨after, by simp [hsplit]⟩
    obtain ⟨q', kernel, hcalls', hsocket, -, hclear⟩ :=
      calls_spec os junk a h.socket (before ++ [.fionbio 0])
    obtain rfl : q = q' := Option.some.inj (hcalls.symm.trans hcalls')
    rw [hclear (by simp)] at hsocket
    exact hsocket.not_managed hmanaged
  · intro hnot before hbefore
    obtain ⟨q, kernel, hcalls, hsocket, hset, -⟩ := calls_spec os junk a h.socket before
    refine ⟨q, hcalls, ?_, hsocket.getfl os junk⟩
    obtain ⟨f, hf, hkernel⟩ := hsocket.file
    obtain ⟨ctx, hentry, -, -, -⟩ := hsocket.context
    refine ⟨f, ctx, hf, hentry, ?_⟩
    intro _
    rw [hkernel, hset fun hin => hnot (hbefore.subset hin)]

/-- A kernel that refuses nothing, in which `socket` opens descriptor 3. -/
def oneSocket : Os Unit where
  call
    | .socket _ _ _, w => (w.setFlags 3 ⟨true, 0⟩ 2, 3)
    | _, w => (w, 0)
  refuses _ _ := none
  accepts _ := rfl
  epollCtl _ := true

/-- Before any call. -/
def fresh : Process Unit where
  world := ⟨fun _ => none, fun _ => none, fun _ => none, 0, ()⟩
  datas := List.replicate 64 none
  io := Io.init 32
  scheduled := []
  connectTimeout := 5000

/-- The descriptor that `socket` opens gets its context. -/
theorem exists_get (os : Os Unit) : ∃ p ctx,
    get os { fresh with world := fresh.world.setFlags 3 ⟨true, 0⟩ 2 } 3 true = some (p, some ctx) ∧
      Tracked os 3 p := by
  let p₀ : Process Unit := { fresh with world := fresh.world.setFlags 3 ⟨true, 0⟩ 2 }
  have hnone : entry p₀.datas 3 = none := by decide
  have hlen : p₀.datas.length = 64 := List.length_replicate
  let r := FdCtx.init os p₀.world 3
  have hget : get os p₀ 3 true = some ({ p₀ with world := r.1 }.put 3 r.2, some r.2) := by
    unfold get
    rw [hnone, hlen]
    unfold create resize
    rw [hlen]
    rfl
  exact ⟨_, r.2, hget, p₀, ⟨true, 2⟩, r.2, rfl, rfl, hnone, hget⟩

/-- `socket` on a thread with hooks. -/
theorem socket_tracked : ∃ p, Tracked oneSocket 3 p ∧
    hooked oneSocket ⟨true, 1, some 1⟩ 0 0 fresh (.socket 2 1 0) = some (.returns p 3) := by
  obtain ⟨p, ctx, hget, hp⟩ := exists_get oneSocket
  refine ⟨p, hp, ?_⟩
  have hcall : original oneSocket (.socket 2 1 0) fresh.world = (fresh.world.setFlags 3 ⟨true, 0⟩ 2, 3) := rfl
  simp only [hooked, socket, Bool.true_eq_false, if_false, hcall]
  rw [if_neg (by decide), hget]

/-- The user turns blocking mode off and on, and the kernel keeps the flag. -/
theorem stays_nonblocking_setfl : ∃ p, Tracked oneSocket 3 p ∧
    ∀ before, before <+: [.setfl 0x802, .fionbio 1, .setfl 2] →
      ∃ q, calls oneSocket 0 8 3 p before = some q ∧ Managed oneSocket 0 3 before q := by
  obtain ⟨p, hp, -⟩ := socket_tracked
  exact ⟨p, hp, (stays_nonblocking_iff hp 0 8 _).2 (by decide)⟩

/-- `FIONBIO` with 0 turns it on in the kernel. -/
theorem stays_nonblocking_fails_fionbio : ¬ ∀ (os : Os Unit) fd p, Tracked os fd p → ∀ junk a modes before,
    before <+: modes → ∃ q, calls os junk a fd p before = some q ∧ Managed os junk fd before q := by
  intro hall
  obtain ⟨p, hp, -⟩ := socket_tracked
  obtain ⟨q, hcalls, hmanaged⟩ := hall oneSocket 3 p hp 0 8 [.fionbio 0] [.fionbio 0] List.prefix_rfl
  obtain ⟨q', kernel, hcalls', hsocket, -, hclear⟩ := calls_spec oneSocket 0 8 hp.socket [.fionbio 0]
  obtain rfl : q = q' := Option.some.inj (hcalls.symm.trans hcalls')
  rw [hclear rfl] at hsocket
  exact hsocket.not_managed hmanaged

end Linko.Hook
