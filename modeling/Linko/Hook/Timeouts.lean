import Mathlib.Algebra.Group.Nat.Defs
import Linko.Hook.Nonblock
import Linko.Lib.Registers
/-!
# The timeouts of a socket

`setsockopt` keeps the value of `SO_RCVTIMEO` and of `SO_SNDTIMEO` in the
context of the descriptor, in milliseconds, and `do_io` takes it for its timer.
There -1 stands for no timeout; for the kernel it is the value 0.
-/

namespace Linko.Hook

open Registers

variable {ρ : Type} {os : Os ρ} {thread : Thread} {junk : UInt64} {fuel : Nat} {a : Addr} {p q : Process ρ}
  {fd : Int} {ctx : FdCtx} {c : Call}

/-! ## The options -/

inductive Direction where
  | recv
  | send
  deriving DecidableEq, Repr

/-- `SO_RCVTIMEO` or `SO_SNDTIMEO` -/
def Direction.option : Direction → Int
  | .recv => soRcvtimeo
  | .send => soSndtimeo

def Direction.event : Direction → Io.Event
  | .recv => .read
  | .send => .write

@[simp] theorem getTimeout_setTimeout (ctx : FdCtx) (d e : Direction) (v : UInt64) :
    (ctx.setTimeout d.option v).getTimeout e.option = if d = e then v else ctx.getTimeout e.option := by
  cases d <;> cases e <;> rfl

/-- The calls of `do_io`, with the descriptor and the timeout that they use. -/
def Call.io : Call → Option (Int × Direction)
  | .accept s _ _ => some (s, .recv)
  | .read fd _ _ => some (fd, .recv)
  | .readv fd _ _ => some (fd, .recv)
  | .recv fd _ _ _ => some (fd, .recv)
  | .recvfrom fd _ _ _ _ _ => some (fd, .recv)
  | .recvmsg fd _ _ => some (fd, .recv)
  | .write fd _ _ => some (fd, .send)
  | .writev fd _ _ => some (fd, .send)
  | .send fd _ _ _ => some (fd, .send)
  | .sendto fd _ _ _ _ _ => some (fd, .send)
  | .sendmsg fd _ _ => some (fd, .send)
  | _ => none

/-- A `timeval` that is not negative. -/
structure Timeval where
  sec : Nat
  usec : Nat
  sec_lt : sec < 2 ^ 63
  usec_lt : usec < 2 ^ 63
  deriving DecidableEq, Repr

/-- The time in microseconds. -/
def Timeval.micros (tv : Timeval) : Nat := tv.sec * 1000000 + tv.usec

/-- What `setsockopt` makes of it. -/
def Timeval.stored (tv : Timeval) : UInt64 := UInt64.ofNat (tv.sec * 1000 + tv.usec / 1000)

/-- A `timeval` is stored at an address. -/
def Process.storeTime (p : Process ρ) (a : Addr) (tv : Int × Int) : Process ρ :=
  { p with world := { p.world with times := Function.update p.world.times a (some tv) } }

/-! ## Histories of a socket -/

/-- A timeout is set, or something else happens that leaves the context of the
descriptor alone. -/
inductive Step (ρ : Type) where
  | timeo (d : Direction) (tv : Timeval)
  | elsewhere (q : Process ρ)

/-- A step, with the `timeval` at the address `a`. -/
def Step.exec (os : Os ρ) (thread : Thread) (a : Addr) (fd : Int) (p : Process ρ) : Step ρ → Option (Process ρ)
  | .timeo d tv =>
    (setsockopt os thread (p.storeTime a (tv.sec, tv.usec)) fd solSocket d.option a 16).process?
  | .elsewhere q => if entry q.datas fd = entry p.datas fd then some q else none

def steps (os : Os ρ) (thread : Thread) (a : Addr) (fd : Int) (p : Process ρ) (ss : List (Step ρ)) :
    Option (Process ρ) :=
  ss.foldlM (Step.exec os thread a fd) p

def writes (ss : List (Step ρ)) : List (Direction × Timeval) :=
  ss.filterMap fun s =>
    match s with
    | .timeo d tv => some (d, tv)
    | .elsewhere _ => none

/-- The timer of a wait of `do_io`. -/
def armed (timeout : UInt64) : Option UInt64 := if timeout ≠ -1 then some timeout else none

/-- The original function finds nothing to do. -/
def Blocks (os : Os ρ) (fuel : Nat) (w : World ρ) (c : Call) : Prop :=
  ∃ w', uninterrupted os c fuel w = some (w', -1) ∧ w'.errno = eagain

/-- A timer means for the value set last what the option means for the kernel. -/
structure KernelMeaning (set : Option Timeval) (timer : Option UInt64) : Prop where
  arms : timer.isSome = true ↔ ∃ tv, set = some tv ∧ 0 < tv.micros
  long : ∀ tv ms, set = some tv → timer = some ms → tv.micros ≤ ms.toNat * 1000

/-- Whole milliseconds, at least one and fewer than what -1 stands for. -/
def Timeval.Whole (tv : Timeval) : Prop :=
  0 < tv.micros ∧ 1000 ∣ tv.usec ∧ tv.sec * 1000 + tv.usec / 1000 < 2 ^ 64 - 1

instance (tv : Timeval) : Decidable tv.Whole := inferInstanceAs (Decidable (_ ∧ _ ∧ _))

/-! ## Setting -/

/-- A blocking socket whose registers hold what was written. -/
def Holds (p : Process ρ) (fd : Int) (ws : List (Direction × Timeval)) : Prop :=
  ∃ ctx, entry p.datas fd = some ctx ∧ ctx.isClosed = false ∧ ctx.isSocket = true ∧ ctx.userNonblock = false ∧
    ∀ d : Direction, ctx.getTimeout d.option = ((last d ws).map Timeval.stored).getD (-1)

theorem Tracked.holds (h : Tracked os fd p) : Holds p fd [] := by
  refine ⟨_, h.context.2, rfl, rfl, rfl, ?_⟩
  intro d
  cases d <;> rfl

theorem stored_eq (tv : Timeval) :
    UInt64.ofBitVec (BitVec.ofInt 64 (tv.sec * 1000 + (tv.usec : Int).tdiv 1000)) = tv.stored := by
  have hsum : (tv.sec * 1000 + (tv.usec : Int).tdiv 1000 : Int) = (tv.sec * 1000 + tv.usec / 1000 : Nat) := by
    rw [Int.natCast_add, Int.natCast_mul]
    rfl
  rw [hsum, BitVec.ofInt_natCast]
  rfl

/-- The hook writes the register of its option. -/
theorem setsockopt_eq (hhook : thread.hookEnable = true) (hentry : entry p.datas fd = some ctx) (d : Direction)
    (tv : Timeval) : setsockopt os thread (p.storeTime a (tv.sec, tv.usec)) fd solSocket d.option a 16 =
      ((p.storeTime a (tv.sec, tv.usec)).put fd (ctx.setTimeout d.option tv.stored)).original os
        (.setsockopt fd solSocket d.option a 16) := by
  have hentry' : entry (p.storeTime a (tv.sec, tv.usec)).datas fd = some ctx := hentry
  have htime : (p.storeTime a (tv.sec, tv.usec)).world.times a = some ((tv.sec : Int), (tv.usec : Int)) :=
    Function.update_self ..
  have hopt : d.option = soRcvtimeo ∨ d.option = soSndtimeo := by cases d <;> simp [Direction.option]
  unfold setsockopt
  simp only [hhook, Bool.true_eq_false, if_false, hopt, and_self, if_true, get_entry hentry', htime, stored_eq]

theorem exec_timeo (os : Os ρ) (a : Addr) (hhook : thread.hookEnable = true) (hentry : entry p.datas fd = some ctx) (d : Direction)
    (tv : Timeval) : ∃ q, Step.exec os thread a fd p (.timeo d tv) = some q ∧
      entry q.datas fd = some (ctx.setTimeout d.option tv.stored) := by
  obtain ⟨hfd, hlen⟩ := entry_range hentry
  exact ⟨_, congrArg Result.process? (setsockopt_eq hhook hentry d tv), entry_put hfd hlen _⟩

theorem exec_holds (hhook : thread.hookEnable = true) {ss : List (Step ρ)} {s : Step ρ}
    (h : Holds p fd (writes ss)) (hs : s.exec os thread a fd p = some q) : Holds q fd (writes (ss ++ [s])) := by
  obtain ⟨ctx, hentry, hopen, hsocket, hblocking, hregs⟩ := h
  cases s with
  | timeo d tv =>
    obtain ⟨q', hq', hset⟩ := exec_timeo os a hhook hentry d tv
    obtain rfl := Option.some.inj (hq'.symm.trans hs)
    refine ⟨_, hset, ?_, ?_, ?_, ?_⟩
    · cases d <;> exact hopen
    · cases d <;> exact hsocket
    · cases d <;> exact hblocking
    · intro e
      have hwrites : writes (ss ++ [.timeo d tv]) = writes ss ++ [(d, tv)] := by simp [writes]
      rw [hwrites, last_snoc, getTimeout_setTimeout, hregs]
      split <;> simp
  | elsewhere q' =>
    have hwrites : writes (ss ++ [.elsewhere q']) = writes ss := by simp [writes]
    rw [hwrites]
    rw [Step.exec, Option.ite_none_right_eq_some, Option.some.injEq] at hs
    obtain ⟨hsame, rfl⟩ := hs
    exact ⟨ctx, hsame.trans hentry, hopen, hsocket, hblocking, hregs⟩

/-- After a history each register holds the value written last. -/
theorem steps_holds (hhook : thread.hookEnable = true) (h : Tracked os fd p) {ss : List (Step ρ)}
    (hrun : steps os thread a fd p ss = some q) : Holds q fd (writes ss) := by
  induction ss using List.reverseRecOn generalizing q with
  | nil =>
    obtain rfl := Option.some.inj hrun
    exact h.holds
  | append_singleton ss s ih =>
    unfold steps at hrun
    rw [List.foldlM_append] at hrun
    obtain ⟨r, hr, hs⟩ := Option.bind_eq_some_iff.1 hrun
    have hlast : s.exec os thread a fd r = some q := by simpa using hs
    exact exec_holds hhook (ih hr) hlast

/-! ## Waiting -/

variable {d : Direction} {scheduler : Io.SchedulerId}

/-- A call that would block waits with the timeout of its register. -/
theorem doIo_waits (thread : Thread) (hhook : thread.hookEnable = true) (hiom : thread.iom = some scheduler) {ws : List (Direction × Timeval)}
    (h : Holds p fd ws) (hb : Blocks os fuel p.world c) :
    ∃ r, doIo os thread fuel p fd c d.event d.option = some (.waits r (.doIo fd.toNat d.event thread.fiber scheduler)
      (((last d ws).map Timeval.stored).getD (-1))) := by
  obtain ⟨ctx, hentry, hopen, hsocket, hblocking, hregs⟩ := h
  obtain ⟨w, hcall, hagain⟩ := hb
  refine ⟨{ p with world := w }, ?_⟩
  unfold doIo
  simp [hhook, get_entry hentry, hopen, hsocket, hblocking, hcall, hagain, hiom, hregs]

theorem hooked_waits (junk : UInt64) {r : Process ρ} {w : Wait} {timeout : UInt64} (hio : c.io = some (fd, d))
    (hwait : doIo os thread fuel p fd c d.event d.option = some (.waits r w timeout)) :
    hooked os thread junk fuel p c = some (.waits r w timeout) := by
  cases c <;> simp only [Call.io, reduceCtorEq, Option.some.injEq, Prod.mk.injEq] at hio
  all_goals
    obtain ⟨rfl, rfl⟩ := hio
  case accept s addr addrlen =>
    have hdo : doIo os thread fuel p s (.accept s addr addrlen) .read soRcvtimeo = some (.waits r w timeout) :=
      hwait
    show accept os thread fuel p s addr addrlen = _
    unfold accept
    rw [hdo]
    rfl
  all_goals exact hwait

theorem Timeval.toNat_stored (tv : Timeval) : tv.stored.toNat = (tv.sec * 1000 + tv.usec / 1000) % 2 ^ 64 :=
  UInt64.toNat_ofNat'

theorem Timeval.stored_eq_neg_one (tv : Timeval) : tv.stored = -1 ↔ tv.stored.toNat = 2 ^ 64 - 1 := by
  rw [← UInt64.toNat_inj]
  rfl

/-- With no value set there is no timer. -/
theorem kernelMeaning_none : KernelMeaning none (armed (-1)) where
  arms := by simp [armed]
  long := by simp

theorem Timeval.Whole.kernelMeaning {tv : Timeval} (h : tv.Whole) : KernelMeaning (some tv) (armed tv.stored) := by
  obtain ⟨hpos, hdvd, hlt⟩ := h
  have hmicros : tv.micros = tv.sec * 1000000 + tv.usec := rfl
  have hstored := tv.toNat_stored
  rw [Nat.mod_eq_of_lt (by omega)] at hstored
  have hneg : tv.stored ≠ -1 := by
    rw [Ne, tv.stored_eq_neg_one]
    omega
  have htimer : armed tv.stored = some tv.stored := if_pos hneg
  constructor
  · simp [htimer, hpos]
  · intro tv' ms hset hms
    obtain rfl := Option.some.inj hset
    obtain rfl := Option.some.inj (htimer.symm.trans hms)
    rw [hstored, hmicros]
    omega

theorem KernelMeaning.whole {tv : Timeval} (h : KernelMeaning (some tv) (armed tv.stored)) : tv.Whole := by
  obtain ⟨harms, hlong⟩ := h
  have hmicros : tv.micros = tv.sec * 1000000 + tv.usec := rfl
  have hstored := tv.toNat_stored
  have hmax := tv.stored_eq_neg_one
  by_cases hneg : tv.stored = -1
  · -- no timer for a value that is large
    have hnone : armed tv.stored = none := if_neg (not_not.2 hneg)
    have hzero : ¬ 0 < tv.micros := by simpa [hnone] using harms
    have := hmax.1 hneg
    omega
  · have htimer : armed tv.stored = some tv.stored := if_pos hneg
    have hpos : 0 < tv.micros := by simpa [htimer] using harms
    have hle := hlong tv _ rfl htimer
    have hlt : tv.stored.toNat ≠ 2 ^ 64 - 1 := fun he => hneg (hmax.2 he)
    have hdiv := Nat.div_add_mod (tv.sec * 1000 + tv.usec / 1000) (2 ^ 64)
    have hgone : (2 : Nat) ^ 64 = 18446744073709551616 := rfl
    refine ⟨hpos, ?_, ?_⟩
    · omega
    · omega

theorem kernelMeaning_iff (set : Option Timeval) :
    KernelMeaning set (armed ((set.map Timeval.stored).getD (-1))) ↔ ∀ tv, set = some tv → tv.Whole := by
  cases set with
  | none =>
    constructor
    · intro _ tv hset
      cases hset
    · intro _
      exact kernelMeaning_none
  | some tv =>
    constructor
    · rintro h _ ⟨rfl⟩
      exact h.whole
    · intro h
      exact (h tv rfl).kernelMeaning

/-- Every call that would block on a tracked socket waits, and its timer means
what the option means for the kernel exactly if no value was set for its
direction or the last one is a positive number of whole milliseconds. -/
theorem timeouts_kept_iff (junk : UInt64) (h : Tracked os fd p) (hhook : thread.hookEnable = true)
    (hiom : thread.iom = some scheduler) {ss : List (Step ρ)} (hrun : steps os thread a fd p ss = some q)
    (hio : c.io = some (fd, d)) (hb : Blocks os fuel q.world c) :
    ∃ r timeout, hooked os thread junk fuel q c =
        some (.waits r (.doIo fd.toNat d.event thread.fiber scheduler) timeout) ∧
      (KernelMeaning (last d (writes ss)) (armed timeout) ↔
        ∀ tv, last d (writes ss) = some tv → tv.Whole) := by
  obtain ⟨r, hwait⟩ := doIo_waits thread (c := c) hhook hiom (steps_holds hhook h hrun) hb
  exact ⟨r, _, hooked_waits junk hio hwait, kernelMeaning_iff _⟩

/-- A sequence of settings always returns. -/
theorem steps_timeo (thread : Thread) (a : Addr) (h : Tracked os fd p) (hhook : thread.hookEnable = true)
    (ws : List (Direction × Timeval)) : ∃ q, steps os thread a fd p (ws.map fun w => .timeo w.1 w.2) = some q := by
  induction ws using List.reverseRecOn with
  | nil => exact ⟨p, rfl⟩
  | append_singleton ws w ih =>
    obtain ⟨q, hq⟩ := ih
    obtain ⟨ctx, hentry, -⟩ := steps_holds hhook h hq
    obtain ⟨r, hr, -⟩ := exec_timeo os a hhook hentry w.1 w.2
    refine ⟨r, ?_⟩
    unfold steps at hq ⊢
    rw [List.map_append, List.foldlM_append, hq]
    simpa using hr

/-- A kernel in which nothing ever arrives. -/
def silent : Os Unit where
  call _ w := w.fail eagain
  refuses := oneSocket.refuses
  accepts := oneSocket.accepts
  epollCtl := oneSocket.epollCtl

theorem silent_blocks (w : World Unit) : Blocks silent 1 w (.read 3 0 1) := ⟨_, rfl, rfl⟩

/-- A receive timeout of 2.5 s, next to a send timeout of 0, is kept. -/
theorem timeouts_kept_recv : ∃ p q r timeout, Tracked silent 3 p ∧
    steps silent ⟨true, 1, some 1⟩ 8 3 p
      [.timeo .recv ⟨2, 500000, by decide, by decide⟩, .timeo .send ⟨0, 0, by decide, by decide⟩] = some q ∧
    hooked silent ⟨true, 1, some 1⟩ 0 1 q (.read 3 0 1) = some (.waits r (.doIo 3 .read 1 1) timeout) ∧
    KernelMeaning (some ⟨2, 500000, by decide, by decide⟩) (armed timeout) := by
  obtain ⟨p, -, -, hp⟩ := exists_get silent
  let ws : List (Direction × Timeval) :=
    [(.recv, ⟨2, 500000, by decide, by decide⟩), (.send, ⟨0, 0, by decide, by decide⟩)]
  obtain ⟨q, hq⟩ := steps_timeo ⟨true, 1, some 1⟩ 8 hp rfl ws
  obtain ⟨r, timeout, hwait, hiff⟩ :=
    timeouts_kept_iff 0 hp rfl rfl hq (c := .read 3 0 1) rfl (silent_blocks _)
  refine ⟨p, q, r, timeout, hp, hq, hwait, hiff.2 ?_⟩
  rintro _ ⟨rfl⟩
  decide

/-- A receive timeout of 0, which is none for the kernel, ends each wait at once. -/
theorem not_timeouts_kept : ¬ ∀ (os : Os Unit) (thread : Thread) junk fuel a fd p q c d scheduler ss,
    Tracked os fd p → thread.hookEnable = true → thread.iom = some scheduler →
    steps os thread a fd p ss = some q → c.io = some (fd, d) → Blocks os fuel q.world c →
    ∃ r w timeout, hooked os thread junk fuel q c = some (.waits r w timeout) ∧
      KernelMeaning (last d (writes ss)) (armed timeout) := by
  intro hall
  obtain ⟨p, -, -, hp⟩ := exists_get silent
  let ws : List (Direction × Timeval) := [(.recv, ⟨0, 0, by decide, by decide⟩)]
  obtain ⟨q, hq⟩ := steps_timeo ⟨true, 1, some 1⟩ 8 hp rfl ws
  obtain ⟨r, w, timeout, hwait, hmeaning⟩ :=
    hall silent ⟨true, 1, some 1⟩ 0 1 8 3 p q (.read 3 0 1) .recv 1 _ hp rfl rfl hq rfl (silent_blocks _)
  obtain ⟨r', hwait'⟩ := doIo_waits ⟨true, 1, some 1⟩ (c := .read 3 0 1) rfl rfl
    (steps_holds rfl hp hq) (silent_blocks _)
  have hsame := Option.some.inj ((hooked_waits 0 rfl hwait').symm.trans hwait)
  obtain ⟨-, -, rfl⟩ := Result.waits.inj hsame
  exact absurd ((kernelMeaning_iff _).1 hmeaning _ rfl) (by decide)

end Linko.Hook
