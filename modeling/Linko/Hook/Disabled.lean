import Linko.Hook.Nonblock
/-!
# Threads without hooks

What the hooked functions do on a thread with `t_hook_enable = false`. Most call
the original function. `nanosleep` calls itself, and `accept`, `fcntl` and
`ioctl` look into the table, which other threads have written.
-/

namespace Linko.Hook

variable {ρ : Type} {os : Os ρ} {thread : Thread} {p q : Process ρ} {fd : Int} {f : File}
  {ctx : FdCtx} {c : Call}

/-- The hooked function returns what the original one returns, with its effect
on the world and no other. -/
def Transparent (os : Os ρ) (p : Process ρ) (c : Call) : Prop :=
  ∀ thread : Thread, thread.hookEnable = false → ∀ junk, ∃ fuel, hooked os thread junk fuel p c =
    some (.returns { p with world := (original os c p.world).1 } (original os c p.world).2)

/-- The context of an open socket in the table. -/
def managed (p : Process ρ) (fd : Int) (ctx : FdCtx) : Prop := entry p.datas fd = some ctx ∧ ctx.managed = true

/-- When a call passes: `accept` if it fails or the new descriptor has a context
already, `F_SETFL`, `F_GETFL` and `FIONBIO` if there is no open socket in the
table or its flags are those of the call, and a command that the hook does not
know if it has no argument. -/
def Passes (os : Os ρ) (p : Process ρ) : Call → Prop
  | .nanosleep _ _ => False
  | .accept s addr addrlen =>
    0 ≤ (original os (.accept s addr addrlen) p.world).2 →
      (entry p.datas (original os (.accept s addr addrlen) p.world).2).isSome = true
  | .fcntl fd (.setfl arg) =>
    -1 ≤ fd ∧ ∀ ctx, managed p fd ctx → ctx.userNonblock = nonblock arg ∧ (ctx.sysNonblock = nonblock arg ∨
      ∀ f, p.world.files fd = some f → os.refuses f (arg &&& ~~~oNonblock) ≠ none)
  | .fcntl fd .getfl =>
    -1 ≤ fd ∧ ∀ ctx, managed p fd ctx → ctx.userNonblock = match p.world.files fd with
      | none => true
      | some f => nonblock f.flags
  | .fcntl fd (.other cmd _) =>
    ∀ a b, os.call (.fcntl fd (.other cmd a)) p.world = os.call (.fcntl fd (.other cmd b)) p.world
  | .ioctl fd request arg =>
    request = fionbio → -1 ≤ fd ∧ ∃ v, p.world.ints arg = some v ∧
      ∀ ctx, managed p fd ctx → ctx.userNonblock = decide (v ≠ 0)
  | _ => True

/-! ## The calls one by one -/

theorem doIo_off (h : thread.hookEnable = false) (fuel : Nat) (c : Call) (event : Io.Event) (timeoutSo : Int) :
    doIo os thread fuel p fd c event timeoutSo = some (p.original os c) := by
  unfold doIo
  rw [if_pos h]

/-- It never returns. -/
theorem nanosleep_off (h : thread.hookEnable = false) (req rem : Addr) (fuel : Nat) (p : Process ρ) :
    nanosleep thread req rem fuel p = none := by
  induction fuel with
  | zero => rfl
  | succ fuel ih =>
    unfold nanosleep
    rw [if_pos h, ih]

/-- The rest of `accept` changes nothing if there is a context. -/
theorem accept_off (h : thread.hookEnable = false) (fuel : Nat) (s : Int) (addr addrlen : Addr) :
    accept os thread fuel p s addr addrlen = some (p.original os (.accept s addr addrlen)) ↔
      (0 ≤ (original os (.accept s addr addrlen) p.world).2 →
        (entry p.datas (original os (.accept s addr addrlen) p.world).2).isSome = true) := by
  unfold accept
  rw [doIo_off h]
  simp only [Process.original, Option.bind_eq_bind, Option.bind_some]
  generalize original os (.accept s addr addrlen) p.world = r
  obtain ⟨w, v⟩ := r
  dsimp only
  by_cases hv : 0 ≤ v
  · simp only [hv, if_true, true_implies]
    constructor
    · intro hsame
      cases hget : get os { p with world := w } v true with
      | none =>
        rw [hget] at hsame
        cases hsame
      | some r =>
        obtain ⟨q, o⟩ := r
        rw [hget] at hsame
        simp only [Option.some.injEq, Result.returns.injEq, and_true] at hsame
        -- `get` finds a context or creates one, which shows in the table
        rcases get_true hv hget with ⟨ctx, hentry, -, -⟩ | ⟨-, -, -, hentry⟩
        · rw [show entry p.datas v = some ctx from hentry]
          rfl
        · rw [hsame] at hentry
          rw [show entry p.datas v = _ from hentry]
          rfl
    · intro hsome
      obtain ⟨ctx, hentry⟩ := Option.isSome_iff_exists.1 hsome
      rw [@get_entry _ os { p with world := w } v ctx hentry true]
  · simp [hv]

theorem setFlags_inj {w : World ρ} {x y : BitVec 32} : w.setFlags fd f x = w.setFlags fd f y ↔ x = y := by
  constructor
  · intro h
    have hfile := congrFun (congrArg World.files h) fd
    simpa [World.setFlags] using hfile
  · rintro rfl
    rfl

/-- `O_NONBLOCK` makes no difference to a `F_SETFL` that fails. -/
theorem setfl_same_iff (w : World ρ) (arg : BitVec 32) (on : Bool) :
    original os (.fcntl fd (.setfl (withNonblock arg on))) w = original os (.fcntl fd (.setfl arg)) w ↔
      on = nonblock arg ∨ ∀ f, w.files fd = some f → os.refuses f (arg &&& ~~~oNonblock) ≠ none := by
  have hrest : withNonblock arg on &&& ~~~oNonblock = arg &&& ~~~oNonblock :=
    withNonblock_withNonblock arg on false
  simp only [original, hrest]
  cases hf : w.files fd with
  | none => simp
  | some f =>
    cases hrefuse : os.refuses f (arg &&& ~~~oNonblock) with
    | some errno => simp [hrefuse]
    | none =>
      simp only [Prod.mk.injEq, setFlags_inj, and_true, Option.some.injEq, forall_eq', hrefuse,
        ne_eq, not_true_eq_false, or_false]
      constructor
      · intro hflags
        have hbit := congrArg nonblock hflags
        rwa [nonblock_setfl, nonblock_setfl, nonblock_withNonblock] at hbit
      · rintro rfl
        rw [withNonblock_nonblock]

/-- A call on a context that is written. -/
theorem original_put_iff (h : entry p.datas fd = some ctx) (ctx' : FdCtx) (c c' : Call) :
    (p.put fd ctx').original os c' = p.original os c ↔
      ctx' = ctx ∧ original os c' p.world = original os c p.world := by
  constructor
  · intro hsame
    simp only [Process.original, Result.returns.injEq] at hsame
    obtain ⟨hprocess, hvalue⟩ := hsame
    obtain ⟨hfd, hlen⟩ := entry_range h
    have hentry := congrArg (fun q => entry q.datas fd) hprocess
    have hworld := congrArg Process.world hprocess
    rw [show entry (p.put fd ctx').datas fd = some ctx' from entry_put hfd hlen ctx'] at hentry
    exact ⟨Option.some.inj (hentry.trans h), Prod.ext hworld hvalue⟩
  · rintro ⟨rfl, hcall⟩
    rw [put_entry h]
    simp only [Process.original, hcall]

theorem user_same_iff {on : Bool} : { ctx with userNonblock := on } = ctx ↔ ctx.userNonblock = on := by
  obtain ⟨isInit, isSocket, sys, user, isClosed, recv, send⟩ := ctx
  simp [eq_comm]

theorem fault_ne (c : Call) : (Result.fault : Result ρ) ≠ p.original os c := by
  intro h
  cases h

theorem setfl_iff (junk : UInt64) (arg : BitVec 32) :
    fcntl os junk p fd (.setfl arg) = p.original os (.fcntl fd (.setfl arg)) ↔
      Passes os p (.fcntl fd (.setfl arg)) := by
  unfold fcntl Passes
  by_cases hfd : -1 ≤ fd
  · rw [get_false hfd]
    cases hentry : entry p.datas fd with
    | none => simp [managed, hentry, hfd]
    | some ctx =>
      cases hmanaged : ctx.managed with
      | false => simp [managed, hentry, hfd, hmanaged]
      | true =>
        simp only [hmanaged, if_true, original_put_iff hentry, user_same_iff, setfl_same_iff]
        simp [managed, hentry, hfd, hmanaged]
  · rw [get_before (by omega)]
    exact ⟨fun h => absurd h (fault_ne _), fun h => absurd h.1 hfd⟩

theorem toInt_withNonblock_iff {x : BitVec 32} {on : Bool} :
    (withNonblock x on).toInt = x.toInt ↔ on = nonblock x := by
  rw [BitVec.toInt_inj]
  constructor
  · intro h
    rw [← h, nonblock_withNonblock]
  · rintro rfl
    exact withNonblock_nonblock x

theorem getfl_iff (junk : UInt64) :
    fcntl os junk p fd .getfl = p.original os (.fcntl fd .getfl) ↔ Passes os p (.fcntl fd .getfl) := by
  unfold fcntl Passes Process.original
  dsimp only
  by_cases hfd : -1 ≤ fd
  · rw [get_false hfd]
    dsimp only
    cases hentry : entry p.datas fd with
    | none => simp [managed, hentry, hfd]
    | some ctx =>
      cases hmanaged : ctx.managed with
      | false => simp [managed, hentry, hfd, hmanaged]
      | true =>
        have hpass : (∀ ctx', managed p fd ctx' → ctx'.userNonblock = match p.world.files fd with
            | none => true
            | some f => nonblock f.flags) ↔ ctx.userNonblock = match p.world.files fd with
            | none => true
            | some f => nonblock f.flags := by
          simp [managed, hentry, hmanaged]
        rw [hpass]
        simp only [hmanaged, if_true, Result.returns.injEq, true_and, hfd, original]
        cases hf : p.world.files fd with
        | none => exact toInt_withNonblock_iff (x := -1)
        | some f =>
          dsimp only
          rw [BitVec.ofInt_toInt]
          exact toInt_withNonblock_iff
  · rw [get_before (by omega)]
    exact ⟨fun h => absurd h (fault_ne (.fcntl fd .getfl)), fun h => absurd h.1 hfd⟩

theorem other_iff (cmd : Int) (arg : UInt64) : (∀ junk, fcntl os junk p fd (.other cmd arg) =
    p.original os (.fcntl fd (.other cmd arg))) ↔ Passes os p (.fcntl fd (.other cmd arg)) := by
  constructor
  · intro hall a b
    have hsame := (hall a).trans (hall b).symm
    simp only [fcntl, Process.original, Result.returns.injEq] at hsame
    exact Prod.ext (congrArg Process.world hsame.1) hsame.2
  · intro hpass junk
    have hcall :
        original os (.fcntl fd (.other cmd junk)) p.world = original os (.fcntl fd (.other cmd arg)) p.world :=
      hpass junk arg
    simp only [fcntl, Process.original, hcall]

theorem ioctl_iff (request : UInt64) (arg : Addr) :
    ioctl os p fd request arg = p.original os (.ioctl fd request arg) ↔
      Passes os p (.ioctl fd request arg) := by
  unfold ioctl Passes
  by_cases hrequest : request = fionbio
  · rw [if_pos hrequest]
    simp only [hrequest, true_implies]
    cases hv : p.world.ints arg with
    | none =>
      refine ⟨fun h => absurd h (fault_ne _), ?_⟩
      rintro ⟨-, v, hv', -⟩
      cases hv'
    | some v =>
      simp only [Option.some.injEq, exists_eq_left']
      by_cases hfd : -1 ≤ fd
      · rw [get_false hfd]
        cases hentry : entry p.datas fd with
        | none => simp [managed, hentry, hfd]
        | some ctx =>
          cases hmanaged : ctx.managed with
          | false => simp [managed, hentry, hfd, hmanaged]
          | true =>
            simp only [hmanaged, if_true, original_put_iff hentry, user_same_iff, and_true]
            simp [managed, hentry, hfd, hmanaged]
      · rw [get_before (by omega)]
        exact ⟨fun h => absurd h (fault_ne _), fun h => absurd h.1 hfd⟩
  · rw [if_neg hrequest]
    exact ⟨fun _ h => absurd h hrequest, fun _ => rfl⟩

/-! ## All calls -/

/-- A function that, when the hooks are off, does not look at the thread. -/
theorem transparent_fixed {r : UInt64 → Result ρ}
    (hr : ∀ thread : Thread, thread.hookEnable = false → ∀ junk fuel,
      hooked os thread junk fuel p c = some (r junk)) :
    Transparent os p c ↔ ∀ junk, r junk = p.original os c := by
  constructor
  · intro htransparent junk
    obtain ⟨fuel, hcall⟩ := htransparent ⟨false, 0, none⟩ rfl junk
    exact Option.some.inj ((hr _ rfl junk fuel).symm.trans hcall)
  · intro hsame thread h junk
    exact ⟨0, (hr thread h junk 0).trans (congrArg some (hsame junk))⟩

/-- One that calls the original function then. -/
theorem transparent_off (hr : ∀ thread : Thread, thread.hookEnable = false → ∀ junk fuel,
    hooked os thread junk fuel p c = some (p.original os c)) : Transparent os p c :=
  (transparent_fixed (r := fun _ => p.original os c) hr).2 fun _ => rfl

theorem nanosleep_not_transparent (p : Process ρ) (req rem : Addr) :
    ¬ Transparent os p (.nanosleep req rem) := by
  intro htransparent
  obtain ⟨fuel, hcall⟩ := htransparent ⟨false, 0, none⟩ rfl 0
  rw [hooked, nanosleep_off rfl] at hcall
  cases hcall

/-- On a thread without hooks a call passes through to the original function
exactly under these conditions, for every kernel, every call and every table
that other threads have left. -/
theorem transparent_iff (os : Os ρ) (p : Process ρ) (c : Call) : Transparent os p c ↔ Passes os p c := by
  cases c with
  -- without hooks `nanosleep` calls itself
  | nanosleep req rem => exact iff_of_false (nanosleep_not_transparent p req rem) id
  | accept s addr addrlen =>
    constructor
    · intro htransparent
      obtain ⟨fuel, hcall⟩ := htransparent ⟨false, 0, none⟩ rfl 0
      exact (accept_off rfl fuel s addr addrlen).1 hcall
    · intro hpass thread h _
      exact ⟨0, (accept_off h 0 s addr addrlen).2 hpass⟩
  | fcntl fd cmd =>
    cases cmd with
    | setfl arg =>
      refine (transparent_fixed (r := fun junk => fcntl os junk p fd (.setfl arg)) fun _ _ _ _ => rfl).trans ?_
      exact ⟨fun h => (setfl_iff 0 arg).1 (h 0), fun h junk => (setfl_iff junk arg).2 h⟩
    | getfl =>
      refine (transparent_fixed (r := fun junk => fcntl os junk p fd .getfl) fun _ _ _ _ => rfl).trans ?_
      exact ⟨fun h => (getfl_iff 0).1 (h 0), fun h junk => (getfl_iff junk).2 h⟩
    | other cmd arg =>
      refine (transparent_fixed
        (r := fun junk => fcntl os junk p fd (.other cmd arg)) fun _ _ _ _ => rfl).trans ?_
      exact other_iff cmd arg
    | int | get | lock | owner => exact iff_of_true (transparent_off fun _ _ _ _ => rfl) trivial
  | ioctl fd request arg =>
    refine (transparent_fixed (r := fun _ => ioctl os p fd request arg) fun _ _ _ _ => rfl).trans ?_
    exact ⟨fun h => (ioctl_iff request arg).1 (h 0), fun h _ => (ioctl_iff request arg).2 h⟩
  | getsockopt => exact iff_of_true (transparent_off fun _ _ _ _ => rfl) trivial
  -- these look at `t_hook_enable` first
  | sleep | usleep | socket | connect | close | setsockopt =>
    refine iff_of_true (transparent_off ?_) trivial
    intro thread h _ _
    exact congrArg some (if_pos h)
  | read | readv | recv | recvfrom | recvmsg | write | writev | send | sendto | sendmsg =>
    refine iff_of_true (transparent_off ?_) trivial
    intro thread h _ fuel
    exact doIo_off h fuel _ _ _

/-- A thread with hooks opens a socket. On a thread without them `F_GETFL` then
hides `O_NONBLOCK`, which the socket has, and `nanosleep` does not return. -/
theorem not_transparent_socket : ∃ p,
    hooked oneSocket ⟨true, 1, some 1⟩ 0 0 fresh (.socket 2 1 0) = some (.returns p 3) ∧
    ¬ Transparent oneSocket p (.fcntl 3 .getfl) ∧ ¬ Transparent oneSocket p (.nanosleep 0 8) := by
  obtain ⟨p, htracked, hcall⟩ := socket_tracked
  refine ⟨p, hcall, ?_, nanosleep_not_transparent p 0 8⟩
  intro htransparent
  obtain ⟨fuel, hgetfl⟩ := htransparent ⟨false, 0, none⟩ rfl 0
  obtain ⟨f, hf, hkernel⟩ := htracked.socket.file
  obtain ⟨p', flags, hhook, huser⟩ := htracked.socket.getfl oneSocket 0
  simp only [hooked, hhook, original, hf, Option.some.injEq, Result.returns.injEq] at hgetfl
  rw [hgetfl.2, BitVec.ofInt_toInt, hkernel] at huser
  cases huser

end Linko.Hook
